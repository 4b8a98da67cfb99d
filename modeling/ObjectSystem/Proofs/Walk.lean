/-
# Walks through the hierarchy

In an ordered world both walks from a registered class reach every class above it and come to
an end. A walk without memory meets a class once for every way to it; `World.climb` lists
what it meets. The walk that passes by what it has met lists the same classes without the
repetitions, and a search cannot tell the two lists apart: a class at which its test found
nothing the first time does not stop it later.

What bounds the walks is the rank of a class, the number of classes above it. It goes down
along every link, and never exceeds the number of live objects.
-/

import ObjectSystem.Proofs.Hierarchy

namespace ObjectSystem

open Relation

section Search

variable {α β : Type} {test : α → Except Error (Option β)} {l l' : List α}

theorem findSomeM?_append (l l' : List α) (test : α → Except Error (Option β)) :
    (l ++ l').findSomeM? test =
      match l.findSomeM? test with
      | .ok none => l'.findSomeM? test
      | found => found := by
  induction l with
  | nil => rfl
  | cons a l ih =>
      rw [List.cons_append, List.findSomeM?_cons, List.findSomeM?_cons]
      cases test a with
      | error e => rfl
      | ok found =>
          cases found with
          | some b => rfl
          | none => exact ih

/-- Searching one list after another is searching all of them. -/
theorem findSomeM?_flatMap {γ : Type} (l : List γ) (f : γ → List α)
    (test : α → Except Error (Option β)) :
    (l.flatMap f).findSomeM? test = l.findSomeM? fun c => (f c).findSomeM? test := by
  induction l with
  | nil => rfl
  | cons c l ih =>
      rw [List.flatMap_cons, findSomeM?_append, List.findSomeM?_cons, ih]
      cases (f c).findSomeM? test with
      | error e => rfl
      | ok found => cases found <;> rfl

/-- A search passes by what it finds nothing at. -/
theorem eq_none_of_findSomeM? (hnone : l.findSomeM? test = .ok none) {a : α} (ha : a ∈ l) :
    test a = .ok none := by
  induction l with
  | nil => cases ha
  | cons b l ih =>
      rw [List.findSomeM?_cons] at hnone
      cases hb : test b with
      | error e =>
          rw [hb] at hnone
          cases hnone
      | ok found =>
          rw [hb] at hnone
          cases found with
          | some c => cases hnone
          | none =>
              rcases List.mem_cons.1 ha with rfl | ha
              · exact hb
              · exact ih hnone ha

/-- A search may pass by what it has met before. -/
theorem findSomeM?_append_cons_of_mem {a : α} (ha : a ∈ l) :
    (l ++ a :: l').findSomeM? test = (l ++ l').findSomeM? test := by
  rw [findSomeM?_append, findSomeM?_append]
  cases hl : l.findSomeM? test with
  | error e => rfl
  | ok found =>
      cases found with
      | some b => rfl
      | none =>
          simp only
          rw [List.findSomeM?_cons, eq_none_of_findSomeM? hl ha]
          rfl

theorem findSomeM?_congr {test' : α → Except Error (Option β)}
    (htest : ∀ a ∈ l, test a = test' a) : l.findSomeM? test = l.findSomeM? test' := by
  induction l with
  | nil => rfl
  | cons a l ih =>
      rw [List.findSomeM?_cons, List.findSomeM?_cons, htest a List.mem_cons_self,
        ih fun b hb => htest b (List.mem_cons_of_mem _ hb)]

/-- What ends a search comes from the test of some member. -/
theorem exists_of_findSomeM? {result : Except Error (Option β)}
    (hresult : l.findSomeM? test = result) (hends : result ≠ .ok none) :
    ∃ a ∈ l, test a = result := by
  induction l with
  | nil => exact absurd hresult.symm hends
  | cons a l ih =>
      rw [List.findSomeM?_cons] at hresult
      cases ha : test a with
      | error e =>
          rw [ha] at hresult
          exact ⟨a, List.mem_cons_self, ha.trans hresult⟩
      | ok found =>
          rw [ha] at hresult
          cases found with
          | some b => exact ⟨a, List.mem_cons_self, ha.trans hresult⟩
          | none =>
              obtain ⟨a', ha', htest⟩ := ih hresult
              exact ⟨a', List.mem_cons_of_mem _ ha', htest⟩

/-- A search whose test never fails does not fail, and what it finds the test found. -/
theorem exists_findSomeM?_eq_ok (htest : ∀ a ∈ l, ∃ found, test a = .ok found) :
    ∃ found, l.findSomeM? test = .ok found ∧
      ∀ b, found = some b → ∃ a ∈ l, test a = .ok (some b) := by
  cases hfound : l.findSomeM? test with
  | error e =>
      obtain ⟨a, ha, herror⟩ := exists_of_findSomeM? hfound nofun
      obtain ⟨found, hok⟩ := htest a ha
      cases herror.symm.trans hok
  | ok found =>
      refine ⟨found, rfl, fun b hb => ?_⟩
      subst hb
      exact exists_of_findSomeM? hfound nofun

end Search

section Visit

variable {α β : Type} [DecidableEq α] {met l l' : List α} {a : α}

/-- Note what a walk meets, each member once, the last one in front. -/
def visit (met l : List α) : List α :=
  l.foldl (fun met a => met.insert a) met

@[simp]
theorem visit_nil (met : List α) : visit met [] = met := rfl

theorem visit_append (met l l' : List α) : visit met (l ++ l') = visit (visit met l) l' :=
  List.foldl_append

theorem visit_cons_of_mem (ha : a ∈ met) (l : List α) : visit met (a :: l) = visit met l := by
  rw [visit, List.foldl_cons, List.insert_of_mem ha, visit]

theorem visit_cons_of_not_mem (ha : a ∉ met) (l : List α) :
    visit met (a :: l) = visit (a :: met) l := by
  rw [visit, List.foldl_cons, List.insert_of_not_mem ha, visit]

theorem mem_visit_iff : a ∈ visit met l ↔ a ∈ met ∨ a ∈ l := by
  induction l generalizing met with
  | nil => simp
  | cons b l ih =>
      rw [visit, List.foldl_cons, ← visit, ih, List.mem_insert_iff, List.mem_cons]
      tauto

/-- Nothing is noted about what has been met. -/
theorem visit_of_subset (hl : ∀ a ∈ l, a ∈ met) : visit met l = met := by
  induction l with
  | nil => rfl
  | cons b l ih =>
      rw [visit_cons_of_mem (hl b List.mem_cons_self)]
      exact ih fun a ha => hl a (List.mem_cons_of_mem _ ha)

/-- A search finds the same among what is noted as among what is met. -/
theorem findSomeM?_visit (met l : List α) (test : α → Except Error (Option β)) :
    (visit met l).reverse.findSomeM? test = (met.reverse ++ l).findSomeM? test := by
  induction l generalizing met with
  | nil => rw [visit_nil, List.append_nil]
  | cons a l ih =>
      by_cases ha : a ∈ met
      · rw [visit_cons_of_mem ha, ih, findSomeM?_append_cons_of_mem (List.mem_reverse.2 ha)]
      · rw [visit_cons_of_not_mem ha, ih, List.reverse_cons, List.append_assoc,
          List.singleton_append]

end Visit

namespace World

variable {w : World} {c s t : Handle} {n fuel : Nat} {met : List Handle}

/-- A walk depends on the superclasses and on the test. -/
theorem search_congr {α : Type} {w' : World} {test test' : Handle → Except Error (Option α)}
    (hsupers : ∀ c, w'.superclasses c = w.superclasses c) (htest : ∀ c, test' c = test c)
    (fuel : Nat) (c : Handle) : w'.search test' fuel c = w.search test fuel c := by
  induction fuel generalizing c with
  | zero => rfl
  | succ fuel ih =>
      have hrest : w'.search test' fuel = w.search test fuel := funext ih
      rw [search, search, hrest, htest, hsupers]

section SameObjects

/-! Names of symbols and what else a world knows do not matter to classes. -/

variable {w' : World} (hobjects : w'.objects = w.objects)

include hobjects

theorem classNameWithin_congr (fuel : Nat) (x : Handle) :
    w'.classNameWithin fuel x = w.classNameWithin fuel x := by
  induction fuel generalizing x with
  | zero => rfl
  | succ fuel ih =>
      rw [classNameWithin, classNameWithin, classOf, classOf, object, object, hobjects]
      simp only [object, hobjects, ih]

theorem mismatch_congr (expected : String) (x : Handle) :
    w'.mismatch expected x = w.mismatch expected x := by
  unfold mismatch className walkLimit population
  rw [classNameWithin_congr hobjects, hobjects]

theorem descriptor_congr (c : Handle) : w'.descriptor c = w.descriptor c := by
  unfold descriptor object
  rw [hobjects, mismatch_congr hobjects]

theorem superclasses_congr (c : Handle) : w'.superclasses c = w.superclasses c := by
  unfold superclasses
  rw [descriptor_congr hobjects]

theorem classAttr_congr (c : Handle) (s : Symbol) : w'.classAttr c s = w.classAttr c s := by
  unfold classAttr
  rw [descriptor_congr hobjects]

theorem signatures_congr (m : Handle) : w'.signatures m = w.signatures m := by
  unfold signatures object
  rw [hobjects, mismatch_congr hobjects]

theorem frame_congr (env : Handle) : w'.frame env = w.frame env := by
  unfold frame object
  rw [hobjects, mismatch_congr hobjects]

end SameObjects

theorem ancestorsFrom_congr {w' : World} (hsupers : ∀ c, w'.superclasses c = w.superclasses c)
    (met pending : List Handle) : w'.ancestorsFrom met pending = w.ancestorsFrom met pending := by
  fun_induction w.ancestorsFrom met pending with
  | case1 met => rw [ancestorsFrom]
  | case2 met c pending hmet ih => rw [ancestorsFrom, dif_pos hmet, ih]
  | case3 met c pending hmet e he =>
      rw [ancestorsFrom, dif_neg hmet]
      split
      · next e' he' =>
          cases he.symm.trans ((hsupers c).symm.trans he')
          rfl
      · next supers hc => cases he.symm.trans ((hsupers c).symm.trans hc)
  | case4 met c pending hmet supers hc ih =>
      rw [ancestorsFrom, dif_neg hmet]
      split
      · next e he => cases hc.symm.trans ((hsupers c).symm.trans he)
      · next supers' hc' =>
          cases hc.symm.trans ((hsupers c).symm.trans hc')
          exact ih

section Rank

open Classical in
/-- The number of registered classes above a class. -/
noncomputable def rank (w : World) (c : Handle) : Nat :=
  w.classes.toList.countP fun t => decide (TransGen w.Above c t)

/-- Superclasses have a lower rank. -/
theorem Ordered.rank_lt (hordered : w.Ordered) (hc : c ∈ w.classes) (hs : w.Above c s) :
    w.rank s < w.rank c := by
  classical
  have hmem := hordered.above_mem hc hs
  refine countP_lt_countP (x := s) (fun t ht => ?_) (Array.mem_toList_iff.2 hmem) ?_ ?_
  · rw [decide_eq_true_iff] at ht ⊢
    exact .head hs ht
  · rw [decide_eq_true_iff]
    exact .single hs
  · rw [decide_eq_false_iff_not]
    exact hordered.acyclic s hmem

/-- A path of links is shorter than any walk may be. -/
theorem Ordered.rank_lt_walkLimit (hordered : w.Ordered) (c : Handle) :
    w.rank c < w.walkLimit := by
  have hlive : ∀ c ∈ w.classes.toList, c ∈ w.objects.handles := by
    intro c hc
    obtain ⟨d, ⟨o, ho, _⟩, _⟩ := hordered.described c (Array.mem_toList_iff.1 hc)
    exact Arena.mem_handles_of_get? ho
  have hlength := (hordered.nodup.subperm hlive).length_le
  rw [hordered.counted.length_handles] at hlength
  exact Nat.lt_succ_of_le (List.countP_le_length.trans hlength)

end Rank

/-- The direct superclasses of a class, none if it is no class. -/
def supersOf (w : World) (c : Handle) : List Handle :=
  match w.superclasses c with
  | .ok l => l
  | .error _ => []

/-- What a walk without memory meets from a class upwards, from left to right. -/
def climb (w : World) : (fuel : Nat) → Handle → List Handle
  | 0, _ => []
  | fuel + 1, c => c :: (w.supersOf c).flatMap (w.climb fuel)

theorem Ordered.superclasses_eq (hordered : w.Ordered) (hc : c ∈ w.classes) :
    w.superclasses c = .ok (w.supersOf c) := by
  obtain ⟨d, hd⟩ := hordered.described c hc
  rw [supersOf, hd.describes.superclasses_eq]

theorem Ordered.mem_supersOf_iff (hordered : w.Ordered) (hc : c ∈ w.classes) :
    s ∈ w.supersOf c ↔ w.Above c s := by
  constructor
  · exact fun hs => ⟨_, hordered.superclasses_eq hc, hs⟩
  · rintro ⟨l, hl, hs⟩
    cases (hordered.superclasses_eq hc).symm.trans hl
    exact hs

/-- A walk with enough steps meets all that lies above. -/
theorem Ordered.mem_climb_iff (hordered : w.Ordered) (hc : c ∈ w.classes)
    (hfuel : w.rank c < fuel) : t ∈ w.climb fuel c ↔ ReflTransGen w.Above c t := by
  induction fuel generalizing c with
  | zero => omega
  | succ fuel ih =>
      rw [climb, List.mem_cons, List.mem_flatMap, ReflTransGen.cases_head_iff]
      refine or_congr eq_comm (exists_congr fun s => ?_)
      rw [hordered.mem_supersOf_iff hc]
      refine and_congr_right fun hs => ih (hordered.above_mem hc hs) ?_
      have := hordered.rank_lt hc hs
      omega

/-- A search is a search along what a walk without memory meets. -/
theorem Ordered.search_eq_climb {α : Type} (hordered : w.Ordered) (hc : c ∈ w.classes)
    (hfuel : w.rank c < fuel) (test : Handle → Except Error (Option α)) :
    w.search test fuel c = (w.climb fuel c).findSomeM? test := by
  induction fuel generalizing c with
  | zero => omega
  | succ fuel ih =>
      have hsupers : (w.supersOf c).findSomeM? (w.search test fuel) =
          ((w.supersOf c).flatMap (w.climb fuel)).findSomeM? test := by
        rw [findSomeM?_flatMap]
        refine findSomeM?_congr fun s hs => ?_
        rw [hordered.mem_supersOf_iff hc] at hs
        have := hordered.rank_lt hc hs
        exact ih (hordered.above_mem hc hs) (by omega)
      rw [search, climb, List.findSomeM?_cons]
      cases test c with
      | error e => rfl
      | ok found =>
          cases found with
          | some a => rfl
          | none =>
              rw [← hsupers, hordered.superclasses_eq hc]
              rfl

/-- What has been met of a low rank has been met with all its superclasses. -/
def Complete (w : World) (n : Nat) (met : List Handle) : Prop :=
  ∀ c ∈ met, w.rank c < n → ∀ s, w.Above c s → s ∈ met

/-- If a class has been met with all its superclasses, so have the classes above it. -/
theorem Complete.climb_subset (hcomplete : w.Complete n met) (hordered : w.Ordered)
    (hc : c ∈ w.classes) (hmet : c ∈ met) (hn : w.rank c < n) (hfuel : w.rank c < fuel) :
    ∀ t ∈ w.climb fuel c, t ∈ met := by
  intro t ht
  have hstep : ∀ a b, (a ∈ w.classes ∧ a ∈ met ∧ w.rank a < n) → w.Above a b →
      (b ∈ w.classes ∧ b ∈ met ∧ w.rank b < n) ∧ w.Above a b := by
    rintro a b ⟨ha, hmet, hn⟩ hab
    exact ⟨⟨hordered.above_mem ha hab, hcomplete a hmet hn b hab,
      (hordered.rank_lt ha hab).trans hn⟩, hab⟩
  exact (reflTransGen_within hstep ⟨hc, hmet, hn⟩ ((hordered.mem_climb_iff hc hfuel).1 ht)).1.2.1

/-- Nothing is left out by noting all that a walk meets. -/
theorem Complete.visit (hcomplete : w.Complete n met) (hordered : w.Ordered) {l : List Handle}
    (hl : ∀ c ∈ l, c ∈ w.classes ∧ w.rank c < fuel) :
    w.Complete n (visit met (l.flatMap (w.climb fuel))) := by
  intro a ha hn s hs
  rw [mem_visit_iff, List.mem_flatMap] at ha ⊢
  rcases ha with ha | ⟨c, hc, ha⟩
  · exact Or.inl (hcomplete a ha hn s hs)
  · obtain ⟨hclass, hfuel⟩ := hl c hc
    rw [hordered.mem_climb_iff hclass hfuel] at ha
    exact Or.inr ⟨c, hc, (hordered.mem_climb_iff hclass hfuel).2 (ha.tail hs)⟩

/-- The walk that passes by what it has met notes what the walk without memory meets. -/
theorem Ordered.ancestorsFrom_append (hordered : w.Ordered) {l : List Handle}
    (hfuel : n ≤ fuel) (hl : ∀ c ∈ l, c ∈ w.classes ∧ w.rank c < n)
    (hcomplete : w.Complete n met) (pending : List Handle) :
    w.ancestorsFrom met (l ++ pending) =
      w.ancestorsFrom (ObjectSystem.visit met (l.flatMap (w.climb fuel))) pending := by
  -- The outer induction is for going up, the inner one for going along the list.
  induction n using Nat.strong_induction_on generalizing fuel l met pending with
  | _ n ihUp =>
      induction l generalizing met with
      | nil => rfl
      | cons c l ihAlong =>
          obtain ⟨hc, hn⟩ := hl c List.mem_cons_self
          have hrest : ∀ c ∈ l, c ∈ w.classes ∧ w.rank c < n :=
            fun c hc => hl c (List.mem_cons_of_mem _ hc)
          have hcomplete' : w.Complete n (ObjectSystem.visit met (w.climb fuel c)) := by
            have hfirst : ∀ a ∈ [c], a ∈ w.classes ∧ w.rank a < fuel := by
              rintro a (_ | ⟨_, ⟨⟩⟩)
              exact ⟨hc, by omega⟩
            simpa using hcomplete.visit hordered hfirst
          rw [List.flatMap_cons, visit_append, ← ihAlong hrest hcomplete', List.cons_append,
            ancestorsFrom]
          by_cases hmet : c ∈ met
          · rw [dif_pos (List.contains_iff_mem.2 hmet), visit_of_subset
              (hcomplete.climb_subset hordered hc hmet hn (by omega))]
          · rw [dif_neg fun h => hmet (List.contains_iff_mem.1 h)]
            cases fuel with
            | zero => omega
            | succ fuel =>
                rw [climb, visit_cons_of_not_mem hmet]
                split
                · next hsupers => cases (hordered.superclasses_eq hc).symm.trans hsupers
                · next hsupers =>
                    cases (hordered.superclasses_eq hc).symm.trans hsupers
                    refine ihUp (w.rank c) hn (by omega) (fun s hs => ?_) (fun a ha hlow s hs => ?_)
                      (l ++ pending)
                    · rw [hordered.mem_supersOf_iff hc] at hs
                      exact ⟨hordered.above_mem hc hs, hordered.rank_lt hc hs⟩
                    · rcases List.mem_cons.1 ha with rfl | ha
                      · exact absurd hlow (Nat.lt_irrefl _)
                      · exact List.mem_cons_of_mem _ (hcomplete a ha (hlow.trans hn) s hs)

/-- The ancestors of a class are what a walk without memory meets, less repetitions. -/
theorem Ordered.ancestors_eq (hordered : w.Ordered) (hc : c ∈ w.classes) :
    w.ancestors c = .ok (ObjectSystem.visit [] (w.climb w.walkLimit c)).reverse := by
  have hfirst : ∀ a ∈ [c], a ∈ w.classes ∧ w.rank a < w.walkLimit := by
    rintro a (_ | ⟨_, ⟨⟩⟩)
    exact ⟨hc, hordered.rank_lt_walkLimit c⟩
  have hnone : w.Complete w.walkLimit [] := by simp [Complete]
  have hwalk := hordered.ancestorsFrom_append (Nat.le_refl w.walkLimit) hfirst hnone []
  rw [List.append_nil, List.flatMap_singleton] at hwalk
  rw [ancestors, hwalk, ancestorsFrom]

/-- A search is a search along the ancestors. -/
theorem Ordered.search_eq_findSomeM? {α : Type} (hordered : w.Ordered) (hc : c ∈ w.classes)
    {l : List Handle} (hl : w.ancestors c = .ok l) (test : Handle → Except Error (Option α)) :
    w.search test w.walkLimit c = l.findSomeM? test := by
  cases (hordered.ancestors_eq hc).symm.trans hl
  rw [hordered.search_eq_climb hc (hordered.rank_lt_walkLimit c), findSomeM?_visit,
    List.reverse_nil, List.nil_append]

/-- The subtype test tells whether one class lies above another. -/
theorem Ordered.isAssignableClass_eq (hordered : w.Ordered) (hc : c ∈ w.classes) (t : Handle) :
    ∃ below, w.isAssignableClass c t = .ok below ∧
      (below = true ↔ ReflTransGen w.Above c t) := by
  rw [isAssignableClass, hordered.search_eq_climb hc (hordered.rank_lt_walkLimit c)]
  rw [show (fun d => .ok (if d = t then some () else none) : Handle → Except Error (Option Unit)) =
    fun d => pure (if d = t then some () else none) from rfl, List.findSomeM?_pure]
  refine ⟨_, rfl, ?_⟩
  rw [List.isSome_findSome?, ← hordered.mem_climb_iff hc (hordered.rank_lt_walkLimit c),
    List.any_eq_true]
  constructor
  · rintro ⟨d, hd, hfound⟩
    split at hfound
    · next heq => exact heq ▸ hd
    · cases hfound
  · exact fun ht => ⟨t, ht, by rw [if_pos rfl]; rfl⟩

end World

end ObjectSystem

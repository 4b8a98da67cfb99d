/-
# Questions about classes

To find an attribute, or to see what an object may stand for, one asks its class, and then the
superclasses. To tell that something else was expected one asks for the name of a class, and if what
stands in its place is no class, for the name of that one's class. Operations keep circles out of
neither: an object may be handed over that is its own class, or a descriptor that names itself as a
superclass. Then such a question comes to no end.

This is the only way for it not to end: without a circle that can be reached from the class of an
object, what is asked about the object is answered. Where only registered classes are used as
classes there is no circle.
-/

import ObjectSystem.Proofs.Following
import ObjectSystem.Proofs.Population
import ObjectSystem.Proofs.Shape

namespace ObjectSystem

open Relation

/-- The result is not that a walk came to no end. -/
def Straight {α : Type} (result : Except Error α) : Prop :=
  result ≠ .error .endlessWalk

theorem straight_bind {α β : Type} {m : Except Error α} {f : α → Except Error β}
    (hm : Straight m) (hf : ∀ a, m = .ok a → Straight (f a)) : Straight (m >>= f) := by
  cases m with
  | ok a => exact hf a rfl
  | error e =>
      rintro ⟨⟩
      exact hm rfl

theorem straight_findSomeM? {α β : Type} {l : List α} {test : α → Except Error (Option β)}
    (htest : ∀ a ∈ l, Straight (test a)) : Straight (l.findSomeM? test) := by
  induction l with
  | nil => exact nofun
  | cons a l ih =>
      rw [List.findSomeM?_cons]
      refine straight_bind (htest a List.mem_cons_self) fun found _ => ?_
      cases found with
      | some b => exact nofun
      | none => exact ih fun b hb => htest b (List.mem_cons_of_mem a hb)

theorem straight_entry (found : Option (Option Handle)) (index length : Nat) :
    Straight (Slot.readIn.entry found index length) := by
  cases found <;> exact nofun

namespace World

variable {settings : Settings} {w : World} {x c s : Handle} {name : Symbol}

theorem straight_object (w : World) (x : Handle) : Straight (w.object x) := by
  unfold object
  split <;> exact nofun

theorem straight_classOf (w : World) (x : Handle) : Straight (w.classOf x) :=
  straight_bind (w.straight_object x) fun _ _ => nofun

theorem live_of_classOf (hc : w.classOf x = .ok c) : w.objects.Live x := by
  cases hx : w.objects.get? x with
  | some o => exact ⟨o, hx⟩
  | none =>
      rw [classOf, object_eq_error hx] at hc
      cases hc

/-! ## Counting what can be met -/

/-- There are never more filled cells than there are objects by the count. -/
theorem Reachable.covered (hreachable : Reachable settings w) : w.objects.Covered :=
  (hreachable.along steps_spends).turns.covered Arena.counted_empty.covered

theorem Reachable.length_le_population (hreachable : Reachable settings w) {l : List Handle}
    (hnodup : l.Nodup) (hlive : ∀ x ∈ l, w.objects.Live x) : l.length ≤ w.population :=
  (Arena.length_le_occupied ((hreachable.along steps_spends).addressed Arena.addressed_empty)
    hnodup hlive).trans hreachable.covered.occupied_le

/-- Links from one live object to the next end, after as many as there are objects at most, or come
back. -/
theorem Reachable.ends_or_winds (hreachable : Reachable settings w)
    {next : Handle → Option Handle} (hlive : ∀ x y, next x = some y → w.objects.Live x)
    (start : Handle) :
    (∃ n ≤ w.population, ∃ last, Ends next start n last) ∨ Winds next start := by
  refine ObjectSystem.ends_or_winds (fun l hnodup hl => ?_) start
  refine hreachable.length_le_population hnodup fun x hx => ?_
  obtain ⟨y, hy⟩ := Option.isSome_iff_exists.1 (hl x hx)
  exact hlive x y hy

/-! ## Names -/

/-- What is asked for a name in place of an object: its class, if that is no descriptor. -/
def referral (w : World) (x : Handle) : Option Handle :=
  match w.classOf x with
  | .error _ => none
  | .ok c =>
      match Object.payload <$> w.object c with
      | .error _ => none
      | .ok (.descriptor _) => none
      | .ok _ => some c

theorem classOf_of_referral (hc : w.referral x = some c) : w.classOf x = .ok c := by
  unfold referral at hc
  split at hc
  · cases hc
  · next hclass =>
      split at hc <;> cases hc
      exact hclass

theorem classNameWithin_of_referral (hc : w.referral x = some c) (n : Nat) :
    w.classNameWithin (n + 1) x = (w.classNameWithin n c).map fun _ => noClassName := by
  unfold referral at hc
  rw [classNameWithin]
  split at hc
  · cases hc
  · next hclass =>
      split at hc <;> cases hc
      next hpayload =>
      simp only [hclass, hpayload]

theorem exists_className (hstops : w.referral x = none) :
    ∃ name, ∀ n, w.classNameWithin (n + 1) x = some name := by
  unfold referral at hstops
  split at hstops
  · next hclass => exact ⟨noClassName, fun n => by rw [classNameWithin, hclass]⟩
  · next hclass =>
      split at hstops
      · next hpayload =>
          exact ⟨noClassName, fun n => by simp only [classNameWithin, hclass, hpayload]⟩
      · next d hpayload =>
          exact ⟨d.name, fun n => by simp only [classNameWithin, hclass, hpayload]⟩
      · cases hstops

/-- Asking for a name walks from class to class, and has nothing to tell if it took a step. -/
theorem isWalk_className (w : World) :
    IsWalk w.referral (fun _ _ => noClassName) fun fuel x =>
      (w.classNameWithin fuel x).elim (.error .endlessWalk) .ok where
  cut _ _ _ := rfl
  pass x c n hc := by
    rw [classNameWithin_of_referral hc]
    cases w.classNameWithin n c <;> rfl
  stop x n hstops := by
    obtain ⟨name, hname⟩ := exists_className hstops
    rw [hname n, hname 0]

/-- A name is told unless the classes lead round. -/
theorem Reachable.className_eq_none_iff (hreachable : Reachable settings w) (x : Handle) :
    w.className x = none ↔ Winds w.referral x := by
  have hgoes := w.isWalk_className.goes
    (hreachable.ends_or_winds (fun _ _ hc => live_of_classOf (classOf_of_referral hc)) x)
    fun last hstops (hwalk : _ = _) => show False by
      obtain ⟨name, hname⟩ := exists_className hstops
      rw [hname 0] at hwalk
      cases hwalk
  rw [← hgoes.endless_iff (Nat.lt_succ_self _) fun _ => not_false]
  unfold className walkLimit
  cases w.classNameWithin (w.population + 1) x with
  | none => exact iff_of_true rfl rfl
  | some name => exact iff_of_false nofun nofun

/-! ## Circles -/

/-- What may have to be asked after a class: a superclass, or, for a name, what stands in the place
of its class. -/
def Consults (w : World) (c d : Handle) : Prop :=
  w.referral c = some d ∨ w.Above c d

/-- From the class of an object one can be sent round in a circle. -/
def Tangled (w : World) (x : Handle) : Prop :=
  ∃ c d, w.classOf x = .ok c ∧ ReflTransGen w.Consults c d ∧ TransGen w.Consults d d

/-- From a class one is not sent round in a circle. -/
def Grounded (w : World) (c : Handle) : Prop :=
  ∀ d, ReflTransGen w.Consults c d → ¬ TransGen w.Consults d d

theorem Grounded.consults (hgrounded : w.Grounded c) (hs : w.Consults c s) : w.Grounded s :=
  fun d hd => hgrounded d (.head hs hd)

theorem Grounded.not_winds (hgrounded : w.Grounded c) : ¬ Winds w.referral c := by
  intro hwinds
  obtain ⟨d, hd, hcircle⟩ := hwinds.exists_circle
  have hle : ∀ a b, w.referral a = some b → w.Consults a b := fun _ _ => Or.inl
  exact hgrounded d (ReflTransGen.mono hle _ _ hd) (TransGen.mono hle _ _ hcircle)

theorem grounded_of_not_tangled (htangled : ¬ w.Tangled x) (hc : w.classOf x = .ok c) :
    w.Grounded c :=
  fun d hd hcircle => htangled ⟨c, d, hc, hd, hcircle⟩

theorem not_winds_of_not_tangled (htangled : ¬ w.Tangled x) : ¬ Winds w.referral x := by
  intro hwinds
  obtain ⟨c, hc⟩ := hwinds.exists_follow 1
  have hnext : w.referral x = some c := (follow_succ rfl).symm.trans hc
  exact (grounded_of_not_tangled htangled (classOf_of_referral hnext)).not_winds (hwinds.tail hnext)

/-! ## Answers -/

theorem telling_ne_endlessWalk {name : Option String} {error : String → Error} (hname : name ≠ none)
    (herror : ∀ name, error name ≠ .endlessWalk) : telling name error ≠ .endlessWalk := by
  cases name with
  | none => exact absurd rfl hname
  | some name => exact herror name

/-- What a walk upwards finds it finds at a class that it was led to. -/
theorem exists_of_search {α : Type} {test : Handle → Except Error (Option α)} {fuel : Nat} {a : α}
    (hfound : w.search test fuel c = .ok (some a)) :
    ∃ d, ReflTransGen w.Consults c d ∧ test d = .ok (some a) := by
  induction fuel generalizing c with
  | zero => cases hfound
  | succ fuel ih =>
      rw [search] at hfound
      cases hc : test c with
      | error e =>
          rw [hc] at hfound
          cases hfound
      | ok found =>
          rw [hc] at hfound
          cases found with
          | some a' =>
              cases hfound
              exact ⟨c, .refl, hc⟩
          | none =>
              obtain ⟨l, hl, hfound⟩ := exists_of_bind_eq_ok (m := w.superclasses c) hfound
              obtain ⟨s, hs, hfound⟩ := exists_of_findSomeM? hfound (by simp)
              obtain ⟨d, hd, htest⟩ := ih hfound
              exact ⟨d, .head (Or.inr ⟨l, hl, hs⟩) hd, htest⟩

/-- A class that holds an attribute is one that the question for the attribute was led to. -/
theorem consults_of_resolveAttr {holder : Handle} {index : UInt32}
    (hfound : w.resolveAttr c name = .ok (.inClass holder index)) :
    ReflTransGen w.Consults c holder := by
  unfold resolveAttr at hfound
  split at hfound
  · cases hfound
  · obtain ⟨d, hd, hfound⟩ := exists_of_bind_eq_ok hfound
    split at hfound
    · cases hfound
    · cases hfound
      exact .refl
    · obtain ⟨l, hl, hfound⟩ := exists_of_bind_eq_ok hfound
      obtain ⟨found, hsearch, hfound⟩ := exists_of_bind_eq_ok hfound
      cases found with
      | none => cases hfound
      | some location =>
          cases hfound
          obtain ⟨t, ht, hsearch⟩ := exists_of_findSomeM? hsearch nofun
          obtain ⟨k, hk, htest⟩ := exists_of_search hsearch
          obtain ⟨d', hd', htest⟩ := exists_of_bind_eq_ok htest
          split at htest <;> cases htest
          exact .head (Or.inr ⟨l, hl, ht⟩) hk

theorem straight_read_attr (w : World) (x : Handle) (index : Nat) :
    Straight (w.read (.attr x index)) := by
  refine straight_bind (w.straight_object x) fun o _ => ?_
  exact straight_entry _ _ _

section Answers

variable (hreachable : Reachable settings w)

include hreachable

theorem Reachable.mismatch_ne (hwinds : ¬ Winds w.referral x) (expected : String) :
    w.mismatch expected x ≠ .endlessWalk :=
  telling_ne_endlessWalk (mt (hreachable.className_eq_none_iff x).1 hwinds) fun _ => nofun

theorem Reachable.straight_mismatch {α : Type} (hwinds : ¬ Winds w.referral x) (expected : String) :
    Straight (.error (w.mismatch expected x) : Except Error α) :=
  fun h => hreachable.mismatch_ne hwinds expected (Except.error.inj h)

theorem Reachable.straight_descriptor (hgrounded : w.Grounded c) : Straight (w.descriptor c) := by
  refine straight_bind (w.straight_object c) fun o _ => ?_
  split
  · exact nofun
  · exact hreachable.straight_mismatch hgrounded.not_winds _

theorem Reachable.straight_superclasses (hgrounded : w.Grounded c) : Straight (w.superclasses c) :=
  straight_bind (hreachable.straight_descriptor hgrounded) fun _ _ => nofun

theorem Reachable.noSuchAttribute_ne (hgrounded : w.Grounded c) (s : Symbol) :
    w.noSuchAttribute c s ≠ .endlessWalk := by
  refine telling_ne_endlessWalk ?_ fun _ => nofun
  have hstraight := hreachable.straight_descriptor hgrounded
  unfold classLabel
  split
  · exact nofun
  · next hendless => exact absurd hendless hstraight
  · exact nofun

/-- A walk upwards that has come from so many classes has not met the others. -/
theorem Reachable.straight_search_from {α : Type} {test : Handle → Except Error (Option α)}
    {fuel : Nat} {met : List Handle} (htest : ∀ d, w.Grounded d → Straight (test d))
    (hmet : ∀ m ∈ met, TransGen w.Consults m c) (hgrounded : w.Grounded c)
    (hfuel : w.unmet met < fuel) : Straight (w.search test fuel c) := by
  induction fuel generalizing c met with
  | zero => omega
  | succ fuel ih =>
      refine straight_bind (htest c hgrounded) fun found _ => ?_
      cases found with
      | some a => exact nofun
      | none =>
          refine straight_bind (hreachable.straight_superclasses hgrounded) fun l hl => ?_
          have hnew : met.contains c = false := by
            by_contra hold
            rw [Bool.not_eq_false, List.contains_iff_mem] at hold
            exact hgrounded c .refl (hmet c hold)
          have hless := unmet_cons_lt hnew hl
          refine straight_findSomeM? fun s hs => ?_
          have hnext : w.Consults c s := Or.inr ⟨l, hl, hs⟩
          refine ih (fun m hm => ?_) (hgrounded.consults hnext)
            (Nat.lt_of_lt_of_le hless (by omega))
          rcases List.mem_cons.1 hm with rfl | hm
          · exact .single hnext
          · exact (hmet m hm).tail hnext

/-- From a class that is clear of circles a walk upwards comes to an end. -/
theorem Reachable.straight_search {α : Type} {test : Handle → Except Error (Option α)}
    (htest : ∀ d, w.Grounded d → Straight (test d)) (hgrounded : w.Grounded c) :
    Straight (w.search test w.walkLimit c) := by
  have haddressed := (hreachable.along steps_spends).addressed Arena.addressed_empty
  have hunmet : w.unmet [] ≤ w.population :=
    List.countP_le_length.trans (hreachable.length_le_population
      (Arena.nodup_handles haddressed) fun x hx => (Arena.mem_handles_iff haddressed).1 hx)
  have hmet : ∀ m ∈ ([] : List Handle), TransGen w.Consults m c := nofun
  exact hreachable.straight_search_from htest hmet hgrounded (Nat.lt_succ_of_le hunmet)

theorem Reachable.straight_heldAttr (hgrounded : w.Grounded c) (s : Symbol) :
    Straight (w.heldAttr s c) := by
  refine straight_bind (hreachable.straight_descriptor hgrounded) fun d _ => ?_
  split <;> exact nofun

theorem Reachable.straight_resolveAttr (hgrounded : w.Grounded c) (s : Symbol) :
    Straight (w.resolveAttr c s) := by
  unfold resolveAttr
  split
  · exact nofun
  · refine straight_bind (hreachable.straight_descriptor hgrounded) fun d _ => ?_
    split
    · exact nofun
    · exact nofun
    · refine straight_bind (hreachable.straight_superclasses hgrounded) fun l hl => ?_
      refine straight_bind (straight_findSomeM? fun t ht => ?_) fun _ _ => nofun
      exact hreachable.straight_search (fun d hd => hreachable.straight_heldAttr hd s)
        (hgrounded.consults (Or.inr ⟨l, hl, ht⟩))

theorem Reachable.straight_isAssignable (htangled : ¬ w.Tangled x) (target : Handle) :
    Straight (w.isAssignable x target) := by
  refine straight_bind (w.straight_classOf x) fun c hc => ?_
  have hwalk : Straight (w.search (fun d => .ok (if d = target then some () else none))
      w.walkLimit c) :=
    hreachable.straight_search (fun _ _ => nofun) (grounded_of_not_tangled htangled hc)
  exact straight_bind hwalk fun _ _ => nofun

theorem Reachable.straight_read_classAttr (hgrounded : w.Grounded c) (index : Nat) :
    Straight (w.read (.classAttr c index)) := by
  refine straight_bind (w.straight_object c) fun o _ => ?_
  simp only [Slot.readIn]
  split
  · exact straight_entry _ _ _
  · exact hreachable.straight_mismatch hgrounded.not_winds _

theorem Reachable.straight_getAttr (htangled : ¬ w.Tangled x) (s : Symbol) :
    Straight (w.getAttr x s) := by
  refine straight_bind (w.straight_classOf x) fun c hc => ?_
  have hgrounded := grounded_of_not_tangled htangled hc
  refine straight_bind (hreachable.straight_resolveAttr hgrounded s) fun location hlocation => ?_
  cases location with
  | ofClass => exact nofun
  | inInstance place => exact w.straight_read_attr x _
  | inClass holder index =>
      have hholder := consults_of_resolveAttr hlocation
      exact hreachable.straight_read_classAttr (fun d hd => hgrounded d (hholder.trans hd)) _
  | absent => exact fun h => hreachable.noSuchAttribute_ne hgrounded s (Except.error.inj h)

theorem Reachable.straight_frame (htangled : ¬ w.Tangled x) : Straight (w.frame x) := by
  refine straight_bind (w.straight_object x) fun o _ => ?_
  split
  · exact nofun
  · exact hreachable.straight_mismatch (not_winds_of_not_tangled htangled) _

end Answers

theorem Tallies.classOf_mem {a : Annals} (htallies : w.Tallies a) (hc : w.classOf x = .ok c) :
    c ∈ w.classes := by
  unfold classOf at hc
  cases ho : w.object x with
  | error e =>
      rw [ho] at hc
      cases hc
  | ok o =>
      rw [ho] at hc
      cases hc
      exact htallies.shapely.classRef_mem ho

/-- Where only registered classes are used as classes, no question comes to no end. -/
theorem Tallies.not_tangled {a : Annals} (htallies : w.Tallies a) (x : Handle) :
    ¬ w.Tangled x := by
  have hordered := htallies.ordered
  have hstep : ∀ c d, c ∈ w.classes → w.Consults c d → d ∈ w.classes ∧ w.Above c d := by
    rintro c d hc (hd | hd)
    · have hclass := classOf_of_referral hd
      obtain ⟨d', hd'⟩ := hordered.described d (htallies.classOf_mem hclass)
      obtain ⟨o, ho, _, hpayload⟩ := hd'.describes
      simp [referral, hclass, object, ho, hpayload] at hd
    · exact ⟨hordered.above_mem hc hd, hd⟩
  rintro ⟨c, d, hc, hpath, hcircle⟩
  have hc : c ∈ w.classes := htallies.classOf_mem hc
  have hd := (reflTransGen_within hstep hc hpath).1
  exact hordered.acyclic d hd (transGen_within hstep hd hcircle).2

end World

end ObjectSystem

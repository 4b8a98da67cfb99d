/-
# The first path that fits

An overload leads to a value or to a further chain, so the overloads of a method form a graph,
which may have circles. A path through it takes an argument at every overload that asks for a
class. It is accepted if it ends at a value, or at an overload without a class exactly where
the arguments end.

Matching finds the first accepted path, from left to right and depth first: paths are compared
by their places, lexicographically. It comes to an end on every graph, since each further
chain is for one argument less. What it must not meet is an overload that leads to nothing,
which ends the search in its chain.
-/

import ObjectSystem.Proofs.Subtyping

namespace ObjectSystem

open Relation

section Search

variable {α β : Type} {test : α → Except Error (Option β)} {l : List α}

/-- A search whose test never fails finds something at the first place where the test does. -/
theorem findSomeM?_first (htest : ∀ a ∈ l, ∃ found, test a = .ok found) :
    (l.findSomeM? test = .ok none ∧ ∀ a ∈ l, test a = .ok none) ∨
      ∃ (i : Nat) (a : α) (b : β), l.findSomeM? test = .ok (some b) ∧ l[i]? = some a ∧
        test a = .ok (some b) ∧ ∀ j < i, ∀ a', l[j]? = some a' → test a' = .ok none := by
  induction l with
  | nil => exact Or.inl ⟨rfl, fun _ h => by cases h⟩
  | cons a l ih =>
      rw [List.findSomeM?_cons]
      obtain ⟨found, ha⟩ := htest a List.mem_cons_self
      rw [ha]
      cases found with
      | some b => exact Or.inr ⟨0, a, b, rfl, rfl, ha, fun j hj => absurd hj (Nat.not_lt_zero j)⟩
      | none =>
          rcases ih fun b hb => htest b (List.mem_cons_of_mem _ hb) with
            ⟨hnone, hall⟩ | ⟨i, a', b, hfound, hi, hb, hbefore⟩
          · exact Or.inl ⟨hnone, List.forall_mem_cons.2 ⟨ha, hall⟩⟩
          · refine Or.inr ⟨i + 1, a', b, hfound, hi, hb, fun j hj a'' ha'' => ?_⟩
            cases j with
            | zero =>
                cases ha''
                exact ha
            | succ j => exact hbefore j (by omega) a'' ha''

end Search

/-- The order of paths by their places, from left to right and depth first: the first difference
decides, and a path comes before those that go on from it. -/
def NotAfter : (is js : List Nat) → Prop
  | [], _ => True
  | _ :: _, [] => False
  | i :: is, j :: js => i < j ∨ i = j ∧ NotAfter is js

theorem notAfter_nil (js : List Nat) : NotAfter [] js := by
  rw [NotAfter]
  trivial

theorem notAfter_cons_iff {i j : Nat} {is js : List Nat} :
    NotAfter (i :: is) (j :: js) ↔ i < j ∨ i = j ∧ NotAfter is js := by
  rw [NotAfter]

theorem NotAfter.antisymm {is js : List Nat} (hle : NotAfter is js) (hge : NotAfter js is) :
    is = js := by
  induction is generalizing js with
  | nil =>
      cases js with
      | nil => rfl
      | cons => exact hge.elim
  | cons i is ih =>
      cases js with
      | nil => exact hle.elim
      | cons j js =>
          rw [notAfter_cons_iff] at hle hge
          rcases hle with hlt | ⟨rfl, hle⟩
          · omega
          · rcases hge with hlt | ⟨_, hge⟩
            · exact absurd hlt (Nat.lt_irrefl i)
            · rw [ih hle hge]

namespace World

variable {settings : Settings} {a : Annals} {w : World} {m n x v : Handle} {s t : Signature}
  {l : Array Signature} {chain : List Signature} {args : List Handle} {is js : List Nat}
  {path : List Signature} {start : Nat}

/-- An overload asks for the class of an argument or for one above it. -/
def Takes (w : World) (s : Signature) (x : Handle) : Prop :=
  ∃ c, s.argClass = some c ∧ w.isAssignable x c = .ok true

/-- A path of overloads and the places at which they are: the first is in a chain, and each
other in the chain that the one before it leads to. -/
inductive Path (w : World) : (chain : List Signature) → List Nat → List Signature → Prop where
  | single {chain : List Signature} {i : Nat} {s : Signature} (hs : chain[i]? = some s) :
      Path w chain [i] [s]
  | further {chain : List Signature} {i : Nat} {s : Signature} {m : Handle} {l : Array Signature}
      {is : List Nat} {path : List Signature} (hs : chain[i]? = some s) (hvalue : s.value = some m)
      (hm : w.signatures m = .ok l) (hrest : Path w l.toList is path) :
      Path w chain (i :: is) (s :: path)

/-- The arguments that a path of overloads is for. -/
inductive Accepts (w : World) (args : List Handle) : (path : List Signature) → Prop where
  /-- Every overload takes an argument, and the last one leads to no further chain. -/
  | value {front : List Signature} {s : Signature}
      (htakes : List.Forall₂ w.Takes (front ++ [s]) (args.take (front.length + 1)))
      (hleaf : ∀ v, s.value = some v → w.isMethod v = false) : Accepts w args (front ++ [s])
  /-- The last overload asks for no class, and those before it take all arguments. -/
  | marker {front : List Signature} {s : Signature} (hnone : s.argClass = none)
      (htakes : List.Forall₂ w.Takes front args) : Accepts w args (front ++ [s])

/-- A path through a method that accepts arguments and starts at one of the overloads from an
index on. -/
structure Accepted (w : World) (method : Handle) (start : Nat) (args : List Handle)
    (is : List Nat) (path : List Signature) : Prop where
  leads : ∃ l, w.signatures method = .ok l ∧ w.Path l.toList is path
  start_le : ∀ i ∈ is.head?, start ≤ i
  accepts : w.Accepts args path

/-- The accepted path that comes first from left to right, depth first. -/
structure FirstAccepted (w : World) (method : Handle) (start : Nat) (args : List Handle)
    (is : List Nat) (path : List Signature) : Prop extends
    w.Accepted method start args is path where
  first : ∀ js path', w.Accepted method start args js path' → NotAfter is js

/-- An overload of a method leads to an object, which may be a further chain. -/
def Nests (w : World) (m n : Handle) : Prop :=
  ∃ l, w.signatures m = .ok l ∧ ∃ s ∈ l, s.value = some n

/-- No overload of a method leads to nothing, nor does any of a chain nested in it. -/
def Settled (w : World) (method : Handle) : Prop :=
  ∀ m, ReflTransGen w.Nests method m → ∀ l, w.signatures m = .ok l → ∀ s ∈ l, s.value ≠ none

theorem isMethod_iff : w.isMethod m = true ↔ ∃ l, w.signatures m = .ok l := by
  unfold isMethod signatures object
  cases w.objects.get? m with
  | none => simp [bind, Except.bind]
  | some o =>
      rcases o with ⟨_, _, _, _, payload⟩
      cases payload <;> simp [bind, Except.bind, pure, Except.pure, throw, throwThe,
        MonadExceptOf.throw]

/-- What is live has a class that is registered, so the subtype test answers. -/
theorem Tallies.isAssignable_eq (htallies : w.Tallies a) (hx : w.isLive x = true) (c : Handle) :
    ∃ below, w.isAssignable x c = .ok below := by
  obtain ⟨o, ho⟩ := Option.isSome_iff_exists.1 hx
  obtain ⟨below, hbelow, _⟩ :=
    htallies.ordered.isAssignableClass_eq (htallies.shapely x o ho).1 c
  exact ⟨below, by rw [isAssignable, classOf_eq_ok ho]; exact hbelow⟩

/-! ## Paths from an overload on -/

/-- Some path from an overload on is accepted and ends at a value. The places are those of the
overloads that follow. -/
inductive Hits (w : World) : (args : List Handle) → Signature → List Nat → Handle → Prop where
  | marker {s : Signature} {v : Handle} (hnone : s.argClass = none) (hvalue : s.value = some v) :
      Hits w [] s [] v
  | value {s : Signature} {v x : Handle} {args : List Handle} (htakes : w.Takes s x)
      (hvalue : s.value = some v) (hleaf : w.isMethod v = false) : Hits w (x :: args) s [] v
  | further {s t : Signature} {m v x : Handle} {l : Array Signature} {args : List Handle} {i : Nat}
      {is : List Nat} (htakes : w.Takes s x) (hvalue : s.value = some m)
      (hm : w.signatures m = .ok l) (ht : l.toList[i]? = some t) (hrest : Hits w args t is v) :
      Hits w (x :: args) s (i :: is) v

/-- Each overload that asks for a class takes one argument. -/
theorem accepts_cons_iff (hpath : path ≠ []) :
    w.Accepts args (s :: path) ↔
      ∃ x rest, args = x :: rest ∧ w.Takes s x ∧ w.Accepts rest path := by
  constructor
  · intro haccepts
    generalize hall : s :: path = all at haccepts
    cases haccepts with
    | @value front t htakes hleaf =>
        cases front with
        | nil => simp_all
        | cons u front =>
            cases hall
            cases args with
            | nil => simp at htakes
            | cons x rest =>
                rw [List.cons_append, List.length_cons, List.take_succ_cons,
                  List.forall₂_cons] at htakes
                exact ⟨x, rest, rfl, htakes.1, .value htakes.2 hleaf⟩
    | @marker front t hnone htakes =>
        cases front with
        | nil => simp_all
        | cons u front =>
            cases hall
            cases htakes with
            | cons htakes hrest => exact ⟨_, _, rfl, htakes, .marker hnone hrest⟩
  · rintro ⟨x, rest, rfl, htakes, haccepts⟩
    cases haccepts with
    | @value front t hrest hleaf =>
        show w.Accepts (x :: rest) ((s :: front) ++ [t])
        exact .value (.cons htakes hrest) hleaf
    | @marker front t hnone hrest =>
        show w.Accepts (x :: rest) ((s :: front) ++ [t])
        exact .marker hnone (.cons htakes hrest)

theorem accepts_singleton_iff : w.Accepts args [s] ↔
    args = [] ∧ s.argClass = none ∨
      ∃ x rest, args = x :: rest ∧ w.Takes s x ∧ ∀ v, s.value = some v → w.isMethod v = false := by
  constructor
  · intro haccepts
    generalize hall : [s] = all at haccepts
    cases haccepts with
    | @value front t htakes hleaf =>
        obtain ⟨rfl, rfl⟩ : front = [] ∧ s = t := by
          cases front <;> simp_all
        cases args with
        | nil => simp at htakes
        | cons x rest => exact Or.inr ⟨x, rest, rfl, by simpa using htakes, hleaf⟩
    | @marker front t hnone htakes =>
        obtain ⟨rfl, rfl⟩ : front = [] ∧ s = t := by
          cases front <;> simp_all
        cases htakes
        exact Or.inl ⟨rfl, hnone⟩
  · rintro (⟨rfl, hnone⟩ | ⟨x, rest, rfl, htakes, hleaf⟩)
    · show w.Accepts [] ([] ++ [s])
      exact .marker hnone .nil
    · show w.Accepts (x :: rest) ([] ++ [s])
      exact .value (by simpa using htakes) hleaf

/-- An accepted path is one that hits, apart from overloads that lead to nothing. -/
theorem Hits.exists_path (hhits : w.Hits args s is v) {i : Nat} (hs : chain[i]? = some s) :
    ∃ path, w.Path chain (i :: is) path ∧ w.Accepts args path ∧
      path.getLast?.bind Signature.value = some v := by
  induction hhits generalizing chain i with
  | marker hnone hvalue =>
      exact ⟨_, .single hs, accepts_singleton_iff.2 (Or.inl ⟨rfl, hnone⟩), by simpa using hvalue⟩
  | value htakes hvalue hleaf =>
      refine ⟨_, .single hs, accepts_singleton_iff.2 (Or.inr ⟨_, _, rfl, htakes, ?_⟩),
        by simpa using hvalue⟩
      rintro v hv
      cases hvalue.symm.trans hv
      exact hleaf
  | further htakes hvalue hm ht _ ih =>
      obtain ⟨path, hpath, haccepts, hlast⟩ := ih ht
      have hne : path ≠ [] := by cases hpath <;> simp
      refine ⟨_, .further hs hvalue hm hpath,
        (accepts_cons_iff hne).2 ⟨_, _, rfl, htakes, haccepts⟩, ?_⟩
      rwa [List.getLast?_cons_of_ne_nil hne]

theorem Path.exists_hits (hpath : w.Path chain is path) (haccepts : w.Accepts args path)
    (hvalue : path.getLast?.bind Signature.value = some v) :
    ∃ i js s, is = i :: js ∧ chain[i]? = some s ∧ w.Hits args s js v := by
  induction hpath generalizing args with
  | single hs =>
      refine ⟨_, _, _, rfl, hs, ?_⟩
      rcases accepts_singleton_iff.1 haccepts with ⟨rfl, hnone⟩ | ⟨x, rest, rfl, htakes, hleaf⟩
      · exact .marker hnone (by simpa using hvalue)
      · exact .value htakes (by simpa using hvalue) (hleaf v (by simpa using hvalue))
  | @further _ _ _ _ _ _ path hs hs' hm hrest ih =>
      have hne : path ≠ [] := by cases hrest <;> simp
      obtain ⟨x, rest, rfl, htakes, haccepts⟩ := (accepts_cons_iff hne).1 haccepts
      rw [List.getLast?_cons_of_ne_nil hne] at hvalue
      obtain ⟨j, js, t, rfl, ht, hhits⟩ := ih haccepts hvalue
      exact ⟨_, _, _, rfl, hs, .further htakes hs' hm ht hhits⟩

/-! ## The first path -/

/-- No overload of a chain leads to nothing, nor does any of a chain nested in it. -/
def SettledChain (w : World) (chain : List Signature) : Prop :=
  ∀ s ∈ chain, ∃ v, s.value = some v ∧ w.Settled v

/-- What a search through a chain comes to: the value of the first path that hits, if any path
does. -/
inductive Finds (w : World) (args : List Handle) (chain : List Signature) :
    Option Handle → Prop where
  | none (hnone : ∀ (i : Nat) s is v, chain[i]? = some s → ¬ w.Hits args s is v) :
      Finds w args chain none
  | some {i : Nat} {s : Signature} {is : List Nat} {v : Handle} (hs : chain[i]? = some s)
      (hhits : w.Hits args s is v)
      (hfirst : ∀ (j : Nat) t js u, chain[j]? = some t → w.Hits args t js u →
        NotAfter (i :: is) (j :: js)) :
      Finds w args chain (some v)

/-- What trying one overload comes to: the value of the first path from it that hits. -/
inductive Yields (w : World) (args : List Handle) (s : Signature) :
    Option (Option Handle) → Prop where
  | nothing (hnone : ∀ is v, ¬ w.Hits args s is v) : Yields w args s none
  | value {is : List Nat} {v : Handle} (hhits : w.Hits args s is v)
      (hfirst : ∀ js u, w.Hits args s js u → NotAfter is js) : Yields w args s (some (some v))

theorem Settled.settledChain (hsettled : w.Settled m) (hl : w.signatures m = .ok l) :
    w.SettledChain l.toList := by
  intro s hs
  have hs : s ∈ l := Array.mem_toList_iff.1 hs
  obtain ⟨v, hv⟩ := Option.ne_none_iff_exists'.1 (hsettled m .refl l hl s hs)
  exact ⟨v, hv, fun n hn => hsettled n (.head ⟨l, hl, s, hs, hv⟩ hn)⟩

/-- What one overload leads to: nothing if it does not take the argument, or if it takes it and
the further chain does not fit. -/
def tryOverload (w : World) (x : Handle) (args : List Handle) (s : Signature) :
    Except Error (Option (Option Handle)) := do
  match s.argClass with
  | none => return none
  | some c =>
      if !(← w.isAssignable x c) then return none
      match s.value with
      | some inner =>
          if w.isMethod inner then
            return (← w.matchArgs args (← w.signatures inner).toList).map some
          return some (some inner)
      | none => return some none

theorem matchArgs_cons (x : Handle) (args : List Handle) (chain : List Signature) :
    w.matchArgs (x :: args) chain =
      (chain.findSomeM? (w.tryOverload x args)).map Option.join := by
  rw [matchArgs]
  show (chain.findSomeM? (w.tryOverload x args) >>= fun found => pure found.join) = _
  cases chain.findSomeM? (w.tryOverload x args) <;> rfl

theorem not_hits_of_not_takes (hnot : ¬ w.Takes s x) : ¬ w.Hits (x :: args) s is v := by
  intro hhits
  cases hhits with
  | value htakes => exact hnot htakes
  | further htakes => exact hnot htakes

/-- An overload is passed by if no path from it hits; otherwise it leads to the value of the
first that does. -/
theorem Tallies.tryOverload_spec (htallies : w.Tallies a) (hx : w.isLive x = true)
    (hv : s.value = some v) (hsettled : w.Settled v)
    (hrest : ∀ chain, w.SettledChain chain →
      ∃ found, w.matchArgs args chain = .ok found ∧ w.Finds args chain found) :
    ∃ found, w.tryOverload x args s = .ok found ∧ w.Yields (x :: args) s found := by
  unfold tryOverload
  cases hclass : s.argClass with
  | none =>
      refine ⟨none, rfl, .nothing fun is u => not_hits_of_not_takes ?_⟩
      rintro ⟨c, hc, _⟩
      cases hclass.symm.trans hc
  | some c =>
      obtain ⟨below, hbelow⟩ := htallies.isAssignable_eq hx c
      simp only [hbelow, bind, Except.bind]
      cases below with
      | false =>
          refine ⟨none, rfl, .nothing fun is u => not_hits_of_not_takes ?_⟩
          rintro ⟨c', hc', htakes⟩
          cases hclass.symm.trans hc'
          cases hbelow.symm.trans htakes
      | true =>
          have htakes : w.Takes s x := ⟨c, hclass, hbelow⟩
          simp only [hv, Bool.not_true, Bool.false_eq_true, if_false]
          cases hmethod : w.isMethod v with
          | false =>
              exact ⟨_, rfl, .value (.value htakes hv hmethod) fun js _ _ => notAfter_nil js⟩
          | true =>
              obtain ⟨l, hl⟩ := isMethod_iff.1 hmethod
              obtain ⟨found, hfound, hfinds⟩ := hrest l.toList (hsettled.settledChain hl)
              simp only [hl, hfound, if_true, pure, Except.pure]
              -- A path from the overload on goes through the chain that it leads to.
              have hinner : ∀ js u, w.Hits (x :: args) s js u → ∃ j t js', js = j :: js' ∧
                  l.toList[j]? = some t ∧ w.Hits args t js' u := by
                intro js u hhits
                cases hhits with
                | value _ hvalue hleaf =>
                    cases hv.symm.trans hvalue
                    cases hmethod.symm.trans hleaf
                | further _ hvalue hm ht hrest =>
                    cases hv.symm.trans hvalue
                    cases hl.symm.trans hm
                    exact ⟨_, _, _, rfl, ht, hrest⟩
              cases hfinds with
              | none hnone =>
                  refine ⟨_, rfl, .nothing fun is u hhits => ?_⟩
                  obtain ⟨j, t, js, rfl, ht, hhits⟩ := hinner is u hhits
                  exact hnone j t js u ht hhits
              | some ht hhits hfirst =>
                  refine ⟨_, rfl, .value (.further htakes hv hl ht hhits) fun js u' hhits' => ?_⟩
                  obtain ⟨j, t, js, rfl, ht, hhits'⟩ := hinner js u' hhits'
                  exact hfirst j t js u' ht hhits'

/-- A place that is not behind another comes with its path before that of the other. -/
theorem notAfter_cons {i j : Nat} (hle : i ≤ j) (hsame : i = j → NotAfter is js) :
    NotAfter (i :: is) (j :: js) := by
  rw [notAfter_cons_iff]
  rcases Nat.lt_or_eq_of_le hle with hlt | heq
  · exact Or.inl hlt
  · exact Or.inr ⟨heq, hsame heq⟩

/-- A settled chain is searched to the end, and what is found is at the end of the first path
that hits. -/
theorem Tallies.matchArgs_spec (htallies : w.Tallies a) (hargs : ∀ x ∈ args, w.isLive x = true)
    (hsettled : w.SettledChain chain) :
    ∃ found, w.matchArgs args chain = .ok found ∧ w.Finds args chain found := by
  induction args generalizing chain with
  | nil =>
      refine ⟨_, rfl, ?_⟩
      cases hfind : chain.find? (·.argClass.isNone) with
      | none =>
          refine .none fun i s is v hs hhits => ?_
          cases hhits with
          | marker hclass =>
              have := List.find?_eq_none.1 hfind s (List.mem_of_getElem? hs)
              simp [hclass] at this
      | some s =>
          obtain ⟨hclass, i, hi, hs, hbefore⟩ := List.find?_eq_some_iff_getElem.1 hfind
          obtain ⟨v, hv, _⟩ := hsettled s (hs ▸ List.getElem_mem hi)
          rw [Option.bind_some, hv]
          refine .some (List.getElem?_eq_some_iff.2 ⟨hi, hs⟩)
            (.marker (Option.isNone_iff_eq_none.1 hclass) hv) fun j t js u ht hhits => ?_
          refine notAfter_cons (Nat.le_of_not_lt fun hj => ?_) fun _ => notAfter_nil js
          cases hhits with
          | marker hnone =>
              obtain ⟨hj', rfl⟩ := List.getElem?_eq_some_iff.1 ht
              have := hbefore j hj
              simp [hnone] at this
  | cons x args ih =>
      obtain ⟨hx, hargs⟩ := List.forall_mem_cons.1 hargs
      have htry : ∀ s ∈ chain, ∃ found, w.tryOverload x args s = .ok found ∧
          w.Yields (x :: args) s found := fun s hs => by
        obtain ⟨v, hv, hsettled⟩ := hsettled s hs
        exact htallies.tryOverload_spec hx hv hsettled fun chain hchain => ih hargs hchain
      have hyields : ∀ s ∈ chain, ∀ found, w.tryOverload x args s = .ok found →
          w.Yields (x :: args) s found := fun s hs found hfound => by
        obtain ⟨_, hfound', hyields⟩ := htry s hs
        cases hfound.symm.trans hfound'
        exact hyields
      have hskip : ∀ s ∈ chain, w.tryOverload x args s = .ok none →
          ∀ is u, ¬ w.Hits (x :: args) s is u := fun s hs hnone => by
        cases hyields s hs none hnone with
        | nothing hskip => exact hskip
      rw [matchArgs_cons]
      rcases findSomeM?_first fun s hs => (htry s hs).imp fun _ => And.left with
        ⟨hfound, hall⟩ | ⟨i, s, b, hfound, hs, hb, hbefore⟩
      · refine ⟨none, by rw [hfound]; rfl, .none fun i s is v hs => ?_⟩
        have hmem := List.mem_of_getElem? hs
        exact hskip s hmem (hall s hmem) is v
      · cases hyields s (List.mem_of_getElem? hs) _ hb with
        | @value is v hhits hfirst =>
            refine ⟨some v, by rw [hfound]; rfl, .some hs hhits fun j t js u ht hhits' => ?_⟩
            refine notAfter_cons (Nat.le_of_not_lt fun hj => ?_) fun heq => ?_
            · exact hskip t (List.mem_of_getElem? ht) (hbefore j hj t ht) js u hhits'
            · cases heq
              cases hs.symm.trans ht
              exact hfirst js u hhits'

/-- A path through settled chains ends at a value. -/
theorem Path.exists_value (hpath : w.Path chain is path) (hsettled : w.SettledChain chain) :
    ∃ v, path.getLast?.bind Signature.value = some v := by
  induction hpath with
  | single hs =>
      obtain ⟨v, hv, _⟩ := hsettled _ (List.mem_of_getElem? hs)
      exact ⟨v, by simpa using hv⟩
  | further hs hvalue hm hrest ih =>
      obtain ⟨v, hv, hinner⟩ := hsettled _ (List.mem_of_getElem? hs)
      cases hvalue.symm.trans hv
      obtain ⟨v, hlast⟩ := ih (hinner.settledChain hm)
      exact ⟨v, by rwa [List.getLast?_cons_of_ne_nil (by cases hrest <;> simp)]⟩

/-- The accepted paths through a settled method are those that hit from one of its overloads
on. -/
theorem Accepted.exists_hits (haccepted : w.Accepted m start args is path)
    (hl : w.signatures m = .ok l) (hsettled : w.SettledChain l.toList) :
    ∃ i js s v, is = (start + i) :: js ∧ (l.toList.drop start)[i]? = some s ∧
      w.Hits args s js v := by
  obtain ⟨l', hl', hpath⟩ := haccepted.leads
  cases hl.symm.trans hl'
  obtain ⟨v, hv⟩ := hpath.exists_value hsettled
  obtain ⟨k, js, s, rfl, hs, hhits⟩ := hpath.exists_hits haccepted.accepts hv
  obtain ⟨i, rfl⟩ := Nat.exists_eq_add_of_le (haccepted.start_le k rfl)
  exact ⟨i, js, s, v, rfl, by rwa [List.getElem?_drop], hhits⟩

theorem Hits.exists_accepted {i : Nat} (hhits : w.Hits args s is v) (hl : w.signatures m = .ok l)
    (hs : (l.toList.drop start)[i]? = some s) :
    ∃ path, w.Accepted m start args ((start + i) :: is) path ∧
      path.getLast?.bind Signature.value = some v := by
  rw [List.getElem?_drop] at hs
  obtain ⟨path, hpath, haccepts, hvalue⟩ := hhits.exists_path hs
  refine ⟨path, ⟨⟨l, hl, hpath⟩, fun k hk => ?_, haccepts⟩, hvalue⟩
  cases hk
  exact Nat.le_add_right start i

/-- Matching a settled method comes to an end without an error, and what it comes to is the
value at the end of the first accepted path, or nothing if no path is accepted. -/
theorem Classed.matchMethod_first (hclassed : Classed settings a w)
    (hcells : w.objects.cells.size ≤ 2 ^ 32) (hmethod : w.isMethod m = true)
    (hsettled : w.Settled m) (hargs : ∀ x ∈ args, w.isLive x = true) (start : Nat) :
    ∃ found, w.matchMethod m start args = .ok found ∧
      (found = none → ∀ is path, ¬ w.Accepted m start args is path) ∧
      ∀ v, found = some v → ∃ is path, w.FirstAccepted m start args is path ∧
        path.getLast?.bind Signature.value = some v := by
  obtain ⟨l, hl⟩ := isMethod_iff.1 hmethod
  have hchain := hsettled.settledChain hl
  obtain ⟨found, hfound, hfinds⟩ := (hclassed.tallies hcells).matchArgs_spec hargs
    fun s hs => hchain s (List.mem_of_mem_drop hs)
  refine ⟨found, by rw [matchMethod, hl]; exact hfound, ?_, ?_⟩
  · rintro rfl is path haccepted
    obtain ⟨i, js, s, v, rfl, hs, hhits⟩ := haccepted.exists_hits hl hchain
    cases hfinds with
    | none hnone => exact hnone i s js v hs hhits
  · rintro v rfl
    cases hfinds with
    | @some i s is _ hs hhits hfirst =>
        obtain ⟨path, haccepted, hvalue⟩ := hhits.exists_accepted hl hs
        refine ⟨_, path, ⟨haccepted, fun js path' haccepted' => ?_⟩, hvalue⟩
        obtain ⟨j, js, t, u, rfl, ht, hhits'⟩ := haccepted'.exists_hits hl hchain
        have hle := hfirst j t js u ht hhits'
        rw [notAfter_cons_iff] at hle ⊢
        exact hle.imp (Nat.add_lt_add_left · start) (And.imp_left (congrArg (start + ·)))

/-- What every overload leads to within a set of objects stays there. -/
theorem settled_of_closed (within : List Handle) (hm : m ∈ within)
    (hclosed : ∀ n ∈ within, (match w.signatures n with
      | .ok l => l.all fun s => s.value.any within.contains
      | .error _ => true) = true) : w.Settled m := by
  intro n hn
  have hvalues : ∀ n ∈ within, ∀ l, w.signatures n = .ok l → ∀ s ∈ l, ∃ v ∈ within,
      s.value = some v := by
    intro n hn l hl s hs
    have hall := hclosed n hn
    rw [hl] at hall
    have := Array.all_eq_true_iff_forall_mem.1 hall s hs
    obtain ⟨v, hv, hmem⟩ := (Option.any_eq_true _ _).1 this
    exact ⟨v, List.contains_iff_mem.1 hmem, hv⟩
  have hmem : n ∈ within := by
    induction hn with
    | refl => exact hm
    | tail _ hnests ih =>
        obtain ⟨l, hl, s, hs, hv⟩ := hnests
        obtain ⟨v, hmem, hv'⟩ := hvalues _ ih l hl s hs
        cases hv.symm.trans hv'
        exact hmem
  intro l hl s hs
  obtain ⟨v, _, hv⟩ := hvalues n hmem l hl s hs
  rw [hv]
  exact Option.some_ne_none v

/-- One overload is for a text and a list, a later one for a text alone. For a text alone the
chain of the first comes to nothing, and the second is found. No path is for no arguments. -/
theorem matchMethod_first_text :
    let w₁ := ((Operation.defineMethod Builtin.objectClass "show"
      [Builtin.charsClass, Builtin.listClass] Builtin.missingArg).perform initial).2
    let w := ((Operation.defineMethod Builtin.objectClass "show"
      [Builtin.charsClass] Builtin.missingString).perform w₁).2
    let shows := Builtin.nth 25
    (∃ is path, w.FirstAccepted shows 0 [Builtin.missingString] is path ∧
        path.getLast?.bind Signature.value = some Builtin.missingString) ∧
      ∀ is path, ¬ w.Accepted shows 0 [] is path := by
  intro w₁ w shows
  have h₁ : Classed {} _ w₁ :=
    Classed.step (.create create_default) (.defineMethod Builtin.objectClass "show"
      [Builtin.charsClass, Builtin.listClass] Builtin.missingArg)
      (show ∀ c ∈ [Builtin.charsClass, Builtin.listClass], c ∈ initial.classes by decide +kernel)
  have hclassed : Classed {} _ w :=
    h₁.step (.defineMethod Builtin.objectClass "show" [Builtin.charsClass] Builtin.missingString)
      (show ∀ c ∈ [Builtin.charsClass], c ∈ w₁.classes by decide +kernel)
  have hcells : w.objects.cells.size ≤ 2 ^ 32 := by decide +kernel
  have hmethod : w.isMethod shows = true := by decide +kernel
  have hsettled : w.Settled shows :=
    settled_of_closed [shows, Builtin.nth 26, Builtin.missingArg, Builtin.missingString]
      List.mem_cons_self (by decide +kernel)
  constructor
  · obtain ⟨found, hfound, _, hfirst⟩ := hclassed.matchMethod_first hcells hmethod hsettled
      (show ∀ x ∈ [Builtin.missingString], w.isLive x = true by decide +kernel) 0
    have hmatch : w.matchMethod shows 0 [Builtin.missingString] =
      .ok (some Builtin.missingString) := by decide +kernel
    exact hfirst _ (Except.ok.inj (hfound.symm.trans hmatch))
  · obtain ⟨found, hfound, hnone, _⟩ := hclassed.matchMethod_first hcells hmethod hsettled
      (show ∀ x ∈ [], w.isLive x = true from fun _ h => by cases h) 0
    have hmatch : w.matchMethod shows 0 [] = .ok none := by decide +kernel
    exact hnone (Except.ok.inj (hfound.symm.trans hmatch))

end World

end ObjectSystem

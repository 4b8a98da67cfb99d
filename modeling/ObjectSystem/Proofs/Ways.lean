/-
# Ways through the overloads

What matching finds depends on the classes of the arguments alone. A way through a chain of
overloads takes one class at each overload that asks for one; it ends at a value that is no
chain, or at an overload for no further argument where the classes end. Matching finds the
value at the end of the first way.

So what a definition does to matching is what it does to the ways: where the ways are the same
the same is found, and where there are further ways to one value, that value may be found too.
-/

import ObjectSystem.Proofs.Matching

namespace ObjectSystem

open Relation

/-- The value that a class itself holds under a symbol. -/
def Class.value? (d : Class) (s : Symbol) : Option Handle :=
  match d.slot s with
  | .inClass index => d.classAttrs[index.toNat]?.join
  | _ => none

theorem Class.mem_of_value? {d : Class} {s : Symbol} {x : Handle} (hx : d.value? s = some x) :
    some x ∈ d.classAttrs := by
  unfold value? at hx
  split at hx
  · exact Array.mem_of_getElem? (Option.join_eq_some_iff.1 hx)
  · cases hx

namespace World

variable {a : Annals} {w w' w'' : World} {b c k m n x y v : Handle} {s t : Symbol}
  {sig : Signature} {l l' : Array Signature} {args bs p q : List Handle} {is js : List Nat}
  {i : Nat} {extra : List Handle}

/-! ## What objects hold -/

/-- What the object under a handle holds, if there is one. -/
def payload? (w : World) (x : Handle) : Option Payload :=
  (w.objects.get? x).map Object.payload

theorem payload?_eq_some_iff {payload : Payload} : w.payload? x = some payload ↔
    ∃ o, w.objects.get? x = some o ∧ o.payload = payload :=
  Option.map_eq_some_iff

theorem live_iff_payload? : w.objects.Live x ↔ (w.payload? x).isSome = true := by
  rw [payload?, Option.isSome_map, Option.isSome_iff_exists]
  rfl

theorem live_of_payload? {payload : Payload} (hx : w.payload? x = some payload) :
    w.objects.Live x := by
  obtain ⟨o, ho, _⟩ := payload?_eq_some_iff.1 hx
  exact ⟨o, ho⟩

theorem live_of_object {o : Object} (ho : w.object x = .ok o) : w.objects.Live x := by
  cases hx : w.objects.get? x with
  | none => cases (object_eq_error hx).symm.trans ho
  | some o => exact ⟨o, hx⟩

theorem signatures_eq_ok_iff : w.signatures m = .ok l ↔ w.payload? m = some (.method l) := by
  unfold signatures object payload?
  cases w.objects.get? m with
  | none => simp [bind, Except.bind]
  | some o =>
      rcases o with ⟨_, _, _, _, payload⟩
      cases payload <;> simp [bind, Except.bind, pure, Except.pure, throw, throwThe,
        MonadExceptOf.throw]

theorem descriptor_eq_ok_iff {d : Class} :
    w.descriptor c = .ok d ↔ w.payload? c = some (.descriptor d) := by
  unfold descriptor object payload?
  cases w.objects.get? c with
  | none => simp [bind, Except.bind]
  | some o =>
      rcases o with ⟨_, _, _, _, payload⟩
      cases payload <;> simp [bind, Except.bind, pure, Except.pure, throw, throwThe,
        MonadExceptOf.throw]

theorem classAttr_eq {d : Class} (hd : w.descriptor c = .ok d) :
    w.classAttr c s = .ok (d.value? s) := by
  unfold classAttr Class.value?
  rw [hd]
  simp only [bind, Except.bind, pure, Except.pure]
  cases d.slot s <;> rfl

theorem live_of_signatures (hl : w.signatures m = .ok l) : w.objects.Live m :=
  live_of_payload? (signatures_eq_ok_iff.1 hl)

theorem live_of_isMethod (hm : w.isMethod m = true) : w.objects.Live m := by
  obtain ⟨l, hl⟩ := isMethod_iff.1 hm
  exact live_of_signatures hl

/-- A collection keeps registered classes. -/
theorem Ordered.keeps_class (hordered : w.Ordered) (hc : c ∈ w.classes) : w.Keeps extra c := by
  obtain ⟨d, ⟨o, ho, hpinned, _⟩, _⟩ := hordered.described c hc
  exact .start (.pinned ho hpinned) ⟨o, ho⟩

/-- A collection keeps what a registered class holds. -/
theorem Ordered.keeps_classAttr (hordered : w.Ordered) (hc : c ∈ w.classes)
    (hx : w.classAttr c s = .ok (some x)) (hlive : w.objects.Live x) : w.Keeps extra x := by
  obtain ⟨d, hd⟩ := hordered.described c hc
  rw [classAttr_eq hd.describes.descriptor_eq, Except.ok.injEq] at hx
  obtain ⟨o, ho, _, hpayload⟩ := hd.describes
  obtain ⟨i, hi⟩ := Array.mem_iff_getElem?.1 (Class.mem_of_value? hx)
  refine (hordered.keeps_class hc).ref ho ?_ hlive
  exact Object.mem_refs_iff.2 (Or.inr ⟨.classAttr c i, rfl, by simp [Slot.peek?, hpayload, hi]⟩)

/-- A collection that keeps a chain keeps what its overloads lead to. -/
theorem keeps_overload (hkeeps : w.Keeps extra m) (hl : w.signatures m = .ok l) (hsig : sig ∈ l)
    (hvalue : sig.value = some y) (hlive : w.objects.Live y) : w.Keeps extra y := by
  obtain ⟨o, ho, hpayload⟩ := payload?_eq_some_iff.1 (signatures_eq_ok_iff.1 hl)
  obtain ⟨i, hi⟩ := Array.mem_iff_getElem?.1 hsig
  refine hkeeps.ref ho (Object.mem_refs_iff.2 (Or.inr ⟨.signature m i, rfl, ?_⟩)) hlive
  simp [Slot.peek?, hpayload, hi, hvalue]

/-! ## Ways -/

/-- A way through a method for arguments of some classes, with the places of its overloads and
the value at its end. -/
inductive Way (w : World) : (bs : List Handle) → (method : Handle) → List Nat → Handle → Prop where
  | marker {m v : Handle} {l : Array Signature} {i : Nat} {sig : Signature}
      (hl : w.signatures m = .ok l) (hsig : l[i]? = some sig) (hclass : sig.argClass = none)
      (hvalue : sig.value = some v) : Way w [] m [i] v
  | value {b c m v : Handle} {bs : List Handle} {l : Array Signature} {i : Nat} {sig : Signature}
      (hl : w.signatures m = .ok l) (hsig : l[i]? = some sig) (hclass : sig.argClass = some c)
      (hbelow : w.Below b c) (hvalue : sig.value = some v) (hleaf : w.isMethod v = false) :
      Way w (b :: bs) m [i] v
  | further {b c m n v : Handle} {bs : List Handle} {l : Array Signature} {i : Nat}
      {sig : Signature} {is : List Nat} (hl : w.signatures m = .ok l) (hsig : l[i]? = some sig)
      (hclass : sig.argClass = some c) (hbelow : w.Below b c) (hvalue : sig.value = some n)
      (hrest : Way w bs n is v) : Way w (b :: bs) m (i :: is) v

theorem Way.isMethod (hway : w.Way bs m is v) : w.isMethod m = true := by
  cases hway with
  | marker hl | value hl | further hl => exact isMethod_iff.2 ⟨_, hl⟩

/-- The places determine the value. -/
theorem Way.unique {u : Handle} (hway : w.Way bs m is v) (hway' : w.Way bs m is u) : v = u := by
  induction hway with
  | marker hl hsig hclass hvalue =>
      cases hway' with
      | marker hl' hsig' _ hvalue' =>
          cases hl.symm.trans hl'
          cases hsig.symm.trans hsig'
          exact Option.some.inj (hvalue.symm.trans hvalue')
  | value hl hsig _ _ hvalue =>
      cases hway' with
      | value hl' hsig' _ _ hvalue' =>
          cases hl.symm.trans hl'
          cases hsig.symm.trans hsig'
          exact Option.some.inj (hvalue.symm.trans hvalue')
      | further _ _ _ _ _ hrest => cases hrest
  | further hl hsig _ _ hvalue hrest ih =>
      cases hway' with
      | value => cases hrest
      | further hl' hsig' _ _ hvalue' hrest' =>
          cases hl.symm.trans hl'
          cases hsig.symm.trans hsig'
          cases hvalue.symm.trans hvalue'
          exact ih hrest'

/-- The classes of arguments. -/
def ClassesOf (w : World) (args bs : List Handle) : Prop :=
  List.Forall₂ (fun x b => w.classOf x = .ok b) args bs

theorem ClassesOf.isLive (hargs : w.ClassesOf args bs) : ∀ x ∈ args, w.isLive x = true := by
  intro x hx
  induction hargs with
  | nil => cases hx
  | cons hclass _ ih =>
      rcases List.mem_cons.1 hx with rfl | hx
      · obtain ⟨o, ho, _⟩ := exists_of_bind_eq_ok hclass
        exact Arena.contains_iff.2 (live_of_object ho)
      · exact ih hx

theorem takes_iff_below (hx : w.classOf x = .ok b) :
    w.Takes sig x ↔ ∃ c, sig.argClass = some c ∧ w.Below b c := by
  unfold Takes Below isAssignable
  rw [hx]
  rfl

/-- The ways for some arguments are those for their classes. -/
theorem Hits.way (hhits : w.Hits args sig is v) (hargs : w.ClassesOf args bs)
    (hl : w.signatures m = .ok l) (hsig : l[i]? = some sig) : w.Way bs m (i :: is) v := by
  induction hhits generalizing m l i bs with
  | marker hnone hvalue =>
      cases hargs
      exact .marker hl hsig hnone hvalue
  | value htakes hvalue hleaf =>
      cases hargs with
      | cons hx _ =>
          obtain ⟨c, hc, hbelow⟩ := (takes_iff_below hx).1 htakes
          exact .value hl hsig hc hbelow hvalue hleaf
  | further htakes hvalue hm ht _ ih =>
      cases hargs with
      | cons hx hargs =>
          obtain ⟨c, hc, hbelow⟩ := (takes_iff_below hx).1 htakes
          rw [Array.getElem?_toList] at ht
          exact .further hl hsig hc hbelow hvalue (ih hargs hm ht)

theorem Way.exists_hits (hway : w.Way bs m is v) (hargs : w.ClassesOf args bs)
    (hl : w.signatures m = .ok l) :
    ∃ i js sig, is = i :: js ∧ l[i]? = some sig ∧ w.Hits args sig js v := by
  induction hway generalizing l args with
  | marker hl' hsig hclass hvalue =>
      cases hl.symm.trans hl'
      cases hargs
      exact ⟨_, _, _, rfl, hsig, .marker hclass hvalue⟩
  | value hl' hsig hclass hbelow hvalue hleaf =>
      cases hl.symm.trans hl'
      cases hargs with
      | cons hx _ =>
          exact ⟨_, _, _, rfl, hsig,
            .value ((takes_iff_below hx).2 ⟨_, hclass, hbelow⟩) hvalue hleaf⟩
  | further hl' hsig hclass hbelow hvalue hrest ih =>
      cases hl.symm.trans hl'
      cases hargs with
      | cons hx hargs =>
          obtain ⟨l', hl'⟩ := isMethod_iff.1 hrest.isMethod
          obtain ⟨j, js, sig', rfl, hsig', hhits⟩ := ih hargs hl'
          exact ⟨_, _, _, rfl, hsig, .further ((takes_iff_below hx).2 ⟨_, hclass, hbelow⟩) hvalue
            hl' (by rw [Array.getElem?_toList]; exact hsig') hhits⟩

/-! ## What matching finds -/

/-- A way through the method that a class itself holds under a symbol. -/
def Leads (w : World) (c : Handle) (s : Symbol) (bs : List Handle) (is : List Nat) (v : Handle) :
    Prop :=
  ∃ m, w.classAttr c s = .ok (some m) ∧ w.Way bs m is v

theorem Leads.unique {u : Handle} (hleads : w.Leads c s bs is v) (hleads' : w.Leads c s bs is u) :
    v = u := by
  obtain ⟨m, hm, hway⟩ := hleads
  obtain ⟨m', hm', hway'⟩ := hleads'
  cases hm.symm.trans hm'
  exact hway.unique hway'

/-- What is found among ways: the value of the first, or nothing if there is none. -/
inductive First (ways : List Nat → Handle → Prop) : Option Handle → Prop where
  | nothing (hnone : ∀ is v, ¬ ways is v) : First ways none
  | value {is : List Nat} {v : Handle} (hway : ways is v)
      (hfirst : ∀ js u, ways js u → NotAfter is js) : First ways (some v)

section First

variable {ways ways' : List Nat → Handle → Prop} {found found' : Option Handle}

theorem First.unique (hunique : ∀ is v u, ways is v → ways is u → v = u)
    (hfirst : First ways found) (hfirst' : First ways found') : found = found' := by
  cases hfirst with
  | nothing hnone =>
      cases hfirst' with
      | nothing => rfl
      | value hway => exact absurd hway (hnone _ _)
  | value hway hle =>
      cases hfirst' with
      | nothing hnone => exact absurd hway (hnone _ _)
      | value hway' hle' =>
          have heq := (hle _ _ hway').antisymm (hle' _ _ hway)
          subst heq
          rw [hunique _ _ _ hway hway']

theorem First.congr (hfirst : First ways found) (hiff : ∀ is v, ways' is v ↔ ways is v) :
    First ways' found := by
  have heq : ways' = ways := funext fun is => funext fun v => propext (hiff is v)
  rw [heq]
  exact hfirst

theorem First.ne_none {is : List Nat} (hfirst : First ways found) (hway : ways is v) :
    found ≠ none := by
  cases hfirst with
  | nothing hnone => exact absurd hway (hnone is v)
  | value => exact Option.some_ne_none _

/-- If there are further ways to one value only, then that value is found, or what was found. -/
theorem First.extend (hunique : ∀ is v u, ways is v → ways is u → v = u)
    (hfirst : First ways found) (hfirst' : First ways' found')
    (hmono : ∀ is u, ways is u → ways' is u) (hback : ∀ is u, ways' is u → ways is u ∨ u = v) :
    found' = found ∨ found' = some v := by
  cases hfirst' with
  | nothing hnone =>
      have hagain : First ways none := .nothing fun is u hu => hnone is u (hmono is u hu)
      exact Or.inl (hagain.unique hunique hfirst)
  | value hway hle =>
      rcases hback _ _ hway with hold | rfl
      · have hagain := First.value hold fun js u hu => hle js u (hmono js u hu)
        exact Or.inl (hagain.unique hunique hfirst)
      · exact Or.inr rfl

end First

/-- Every overload leads to something. -/
def Filled (w : World) : Prop :=
  ∀ m l, w.signatures m = .ok l → ∀ sig ∈ l, sig.value ≠ none

theorem Filled.settled (hfilled : w.Filled) (m : Handle) : w.Settled m :=
  fun n _ l hl sig hsig => hfilled n l hl sig hsig

/-- What a class holds under a symbol is no chain, so that matching fails with the error of asking
it for its overloads. -/
def Obstructs (w : World) (c : Handle) (s : Symbol) (e : Error) : Prop :=
  ∃ m, w.classAttr c s = .ok (some m) ∧ w.signatures m = .error e

theorem Obstructs.matchInClass_eq {e : Error} (hobstructs : w.Obstructs c s e) :
    w.matchInClass s args c = .error e := by
  obtain ⟨m, hattr, hm⟩ := hobstructs
  unfold matchInClass
  rw [hattr]
  show w.matchMethod m 0 args = .error e
  unfold matchMethod
  rw [hm]
  rfl

/-- Where every overload leads to something, a class finds the value at the end of the first way
through what it holds, unless that is no chain. -/
theorem Tallies.matchInClass_cases (htallies : w.Tallies a) (hfilled : w.Filled)
    (hc : c ∈ w.classes) (hargs : w.ClassesOf args bs) (s : Symbol) :
    (∃ found, w.matchInClass s args c = .ok found ∧ First (w.Leads c s bs) found) ∨
      ∃ e, w.Obstructs c s e := by
  obtain ⟨d, hd⟩ := htallies.ordered.described c hc
  have hattr := classAttr_eq (s := s) hd.describes.descriptor_eq
  unfold matchInClass
  cases hvalue : d.value? s with
  | none =>
      rw [hvalue] at hattr
      refine Or.inl ⟨none, by rw [hattr]; rfl, .nothing fun is v hleads => ?_⟩
      obtain ⟨m, hm, _⟩ := hleads
      cases hattr.symm.trans hm
  | some m =>
      rw [hvalue] at hattr
      cases hl : w.signatures m with
      | error e => exact Or.inr ⟨e, m, hattr, hl⟩
      | ok l =>
      obtain ⟨found, hfound, hfinds⟩ :=
        htallies.matchArgs_spec hargs.isLive ((hfilled.settled m).settledChain hl)
      have hmatch : w.matchMethod m 0 args = .ok found := by
        rw [matchMethod, hl]
        exact hfound
      refine Or.inl ⟨found, by rw [hattr]; exact hmatch, ?_⟩
      have hhits : ∀ is v, w.Leads c s bs is v → ∃ i js sig, is = i :: js ∧
          l.toList[i]? = some sig ∧ w.Hits args sig js v := by
        rintro is v ⟨m', hm', hway⟩
        cases hattr.symm.trans hm'
        obtain ⟨i, js, sig, his, hsig, hhits⟩ := hway.exists_hits hargs hl
        exact ⟨i, js, sig, his, by rwa [Array.getElem?_toList], hhits⟩
      cases hfinds with
      | none hnone =>
          refine .nothing fun is v hleads => ?_
          obtain ⟨i, js, sig, _, hsig, hhits⟩ := hhits is v hleads
          exact hnone i sig js v hsig hhits
      | some hsig hfirst hle =>
          rw [Array.getElem?_toList] at hsig
          refine .value ⟨m, hattr, hfirst.way hargs hl hsig⟩ fun js u hleads => ?_
          obtain ⟨i, js, sig, rfl, hsig, hhits⟩ := hhits js u hleads
          exact hle i sig js u hsig hhits

end World

end ObjectSystem

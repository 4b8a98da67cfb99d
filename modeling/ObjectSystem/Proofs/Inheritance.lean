/-
# Methods are inherited

A method that is found for a class and arguments is there for every subclass and for arguments
of subclasses too, though another one may be found first. A way through the overloads goes on
being one when the classes of the arguments get smaller, since the subtype test is transitive;
a class in between where nothing fits cannot hide it, because matching goes on to the next one.

A class can be made to hold something under the symbol of a method that is no chain. Matching fails
when it comes there, and nothing else can keep a subclass from finding a method.
-/

import ObjectSystem.Proofs.Linearization
import ObjectSystem.Proofs.Methodical

namespace ObjectSystem.World

variable {settings : Settings} {a : Annals} {w : World} {b c k l m v x y : Handle} {s : Symbol}
  {args args' bs bs' : List Handle} {is : List Nat} {e : Error}

theorem Ordered.below_trans (hordered : w.Ordered) (hb : b ∈ w.classes) (hbc : w.Below b c)
    (hck : w.Below c k) : w.Below b k := by
  rw [hordered.below_iff hb] at hbc ⊢
  rw [hordered.below_iff (hordered.reach_mem hb hbc)] at hck
  exact hbc.trans hck

/-- A way is one for smaller classes. -/
theorem Way.lower (hway : w.Way bs m is v) (hordered : w.Ordered)
    (hbelow : List.Forall₂ (fun b' b => b' ∈ w.classes ∧ w.Below b' b) bs' bs) :
    w.Way bs' m is v := by
  induction hway generalizing bs' with
  | marker hl hsig hclass hvalue =>
      cases hbelow
      exact .marker hl hsig hclass hvalue
  | value hl hsig hclass hb hvalue hleaf =>
      cases hbelow with
      | cons hfirst _ =>
          exact .value hl hsig hclass (hordered.below_trans hfirst.1 hfirst.2 hb) hvalue hleaf
  | further hl hsig hclass hb hvalue _ ih =>
      cases hbelow with
      | cons hfirst hrest =>
          exact .further hl hsig hclass (hordered.below_trans hfirst.1 hfirst.2 hb) hvalue
            (ih hrest)

/-- What a class finds for some arguments it finds for arguments of smaller classes, unless it
finds something else first. -/
theorem Tallies.matchInClass_lower (htallies : w.Tallies a) (hfilled : w.Filled)
    (hc : c ∈ w.classes) (hargs : w.ClassesOf args bs) (hargs' : w.ClassesOf args' bs')
    (hbelow : List.Forall₂ (fun b' b => b' ∈ w.classes ∧ w.Below b' b) bs' bs)
    (hfound : w.matchInClass s args c = .ok (some v)) :
    ∃ u, w.matchInClass s args' c = .ok (some u) := by
  have hclear : ∀ {e}, ¬ w.Obstructs c s e := fun hobstructs => by
    cases hobstructs.matchInClass_eq.symm.trans hfound
  rcases htallies.matchInClass_cases hfilled hc hargs s with
    ⟨found, hmatch, hfirst⟩ | ⟨e, hobstructs⟩
  · cases hfound.symm.trans hmatch
    rcases htallies.matchInClass_cases hfilled hc hargs' s with
      ⟨found', hmatch', hfirst'⟩ | ⟨e, hobstructs⟩
    · cases hfirst with
      | value hleads =>
          obtain ⟨m, hm, hway⟩ := hleads
          cases hfirst' with
          | nothing hnone => exact absurd ⟨m, hm, hway.lower htallies.ordered hbelow⟩ (hnone _ v)
          | value => exact ⟨_, hmatch'⟩
    · exact absurd hobstructs hclear
  · exact absurd hobstructs hclear

/-- A search along the ancestors finds something if some class above does, unless it comes to one
that fails. -/
theorem Ordered.search_cases {test : Handle → Except Error (Option Handle)} (hordered : w.Ordered)
    (hc : c ∈ w.classes) (habove : w.Below c k) (hk : test k = .ok (some v)) :
    (∃ u, w.search test w.walkLimit c = .ok (some u)) ∨
      ∃ t e, w.Below c t ∧ test t = .error e ∧ w.search test w.walkLimit c = .error e := by
  obtain ⟨l, hl, _, hmem⟩ := hordered.ancestors_lists hc
  rw [hordered.search_eq_findSomeM? hc hl]
  cases hfound : (c :: l).findSomeM? test with
  | error e =>
      obtain ⟨t, ht, htest⟩ := exists_of_findSomeM? hfound nofun
      exact Or.inr ⟨t, e, (hordered.below_iff hc).2 ((hmem t).1 ht), htest, rfl⟩
  | ok found =>
      cases found with
      | none =>
          have hnone := eq_none_of_findSomeM? hfound ((hmem k).2 ((hordered.below_iff hc).1 habove))
          cases hnone.symm.trans hk
      | some u => exact Or.inl ⟨u, rfl⟩

/-- What a search finds is found at some class above. -/
theorem Ordered.exists_of_search {test : Handle → Except Error (Option Handle)}
    (hordered : w.Ordered) (hc : c ∈ w.classes)
    (hfound : w.search test w.walkLimit c = .ok (some v)) :
    ∃ k, w.Below c k ∧ test k = .ok (some v) := by
  obtain ⟨l, hl, _, hmem⟩ := hordered.ancestors_lists hc
  rw [hordered.search_eq_findSomeM? hc hl] at hfound
  obtain ⟨k, hk, hvalue⟩ := exists_of_findSomeM? hfound (by simp)
  exact ⟨k, (hordered.below_iff hc).2 ((hmem k).1 hk), hvalue⟩

/-- Arguments have classes, and those of the second are below those of the first. -/
theorem Tallies.exists_classesOf (htallies : w.Tallies a)
    (hargs : List.Forall₂ (fun x y => ∃ c, w.classOf x = .ok c ∧ w.isAssignable y c = .ok true)
      args args') :
    ∃ bs bs', w.ClassesOf args bs ∧ w.ClassesOf args' bs' ∧
      List.Forall₂ (fun b' b => b' ∈ w.classes ∧ w.Below b' b) bs' bs := by
  induction hargs with
  | nil => exact ⟨[], [], .nil, .nil, .nil⟩
  | @cons x y _ _ hfirst _ ih =>
      obtain ⟨bs, bs', hbs, hbs', hbelow⟩ := ih
      obtain ⟨b, hb, hassignable⟩ := hfirst
      obtain ⟨b', hb', hlower⟩ := exists_of_bind_eq_ok hassignable
      obtain ⟨o, ho, hclass⟩ := exists_of_bind_eq_ok hb'
      cases hclass
      obtain ⟨p, hp⟩ := live_of_object ho
      cases (object_eq_ok hp).symm.trans ho
      exact ⟨b :: bs, _ :: bs', .cons hb hbs, .cons hb' hbs',
        .cons ⟨(htallies.shapely y _ hp).1, hlower⟩ hbelow⟩

/-- A new world in which a vector and a real number have been made, and numbers join with
vectors. -/
def joining : World :=
  let vectors := ((Operation.allocateOf Builtin.vectorClass .none 0).perform initial).2
  let numbers := ((Operation.realVector 1).perform vectors).2
  ((Operation.defineMethod Builtin.numericClass "join" [Builtin.vectorClass]
    Builtin.missingArg).perform numbers).2

theorem methodical_joining : Methodical {} Operation.NamesRegistered joining := by
  let vectors := ((Operation.allocateOf Builtin.vectorClass .none 0).perform initial).2
  let numbers := ((Operation.realVector 1).perform vectors).2
  have hvector : Builtin.vectorClass ∈ initial.classes := by decide +kernel
  have hvectors : vectors.objects.cells.size ≤ 2 ^ 32 ∧ vectors.pools.opened < 2 ^ 32 := by
    decide +kernel
  have hnumbers : numbers.objects.cells.size ≤ 2 ^ 32 ∧ numbers.pools.opened < 2 ^ 32 := by
    decide +kernel
  have hnumeric : Builtin.numericClass ∈ numbers.classes ∧
      (∀ c ∈ [Builtin.vectorClass], c ∈ numbers.classes) ∧
      ((Operation.defineMethod Builtin.numericClass "join" [Builtin.vectorClass]
        Builtin.missingArg).perform numbers).1.isOk = true := by decide +kernel
  have hfits : vectors.Fits := ⟨hvectors.1, hvectors.2⟩
  have hfits' : numbers.Fits := ⟨hnumbers.1, hnumbers.2⟩
  have hfirst : Methodical {} Operation.NamesRegistered vectors :=
    (Methodical.create create_default).leave (fun _ _ _ => id)
      (.allocateOf Builtin.vectorClass .none 0) hvector id hfits
  have hsecond : Methodical {} Operation.NamesRegistered numbers :=
    hfirst.leave (fun _ _ _ => id) (.realVector 1) trivial trivial hfits'
  exact hsecond.defined hnumeric.2.1 hnumeric.1 hnumeric.2.2

/-- If a method is found for a class and arguments, one is found for each class below and for
arguments of classes below, unless the search comes to something that is no chain: it fails then
with the error of asking that for its overloads. -/
theorem Methodical.dispatch_lower (hmethodical : Methodical settings Operation.NamesRegistered w)
    (hfits : w.Fits) (hk : k ∈ w.classes) (hl : l ∈ w.classes)
    (hbelow : w.isAssignableClass l k = .ok true)
    (hargs : List.Forall₂ (fun x y => ∃ c, w.classOf x = .ok c ∧ w.isAssignable y c = .ok true)
      args args')
    (hfound : w.findMethodInClass s k args = .ok (some v)) :
    (∃ u, w.findMethodInClass s l args' = .ok (some u)) ∨
      ∃ t m e, w.isAssignableClass l t = .ok true ∧ w.classAttr t s = .ok (some m) ∧
        w.isMethod m = false ∧ w.signatures m = .error e ∧
          w.findMethodInClass s l args' = .error e := by
  obtain ⟨⟨a, htallies⟩, hfilled⟩ := hmethodical.firm (fun _ _ _ => id) hfits
  have hordered := htallies.ordered
  obtain ⟨bs, bs', hbs, hbs', hclasses⟩ := htallies.exists_classesOf hargs
  obtain ⟨t, hkt, ht⟩ := hordered.exists_of_search hk hfound
  have hmem := hordered.reach_mem hk ((hordered.below_iff hk).1 hkt)
  obtain ⟨u, hu⟩ := htallies.matchInClass_lower hfilled hmem hbs hbs' hclasses ht
  refine (hordered.search_cases hl (hordered.below_trans hl hbelow hkt) hu).imp_right ?_
  rintro ⟨t', e, ht', htest, hsearch⟩
  have hmem' := hordered.reach_mem hl ((hordered.below_iff hl).1 ht')
  rcases htallies.matchInClass_cases hfilled hmem' hbs' s with ⟨found, hmatch, _⟩ | ⟨e', hobstructs⟩
  · cases htest.symm.trans hmatch
  · cases htest.symm.trans hobstructs.matchInClass_eq
    obtain ⟨m, hattr, he⟩ := hobstructs
    refine ⟨t', m, e, ht', hattr, Bool.eq_false_iff.2 fun hm => ?_, he, hsearch⟩
    obtain ⟨l, hl⟩ := isMethod_iff.1 hm
    cases he.symm.trans hl

/-- Numbers join with vectors, and integers with real numbers in another way. That is what is
found first for integers. -/
theorem dispatch_lower_join :
    let vector := Builtin.nth 25
    let reals := Builtin.nth 26
    let w := ((Operation.defineMethod Builtin.integerClass "join" [Builtin.realClass]
      Builtin.missingString).perform joining).2
    let join := w.methodSymbol "join"
    (Methodical {} Operation.NamesRegistered w ∧
        w.findMethodInClass join Builtin.numericClass [vector] = .ok (some Builtin.missingArg) ∧
        w.findMethodInClass join Builtin.integerClass [reals] = .ok (some Builtin.missingString)) ∧
      ∃ u, w.findMethodInClass join Builtin.integerClass [reals] = .ok (some u) := by
  intro vector reals w join
  have hinteger : Builtin.integerClass ∈ joining.classes ∧
      (∀ c ∈ [Builtin.realClass], c ∈ joining.classes) ∧
      ((Operation.defineMethod Builtin.integerClass "join" [Builtin.realClass]
        Builtin.missingString).perform joining).1.isOk = true := by decide +kernel
  have h : Methodical {} Operation.NamesRegistered w :=
    methodical_joining.defined hinteger.2.1 hinteger.1 hinteger.2.2
  have hclasses : Builtin.numericClass ∈ w.classes ∧ Builtin.integerClass ∈ w.classes ∧
      w.isAssignableClass Builtin.integerClass Builtin.numericClass = .ok true ∧
      w.classOf vector = .ok Builtin.vectorClass ∧
      w.isAssignable reals Builtin.vectorClass = .ok true := by decide +kernel
  have hsizes : w.objects.cells.size ≤ 2 ^ 32 ∧ w.pools.opened < 2 ^ 32 := by decide +kernel
  have hfound : w.findMethodInClass join Builtin.numericClass [vector] =
      .ok (some Builtin.missingArg) := by decide +kernel
  have hfirst : w.findMethodInClass join Builtin.integerClass [reals] =
      .ok (some Builtin.missingString) := by decide +kernel
  obtain ⟨hk, hl, hbelow, hvector, hreals⟩ := hclasses
  refine ⟨⟨h, hfound, hfirst⟩, ?_⟩
  rcases h.dispatch_lower ⟨hsizes.1, hsizes.2⟩ hk hl hbelow (.cons ⟨_, hvector, hreals⟩ .nil)
    hfound with hlower | ⟨_, _, _, _, _, _, _, hfails⟩
  · exact hlower
  · cases hfails.symm.trans hfirst

/-- The null object can be put where the class of integers would hold a method. Then numbers join
with vectors, but joining an integer with real numbers is an error. -/
theorem dispatch_lower_obstructed :
    let vector := Builtin.nth 25
    let reals := Builtin.nth 26
    let join := joining.methodSymbol "join"
    let w := ((Operation.defineClassAttr Builtin.integerClass join (some Builtin.null)).perform
      joining).2
    (Methodical {} Operation.NamesRegistered w ∧ w.Fits ∧
        Builtin.numericClass ∈ w.classes ∧ Builtin.integerClass ∈ w.classes ∧
        w.isAssignableClass Builtin.integerClass Builtin.numericClass = .ok true ∧
        w.classOf vector = .ok Builtin.vectorClass ∧
        w.isAssignable reals Builtin.vectorClass = .ok true ∧
        w.findMethodInClass join Builtin.numericClass [vector] = .ok (some Builtin.missingArg)) ∧
      w.findMethodInClass join Builtin.integerClass [reals] =
        .error (.typeMismatch "method" "null") := by
  intro vector reals join w
  have hsizes : w.objects.cells.size ≤ 2 ^ 32 ∧ w.pools.opened < 2 ^ 32 := by decide +kernel
  have hfits : w.Fits := ⟨hsizes.1, hsizes.2⟩
  have h : Methodical {} Operation.NamesRegistered w :=
    methodical_joining.leave (fun _ _ _ => id)
      (.defineClassAttr Builtin.integerClass join (some Builtin.null)) trivial trivial hfits
  exact ⟨⟨h, hfits, by decide +kernel⟩, by decide +kernel⟩

end ObjectSystem.World

/-
# Worlds whose methods were built by definitions

If every chain was built by definitions that succeeded, every overload leads to something. Other
operations may do what they like to classes and to what classes hold, as long as they make no
chains and write no overloads: they may let another class hold a chain too, or put something there
that is no chain.

If besides references are stored with care and the values are no chains, no chain is at two places
of a chain. That has two reasons: a definition attaches only chains that it has just made, and what
overloads lead to is live, so it does not turn into a chain.
-/

import ObjectSystem.Proofs.Bystanders
import ObjectSystem.Proofs.Defining

namespace ObjectSystem.World

variable {settings : Settings} {a : Annals} {w w' : World} {c m v x top : Handle} {s : Symbol}
  {name : String} {argClasses p : List Handle}

/-! ## What is left alone -/

theorem Coherent.backed (hcoherent : w.Coherent) : w.Backed := by
  intro m l hl sig hsig y hy
  obtain ⟨o, ho, hpayload⟩ := payload?_eq_some_iff.1 (signatures_eq_ok_iff.1 hl)
  obtain ⟨i, hi⟩ := Array.mem_iff_getElem?.1 hsig
  exact hcoherent.linked.held_live (.signature m i) y
    ⟨o, ho, by simp [Slot.peek?, hpayload, hi, hy]⟩

theorem Coherent.held (hcoherent : w.Coherent) (hordered : w.Ordered) : w.Held := by
  intro c hc s m hm
  obtain ⟨d, hd⟩ := hordered.described c hc
  have hdescriptor := hd.describes.descriptor_eq
  rw [classAttr_eq hdescriptor, Except.ok.injEq] at hm
  obtain ⟨o, ho, hpayload⟩ := payload?_eq_some_iff.1 (descriptor_eq_ok_iff.1 hdescriptor)
  obtain ⟨i, hi⟩ := Array.mem_iff_getElem?.1 (Class.mem_of_value? hm)
  exact hcoherent.linked.held_live (.classAttr c i) m ⟨o, ho, by simp [Slot.peek?, hpayload, hi]⟩

namespace SameChains

variable (hsame : w.SameChains w')

include hsame

theorem isMethod_back (hm : w'.isMethod m = true) : w.isMethod m = true := by
  obtain ⟨l, hl⟩ := isMethod_iff.1 hm
  exact isMethod_iff.2 ⟨l, hsame m l hl⟩

theorem filled (hfilled : w.Filled) : w'.Filled :=
  fun m l hl => hfilled m l (hsame m l hl)

theorem inside_back (hinside : w'.Inside top p m) : w.Inside top p m := by
  induction hinside with
  | top hm => exact .top (hsame.isMethod_back hm)
  | inner _ hl hsig hclass hvalue hn ih =>
      exact .inner ih (hsame _ _ hl) hsig hclass hvalue (hsame.isMethod_back hn)

theorem parted (hparted : w.Parted) : w'.Parted := fun top p p' m hinside hinside' =>
  hparted top p p' m (hsame.inside_back hinside) (hsame.inside_back hinside')

end SameChains

theorem Chainless.filled (hnone : w.Chainless) : w.Filled :=
  fun m l hl => absurd hl (hnone m l)

theorem Chainless.parted (hnone : w.Chainless) : w.Parted := by
  intro top p p' m hinside
  obtain ⟨l, hl⟩ := isMethod_iff.1 hinside.isMethod
  exact absurd hl (hnone m l)

/-! ## Interning

Matching does not look at names, so it does not matter that a definition interns one first. -/

theorem objects_intern (w : World) (name : String) : (w.intern name).2.objects = w.objects :=
  rfl

theorem search_intern {α : Type} (w : World) (name : String)
    (test : Handle → Except Error (Option α)) (fuel : Nat) (c : Handle) :
    (w.intern name).2.search test fuel c = w.search test fuel c :=
  search_congr (superclasses_congr (w.objects_intern name)) (fun _ => rfl) fuel c

theorem isAssignable_intern (w : World) (name : String) (x c : Handle) :
    (w.intern name).2.isAssignable x c = w.isAssignable x c := by
  have hclass : (w.intern name).2.isAssignableClass = w.isAssignableClass := by
    funext b k
    unfold isAssignableClass
    rw [search_intern]
    rfl
  unfold isAssignable
  rw [hclass]
  rfl

theorem signatures_intern (w : World) (name : String) (m : Handle) :
    (w.intern name).2.signatures m = w.signatures m :=
  signatures_congr (w.objects_intern name) m

theorem matchArgs_intern (w : World) (name : String) (args : List Handle)
    (chain : List Signature) :
    (w.intern name).2.matchArgs args chain = w.matchArgs args chain := by
  induction args generalizing chain with
  | nil => rfl
  | cons x args ih =>
      have hrest : (w.intern name).2.matchArgs args = w.matchArgs args := funext ih
      have htry : (w.intern name).2.tryOverload x args = w.tryOverload x args := by
        funext sig
        unfold tryOverload
        rw [hrest]
        simp only [isAssignable_intern, signatures_intern]
        rfl
      rw [matchArgs_cons, matchArgs_cons, htry]

theorem matchInClass_intern (w : World) (name : String) (s : Symbol) (args : List Handle)
    (c : Handle) : (w.intern name).2.matchInClass s args c = w.matchInClass s args c := by
  have hargs : (w.intern name).2.matchArgs args = w.matchArgs args :=
    funext (matchArgs_intern w name args)
  unfold matchInClass matchMethod
  rw [hargs, classAttr_congr (w.objects_intern name)]
  simp only [signatures_intern]

theorem sameChains_intern (w : World) (name : String) : w.SameChains (w.intern name).2 :=
  fun m _ hl => (signatures_intern w name m).symm.trans hl

/-! ## The symbols of methods -/

/-- The symbol under which the overloads of a name are kept. -/
def methodSymbol (w : World) (name : String) : Symbol :=
  (w.intern (methodName name)).1

theorem methodSymbol_of_find? (hfind : w.symbols.find? (methodName name) = some s) :
    w.methodSymbol name = s :=
  congrArg Prod.fst (SymbolTable.intern_of_find? hfind)

/-- A definition does not depend on whether the name has been interned already. -/
theorem perform_defineMethod_intern (w : World) (c : Handle) (name : String)
    (argClasses : List Handle) (v : Handle) :
    (Operation.defineMethod c name argClasses v).perform (w.intern (methodName name)).2 =
      (Operation.defineMethod c name argClasses v).perform w := by
  have hagain : (w.intern (methodName name)).2.intern (methodName name) =
      ((w.intern (methodName name)).1, (w.intern (methodName name)).2) := by
    have hsymbols := SymbolTable.intern_of_find? (w.symbols.find?_intern (methodName name))
    unfold intern
    simp only [hsymbols]
  have hintern : (Action.intern (methodName name)).perform w =
      (.ok (w.intern (methodName name)).1, (w.intern (methodName name)).2) := rfl
  have hintern' : (Action.intern (methodName name)).perform (w.intern (methodName name)).2 =
      (.ok (w.intern (methodName name)).1, (w.intern (methodName name)).2) :=
    congrArg (fun r : Symbol × World => (Except.ok r.1, r.2)) hagain
  show (Action.defineMethod c name argClasses v).perform _ =
    (Action.defineMethod c name argClasses v).perform w
  unfold Action.defineMethod Action.methodSymbol
  rw [Action.perform_bind_ok hintern, Action.perform_bind_ok hintern']

/-- After a definition the name is in the table. -/
theorem find?_of_defineMethod
    (hdefine : (Operation.defineMethod c name argClasses v).perform w = (.ok top, w')) :
    w'.symbols.find? (methodName name) = some (w.methodSymbol name) := by
  have hremembers : (w.intern (methodName name)).2.Remembers
      ((Operation.defineMethod c name argClasses v).perform (w.intern (methodName name)).2).2 :=
    (Operation.defineMethod c name argClasses v).remembers _
  rw [perform_defineMethod_intern, hdefine] at hremembers
  exact hremembers.find?_eq (w.symbols.find?_intern (methodName name))

theorem methodSymbol_of_defineMethod
    (hdefine : (Operation.defineMethod c name argClasses v).perform w = (.ok top, w')) :
    w'.methodSymbol name = w.methodSymbol name :=
  methodSymbol_of_find? (find?_of_defineMethod hdefine)

/-! ## Runs -/

/-- The worlds that a run leads to from a new one if it keeps to a rule and builds methods only by
definitions that succeed. The other operations make no chains and write no overloads. -/
inductive Methodical (settings : Settings) (rule : World → {α : Type} → Operation α → Prop) :
    World → Prop where
  | create {w : World} (hcreate : World.create settings = .ok w) : Methodical settings rule w
  | define {w w' : World} {c v top : Handle} {name : String} {argClasses : List Handle}
      (hmethodical : Methodical settings rule w)
      (hrule : rule w (Operation.defineMethod c name argClasses v)) (hc : c ∈ w.classes)
      (hdefine : (Operation.defineMethod c name argClasses v).perform w = (.ok top, w')) :
      Methodical settings rule w'
  | step {w : World} (hmethodical : Methodical settings rule w) {α : Type} (op : Operation α)
      (hrule : rule w op) (hsame : w.SameChains (op.perform w).2) :
      Methodical settings rule (op.perform w).2

theorem Firm.create (hcreate : create settings = .ok w) (hcells : w.objects.cells.size ≤ 2 ^ 32) :
    w.Firm :=
  ⟨_, tallies_create hcreate hcells⟩

theorem Firm.intern (hfirm : w.Firm) (name : String) (hcells : w.objects.cells.size ≤ 2 ^ 32) :
    (w.intern name).2.Firm := by
  have hintern : (Operation.intern name).perform w = (.ok (w.intern name).1, (w.intern name).2) :=
    rfl
  exact hfirm.step hintern trivial hcells

/-- After a definition overloads still lead to something. -/
theorem Firm.filled_define (hfirm : w.Firm) (hc : c ∈ w.classes)
    (hks : ∀ k ∈ argClasses, k ∈ w.classes) (hcells : w'.objects.cells.size ≤ 2 ^ 32)
    (hdefine : (Operation.defineMethod c name argClasses v).perform w = (.ok top, w'))
    (hfilled : w.Filled) : w'.Filled := by
  obtain ⟨w₁, m, happroaches, _, hregrows⟩ :=
    Action.exists_of_defineMethod hfirm hc hks hcells hdefine
  exact hregrows.filled (happroaches.filled ((w.sameChains_intern _).filled hfilled))

section Run

variable {rule : World → {α : Type} → Operation α → Prop}

/-- As long as only registered classes are used as classes, the methods are in order. -/
theorem Methodical.firm (hmethodical : Methodical settings rule w)
    (hrule : ∀ (w : World) {α : Type} (op : Operation α), rule w op → op.NamesRegistered w)
    (hfits : w.Fits) : w.Firm ∧ w.Filled := by
  induction hmethodical with
  | create hcreate =>
      exact ⟨.create hcreate hfits.cells_le, (chainless_create hcreate hfits.cells_le).filled⟩
  | define _ hnames hc hdefine ih =>
      have hks := hrule _ _ hnames
      obtain ⟨hfirm, hfilled⟩ := ih ((spends_of_perform hdefine).fits hfits)
      exact ⟨hfirm.step hdefine hks hfits.cells_le,
        hfirm.filled_define hc hks hfits.cells_le hdefine hfilled⟩
  | step _ op hnames hsame ih =>
      obtain ⟨hfirm, hfilled⟩ := ih ((op.spends _).fits hfits)
      exact ⟨hfirm.step rfl (hrule _ _ hnames) hfits.cells_le, hsame.filled hfilled⟩

/-- A definition that succeeds may be the next step. -/
theorem Methodical.defined (hmethodical : Methodical settings rule w)
    (hrule : rule w (Operation.defineMethod c name argClasses v)) (hc : c ∈ w.classes)
    (hok : ((Operation.defineMethod c name argClasses v).perform w).1.isOk = true) :
    Methodical settings rule ((Operation.defineMethod c name argClasses v).perform w).2 := by
  obtain ⟨top, hdefine⟩ := Action.exists_of_isOk hok
  exact hmethodical.define hrule hc hdefine

/-- An operation that leaves chains alone may be the next step. -/
theorem Methodical.leave {α : Type} (hmethodical : Methodical settings rule w)
    (hrule : ∀ (w : World) {α : Type} (op : Operation α), rule w op → op.NamesRegistered w)
    (op : Operation α) (hop : rule w op) (hleaves : op.LeavesChains w)
    (hfits : (op.perform w).2.Fits) : Methodical settings rule (op.perform w).2 := by
  obtain ⟨⟨a, htallies⟩, _⟩ := hmethodical.firm hrule ((op.spends w).fits hfits)
  exact hmethodical.step op hop
    (op.sameChains_perform htallies (hrule w op hop) hleaves hfits.cells_le)

end Run

/-! ## Careful runs -/

/-- The operation respects the world, and if it is a definition, its value is live and no chain. -/
def Careful (w : World) {α : Type} (op : Operation α) : Prop :=
  op.Respects w ∧ match op with
    | .defineMethod _ _ _ v => w.isLive v = true ∧ w.isMethod v = false
    | _ => True

theorem Careful.namesRegistered {α : Type} {op : Operation α} (hcareful : Careful w op) :
    op.NamesRegistered w :=
  op.namesRegistered_of_respects hcareful.1

/-- A world between operations in which no chain is at two places of a chain. -/
structure Orderly (w : World) : Prop where
  coherent : w.Coherent
  equipped : w.Equipped
  filled : w.Filled
  arranged : w.Arranged

/-- Where references are stored with care, only what is at two places keeps methods from being
arranged. -/
theorem Coherent.arranged (hcoherent : w.Coherent) (htidy : w.Tidy) (hfirm : w.Firm)
    (hparted : w.Parted) : w.Arranged where
  tidy := htidy
  firm := hfirm
  held := hcoherent.held hfirm.ordered
  backed := hcoherent.backed
  parted := hparted

/-- A definition goes to the place that its classes name. -/
theorem Orderly.exists_of_define (horderly : w.Orderly) (hc : c ∈ w.classes)
    (hks : ∀ k ∈ argClasses, k ∈ w.classes) (hfits : w'.Fits)
    (hdefine : (Operation.defineMethod c name argClasses v).perform w = (.ok top, w')) :
    (w.intern (methodName name)).2.Arranged ∧ ∃ w₁ m,
      (w.intern (methodName name)).2.Approaches c (w.methodSymbol name) argClasses.dropLast w₁ m ∧
        w₁.isMethod m = true ∧ w₁.Regrows w' (.adds m argClasses.getLast? v) := by
  have hfits₀ := (spends_of_perform hdefine).fits hfits
  obtain ⟨htidy, hfirm, _, _, hparted⟩ := horderly.arranged
  have hcoherent : (w.intern (methodName name)).2.Coherent :=
    ((Operation.intern (methodName name)).evolves horderly.coherent htidy horderly.equipped trivial
      ⟨hfits₀.cells_le, hfits₀.opened_lt⟩).1.coherent
  have htidy₀ : (w.intern (methodName name)).2.Tidy :=
    ((Operation.intern (methodName name)).advances trivial w).tidy htidy
  exact ⟨hcoherent.arranged htidy₀ (hfirm.intern _ hfits₀.cells_le)
      ((w.sameChains_intern _).parted hparted),
    Action.exists_of_defineMethod hfirm hc hks hfits.cells_le hdefine⟩

/-- What is there before a definition and after it is the same object. -/
theorem Orderly.same (horderly : w.Orderly) (hc : c ∈ w.classes)
    (hks : ∀ k ∈ argClasses, k ∈ w.classes) (hfits : w'.Fits)
    (hdefine : (Operation.defineMethod c name argClasses v).perform w = (.ok top, w'))
    (hx : w.objects.Live x) (hx' : w'.objects.Live x) :
    w'.classOf x = w.classOf x ∧ (w'.isMethod x = true → w.isMethod x = true) := by
  obtain ⟨harranged, w₁, m, happroaches, _, hregrows⟩ :=
    horderly.exists_of_define hc hks hfits hdefine
  exact happroaches.same harranged hc hregrows hfits.cells_le hx hx'

/-- A live value that is no chain does not turn into one. -/
theorem Orderly.not_isMethod (horderly : w.Orderly) (hc : c ∈ w.classes)
    (hks : ∀ k ∈ argClasses, k ∈ w.classes) (hfits : w'.Fits)
    (hdefine : (Operation.defineMethod c name argClasses v).perform w = (.ok top, w'))
    (hlive : w.isLive v = true) (hplain : w.isMethod v = false) : w'.isMethod v = false := by
  refine Bool.eq_false_iff.2 fun hmethod => ?_
  have hv := Arena.contains_iff.1 hlive
  have hmethod₀ := (horderly.same hc hks hfits hdefine hv (live_of_isMethod hmethod)).2 hmethod
  cases hplain.symm.trans hmethod₀

/-- In a careful run no chain is at two places of a chain. -/
theorem Methodical.orderly (hmethodical : Methodical settings Careful w) (hfits : w.Fits) :
    w.Orderly := by
  obtain ⟨hfirm, hfilled⟩ := hmethodical.firm (fun _ _ _ hcareful => hcareful.namesRegistered) hfits
  induction hmethodical with
  | create hcreate =>
      obtain ⟨hcoherent, hequipped⟩ := coherent_create hcreate hfits
      exact ⟨hcoherent, hequipped, hfilled, hcoherent.arranged (tidy_create hcreate) hfirm
        (chainless_create hcreate hfits.cells_le).parted⟩
  | @define w w' c v top name argClasses hmethodical hcareful hc hdefine ih =>
      have hfits₀ := (spends_of_perform hdefine).fits hfits
      obtain ⟨hfirm₀, hfilled₀⟩ :=
        hmethodical.firm (fun _ _ _ hcareful => hcareful.namesRegistered) hfits₀
      have horderly := ih hfits₀ hfirm₀ hfilled₀
      have hevolves := (Operation.defineMethod c name argClasses v).evolves horderly.coherent
        horderly.arranged.tidy horderly.equipped hcareful.1
      rw [hdefine] at hevolves
      obtain ⟨hevolves, -⟩ := hevolves hfits
      have hks := hcareful.namesRegistered
      obtain ⟨harranged, w₁, m, happroaches, _, hregrows⟩ :=
        horderly.exists_of_define hc hks hfits hdefine
      exact ⟨hevolves.coherent, horderly.equipped.evolve hevolves, hfilled,
        hregrows.arranged (happroaches.arranged harranged)
          (horderly.not_isMethod hc hks hfits hdefine hcareful.2.1 hcareful.2.2)⟩
  | @step w hmethodical _ op hcareful hsame ih =>
      have hfits₀ := (op.spends w).fits hfits
      obtain ⟨hfirm₀, hfilled₀⟩ :=
        hmethodical.firm (fun _ _ _ hcareful => hcareful.namesRegistered) hfits₀
      have horderly := ih hfits₀ hfirm₀ hfilled₀
      have hevolves :=
        (op.evolves horderly.coherent horderly.arranged.tidy horderly.equipped hcareful.1 hfits).1
      have htidy := (op.advances hcareful.1.unmarked w).tidy horderly.arranged.tidy
      exact ⟨hevolves.coherent, horderly.equipped.evolve hevolves, hfilled,
        hevolves.coherent.arranged htidy hfirm (hsame.parted horderly.arranged.parted)⟩

end ObjectSystem.World

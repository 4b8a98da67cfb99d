/-
# Runs and what they make

A run is a world that operations have led to from a new one, together with annals: which
live objects are odd, since they were allocated with a number of attributes of their own or
copied from such an object, and which classes were made from which others. Operations may do
anything else, objects may be moved between pools and operations may fail, as long as only
registered classes are used as classes.
-/

import ObjectSystem.Proofs.Growth
import ObjectSystem.Proofs.Reachable

namespace ObjectSystem

open Relation

namespace Operation

variable {α : Type}

/-- Only registered classes come to be used as classes. -/
def NamesRegistered (w : World) : {α : Type} → Operation α → Prop
  | _, allocate o => o.classRef ∈ w.classes
  | _, allocateOf c _ _ | _, cell c _ _ => c ∈ w.classes
  | _, subclass parent _ _ newClasses =>
      parent ∈ w.classes ∧ ∀ l, newClasses = some l → ∀ c ∈ l, c ∈ w.classes
  | _, addSuperclass _ superclass => superclass ∈ w.classes
  | _, setAttrClass _ _ attrClass => attrClass ∈ w.classes
  | _, addSignature _ argClass _ => ∀ c, argClass = some c → c ∈ w.classes
  | _, defineMethod _ _ argClasses _ => ∀ c ∈ argClasses, c ∈ w.classes
  | _, _ => True

/-- New objects may be odd: the operation makes an object with as many attributes as it is
told, or copies an odd one. -/
def MakesOdd (odd : Handle → Prop) : {α : Type} → Operation α → Prop
  | _, allocate _ => True
  | _, shallowCopy x => odd x
  | _, _ => False

/-- The operation has made a class from another, with further attributes. -/
def Derives (c parent : Handle) (newAttrs : List Symbol) :
    {α : Type} → Operation α → Except Error α → Prop
  | _, subclass above _ attrs _, result => result = .ok c ∧ parent = above ∧ newAttrs = attrs
  | _, _, _ => False

end Operation

/-- What has happened in a run. -/
structure Annals where
  /-- Objects that need not have as many attributes as their classes say. -/
  odd : Handle → Prop
  /-- Classes, each with the class that it was made from and the new attributes. -/
  derived : Handle → Handle → List Symbol → Prop

namespace Annals

/-- The annals of a new world: the built-in classes were made from each other as planned. -/
def initial : Annals where
  odd _ := False
  derived c parent newAttrs := ∃ p ∈ ClassPlan.builtin.zipIdx 2,
    c = Builtin.nth p.2 ∧ parent = p.1.parent ∧ newAttrs = p.1.attrs

/-- The annals after one more operation. -/
def after (a : Annals) (w : World) {α : Type} (op : Operation α) : Annals where
  odd x := (op.perform w).2.objects.Live x ∧
    (a.odd x ∨ op.MakesOdd a.odd ∧ ¬ w.objects.Live x)
  derived c parent newAttrs :=
    a.derived c parent newAttrs ∨ op.Derives c parent newAttrs (op.perform w).1

/-- Only operations that make odd objects make objects odd. -/
theorem not_odd_after {a : Annals} {w : World} {x : Handle} {α : Type} {op : Operation α}
    (hx : ¬ a.odd x) (hop : ¬ op.MakesOdd a.odd) : ¬ (a.after w op).odd x :=
  fun ⟨_, h⟩ => h.elim hx fun h => hop h.1

end Annals

namespace World

variable {settings : Settings} {a : Annals} {w w' w'' : World} {c parent x : Handle}
  {newAttrs : List Symbol} {o : Object}

/-- The worlds that operations lead to from a new one while only registered classes are used
as classes, with the annals of the run. -/
inductive Classed (settings : Settings) : Annals → World → Prop where
  | create {w : World} (hcreate : World.create settings = .ok w) : Classed settings .initial w
  | step {a : Annals} {w : World} (hclassed : Classed settings a w) {α : Type} (op : Operation α)
      (hnames : op.NamesRegistered w) : Classed settings (a.after w op) (op.perform w).2

/-- A class has the attributes of another, and further ones behind them. -/
def Derived (w : World) (c parent : Handle) (newAttrs : List Symbol) : Prop :=
  c ∈ w.classes ∧ parent ∈ w.classes ∧
    ∃ above d, w.Describes parent above ∧ w.Describes c d ∧ above.Extends d newAttrs

theorem Derived.extend (hderived : w.Derived c parent newAttrs) (hextends : w.Extends w') :
    w'.Derived c parent newAttrs := by
  obtain ⟨hc, hparent, above, d, habove, hd, hattrs⟩ := hderived
  obtain ⟨above', habove', hgrows⟩ := hextends.described parent hparent above habove
  obtain ⟨d', hd', hgrows'⟩ := hextends.described c hc d hd
  exact ⟨hextends.classes c hc, hextends.classes parent hparent, above', d', habove', hd',
    hattrs.grow hgrows hgrows'⟩

/-- What the annals say is so, and the classes are in order. -/
structure Tallies (w : World) (a : Annals) : Prop where
  ordered : w.Ordered
  rooted : w.Rooted
  bare : w.Bare Builtin.classClass
  builtin : ∀ c ∈ Builtin.classes, c ∈ w.classes
  shapely : w.Shapely a.odd
  derived : ∀ c parent newAttrs, a.derived c parent newAttrs → w.Derived c parent newAttrs

/-- What operations may name. -/
def naming (w : World) : Policy where
  admits c _ := c ∈ w.classes
  declares c := c ∈ w.classes

theorem names_naming (w : World) : w.naming.Names w where
  admits _ _ hc := hc
  declares _ hc := hc

theorem generous_naming (w : World) : w.naming.Generous :=
  ⟨trivial, trivial, trivial, trivial, trivial, trivial⟩

theorem Tallies.extend {a' : Annals} (htallies : w.Tallies a) (hextends : w.Extends w')
    (hshapely : w'.Shapely a'.odd)
    (hderived : ∀ c parent newAttrs, a'.derived c parent newAttrs →
      a.derived c parent newAttrs ∨ w'.Derived c parent newAttrs) : w'.Tallies a' where
  ordered := hextends.ordered
  rooted := hextends.rooted htallies.rooted
  bare := htallies.bare.extend htallies.ordered hextends
  builtin c hc := hextends.classes c (htallies.builtin c hc)
  shapely := hshapely
  derived c parent newAttrs h := by
    rcases hderived c parent newAttrs h with h | h
    · exact (htallies.derived c parent newAttrs h).extend hextends
    · exact h

theorem Tallies.standard (htallies : w.Tallies a) : w.naming.Standard :=
  fun c hc _ _ _ _ => htallies.builtin c hc

/-- An operation that makes no class and no odd object goes into the annals as it is. -/
theorem Tallies.develop {α : Type} (htallies : w.Tallies a) (op : Operation α)
    (hdevelops : w.Develops (op.perform w).2)
    (hnone : ∀ c parent newAttrs, ¬ op.Derives c parent newAttrs (op.perform w).1) :
    (op.perform w).2.Tallies (a.after w op) ∧ w.Extends (op.perform w).2 := by
  refine ⟨htallies.extend hdevelops.toExtends ?_ fun c parent newAttrs h => ?_,
    hdevelops.toExtends⟩
  · exact (hdevelops.shapely _ htallies.shapely).mono fun x hx hodd => ⟨hx, Or.inl hodd⟩
  · exact h.imp id fun h => absurd h (hnone c parent newAttrs)

/-- A new object goes into the annals if it may be odd, or is not odd. -/
theorem Tallies.add {α : Type} (htallies : w.Tallies a) (op : Operation α)
    (hadds : w.Adds (op.perform w).2 o) (hclass : o.classRef ∈ w.classes)
    (hnew : op.MakesOdd a.odd ∨ ∀ d, w.Describes o.classRef d → o.attrs.size = d.attrCount)
    (hnone : ∀ c parent newAttrs, ¬ op.Derives c parent newAttrs (op.perform w).1) :
    (op.perform w).2.Tallies (a.after w op) ∧ w.Extends (op.perform w).2 := by
  have hextends := hadds.extends htallies.ordered
  refine ⟨htallies.extend hextends ?_ fun c parent newAttrs h => ?_, hextends⟩
  · refine hadds.shapely htallies.ordered hclass htallies.shapely
      (fun x hx hodd => ⟨hx, Or.inl hodd⟩) (hnew.imp (fun hodd x hx hstale => ?_) id)
    exact ⟨hx, Or.inr ⟨hodd, hstale⟩⟩
  · exact h.imp id fun h => absurd h (hnone c parent newAttrs)

/-- A copy has as many attributes as what it is copied from. -/
theorem Tallies.copy (htallies : w.Tallies a) {α : Type} (op : Operation α)
    (hop : (op.perform w).2 = ((Action.shallowCopy x).perform w).2)
    (hcells : (op.perform w).2.objects.cells.size ≤ 2 ^ 32)
    (hodd : a.odd x → op.MakesOdd a.odd)
    (hnone : ∀ c parent newAttrs, ¬ op.Derives c parent newAttrs (op.perform w).1) :
    (op.perform w).2.Tallies (a.after w op) ∧ w.Extends (op.perform w).2 := by
  cases ho : w.objects.get? x with
  | none =>
      have hsame : (op.perform w).2 = w := by
        rw [hop]
        unfold Action.shallowCopy
        rw [Action.perform_query_bind, World.object_eq_error ho]
      exact htallies.develop op (by rw [hsame]; exact .refl htallies.ordered) hnone
  | some o =>
      obtain ⟨hclass, hshape⟩ := htallies.shapely x o ho
      have hadds : w.Adds _ _ :=
        Action.adds_shallowCopy htallies.ordered htallies.bare.registered ho (hop ▸ hcells)
      rw [← hop] at hadds
      refine htallies.add op hadds hclass ?_ hnone
      by_cases hx : a.odd x
      · exact Or.inl (hodd hx)
      · exact Or.inr (hshape hx)

/-- A subclass goes into the annals with its parent. -/
theorem Tallies.subclass {name : String} {newClasses : Option (List Handle)}
    (htallies : w.Tallies a) (hparent : parent ∈ w.classes)
    (hcells : ((Operation.subclass parent name newAttrs newClasses).perform
      w).2.objects.cells.size ≤ 2 ^ 32) :
    ((Operation.subclass parent name newAttrs newClasses).perform w).2.Tallies
        (a.after w (.subclass parent name newAttrs newClasses)) ∧
      w.Extends ((Operation.subclass parent name newAttrs newClasses).perform w).2 := by
  let op := Operation.subclass parent name newAttrs newClasses
  obtain ⟨e, hperform⟩ | ⟨c, w', above, d, hperform, hnew, hclasses, habove, hd, hattrs, hextends,
      hshapely⟩ := Action.subclass_extends htallies.ordered hparent hcells
  · have hop : op.perform w = (.error e, w) := hperform
    refine htallies.develop op (by rw [hop]; exact .refl htallies.ordered) fun _ _ _ h => ?_
    cases (congrArg Prod.fst hop).symm.trans h.1
  · have hop : op.perform w = (.ok c, w') := hperform
    have hafter : (op.perform w).2 = w' := congrArg Prod.snd hop
    have hextends' : w.Extends (op.perform w).2 := hafter ▸ hextends
    refine ⟨htallies.extend hextends' ?_ fun c' parent' newAttrs' h => h.imp id ?_, hextends'⟩
    · refine Shapely.mono ?_ fun x hx hodd => ⟨hx, Or.inl hodd⟩
      exact hafter ▸ hshapely htallies.bare _ htallies.shapely
    · rintro ⟨hc, rfl, rfl⟩
      cases (congrArg Prod.fst hop).symm.trans hc
      rw [hafter]
      obtain ⟨above', habove', hgrows⟩ := hextends.described _ hparent above habove
      refine ⟨hclasses ▸ Array.mem_push_self, hextends.classes _ hparent, above', d, habove', hd,
        hattrs.grow hgrows (.refl d)⟩

/-- The annals go on being right, whatever the operation, and the classes keep what they
have. -/
theorem Tallies.perform {α : Type} (htallies : w.Tallies a) (op : Operation α)
    (hnames : op.NamesRegistered w) (hcells : (op.perform w).2.objects.cells.size ≤ 2 ^ 32) :
    (op.perform w).2.Tallies (a.after w op) ∧ w.Extends (op.perform w).2 := by
  have hordered := htallies.ordered
  have htrims : ∀ {β : Type} (op : Operation β), op.action.Keeps World.Trims →
      (∀ c parent newAttrs, ¬ op.Derives c parent newAttrs (op.perform w).1) →
      (op.perform w).2.Tallies (a.after w op) ∧ w.Extends (op.perform w).2 :=
    fun op hkeeps hnone => htallies.develop op (hordered.trim (hkeeps w)) hnone
  have hroutine : ∀ {β : Type} (op : Operation β), op.Within w.naming → ¬ op.IsRaw →
      (op.perform w).2.objects.cells.size ≤ 2 ^ 32 →
      (∀ c parent newAttrs, ¬ op.Derives c parent newAttrs (op.perform w).1) →
      (op.perform w).2.Tallies (a.after w op) ∧ w.Extends (op.perform w).2 :=
    fun op hwithin hraw hcells hnone => htallies.develop op
      ((op.routine_action htallies.standard hwithin hraw (op.licensed w.generous_naming)).develops
        hordered w.names_naming hcells)
      hnone
  cases op with
  | allocate o =>
      exact htallies.add _ (Action.adds_allocate hordered hnames _ hcells) hnames (Or.inl trivial)
        fun _ _ _ => id
  | shallowCopy x => exact htallies.copy _ rfl hcells id fun _ _ _ => id
  | subclass parent name newAttrs newClasses => exact htallies.subclass hnames.1 hcells
  | openScope => exact htrims _ Action.trims_openScope fun _ _ _ => id
  | closeScope id' result => exact htrims _ (Action.trims_closeScope id' result) fun _ _ _ => id
  | releasePool id' => exact htrims _ (Action.trims_releasePool id') fun _ _ _ => id
  | addToPool x id' => exact htrims _ (Action.trims_addToPool x id') fun _ _ _ => id
  | removeFromPool x id' => exact htrims _ (Action.trims_removeFromPool x id') fun _ _ _ => id
  | addRoot x => exact htrims _ (Action.keeps_modify fun _ => .of_eq rfl rfl rfl) fun _ _ _ => id
  | removeRoot x => exact htrims _ (Action.keeps_modify fun _ => .of_eq rfl rfl rfl) fun _ _ _ => id
  | _ => exact hroutine _ hnames id hcells fun _ _ _ => id

end World

end ObjectSystem

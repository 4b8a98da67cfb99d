/-
# Declared classes are kept

A class is declared for each attribute of the instances of a class. A value is held against it
only once, when it is written. `World.Typed` says that every value still suits: it is the null
object, or its class lies below the declared one.

Three things keep it so. Objects do not change their classes, classes only ever get further
superclasses, and what is declared for a class stays, unless somebody declares something else.
`World.Retains` says this of two worlds, and allows for values that suit when they are written.
That a value has not been freed in between is what coherence adds.
-/

import ObjectSystem.Proofs.Shape

namespace ObjectSystem

open Relation

namespace Object

/-- Two states of the object under a handle between which no attribute has got a value, apart
from those that are written, and no class has been declared for an attribute. -/
structure Refills (writes : Handle → Nat → Handle → Prop) (x : Handle) (o o' : Object) : Prop where
  classRef_eq : o'.classRef = o.classRef
  attrs : ∀ n y, (Slot.attr x n).peek? o' = some (some y) →
    (Slot.attr x n).peek? o = some (some y) ∨ writes x n y
  declared : o.SameDeclared o'

/-- As `Object.Refills`, and nothing is lost that an object keeps while a world is trimmed. -/
structure Retouches (writes : Handle → Nat → Handle → Prop) (x : Handle) (o o' : Object) : Prop
    extends Stays o o', Refills writes x o o'

variable {writes : Handle → Nat → Handle → Prop} {x : Handle} {o o' : Object}

theorem peek?_attr_congr (hattrs : o'.attrs = o.attrs) (x : Handle) (n : Nat) :
    (Slot.attr x n).peek? o' = (Slot.attr x n).peek? o := by
  cases n with
  | zero => rfl
  | succ n => simp only [Slot.peek?, hattrs]

/-- Nothing is written if attributes and payload stay. -/
theorem refills_of_eq (hclassRef : o'.classRef = o.classRef) (hattrs : o'.attrs = o.attrs)
    (hpayload : o'.payload = o.payload) : Refills writes x o o' :=
  ⟨hclassRef, fun n _ hy => Or.inl (peek?_attr_congr hattrs x n ▸ hy),
    sameDeclared_of_contents (Or.inl hpayload)⟩

instance : Leeway (Retouches writes) where
  stays h := h.toStays
  trans hfirst hsecond := by
    refine ⟨hfirst.toStays.trans hsecond.toStays, fun n y hy => ?_,
      hfirst.declared.trans hsecond.declared⟩
    exact (hsecond.attrs n y hy).elim (hfirst.attrs n y) Or.inr
  setHeader x o h hpinned :=
    { o.stays_setHeader h hpinned, refills_of_eq (x := x) rfl rfl rfl with }

theorem sameDeclared_storeIn (o : Object) (s : Slot) (value : Option Handle) :
    o.SameDeclared (s.storeIn value o) := by
  intro d hd
  cases s with
  | attr x index => cases index <;> exact ⟨d, hd, rfl⟩
  | classAttr x index =>
      simp only [Slot.storeIn, hd]
      exact ⟨_, rfl, rfl⟩
  | element | binding | signature =>
      simp only [Slot.storeIn, hd]
      exact ⟨d, rfl, rfl⟩

/-- A store into another kind of slot leaves the attributes alone. -/
theorem retouches_storeIn {s : Slot} (hs : ¬ s.IsAttr) (value : Option Handle) (x : Handle)
    (o : Object) : Retouches writes x o (s.storeIn value o) := by
  have hattrs : (s.storeIn value o).attrs = o.attrs := by
    cases s with
    | attr => exact absurd trivial hs
    | element | binding | classAttr | signature =>
        simp only [Slot.storeIn]
        cases o.payload <;> rfl
  exact ⟨o.stays_storeIn s value, fun n _ hy => Or.inl (peek?_attr_congr hattrs x n ▸ hy),
    o.sameDeclared_storeIn s value⟩

theorem retouches_addName (x : Handle) (name : Symbol) (o : Object) :
    Retouches writes x o { o with
      payload := match o.payload with
        | .environment f => .environment (f.addName name)
        | other => other } := by
  refine ⟨o.stays_addName name, fun n y hy => Or.inl ?_,
    sameDeclared_of_contents (o.addName_contents name)⟩
  cases n <;> exact hy

/-- An attribute that an object does not have cannot be stored into. -/
theorem storeIn_attr_of_absent {n : Nat} (habsent : (Slot.attr x n).peek? o = none)
    (value : Option Handle) : (Slot.attr x n).storeIn value o = o := by
  cases n with
  | zero => rfl
  | succ n =>
      have hle := Array.getElem?_eq_none_iff.1 habsent
      simp only [Slot.storeIn, setAttr, Array.setIfInBounds_eq_of_size_le hle]

/-- A store into an attribute writes it. -/
theorem retouches_storeIn_attr (x : Handle) (n : Nat) (value : Option Handle) (o : Object) :
    Retouches (fun z m y => z = x ∧ m = n ∧ value = some y) x o
      ((Slot.attr x n).storeIn value o) := by
  refine ⟨o.stays_storeIn _ value, fun m y hy => ?_, o.sameDeclared_storeIn _ value⟩
  cases hold : (Slot.attr x n).peek? o with
  | none => exact Or.inl (storeIn_attr_of_absent hold value ▸ hy)
  | some old =>
      rw [Slot.peek?_storeIn (t := .attr x m) hold rfl] at hy
      split at hy
      · next heq =>
          cases heq
          exact Or.inr ⟨rfl, rfl, Option.some.inj hy⟩
      · exact Or.inl hy

end Object

namespace World

variable {w w' : World} {writes : Handle → Nat → Handle → Prop} {c x y : Handle} {n : Nat}
  {o : Object}

/-- A value may stand at a place of the instances of a class: it is the null object, or it is
live and belongs to a class below the one that is declared for the place. -/
def Suits (w : World) (c : Handle) (n : Nat) (y : Handle) : Prop :=
  y = Builtin.null ∨ ∃ p d t, w.objects.get? y = some p ∧ c ∈ w.classes ∧ w.Describes c d ∧
    d.attrClass? n = some t ∧ ReflTransGen w.Above p.classRef t

/-- All values of attributes suit. -/
def Typed (w : World) : Prop :=
  ∀ x n y o, w.objects.get? x = some o → (Slot.attr x n).peek? o = some (some y) →
    w.Suits o.classRef n y

/-- Between two worlds the attributes of objects have got only values that suit, or that an
object of the same class had there before; live objects have kept their classes, and classes
what is declared for them. -/
structure Retains (w w' : World) : Prop where
  attrs : ∀ x n y o', w'.objects.get? x = some o' → (Slot.attr x n).peek? o' = some (some y) →
    w.Suits o'.classRef n y ∨ ∃ z o, w.objects.get? z = some o ∧ o.classRef = o'.classRef ∧
      (Slot.attr z n).peek? o = some (some y)
  classRef_eq : ∀ x o o', w.objects.get? x = some o → w'.objects.get? x = some o' →
    o'.classRef = o.classRef
  declared : ∀ c d d', w.Describes c d → w'.Describes c d' → d'.attrClasses = d.attrClasses

/-- The class of an object is registered. -/
theorem Coherent.classRef_mem (hcoherent : w.Coherent) (ho : w.objects.get? x = some o) :
    o.classRef ∈ w.classes :=
  hcoherent.linked.classes_known x o ho _ List.mem_cons_self

/-- Values go on suiting as the classes grow. -/
theorem Typed.retain (htyped : w.Typed) (hcoherent : w.Coherent) (hordered : w.Ordered)
    (hretains : w.Retains w') (hextends : w.Extends w') (hcoherent' : w'.Coherent) :
    w'.Typed := by
  intro x n y o' ho' hy
  have hsuits : w.Suits o'.classRef n y := by
    rcases hretains.attrs x n y o' ho' hy with hsuits | ⟨z, o, ho, hclass, hy⟩
    · exact hsuits
    · exact hclass ▸ htyped z n y o ho hy
  rcases hsuits with hnull | ⟨p, d, t, hp, hc, hd, ht, hbelow⟩
  · exact Or.inl hnull
  · obtain ⟨p', hp'⟩ := hcoherent'.linked.held_live (.attr x n) y ⟨o', ho', hy⟩
    obtain ⟨d', hd', _⟩ := hextends.described _ hc d hd
    have hclass := hretains.classRef_eq y p p' hp hp'
    have hmem := hcoherent.classRef_mem hp
    refine Or.inr ⟨p', d', t, hp', hextends.classes _ hc, hd', ?_, ?_⟩
    · cases n with
      | zero => exact ht
      | succ n => exact (congrArg (·[n]?) (hretains.declared _ d d' hd hd')).trans ht
    · rw [hclass]
      exact hextends.reach hordered hmem hbelow

/-- The object has the values of an object of its class, or none. -/
def Imitates (w : World) (x : Handle) (o : Object) : Prop :=
  ∀ n y, (Slot.attr x n).peek? o = some (some y) →
    ∃ z p, w.objects.get? z = some p ∧ p.classRef = o.classRef ∧
      (Slot.attr z n).peek? p = some (some y)

/-- A world retains what it had if new objects imitate others and what was written suits. -/
theorem retains_of_refills
    (hback : ∀ x o', w'.objects.get? x = some o' →
      w.objects.get? x = none ∧ w.Imitates x o' ∨
        ∃ o, w.objects.get? x = some o ∧ o.Refills writes x o')
    (hwrites : ∀ x n y o, w.objects.get? x = some o → writes x n y → w.Suits o.classRef n y) :
    w.Retains w' := by
  have hkept : ∀ x o o', w.objects.get? x = some o → w'.objects.get? x = some o' →
      o.Refills writes x o' := by
    intro x o o' ho ho'
    rcases hback x o' ho' with ⟨hnew, _⟩ | ⟨p, hp, hrefills⟩
    · cases hnew.symm.trans ho
    · cases hp.symm.trans ho
      exact hrefills
  refine ⟨fun x n y o' ho' hy => ?_, fun x o o' ho ho' => (hkept x o o' ho ho').classRef_eq,
    fun c d d' hd hd' => ?_⟩
  · rcases hback x o' ho' with ⟨_, himitates⟩ | ⟨o, ho, hrefills⟩
    · exact Or.inr (himitates n y hy)
    · rcases hrefills.attrs n y hy with hy | hy
      · exact Or.inr ⟨x, o, ho, hrefills.classRef_eq.symm, hy⟩
      · exact Or.inl (hrefills.classRef_eq ▸ hwrites x n y o ho hy)
  · obtain ⟨o, ho, _, hpayload⟩ := hd
    obtain ⟨o', ho', _, hpayload'⟩ := hd'
    obtain ⟨d'', hd'', hsame⟩ := (hkept c o o' ho ho').declared d hpayload
    cases hpayload'.symm.trans hd''
    exact hsame

theorem TrimsBy.retains (htrims : w.TrimsBy (Object.Retouches writes) w')
    (hwrites : ∀ x n y o, w.objects.get? x = some o → writes x n y → w.Suits o.classRef n y) :
    w.Retains w' :=
  retains_of_refills (fun x o' ho' => by
    obtain ⟨o, ho, hretouches⟩ := htrims.objects.back x o' ho'
    exact Or.inr ⟨o, ho, hretouches.toRefills⟩) hwrites

/-- The world was trimmed, and no attribute was written. -/
abbrev TrimsUnwritten (w w' : World) : Prop :=
  w.TrimsBy (Object.Retouches fun _ _ _ => False) w'

theorem TrimsBy.retains_of_unwritten (htrims : w.TrimsUnwritten w') : w.Retains w' :=
  htrims.retains fun _ _ _ _ _ h => h.elim

theorem Retains.refl (w : World) : w.Retains w :=
  TrimsBy.retains_of_unwritten (refl_of (TrimsBy _) w)

/-- The handle of the new object was not live, so what was there has not changed its class. -/
theorem AddsBy.retains (hadds : w.AddsBy (Object.Retouches fun _ _ _ => False) w' o)
    (himitates : ∀ x, w.Imitates x o) : w.Retains w' := by
  rcases hadds with htrims | ⟨x, own, w₁, w₂, hbefore, hadmits, hafter, hstale⟩
  · exact htrims.retains_of_unwritten
  · refine retains_of_refills (fun z o' ho' => ?_) fun _ _ _ _ _ (h : False) => h.elim
    obtain ⟨o₂, ho₂, hlast⟩ := hafter.objects.back z o' ho'
    rcases hadmits.puts.back ho₂ with ⟨rfl, rfl⟩ | ⟨_, ho₂⟩
    · refine Or.inl ⟨Option.eq_none_iff_forall_ne_some.2 fun p hp => hstale ⟨p, hp⟩,
        fun n y hy => ?_⟩
      obtain ⟨z', p, hp, hclass, hheld⟩ :=
        himitates z n y ((hlast.attrs n y hy).resolve_right id)
      exact ⟨z', p, hp, hclass.trans hlast.classRef_eq.symm, hheld⟩
    · obtain ⟨o₁, ho₁, hfirst⟩ := hbefore.objects.back z o₂ ho₂
      exact Or.inr ⟨o₁, ho₁, (Object.Leeway.trans hfirst hlast).toRefills⟩

theorem Admits.adds {S : Handle → Object → Object → Prop} [Object.Leeway S]
    (hadmits : w.Admits w' x o) : w.AddsBy S w' o :=
  Or.inr ⟨x, o.header.ownership, w, w', refl_of (TrimsBy S) w, hadmits, refl_of (TrimsBy S) w',
    fun ⟨_, hp⟩ => by cases hadmits.new.symm.trans hp⟩

/-- One object may change if it gets no values and nothing is declared. -/
theorem retains_modifyObject {change : Object → Object} (w : World) (x : Handle)
    (hchange : ∀ o : Object, o.Refills (fun _ _ _ => False) x (change o)) :
    w.Retains (w.modifyObject x change) := by
  refine retains_of_refills (fun z o' ho' => ?_) fun _ _ _ _ _ (h : False) => h.elim
  rw [modifyObject, Arena.get?_modify] at ho'
  split at ho'
  · next heq =>
      obtain ⟨o, ho, rfl⟩ := Option.map_eq_some_iff.1 ho'
      exact Or.inr ⟨o, ho, heq ▸ hchange o⟩
  · exact Or.inr ⟨o', ho', Object.refills_of_eq rfl rfl rfl⟩

theorem retains_modifyDescriptor {change : Class → Class} (w : World) (c : Handle)
    (hchange : ∀ d : Class, (change d).attrClasses = d.attrClasses) :
    w.Retains (w.modifyDescriptor c change) :=
  w.retains_modifyObject c fun o =>
    ⟨rfl, fun n _ hy => by cases n <;> exact Or.inl hy, o.sameDeclared_changeDescriptor hchange⟩

/-- An object that has been made with empty attributes has no values. -/
theorem imitates_of_replicate (w : World) (x : Handle) {attrCount : Nat}
    (hattrs : o.attrs = Array.replicate attrCount none) : w.Imitates x o := by
  intro n y hy
  cases n with
  | zero => cases hy
  | succ n =>
      rw [Slot.peek?, hattrs, Array.getElem?_replicate] at hy
      split at hy <;> cases hy

theorem imitates_duplicate (ho : w.objects.get? x = some o) (z : Handle) :
    w.Imitates z o.duplicate :=
  fun n y hy => ⟨x, o, ho, rfl, by cases n <;> exact hy⟩

/-- A value that has passed the check suits. -/
theorem suits_of_checkAttr {s : Symbol} {place : UInt32} {d : Class} (hcoherent : w.Coherent)
    (hordered : w.Ordered) (hc : c ∈ w.classes) (hd : w.Describes c d)
    (hslot : d.slot s = .inInstance place)
    (hcheck : w.checkAttr c place.toNat (some y) = .ok ()) : w.Suits c place.toNat y := by
  obtain ⟨_, _, hlaid⟩ := (hordered.orders hc hd).laid
  have hlaid := hlaid.wellLaid
  obtain ⟨t, ht⟩ : ∃ t, d.attrClass? place.toNat = some t := by
    obtain ⟨hpos, hle⟩ := hlaid.place_mem s place hslot
    obtain ⟨index, hindex⟩ := Nat.exists_eq_add_of_le' hpos
    rw [hindex] at hle ⊢
    exact ⟨_, Array.getElem?_eq_getElem (hlaid.attrClasses_size ▸ hle)⟩
  by_cases hnull : y = Builtin.null
  · exact Or.inl hnull
  · unfold checkAttr at hcheck
    simp only [hd.descriptor_eq, ht, bind, Except.bind] at hcheck
    rw [if_neg (by simpa [isNull] using hnull)] at hcheck
    cases hp : w.objects.get? y with
    | none =>
        rw [isAssignable, classOf, object_eq_error hp] at hcheck
        cases hcheck
    | some p =>
        obtain ⟨below, hbelow, hiff⟩ := hordered.isAssignableClass_eq (hcoherent.classRef_mem hp) t
        rw [isAssignable, classOf_eq_ok hp] at hcheck
        simp only [bind, Except.bind, hbelow] at hcheck
        cases below with
        | false =>
            simp only [Bool.not_false, if_true] at hcheck
            split at hcheck <;> cases hcheck
        | true => exact Or.inr ⟨p, d, t, hp, hc, hd, ht, hiff.1 rfl⟩

end World

namespace Action

open World

variable {α : Type} {w w' : World} {c x : Handle} {payload : Payload} {length : Nat}

theorem retains_allocateOf (hordered : w.Ordered) (hc : c ∈ w.classes)
    (hcells : ((allocateOf c payload length).perform w).2.objects.cells.size ≤ 2 ^ 32) :
    w.Retains ((allocateOf c payload length).perform w).2 := by
  obtain ⟨d, hd⟩ := hordered.described c hc
  unfold allocateOf at hcells ⊢
  rw [perform_query_bind, hd.describes.descriptor_eq] at hcells ⊢
  exact (adds_allocate hordered hc _ hcells).retains fun x => w.imitates_of_replicate x rfl

theorem retains_subclass {parent : Handle} {name : String} {newAttrs : List Symbol}
    {newClasses : Option (List Handle)} (hordered : w.Ordered)
    (hcells : ((subclass parent name newAttrs newClasses).perform w).2.objects.cells.size ≤
      2 ^ 32) :
    w.Retains ((subclass parent name newAttrs newClasses).perform w).2 := by
  rcases subclass_cases hordered hcells with ⟨_, hfails⟩ | ⟨_, _, c, w', _, _, hperform, hadmits⟩
  · rw [hfails]
    exact .refl w
  · have hretains := hadmits.adds.retains fun x => w.imitates_of_replicate x rfl
    rw [hperform]
    exact ⟨hretains.attrs, hretains.classRef_eq, hretains.declared⟩

theorem retains_shallowCopy (hordered : w.Ordered) (hc : c ∈ w.classes)
    (hcells : ((shallowCopy x).perform w).2.objects.cells.size ≤ 2 ^ 32) :
    w.Retains ((shallowCopy x).perform w).2 := by
  cases ho : w.objects.get? x with
  | none =>
      unfold shallowCopy
      rw [perform_query_bind, World.object_eq_error ho]
      exact .refl w
  | some o => exact (adds_shallowCopy hordered hc ho hcells).retains (imitates_duplicate ho)

theorem retains_addSuperclass (w : World) (c s : Handle) :
    w.Retains ((addSuperclass c s).perform w).2 := by
  rcases addSuperclass_cases c s w with ⟨_, hfails⟩ | ⟨_, hlinks⟩
  · rw [hfails]
    exact .refl w
  · rw [hlinks]
    refine w.retains_modifyDescriptor c fun d => ?_
    unfold Class.addSuperclass
    split <;> rfl

theorem retains_classAttrIndex (w : World) (c : Handle) (s : Symbol) :
    w.Retains ((classAttrIndex c s).perform w).2 := by
  rcases classAttrIndex_cases c s w with ⟨_, hsame⟩ | ⟨_, _, ⟨_, _, hsame⟩ | ⟨_, hadds⟩⟩
  · rw [hsame]
    exact .refl w
  · rw [hsame]
    exact .refl w
  · rw [hadds]
    exact w.retains_modifyDescriptor c fun _ => rfl

/-- A value is written only after it has passed the check. -/
theorem retains_setAttr (hcoherent : w.Coherent) (hordered : w.Ordered) (x : Handle) (s : Symbol)
    (value : Option Handle) : w.Retains ((setAttr x s value).perform w).2 := by
  cases ho : w.objects.get? x with
  | none =>
      unfold setAttr
      rw [perform_query_bind, classOf, World.object_eq_error ho]
      exact .refl w
  | some o =>
      have hc := hcoherent.classRef_mem ho
      obtain ⟨l, hl, hlocates⟩ := hordered.resolveAttr_locates hc s
      unfold setAttr
      rw [perform_query_bind, classOf_eq_ok ho]
      simp only
      rw [perform_query_bind, hl]
      cases hlocates with
      | absent | ofClass | inClass => exact .refl w
      | @inInstance d place hd hslot =>
          simp only
          rw [perform_query_bind]
          cases hcheck : w.checkAttr o.classRef place.toNat value with
          | error e => exact .refl w
          | ok _ =>
              have hstore := Object.retouches_storeIn_attr x place.toNat value
              refine (trims_set hstore w).retains fun z n y p hp hwrites => ?_
              obtain ⟨rfl, rfl, rfl⟩ := hwrites
              cases ho.symm.trans hp
              exact suits_of_checkAttr hcoherent hordered hc hd hslot hcheck

end Action

end ObjectSystem

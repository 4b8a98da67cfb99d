/-
# Objects and the layout of their classes

However a world has been used, as long as only registered classes were used as classes, every
registered class is well laid, a class made from another has its attributes where that one has
them, and an object has as many places as its class says, unless it was allocated with a number
of places of its own or copied from such an object. So reading and writing attributes stays
within objects and classes: no index is ever out of bounds.

An attribute is found in three ways, and each has its reason to be in bounds: a place of the
instances is at most their number, a value held by a class has an index below their number, and
a write goes on only after its slot has been read.
-/

import ObjectSystem.Proofs.Bootstrap

namespace ObjectSystem

open Relation

section Results

variable {α β : Type}

/-- The result is not that an index is out of bounds. -/
def InBounds (result : Except Error α) : Prop :=
  ∀ index length, result ≠ .error (.indexOutOfBounds index length)

theorem inBounds_ok (a : α) : InBounds (.ok a) :=
  nofun

theorem inBounds_telling {name : Option String} {error : String → Error}
    (herror : ∀ name index length, error name ≠ .indexOutOfBounds index length) :
    InBounds (.error (World.telling name error) : Except Error α) :=
  fun index length h => World.telling_ne (e := .indexOutOfBounds index length) nofun
    (fun name => herror name index length) (Except.error.inj h)

/-- An error is the same error whatever it keeps from being computed. -/
theorem InBounds.error {e : Error} (he : InBounds (.error e : Except Error α)) :
    InBounds (.error e : Except Error β) := by
  intro index length h
  cases h
  exact he index length rfl

theorem inBounds_bind {m : Except Error α} {f : α → Except Error β} (hm : InBounds m)
    (hf : ∀ a, m = .ok a → InBounds (f a)) : InBounds (m >>= f) := by
  cases m with
  | error e => exact hm.error
  | ok a => exact hf a rfl

end Results

namespace World

theorem inBounds_object (w : World) (x : Handle) : InBounds (w.object x) := by
  unfold object
  split <;> exact nofun

theorem inBounds_ownership (w : World) (x : Handle) : InBounds (w.ownership x) :=
  inBounds_bind (w.inBounds_object x) fun _ _ => inBounds_ok _

theorem inBounds_classOf (w : World) (x : Handle) : InBounds (w.classOf x) :=
  inBounds_bind (w.inBounds_object x) fun _ _ => inBounds_ok _

theorem inBounds_descriptor (w : World) (c : Handle) : InBounds (w.descriptor c) := by
  refine inBounds_bind (w.inBounds_object c) fun o _ => ?_
  split
  · exact inBounds_ok _
  · exact inBounds_telling fun _ _ _ => nofun

end World

namespace Action

variable {α β : Type}

/-- The action does not fail because of an index. -/
def StaysInBounds (action : Action α) : Prop :=
  ∀ w, InBounds (action.perform w).1

theorem staysInBounds_pure (a : α) : StaysInBounds (pure a) :=
  fun _ => inBounds_ok a

theorem staysInBounds_query {question : World → Except Error α}
    (hquestion : ∀ w, InBounds (question w)) : StaysInBounds (query question) :=
  hquestion

theorem staysInBounds_modify (f : World → World) : StaysInBounds (modify f) :=
  fun _ => inBounds_ok ()

theorem staysInBounds_bind {m : Action α} {f : α → Action β} (hm : m.StaysInBounds)
    (hf : ∀ a, (f a).StaysInBounds) : (m >>= f).StaysInBounds := by
  intro w
  have hfirst := hm w
  rw [perform_bind]
  cases hperform : m.perform w with
  | mk result w' =>
      cases result with
      | ok a => exact hf a w'
      | error e =>
          rw [hperform] at hfirst
          exact hfirst.error

theorem staysInBounds_forM {action : Handle → Action Unit}
    (haction : ∀ x, (action x).StaysInBounds) (value : Option Handle) :
    StaysInBounds (value.forM action) := by
  cases value with
  | none => exact staysInBounds_pure ()
  | some x => exact haction x

/-! ## The barrier -/

theorem staysInBounds_addToPool (x : Handle) (id : PoolId) : (addToPool x id).StaysInBounds := by
  unfold addToPool
  refine staysInBounds_bind (fun _ => inBounds_ok _) fun w => ?_
  have hrest : StaysInBounds (do
      modify fun w => { w with pools := w.pools.modify id (·.insert x) }
      let _ ← query (·.object x)
      modify (·.setOwnership x (.ofPool id)) : Action Unit) :=
    staysInBounds_bind (staysInBounds_modify _) fun _ =>
      staysInBounds_bind (staysInBounds_query fun w => w.inBounds_object x) fun _ =>
        staysInBounds_modify _
  split
  · exact staysInBounds_bind (fun _ => nofun) fun _ => hrest
  · exact hrest

theorem staysInBounds_removeFromPool (x : Handle) (id : PoolId) :
    (removeFromPool x id).StaysInBounds := by
  unfold removeFromPool
  refine staysInBounds_bind (fun _ => inBounds_ok _) fun w => ?_
  split
  · exact fun _ => nofun
  · split
    · exact fun _ => nofun
    · exact staysInBounds_modify _

theorem staysInBounds_promote (x : Handle) : (promote x).StaysInBounds :=
  staysInBounds_bind (staysInBounds_addToPool x _) fun _ => staysInBounds_modify _

theorem staysInBounds_claim (x : Handle) : (claim x).StaysInBounds := by
  unfold claim
  refine staysInBounds_bind (staysInBounds_query fun w => w.inBounds_ownership x) fun own => ?_
  cases own with
  | pool id =>
      exact staysInBounds_bind (staysInBounds_removeFromPool x id) fun _ => staysInBounds_modify _
  | single => exact staysInBounds_promote x
  | shared => exact staysInBounds_pure ()

theorem staysInBounds_letGo (x : Handle) : (letGo x).StaysInBounds := by
  unfold letGo
  refine staysInBounds_bind (staysInBounds_query fun w => w.inBounds_ownership x) fun own => ?_
  split
  · exact staysInBounds_modify _
  · exact staysInBounds_pure ()

theorem staysInBounds_exchange (s : Slot) (old value : Option Handle) :
    (exchange s old value).StaysInBounds :=
  staysInBounds_bind (staysInBounds_forM staysInBounds_claim value) fun _ =>
    staysInBounds_bind (staysInBounds_modify _) fun _ =>
      staysInBounds_forM staysInBounds_letGo old

/-- A write is in bounds where a read is. -/
theorem inBounds_set {w : World} {s : Slot} (hread : InBounds (w.read s)) (value : Option Handle) :
    InBounds ((set s value).perform w).1 := by
  have hrest : InBounds ((do
      let old ← query (·.read s)
      if old ≠ value then exchange s old value : Action Unit).perform w).1 := by
    rw [perform_query_bind]
    cases hold : w.read s with
    | error e =>
        rw [hold] at hread
        exact hread.error
    | ok old =>
        simp only
        split
        · exact staysInBounds_exchange s old value w
        · exact inBounds_ok ()
  unfold set
  split
  · exact nofun
  · exact hrest

end Action

namespace World

variable {settings : Settings} {a : Annals} {w : World} {c x holder : Handle} {d : Class}
  {o : Object} {s : Symbol} {index place : UInt32}

/-! ## Finding attributes -/

/-- Why instances of a class find an attribute where they do. -/
inductive Locates (w : World) (c : Handle) (s : Symbol) : AttrLocation → Prop where
  | absent : Locates w c s .absent
  | ofClass : Locates w c s .ofClass
  | inInstance {d : Class} {place : UInt32} (hd : w.Describes c d)
      (hslot : d.slot s = .inInstance place) : Locates w c s (.inInstance place)
  | inClass {holder : Handle} {d : Class} {index : UInt32}
      (hreach : ReflTransGen w.Above c holder) (hd : w.Describes holder d)
      (hslot : d.slot s = .inClass index) : Locates w c s (.inClass holder index)

theorem Locates.above (hlink : w.Above c x) (hholder : w.Locates x s (.inClass holder index)) :
    w.Locates c s (.inClass holder index) := by
  cases hholder with
  | inClass hreach hd hslot => exact .inClass (.head hlink hreach) hd hslot

/-- What a class holds is found in that class. -/
theorem Ordered.heldAttr_locates (hordered : w.Ordered) (hc : c ∈ w.classes) (s : Symbol) :
    ∃ found, w.heldAttr s c = .ok found ∧
      ∀ l, found = some l → ∃ index, l = .inClass c index ∧ w.Locates c s l := by
  obtain ⟨d, hd⟩ := hordered.described c hc
  unfold heldAttr
  rw [hd.describes.descriptor_eq]
  simp only [bind, Except.bind]
  cases hslot : d.slot s with
  | unmapped | inInstance => exact ⟨none, rfl, nofun⟩
  | inClass index =>
      refine ⟨some (.inClass c index), rfl, ?_⟩
      rintro l ⟨⟩
      exact ⟨index, rfl, .inClass .refl hd.describes hslot⟩

/-- What a search for an attribute finds is held by a class above. -/
theorem Ordered.search_locates (hordered : w.Ordered) (hc : c ∈ w.classes) (s : Symbol) :
    ∃ found, w.search (w.heldAttr s) w.walkLimit c = .ok found ∧
      ∀ l, found = some l → ∃ holder index, l = .inClass holder index ∧ w.Locates c s l := by
  have hfuel := hordered.rank_lt_walkLimit c
  rw [hordered.search_eq_climb hc hfuel]
  have hclimb : ∀ b ∈ w.climb w.walkLimit c, ReflTransGen w.Above c b :=
    fun b hb => (hordered.mem_climb_iff hc hfuel).1 hb
  have htotal : ∀ b ∈ w.climb w.walkLimit c, ∃ found, w.heldAttr s b = .ok found := by
    intro b hb
    obtain ⟨found, hfound, _⟩ := hordered.heldAttr_locates (hordered.reach_mem hc (hclimb b hb)) s
    exact ⟨found, hfound⟩
  obtain ⟨found, hfound, hfrom⟩ := exists_findSomeM?_eq_ok htotal
  refine ⟨found, hfound, fun l hl => ?_⟩
  obtain ⟨b, hb, htest⟩ := hfrom l hl
  obtain ⟨held, hheld, hlocates⟩ :=
    hordered.heldAttr_locates (hordered.reach_mem hc (hclimb b hb)) s
  cases hheld.symm.trans htest
  obtain ⟨index, rfl, hb'⟩ := hlocates l rfl
  cases hb' with
  | inClass _ hd hslot => exact ⟨b, index, rfl, .inClass (hclimb b hb) hd hslot⟩

/-- Attributes of instances of a registered class are always resolved. -/
theorem Ordered.resolveAttr_locates (hordered : w.Ordered) (hc : c ∈ w.classes) (s : Symbol) :
    ∃ l, w.resolveAttr c s = .ok l ∧ w.Locates c s l := by
  obtain ⟨d, hd⟩ := hordered.described c hc
  unfold resolveAttr
  by_cases hs : s = Symbol.ofClass
  · rw [if_pos hs]
    exact ⟨.ofClass, rfl, .ofClass⟩
  · rw [if_neg hs, hd.describes.descriptor_eq]
    simp only [bind, Except.bind, pure, Except.pure]
    cases hslot : d.slot s with
    | inInstance place => exact ⟨_, rfl, .inInstance hd.describes hslot⟩
    | inClass index => exact ⟨_, rfl, .inClass .refl hd.describes hslot⟩
    | unmapped =>
        have hmem : ∀ b ∈ w.supersOf c, w.Above c b ∧ b ∈ w.classes := fun b hb => by
          rw [hordered.mem_supersOf_iff hc] at hb
          exact ⟨hb, hordered.above_mem hc hb⟩
        have htotal : ∀ b ∈ w.supersOf c, ∃ found,
            w.search (w.heldAttr s) w.walkLimit b = .ok found := by
          intro b hb
          obtain ⟨found, hfound, _⟩ := hordered.search_locates (hmem b hb).2 s
          exact ⟨found, hfound⟩
        obtain ⟨found, hfound, hfrom⟩ := exists_findSomeM?_eq_ok htotal
        simp only [hordered.superclasses_eq hc, hfound]
        cases found with
        | none => exact ⟨.absent, rfl, .absent⟩
        | some l =>
            obtain ⟨b, hb, htest⟩ := hfrom l rfl
            obtain ⟨found, hsearch, hlocates⟩ := hordered.search_locates (hmem b hb).2 s
            cases hsearch.symm.trans htest
            obtain ⟨holder, index, rfl, hl⟩ := hlocates l rfl
            exact ⟨_, rfl, hl.above (hmem b hb).1⟩

/-- A place of the instances is found without asking the classes above. -/
theorem Describes.resolveAttr_eq (hd : w.Describes c d) (hs : s ≠ Symbol.ofClass)
    (hslot : d.slot s = .inInstance place) : w.resolveAttr c s = .ok (.inInstance place) := by
  rw [resolveAttr, if_neg hs, hd.descriptor_eq]
  simp [bind, Except.bind, hslot, pure, Except.pure]

/-! ## Attributes of shapely objects -/

/-- An object has as many places as its class says, and the class is laid well. -/
structure Fitting (w : World) (o : Object) (d : Class) : Prop where
  registered : o.classRef ∈ w.classes
  describes : w.Describes o.classRef d
  wellLaid : d.WellLaid
  attrs_size : o.attrs.size = d.attrCount

/-- A place of the instances of a class is a place of an object that fits the class. -/
theorem Fitting.exists_read (hfits : w.Fitting o d) (ho : w.objects.get? x = some o)
    (hslot : d.slot s = .inInstance place) : ∃ v, w.read (.attr x place.toNat) = .ok v := by
  obtain ⟨hpos, hle⟩ := hfits.wellLaid.place_mem s place hslot
  obtain ⟨index, hindex⟩ := Nat.exists_eq_add_of_le' hpos
  rw [hindex] at hle ⊢
  have hlt : index < o.attrs.size := hfits.attrs_size ▸ hle
  refine ⟨o.attrs[index], ?_⟩
  rw [read, Slot.owner, object_eq_ok ho]
  simp [bind, Except.bind, Slot.readIn, Slot.readIn.entry, Object.slot?, hlt]

theorem Fitting.exists_getAttr (hfits : w.Fitting o d) (ho : w.objects.get? x = some o)
    (hs : s ≠ Symbol.ofClass) (hslot : d.slot s = .inInstance place) :
    ∃ v, w.getAttr x s = .ok v := by
  obtain ⟨v, hv⟩ := hfits.exists_read ho hslot
  refine ⟨v, ?_⟩
  rw [getAttr, classOf_eq_ok ho]
  simp only [bind, Except.bind]
  rw [hfits.describes.resolveAttr_eq hs hslot]
  exact hv

/-- A value that a class holds has an index among the values of the class. -/
theorem Describes.exists_read (hd : w.Describes holder d) (hlaid : d.WellLaid)
    (hslot : d.slot s = .inClass index) :
    ∃ v, w.read (.classAttr holder index.toNat) = .ok v := by
  obtain ⟨o, ho, _, hpayload⟩ := hd
  have hlt := hlaid.index_mem s index hslot
  refine ⟨d.classAttrs[index.toNat], ?_⟩
  rw [read, Slot.owner, object_eq_ok ho]
  simp [bind, Except.bind, Slot.readIn, Slot.readIn.entry, hpayload, hlt]

/-- An attribute of an object that fits its class can be read, if there is such an attribute. -/
theorem Ordered.getAttr_answers (hordered : w.Ordered) (hfits : w.Fitting o d)
    (ho : w.objects.get? x = some o) (s : Symbol) :
    (∃ v, w.getAttr x s = .ok v) ∨
      w.getAttr x s = .error (w.noSuchAttribute o.classRef s) := by
  obtain ⟨l, hl, hlocates⟩ := hordered.resolveAttr_locates hfits.registered s
  rw [getAttr, classOf_eq_ok ho]
  simp only [bind, Except.bind, hl]
  cases hlocates with
  | absent => exact Or.inr rfl
  | ofClass => exact Or.inl ⟨_, rfl⟩
  | inInstance hd hslot =>
      cases hd.unique hfits.describes
      exact Or.inl (hfits.exists_read ho hslot)
  | inClass hreach hd hslot =>
      have hholder := hordered.reach_mem hfits.registered hreach
      obtain ⟨inst, own, hlaid⟩ := (hordered.orders hholder hd).laid
      exact Or.inl (hd.exists_read hlaid.wellLaid hslot)

theorem Ordered.inBounds_getAttr (hordered : w.Ordered) (hfits : w.Fitting o d)
    (ho : w.objects.get? x = some o) (s : Symbol) : InBounds (w.getAttr x s) := by
  obtain ⟨v, hv⟩ | hnone := hordered.getAttr_answers hfits ho s
  · rw [hv]
    exact inBounds_ok v
  · rw [hnone]
    exact inBounds_telling fun _ _ _ => nofun

theorem Shapely.classRef_mem {odd : Handle → Prop} (hshapely : w.Shapely odd)
    (ho : w.object x = .ok o) : o.classRef ∈ w.classes := by
  cases hget : w.objects.get? x with
  | none => cases (object_eq_error hget).symm.trans ho
  | some p =>
      cases (object_eq_ok hget).symm.trans ho
      exact (hshapely x o hget).1

theorem Ordered.inBounds_checkAttr {odd : Handle → Prop} (hordered : w.Ordered)
    (hshapely : w.Shapely odd) (c : Handle) (n : Nat) (value : Option Handle) :
    InBounds (w.checkAttr c n value) := by
  unfold checkAttr
  refine inBounds_bind (w.inBounds_descriptor c) fun d _ => ?_
  split
  · next y declared _ =>
      have hcheck : InBounds (do
          if !(← w.isAssignable y declared) then
            throw (w.mismatch (← w.descriptor declared).name y)
          else pure () : Except Error Unit) := by
        refine inBounds_bind ?_ fun below _ => ?_
        · refine inBounds_bind (w.inBounds_classOf y) fun b hb => ?_
          obtain ⟨p, hp, hclass⟩ := exists_of_bind_eq_ok hb
          cases hclass
          obtain ⟨below, hbelow, _⟩ :=
            hordered.isAssignableClass_eq (hshapely.classRef_mem hp) declared
          rw [hbelow]
          exact inBounds_ok below
        · split
          · exact inBounds_bind (w.inBounds_descriptor declared) fun _ _ =>
              inBounds_telling fun _ _ _ => nofun
          · exact inBounds_ok ()
      split
      · exact inBounds_ok ()
      · exact hcheck
  · exact inBounds_ok ()

theorem Ordered.inBounds_setAttr {odd : Handle → Prop} (hordered : w.Ordered)
    (hshapely : w.Shapely odd) (hfits : w.Fitting o d) (ho : w.objects.get? x = some o)
    (s : Symbol) (value : Option Handle) :
    InBounds ((Action.setAttr x s value).perform w).1 := by
  obtain ⟨l, hl, hlocates⟩ := hordered.resolveAttr_locates hfits.registered s
  unfold Action.setAttr
  rw [Action.perform_query_bind, classOf_eq_ok ho]
  simp only
  rw [Action.perform_query_bind, hl]
  cases hlocates with
  | ofClass => exact nofun
  | absent | inClass => exact inBounds_telling fun _ _ _ => nofun
  | @inInstance d' place hd hslot =>
      cases hd.unique hfits.describes
      simp only
      rw [Action.perform_query_bind]
      have hcheck := hordered.inBounds_checkAttr hshapely o.classRef place.toNat value
      cases hresult : w.checkAttr o.classRef place.toNat value with
      | error e =>
          rw [hresult] at hcheck
          exact hcheck.error
      | ok _ =>
          obtain ⟨old, hold⟩ := hfits.exists_read ho hslot
          exact Action.inBounds_set (hold ▸ inBounds_ok old) value

/-- The registered classes are laid well, classes made from others have the attributes of
those, and objects that are not odd fit their classes. -/
structure Shaped (w : World) (a : Annals) : Prop where
  laid : ∀ c ∈ w.classes, ∃ d, w.descriptor c = .ok d ∧ d.WellLaid
  derived : ∀ c parent newAttrs, a.derived c parent newAttrs →
    ∃ above d, w.descriptor parent = .ok above ∧ w.descriptor c = .ok d ∧ above.Extends d newAttrs
  fits : ∀ x o, w.objects.get? x = some o → ¬ a.odd x →
    (∃ d, w.descriptor o.classRef = .ok d ∧ o.attrs.size = d.attrCount) ∧
      (∀ s, InBounds (w.getAttr x s) ∧ ((∃ v, w.getAttr x s = .ok v) ∨
        w.getAttr x s = .error (w.noSuchAttribute o.classRef s))) ∧
      ∀ s value, InBounds ((Action.setAttr x s value).perform w).1

theorem Tallies.fitting (htallies : w.Tallies a) (ho : w.objects.get? x = some o)
    (hx : ¬ a.odd x) : ∃ d, w.Fitting o d := by
  obtain ⟨hmem, hshape⟩ := htallies.shapely x o ho
  obtain ⟨d, hd⟩ := htallies.ordered.described _ hmem
  obtain ⟨inst, own, hlaid⟩ := hd.laid
  exact ⟨d, hmem, hd.describes, hlaid.wellLaid, hshape hx d hd.describes⟩

/-- After any run classes and objects have the shapes that they were made with. The annals
only ever get further entries, so a class keeps extending the class it was made from. -/
theorem Classed.shaped (hclassed : Classed settings a w) (hcells : w.objects.cells.size ≤ 2 ^ 32) :
    w.Shaped a := by
  have htallies := hclassed.tallies hcells
  have hordered := htallies.ordered
  refine ⟨fun c hc => ?_, fun c parent newAttrs hderived => ?_, fun x o ho hx => ?_⟩
  · obtain ⟨d, hd⟩ := hordered.described c hc
    obtain ⟨inst, own, hlaid⟩ := hd.laid
    exact ⟨d, hd.describes.descriptor_eq, hlaid.wellLaid⟩
  · obtain ⟨_, _, above, d, habove, hd, hextends⟩ := htallies.derived c parent newAttrs hderived
    exact ⟨above, d, habove.descriptor_eq, hd.descriptor_eq, hextends⟩
  · obtain ⟨d, hfits⟩ := htallies.fitting ho hx
    exact ⟨⟨d, hfits.describes.descriptor_eq, hfits.attrs_size⟩,
      fun s => ⟨hordered.inBounds_getAttr hfits ho s, hordered.getAttr_answers hfits ho s⟩,
      fun s value => hordered.inBounds_setAttr htallies.shapely hfits ho s value⟩

/-- A pixel is a point with a shade. Points get a shade of their own when there is a pixel
already, which keeps its two places all the same. -/
theorem shaped_pixel :
    let point := Builtin.nth 25
    let pixel := Builtin.nth 26
    let dot := Builtin.nth 27
    let position := (initial.intern "position").1
    let w₁ := ((Operation.intern "position").perform initial).2
    let shade := (w₁.intern "shade").1
    let w₂ := ((Operation.intern "shade").perform w₁).2
    let w₃ := ((Operation.subclass Builtin.objectClass "point" [position] none).perform w₂).2
    let w₄ := ((Operation.subclass point "pixel" [shade] none).perform w₃).2
    let w₅ := ((Operation.allocateOf pixel .none 0).perform w₄).2
    let w := ((Operation.defineClassAttr point shade (some Builtin.null)).perform w₅).2
    (∃ above d, w.descriptor point = .ok above ∧ w.descriptor pixel = .ok d ∧
        above.Extends d [shade]) ∧
      ∃ o, w.objects.get? dot = some o ∧
        (∃ d, w.descriptor o.classRef = .ok d ∧ o.attrs.size = d.attrCount) ∧
        (∀ s, InBounds (w.getAttr dot s) ∧ ((∃ v, w.getAttr dot s = .ok v) ∨
          w.getAttr dot s = .error (w.noSuchAttribute o.classRef s))) ∧
        ∀ s value, InBounds ((Action.setAttr dot s value).perform w).1 := by
  intro point pixel dot position w₁ shade w₂ w₃ w₄ w₅ w
  have hobject : Builtin.objectClass ∈ w₂.classes := by decide +kernel
  have hpoint : point ∈ w₃.classes := by decide +kernel
  have hpixel : pixel ∈ w₄.classes := by decide +kernel
  have h₁ : Classed {} _ w₁ := Classed.step (.create create_default) (.intern "position") trivial
  have h₂ : Classed {} _ w₂ := h₁.step (.intern "shade") trivial
  have h₃ : Classed {} _ w₃ := h₂.step
    (.subclass Builtin.objectClass "point" [position] none) ⟨hobject, nofun⟩
  have h₄ : Classed {} _ w₄ := h₃.step (.subclass point "pixel" [shade] none) ⟨hpoint, nofun⟩
  have h₅ : Classed {} _ w₅ := h₄.step (.allocateOf pixel .none 0) hpixel
  have hclassed : Classed {} _ w :=
    h₅.step (.defineClassAttr point shade (some Builtin.null)) trivial
  have hcells : w.objects.cells.size ≤ 2 ^ 32 := by decide +kernel
  have hshaped := hclassed.shaped hcells
  have hmade : ((Operation.subclass point "pixel" [shade] none).perform w₃).1 = .ok pixel := by
    decide +kernel
  have hlive : w.objects.contains dot = true := by decide +kernel
  obtain ⟨o, ho⟩ := Arena.contains_iff.1 hlive
  refine ⟨hshaped.derived pixel point [shade] (Or.inl (Or.inl (Or.inr ⟨hmade, rfl, rfl⟩))),
    o, ho, hshaped.fits dot o ho ?_⟩
  exact Annals.not_odd_after (Annals.not_odd_after (Annals.not_odd_after (Annals.not_odd_after
    (Annals.not_odd_after (Annals.not_odd_after id id) id) id) id) id) id

end World

end ObjectSystem

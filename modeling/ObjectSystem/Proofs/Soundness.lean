/-
# Soundness of declared classes

In every world that operations lead to, an attribute that is set holds the null object, or a
live object whose class passes the subtype test for the class that is declared for the
attribute. The operations must not write attributes without a look at the declared class, must
not make objects with a number of attributes of their own, and must not declare other classes.
Superclasses, subclasses and values that classes hold may be added at will.

`World.Conserves` is what a step has to keep. A new world has no values until its classes have
been made, so it starts with nothing that could fail to suit.
-/

import ObjectSystem.Proofs.Typing

namespace ObjectSystem

/-- Attributes are written only after a look at the declared classes, and those are final. -/
structure Policy.Strict (π : Policy) : Prop where
  pokes : ¬ π.pokes
  redeclares : ¬ π.redeclares

theorem Policy.Within.names {π : Policy} {w : World} (hwithin : π.Within w) : π.Names w where
  admits c payload hadmits := (hwithin.admits c payload hadmits).1
  declares := hwithin.declares

theorem Policy.Within.extend {π : Policy} {w w' : World} (hwithin : π.Within w)
    (hextends : w.Extends w') : π.Within w' where
  admits c payload hadmits :=
    ⟨hextends.classes c (hwithin.admits c payload hadmits).1, (hwithin.admits c payload hadmits).2⟩
  declares c hdeclares := hextends.classes c (hwithin.declares c hdeclares)

namespace World

variable {w w' : World} {π : Policy}

/-- A world whose parts agree, whose classes are in order and whose values suit. -/
structure Sound (w : World) : Prop where
  coherent : w.Coherent
  tidy : w.Tidy
  ordered : w.Ordered
  typed : w.Typed

/-- One world may come after another, and is sound if that one was. -/
structure Conserves (π : Policy) (w w' : World) : Prop where
  advances : w.Advances w'
  sound : π.Within w → w.Sound → w'.Fits → w.Extends w' ∧ w'.Sound

instance : IsPreorder World (Conserves π) where
  refl w := ⟨refl_of Advances w, fun _ hsound _ => ⟨.refl hsound.ordered, hsound⟩⟩
  trans _ _ _ hfirst hsecond := by
    refine ⟨trans_of Advances hfirst.advances hsecond.advances, fun hwithin hsound hfits => ?_⟩
    obtain ⟨hextends, hsound'⟩ := hfirst.sound hwithin hsound (hsecond.advances.fits hfits)
    obtain ⟨hextends', hsound''⟩ := hsecond.sound (hwithin.extend hextends) hsound' hfits
    exact ⟨hextends.trans hextends', hsound''⟩

/-- A world that retains what a sound world had is sound. -/
theorem Sound.retain (hsound : w.Sound) (hadvances : w.Advances w') (hcoherent : w'.Coherent)
    (hextends : w.Extends w') (hretains : w.Retains w') : w'.Sound where
  coherent := hcoherent
  tidy := hadvances.tidy hsound.tidy
  ordered := hextends.ordered
  typed := hsound.typed.retain hsound.coherent hsound.ordered hretains hextends hcoherent

end World

namespace Action

open World

variable {α : Type} {π : Policy} {w w' : World} {action : Action α}

/-- A step conserves soundness if the parts agree after it, the classes are extended and the
attributes are retained. -/
theorem conserves_of_retains (hadvances : action.Keeps Advances)
    (hstep : ∀ w, π.Within w → w.Sound → (action.perform w).2.Fits →
      (action.perform w).2.Coherent ∧ w.Extends (action.perform w).2 ∧
        w.Retains (action.perform w).2) : action.Keeps (Conserves π) := by
  refine fun w => ⟨hadvances w, fun hwithin hsound hfits => ?_⟩
  obtain ⟨hcoherent, hextends, hretains⟩ := hstep w hwithin hsound hfits
  exact ⟨hextends, hsound.retain (hadvances w) hcoherent hextends hretains⟩

theorem conserves_of_trims (hadvances : action.Keeps Advances)
    (htrims : action.Keeps TrimsUnwritten)
    (hcoherent : ∀ w, w.Coherent → (action.perform w).2.Fits → (action.perform w).2.Coherent) :
    action.Keeps (Conserves π) :=
  conserves_of_retains hadvances fun w _ hsound hfits => ⟨hcoherent w hsound.coherent hfits,
    (hsound.ordered.trim (htrims w).trims).toExtends, (htrims w).retains_of_unwritten⟩

theorem conserves_allocatePinned {c : Handle} {payload : Payload} (hadmits : π.admits c payload)
    (attrCount length : Nat) :
    (allocatePinned (.new c attrCount payload length .shared)).Keeps (Conserves π) := by
  have hcomposite := Composite.allocatePinned hadmits attrCount length
  refine conserves_of_retains hcomposite.advances fun w hwithin hsound hfits => ?_
  have hleads := hcomposite.leadsTo hsound.coherent hsound.tidy hwithin hfits
  obtain ⟨x, w', hperform, hputs⟩ := admits_allocatePinned hsound.ordered hfits.cells_le rfl
  rw [hperform] at hleads ⊢
  exact ⟨hleads.evolves.coherent, hputs.extends hsound.ordered,
    hputs.adds.retains fun x => w.imitates_of_replicate x rfl⟩

theorem conserves_openScope : openScope.Keeps (Conserves π) :=
  conserves_of_trims advances_openScope trims_openScope fun _ hcoherent hfits =>
    (openScope_spec hcoherent hfits).coherent

theorem conserves_closeScope (id : PoolId) (result : Except Error Handle) :
    (closeScope id result).Keeps (Conserves π) :=
  conserves_of_trims (advances_closeScope id result) (trims_closeScope id result)
    fun _ hcoherent _ => (evolves_closeScope hcoherent id result).coherent

/-- A step of a routine conserves soundness if it retains the attributes. -/
theorem Routine.conserves_of_retains (hroutine : Routine π action)
    (hretains : ∀ w, π.Within w → w.Sound → (action.perform w).2.objects.cells.size ≤ 2 ^ 32 →
      w.Retains (action.perform w).2) : action.Keeps (Conserves π) :=
  Action.conserves_of_retains hroutine.advances fun w hwithin hsound hfits =>
    ⟨(hroutine.leadsTo hsound.coherent hsound.tidy hwithin hfits).evolves.coherent,
      (hroutine.develops hsound.ordered hwithin.names hfits.cells_le).toExtends,
      hretains w hwithin hsound hfits.cells_le⟩

theorem Routine.conserves_of_trims (hroutine : Routine π action)
    (htrims : action.Keeps TrimsUnwritten) : action.Keeps (Conserves π) :=
  hroutine.conserves_of_retains fun w _ _ _ => (htrims w).retains_of_unwritten

/-- Routines conserve soundness if the policy is strict. -/
theorem Routine.conserves (hroutine : Routine π action) (hstrict : π.Strict) :
    action.Keeps (Conserves π) := by
  induction hroutine with
  | pure a => exact keeps_pure a
  | throw e => exact keeps_throw e
  | query => exact keeps_query _
  | bind _ _ ihm ihf => exact keeps_bind ihm ihf
  | aside hf hnotes =>
      exact (Routine.aside hf hnotes).conserves_of_trims (keeps_modifyGet fun w =>
        .of_eq (hf w).objects_eq (hf w).classes_eq (hf w).settings_eq)
  | @amend x change hchange hstays hsame habstains hframe =>
      refine (Routine.amend hchange hstays hsame habstains hframe).conserves_of_retains
        fun w _ _ _ => ?_
      refine w.retains_modifyObject x fun o => ⟨(hstays o).classRef_eq, fun n y hy => Or.inl ?_,
        hsame.resolve_left hstrict.redeclares o⟩
      exact (hchange o).held _ y hy
  | set s value hpokes hdefines hbinds =>
      have hs : ¬ s.IsAttr := fun hs => hstrict.pokes (hpokes hs)
      exact (Routine.set s value hpokes hdefines hbinds).conserves_of_trims
        (trims_set (Object.retouches_storeIn hs value s.owner))
  | assign hassigns env name value =>
      exact (Routine.assign hassigns env name value).conserves_of_trims
        (trims_assign (Object.retouches_addName env name) fun index =>
          Object.retouches_storeIn (s := .binding env index) id (some value) env)
  | setAttr x s value =>
      exact (Routine.setAttr x s value).conserves_of_retains fun w _ hsound _ =>
        retains_setAttr hsound.coherent hsound.ordered x s value
  | allocateOf hadmits length =>
      exact (Routine.allocateOf hadmits length).conserves_of_retains fun w hwithin hsound hcells =>
        retains_allocateOf hsound.ordered (hwithin.admits _ _ hadmits).1 hcells
  | allocatePinnedOf _ hadmits length =>
      exact keeps_bind (keeps_query _) fun d => conserves_allocatePinned hadmits d.attrCount length
  | addSuperclass c hdeclares =>
      exact (Routine.addSuperclass c hdeclares).conserves_of_retains fun w _ _ _ =>
        retains_addSuperclass w c _
  | classAttrIndex c hs =>
      exact (Routine.classAttrIndex c hs).conserves_of_retains fun w _ _ _ =>
        retains_classAttrIndex w c _
  | pin x => exact (Routine.pin x).conserves_of_trims (trims_pin x)
  | collect extra => exact (Routine.collect extra).conserves_of_trims (trims_collect extra)
  | scope _ ih =>
      exact keeps_bind conserves_openScope fun id => keeps_bind (keeps_outcome ih) fun result =>
        conserves_closeScope id result

end Action

namespace World

variable {w : World}

/-- What respectful operations may put into a world with regard to its declared classes. -/
def strictPolicy (w : World) : Policy :=
  { w.policy with pokes := False, redeclares := False }

theorem strict_strictPolicy (w : World) : w.strictPolicy.Strict :=
  ⟨id, id⟩

theorem strictPolicy_within (w : World) : w.strictPolicy.Within w :=
  ⟨w.policy_within.admits, w.policy_within.declares⟩

end World

namespace Operation

variable {α : Type} {w : World} {a : Annals}

/-- The operation looks at the declared classes before it writes an attribute, declares no
others, and gives new objects the attributes that their classes say. -/
def Checks : {α : Type} → Operation α → Prop
  | _, allocate _ | _, setAttrClass _ _ _ => False
  | _, set s _ => ¬ s.IsAttr
  | _, _ => True

theorem namesRegistered_of_respects (op : Operation α) (hrespects : op.Respects w) :
    op.NamesRegistered w := by
  cases op with
  | allocate | allocateOf => exact hrespects.1
  | cell | subclass | addSuperclass | setAttrClass | addSignature | defineMethod => exact hrespects
  | _ => trivial

/-- Whatever happens beside, a sound world stays sound if attributes are written with a look at
the declared classes. -/
theorem sound_perform (hsound : w.Sound) (hequipped : w.Equipped) (htallies : w.Tallies a)
    (op : Operation α) (hrespects : op.Respects w) (hchecks : op.Checks)
    (hfits : (op.perform w).2.Fits) : (op.perform w).2.Sound := by
  have hevolves := (op.evolves hsound.coherent hsound.tidy hequipped hrespects hfits).1
  have hextends :=
    (htallies.perform op (op.namesRegistered_of_respects hrespects) hfits.cells_le).2
  have hregistered := htallies.bare.registered
  have hretain : w.Retains (op.perform w).2 → (op.perform w).2.Sound :=
    hsound.retain (op.advances hrespects.unmarked w) hevolves.coherent hextends
  have htrims : op.action.Keeps World.TrimsUnwritten → (op.perform w).2.Sound := fun hkeeps =>
    hretain (hkeeps w).retains_of_unwritten
  have hstandard : w.strictPolicy.Standard := hequipped.standard
  have hroutine : op.Within w.strictPolicy → ¬ op.IsRaw → op.Licensed w.strictPolicy →
      (op.perform w).2.Sound := fun hwithin hraw hlicensed =>
    (((op.routine_action hstandard hwithin hraw hlicensed).conserves
      w.strict_strictPolicy w).sound w.strictPolicy_within hsound hfits).2
  cases op with
  | allocate | setAttrClass => exact hchecks.elim
  | cell c head next => exact hroutine ⟨hrespects, rfl⟩ id trivial
  | set s value =>
      exact hroutine trivial id ⟨fun hs => hchecks hs, fun _ => trivial, fun _ => trivial⟩
  | shallowCopy x =>
      exact hretain (Action.retains_shallowCopy hsound.ordered hregistered hfits.cells_le)
  | subclass => exact hretain (Action.retains_subclass hsound.ordered hfits.cells_le)
  | openScope => exact htrims Action.trims_openScope
  | closeScope id' result => exact htrims (Action.trims_closeScope id' result)
  | releasePool id' => exact htrims (Action.trims_releasePool id')
  | addToPool | removeFromPool => exact hrespects.elim
  | addRoot => exact htrims (Action.keeps_modify fun _ => .of_eq rfl rfl rfl)
  | removeRoot => exact htrims (Action.keeps_modifyGet fun _ => .of_eq rfl rfl rfl)
  | _ => exact hroutine hrespects id trivial

end Operation

/-! ## New worlds -/

/-- No attribute is set. -/
def Object.Blank (o : Object) : Prop :=
  ∀ v ∈ o.attrs, v = none

theorem Object.blank_new {c : Handle} {payload : Payload} {length : Nat} {own : Ownership} :
    (Object.new c 0 payload length own).Blank := by
  simp [Blank, Object.new]

namespace World

variable {w : World} {settings : Settings}

/-- As long as no attribute is set, every value suits. -/
theorem typed_of_blank (hblank : w.objects.All Object.Blank) : w.Typed := by
  intro x n y o ho hy
  cases n with
  | zero => cases hy
  | succ n => cases hblank.get? ho _ (Array.mem_of_getElem? hy)

/-- If no attribute was set, none is. -/
def StaysBlank (w w' : World) : Prop :=
  w.objects.All Object.Blank → w'.objects.All Object.Blank

instance : IsPreorder World StaysBlank where
  refl _ := id
  trans _ _ _ hfirst hsecond := hsecond ∘ hfirst

theorem staysBlank_modifyObject (w : World) (x : Handle) {change : Object → Object}
    (hchange : ∀ o : Object, (change o).attrs = o.attrs) : w.StaysBlank (w.modifyObject x change) :=
  fun hblank => hblank.modify x fun o ho => by rwa [Object.Blank, hchange o]

end World

namespace Action

open World

theorem staysBlank_pin (x : Handle) : (pin x).Keeps StaysBlank :=
  keeps_pin (fun _ => keeps_removeFromPool fun _ _ _ _ _ => id) (fun _ => id) fun w =>
    w.staysBlank_modifyObject x fun _ => rfl

theorem staysBlank_makeClasses : makeClasses.Keeps StaysBlank :=
  keeps_makeClasses (fun w c _ => w.staysBlank_modifyObject c fun _ => rfl)
    (fun _ _ _ hblank => hblank.insertWith _ fun _ => Object.blank_new) staysBlank_pin
    fun _ _ => id

end Action

namespace World

variable {w : World} {settings : Settings} {x y : Handle} {n : Nat}

/-- The built-in objects are made with a look at the declared classes. -/
theorem sound_create (hcreate : create settings = .ok w) (hfits : w.Fits) : w.Sound := by
  obtain ⟨hcapacity, w', hclasses, hobjects⟩ := exists_of_create hcreate
  obtain ⟨hprimed, _⟩ := Action.primed_makeClasses (founded_empty hcapacity)
    (ordered_empty settings) rfl hclasses
  have hfounded := hprimed.founded
  have hblank : w'.objects.All Object.Blank := by
    have hstays := Action.staysBlank_makeClasses (empty settings) Arena.all_empty
    rwa [hclasses] at hstays
  have hsound : w'.Sound :=
    ⟨hfounded.coherent, hfounded.tidy, hprimed.ordered, typed_of_blank hblank⟩
  have hstandard : w'.strictPolicy.Standard := fun c hc _ hpayload _ _ =>
    ⟨hfounded.mem_classes_iff.2 hc, hpayload⟩
  have hconserves : Action.makeObjects.Keeps (Conserves w'.strictPolicy) :=
    Action.keeps_bind
      (Action.conserves_allocatePinned (hstandard _ (by decide) _ rfl (by nofun) id) 0 0) fun _ =>
        Action.keeps_bind
          (Action.conserves_allocatePinned (hstandard _ (by decide) _ rfl (by nofun) id) 0 0)
            fun _ => (Action.routine_furnish hstandard trivial).conserves w'.strict_strictPolicy
  have h := hconserves w'
  rw [hobjects] at h
  exact (h.sound w'.strictPolicy_within hsound hfits).2

/-- Respectful operations use only registered classes as classes, and what they do is in the
annals. -/
theorem Respectful.exists_classed (hrespectful : Respectful settings w) :
    ∃ a, Classed settings a w ∧ ∀ c parent newAttrs, Annals.initial.derived c parent newAttrs →
      a.derived c parent newAttrs := by
  induction hrespectful with
  | create hcreate => exact ⟨.initial, .create hcreate, fun _ _ _ => id⟩
  | step _ op hrespects ih =>
      obtain ⟨a, hclassed, hinitial⟩ := ih
      exact ⟨_, hclassed.step op (op.namesRegistered_of_respects hrespects),
        fun c parent newAttrs h => Or.inl (hinitial c parent newAttrs h)⟩

/-- The worlds that respectful operations lead to from a new one if attributes are written only
with a look at the declared classes. -/
inductive Checked (settings : Settings) : World → Prop where
  | create {w : World} (hcreate : World.create settings = .ok w) : Checked settings w
  | step {w : World} (hchecked : Checked settings w) {α : Type} (op : Operation α)
      (hrespects : op.Respects w) (hchecks : op.Checks) : Checked settings (op.perform w).2

theorem Checked.sound (hchecked : Checked settings w) (hfits : w.Fits) :
    w.Sound ∧ w.Equipped ∧ ∃ a, w.Tallies a := by
  induction hchecked with
  | create hcreate =>
      exact ⟨sound_create hcreate hfits, (coherent_create hcreate hfits).2, _,
        tallies_create hcreate hfits.cells_le⟩
  | step _ op hrespects hchecks ih =>
      obtain ⟨hsound, hequipped, a, htallies⟩ := ih ((op.spends _).fits hfits)
      have hevolves := (op.evolves hsound.coherent hsound.tidy hequipped hrespects hfits).1
      exact ⟨op.sound_perform hsound hequipped htallies hrespects hchecks hfits,
        hequipped.evolve hevolves, _,
        (htallies.perform op (op.namesRegistered_of_respects hrespects) hfits.cells_le).1⟩

/-- What is read from an attribute is live. It is the null object, or its class passes the
subtype test for the class that is declared for the attribute, however the classes have grown
since it was written. -/
theorem Checked.attr_assignable (hchecked : Checked settings w) (hfits : w.Fits) (hn : n ≠ 0)
    (hread : w.read (.attr x n) = .ok (some y)) :
    ∃ c d, w.classOf x = .ok c ∧ w.descriptor c = .ok d ∧ w.objects.Live y ∧
      (y = Builtin.null ∨ ∃ t, d.attrClass? n = some t ∧ w.isAssignable y t = .ok true) := by
  obtain ⟨⟨hcoherent, _, hordered, htyped⟩, _⟩ := hchecked.sound hfits
  cases ho : w.objects.get? x with
  | none =>
      rw [read, Slot.owner, object_eq_error ho] at hread
      cases hread
  | some o =>
      have hwritable : (Slot.attr x n).IsWritable := fun z heq => by
        cases heq
        exact hn rfl
      have hy : (Slot.attr x n).peek? o = some (some y) := by
        rw [read, Slot.owner, object_eq_ok ho] at hread
        have hslot : (Slot.attr x n).readIn w o = .ok (some y) := hread
        exact (Slot.readIn_eq_ok_iff hwritable).1 hslot
      obtain ⟨d, hd⟩ := hordered.described _ (hcoherent.classRef_mem ho)
      refine ⟨o.classRef, d, classOf_eq_ok ho, hd.describes.descriptor_eq,
        hcoherent.linked.held_live (.attr x n) y ⟨o, ho, hy⟩, (htyped x n y o ho hy).imp id ?_⟩
      rintro ⟨p, d', t, hp, _, hd', ht, hbelow⟩
      cases hd'.unique hd.describes
      refine ⟨t, ht, ?_⟩
      obtain ⟨below, hbelow', hiff⟩ := hordered.isAssignableClass_eq (hcoherent.classRef_mem hp) t
      rw [isAssignable, classOf_eq_ok hp]
      exact hbelow'.trans (congrArg Except.ok (hiff.2 hbelow))

/-- An environment has the global environment as its parent, also after its class has got another
superclass. -/
theorem Checked.attr_assignable_parent :
    let env := Builtin.nth 25
    let w₁ := ((Operation.newEnvironment (some Builtin.globalEnv)).perform initial).2
    let w := ((Operation.addSuperclass Builtin.environmentClass Builtin.listClass).perform w₁).2
    (Checked {} w ∧ w.Fits ∧ w.read (.attr env 1) = .ok (some Builtin.globalEnv)) ∧
      ∃ c d, w.classOf env = .ok c ∧ w.descriptor c = .ok d ∧
        w.objects.Live Builtin.globalEnv ∧ (Builtin.globalEnv = Builtin.null ∨
          ∃ t, d.attrClass? 1 = some t ∧ w.isAssignable Builtin.globalEnv t = .ok true) := by
  intro env w₁ w
  have hlist : Builtin.listClass ∈ w₁.classes := by decide +kernel
  have hchecked : Checked {} w :=
    ((Checked.create create_default).step (.newEnvironment (some Builtin.globalEnv)) trivial
      trivial).step (.addSuperclass Builtin.environmentClass Builtin.listClass) hlist trivial
  have hfits : w.Fits := ⟨by decide +kernel, by decide +kernel⟩
  have hread : w.read (.attr env 1) = .ok (some Builtin.globalEnv) := by decide +kernel
  exact ⟨⟨hchecked, hfits, hread⟩, hchecked.attr_assignable hfits (by decide) hread⟩

end World

end ObjectSystem

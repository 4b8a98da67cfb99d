/-
# Operations that leave chains alone

Most operations have nothing to do with chains of overloads. Afterwards there is no chain that was
not there before with the same overloads. That says nothing about where chains are: a class may have
come to hold one that another class holds too, and a chain may be gone.

A new world has no chains. This is where all runs start from.
-/

import ObjectSystem.Proofs.Soundness
import ObjectSystem.Proofs.Ways

namespace ObjectSystem

namespace Object

variable {o o' : Object}

/-- What an object keeps while a world is trimmed, and no overload is written. -/
structure Refrains (o o' : Object) : Prop extends Stays o o' where
  abstains : o.Abstains o'

instance : Leeway fun _ => Refrains where
  stays h := h.toStays
  trans hfirst hsecond :=
    ⟨hfirst.toStays.trans hsecond.toStays, fun l hl => hfirst.abstains l (hsecond.abstains l hl)⟩
  setHeader _ o h hpinned := ⟨o.stays_setHeader h hpinned, abstains_of_payload_eq rfl⟩

theorem refrains_storeIn {s : Slot} (hs : ¬ s.Defines) (value : Option Handle) (o : Object) :
    o.Refrains (s.storeIn value o) := by
  refine ⟨o.stays_storeIn s value, ?_⟩
  cases s with
  | attr x index => cases index <;> exact abstains_of_payload_eq rfl
  | element | binding | classAttr =>
      simp only [Slot.storeIn]
      split
      · exact abstains_of_ne_method fun _ => by simp
      · exact abstains_of_payload_eq rfl
  | signature => exact absurd trivial hs

theorem refrains_addName (name : Symbol) (o : Object) : o.Refrains { o with
    payload := match o.payload with
      | .environment f => .environment (f.addName name)
      | other => other } := by
  refine ⟨o.stays_addName name, ?_⟩
  cases hpayload : o.payload with
  | environment f => exact abstains_of_ne_method fun _ => by simp
  | _ => exact abstains_of_payload_eq (by simp only [hpayload])

theorem ne_method_of_not_isMethod {payload : Payload} (hmethod : ¬ payload.IsMethod)
    (l : Array Signature) : payload ≠ .method l := by
  rintro rfl
  exact hmethod trivial

end Object

namespace World

variable {w w' : World} {x : Handle} {o : Object}

/-- The chains were there before, with the same overloads. -/
def SameChains (w w' : World) : Prop :=
  ∀ m l, w'.signatures m = .ok l → w.signatures m = .ok l

instance : IsPreorder World SameChains where
  refl _ _ _ := id
  trans _ _ _ hfirst hsecond m l hl := hfirst m l (hsecond m l hl)

theorem sameChains_of_back (hback : ∀ y o', w'.objects.get? y = some o' →
    (∃ o, w.objects.get? y = some o ∧ o.Abstains o') ∨ ∀ l, o'.payload ≠ .method l) :
    w.SameChains w' := by
  intro m l hl
  obtain ⟨o', ho', hpayload⟩ := payload?_eq_some_iff.1 (signatures_eq_ok_iff.1 hl)
  rcases hback m o' ho' with ⟨o, ho, habstains⟩ | hplain
  · exact signatures_eq_ok_iff.2 (payload?_eq_some_iff.2 ⟨o, ho, habstains l hpayload⟩)
  · exact absurd hpayload (hplain l)

theorem sameChains_of_trims (htrims : w.TrimsBy (fun _ => Object.Refrains) w') :
    w.SameChains w' := by
  refine sameChains_of_back fun y o' ho' => Or.inl ?_
  obtain ⟨o, ho, hrefrains⟩ := htrims.objects.back y o' ho'
  exact ⟨o, ho, hrefrains.abstains⟩

theorem sameChains_modifyObject {change : Object → Object} (w : World) (x : Handle)
    (hchange : ∀ o : Object, o.Abstains (change o)) : w.SameChains (w.modifyObject x change) := by
  refine sameChains_of_back fun y o' ho' => Or.inl ?_
  rw [modifyObject, Arena.get?_modify] at ho'
  split at ho'
  · obtain ⟨o, ho, rfl⟩ := Option.map_eq_some_iff.1 ho'
    exact ⟨o, ho, hchange o⟩
  · exact ⟨o', ho', Object.abstains_of_payload_eq rfl⟩

/-- An object that is no chain is put in. -/
theorem AddsBy.sameChains (hadds : w.AddsBy (fun _ => Object.Refrains) w' o)
    (hplain : ∀ l, o.payload ≠ .method l) : w.SameChains w' := by
  rcases hadds with htrims | ⟨x, own, w₁, w₂, hbefore, hadmits, hafter, _⟩
  · exact sameChains_of_trims htrims
  · have hputs : w₁.SameChains w₂ := sameChains_of_back fun y o' ho' => by
      rcases hadmits.puts.back ho' with ⟨_, rfl⟩ | ⟨_, ho⟩
      · exact Or.inr hplain
      · exact Or.inl ⟨o', ho, Object.abstains_of_payload_eq rfl⟩
    exact trans_of SameChains (sameChains_of_trims hbefore)
      (trans_of SameChains hputs (sameChains_of_trims hafter))

/-- One world may come after another, and if the classes of that one were in order, those of this
one are so and the chains are the same. -/
structure Bypasses (π : Policy) (w w' : World) : Prop where
  cells_le : w.objects.cells.size ≤ w'.objects.cells.size
  same : π.Names w → w.Ordered → w'.objects.cells.size ≤ 2 ^ 32 →
    w.Extends w' ∧ w.SameChains w'

instance {π : Policy} : IsPreorder World (Bypasses π) where
  refl w := ⟨Nat.le_refl _, fun _ hordered _ => ⟨.refl hordered, refl_of SameChains w⟩⟩
  trans _ _ _ hfirst hsecond := by
    refine ⟨hfirst.cells_le.trans hsecond.cells_le, fun hnames hordered hcells => ?_⟩
    obtain ⟨hextends, hsame⟩ := hfirst.same hnames hordered (hsecond.cells_le.trans hcells)
    obtain ⟨hextends', hsame'⟩ :=
      hsecond.same (hnames.extend hextends) hextends.ordered hcells
    exact ⟨hextends.trans hextends', trans_of SameChains hsame hsame'⟩

theorem bypasses_of_trims {π : Policy} (htrims : w.TrimsBy (fun _ => Object.Refrains) w') :
    w.Bypasses π w' where
  cells_le := htrims.objects.cells_eq.ge
  same _ hordered _ := ⟨(hordered.trim htrims.trims).toExtends, sameChains_of_trims htrims⟩

end World

namespace Action

open World

variable {α : Type} {π : Policy} {w : World} {action : Action α}

/-- A step of a routine leaves chains alone if it makes none and writes no overload. -/
theorem Routine.bypasses_of_same (hroutine : Routine π action)
    (hsame : ∀ w, π.Names w → w.Ordered → (action.perform w).2.objects.cells.size ≤ 2 ^ 32 →
      w.SameChains (action.perform w).2) : action.Keeps (Bypasses π) := fun w =>
  ⟨(hroutine.advances w).cells_le, fun hnames hordered hcells =>
    ⟨(hroutine.develops hordered hnames hcells).toExtends, hsame w hnames hordered hcells⟩⟩

theorem bypasses_allocatePinned {c : Handle} {payload : Payload} (hadmits : π.admits c payload)
    (hmethod : ¬ payload.IsMethod) (attrCount length : Nat) :
    (allocatePinned (.new c attrCount payload length .shared)).Keeps (Bypasses π) := by
  have hcomposite := Composite.allocatePinned hadmits attrCount length
  refine fun w => ⟨(hcomposite.advances w).cells_le, fun hnames hordered hcells => ?_⟩
  obtain ⟨x, w', hperform, hputs⟩ := admits_allocatePinned hordered hcells rfl
  rw [hperform]
  exact ⟨hputs.extends hordered, hputs.adds.sameChains (Object.ne_method_of_not_isMethod hmethod)⟩

theorem sameChains_addSuperclass (w : World) (c s : Handle) :
    w.SameChains ((addSuperclass c s).perform w).2 := by
  rcases addSuperclass_cases c s w with ⟨_, hfails⟩ | ⟨_, hlinks⟩
  · rw [hfails]
    exact refl_of SameChains w
  · rw [hlinks]
    exact w.sameChains_modifyObject c (Object.abstains_changeDescriptor _)

theorem sameChains_classAttrIndex (w : World) (c : Handle) (s : Symbol) :
    w.SameChains ((classAttrIndex c s).perform w).2 := by
  rcases classAttrIndex_cases c s w with ⟨_, hsame⟩ | ⟨_, _, ⟨_, _, hsame⟩ | ⟨_, hadds⟩⟩
  · rw [hsame]
    exact refl_of SameChains w
  · rw [hsame]
    exact refl_of SameChains w
  · rw [hadds]
    exact w.sameChains_modifyObject c (Object.abstains_changeDescriptor _)

theorem sameChains_subclass {parent : Handle} {name : String} {newAttrs : List Symbol}
    {newClasses : Option (List Handle)} (hordered : w.Ordered)
    (hcells : ((subclass parent name newAttrs newClasses).perform w).2.objects.cells.size ≤
      2 ^ 32) :
    w.SameChains ((subclass parent name newAttrs newClasses).perform w).2 := by
  rcases subclass_cases hordered hcells with ⟨_, hfails⟩ | ⟨_, _, c, w', _, _, hperform, hadmits⟩
  · rw [hfails]
    exact refl_of SameChains w
  · have hsame : w.SameChains w' := hadmits.adds.sameChains fun _ h => by cases h
    have hregister : (w'.register c).objects = w'.objects := rfl
    rw [hperform]
    exact fun m l hl => hsame m l ((signatures_congr hregister m).symm.trans hl)

/-- Routines leave chains alone if the policy allows no definitions and no chains. -/
theorem Routine.bypasses (hroutine : Routine π action) (hdefines : ¬ π.defines)
    (hadmits : ∀ c payload, π.admits c payload → ¬ payload.IsMethod) :
    action.Keeps (Bypasses π) := by
  induction hroutine with
  | pure a => exact keeps_pure a
  | throw e => exact keeps_throw e
  | query => exact keeps_query _
  | bind _ _ ihm ihf => exact keeps_bind ihm ihf
  | aside hf => exact keeps_modifyGet fun w =>
      bypasses_of_trims (.of_eq (hf w).objects_eq (hf w).classes_eq (hf w).settings_eq)
  | @amend x change hchange hstays hsame habstains hframe =>
      exact (Routine.amend hchange hstays hsame habstains hframe).bypasses_of_same fun w _ _ _ =>
        w.sameChains_modifyObject x (habstains.resolve_left hdefines)
  | set s value hpokes hdefines' =>
      have hs : ¬ s.Defines := fun hs => hdefines (hdefines' hs)
      exact fun w => bypasses_of_trims (trims_set (Object.refrains_storeIn hs value) w)
  | assign _ env name value =>
      exact fun w => bypasses_of_trims (trims_assign (Object.refrains_addName name)
        (fun index => Object.refrains_storeIn (s := .binding env index) id (some value)) w)
  | setAttr x s value =>
      exact fun w => bypasses_of_trims
        (trims_setAttr (fun index => Object.refrains_storeIn (s := .attr x index) id value) w)
  | @allocateOf c payload hadmits' length =>
      refine (Routine.allocateOf hadmits' length).bypasses_of_same
        fun w hnames hordered hcells => ?_
      obtain ⟨d, hd⟩ := hordered.described c (hnames.admits _ _ hadmits')
      unfold Action.allocateOf at hcells ⊢
      rw [perform_query_bind, hd.describes.descriptor_eq] at hcells ⊢
      exact (adds_allocate hordered (hnames.admits _ _ hadmits') _ hcells).sameChains
        (Object.ne_method_of_not_isMethod (hadmits _ _ hadmits'))
  | allocatePinnedOf _ hadmits' length =>
      exact keeps_bind (keeps_query _) fun d =>
        bypasses_allocatePinned hadmits' (hadmits _ _ hadmits') d.attrCount length
  | addSuperclass c hdeclares =>
      exact (Routine.addSuperclass c hdeclares).bypasses_of_same fun w _ _ _ =>
        sameChains_addSuperclass w c _
  | classAttrIndex c hs =>
      exact (Routine.classAttrIndex c hs).bypasses_of_same fun w _ _ _ =>
        sameChains_classAttrIndex w c _
  | pin x => exact fun w => bypasses_of_trims (trims_pin x w)
  | collect extra => exact fun w => bypasses_of_trims (trims_collect extra w)
  | scope _ ih =>
      exact keeps_bind (fun w => bypasses_of_trims (trims_openScope w)) fun id =>
        keeps_bind (keeps_outcome ih) fun result => fun w =>
          bypasses_of_trims (trims_closeScope id result w)

end Action

namespace World

/-- What operations may name that leave chains alone. -/
def bypassPolicy (w : World) : Policy :=
  { w.naming with
    admits := fun c payload => c ∈ w.classes ∧ ¬ payload.IsMethod
    defines := False }

theorem names_bypassPolicy (w : World) : w.bypassPolicy.Names w :=
  ⟨fun _ _ hadmits => hadmits.1, fun _ hdeclares => hdeclares⟩

end World

namespace Operation

variable {α : Type} {w : World} {a : Annals}

/-- The operation makes no chain, copies none and writes no overload. -/
def LeavesChains (w : World) : {α : Type} → Operation α → Prop
  | _, set s _ => ¬ s.Defines
  | _, newMethod | _, addSignature _ _ _ | _, defineMethod _ _ _ _ => False
  | _, allocate o => ¬ o.payload.IsMethod
  | _, allocateOf _ payload _ => ¬ payload.IsMethod
  | _, shallowCopy x => w.isMethod x = false
  | _, _ => True

/-- Whatever happens beside, such an operation leaves chains alone. -/
theorem sameChains_perform (htallies : w.Tallies a) (op : Operation α)
    (hnames : op.NamesRegistered w) (hleaves : op.LeavesChains w)
    (hcells : (op.perform w).2.objects.cells.size ≤ 2 ^ 32) : w.SameChains (op.perform w).2 := by
  have hordered := htallies.ordered
  have htrims : op.action.Keeps (World.TrimsBy fun _ => Object.Refrains) →
      w.SameChains (op.perform w).2 := fun hkeeps => World.sameChains_of_trims (hkeeps w)
  have hstandard : w.bypassPolicy.Standard := fun c hc payload _ hmethod _ =>
    ⟨htallies.builtin c hc, hmethod⟩
  have hroutine : op.Within w.bypassPolicy → ¬ op.IsRaw → op.Licensed w.bypassPolicy →
      w.SameChains (op.perform w).2 := fun hwithin hraw hlicensed =>
    (((op.routine_action hstandard hwithin hraw hlicensed).bypasses id (fun _ _ h => h.2)
      w).same w.names_bypassPolicy hordered hcells).2
  cases op with
  | allocate o =>
      exact (Action.adds_allocate hordered hnames o hcells).sameChains
        (Object.ne_method_of_not_isMethod hleaves)
  | allocateOf c payload length => exact hroutine ⟨hnames, hleaves⟩ id trivial
  | cell c head next => exact hroutine ⟨hnames, id⟩ id trivial
  | set s value =>
      exact hroutine trivial id ⟨fun _ => trivial, fun hs => hleaves hs, fun _ => trivial⟩
  | shallowCopy x =>
      cases ho : w.objects.get? x with
      | none =>
          have hsame : ((shallowCopy x).perform w).2 = w := by
            show ((Action.shallowCopy x).perform w).2 = w
            unfold Action.shallowCopy
            rw [Action.perform_query_bind, World.object_eq_error ho]
          rw [hsame]
          exact refl_of World.SameChains w
      | some o =>
          refine (Action.adds_shallowCopy hordered htallies.bare.registered ho hcells).sameChains
            fun l hl => ?_
          have hmethod : w.isMethod x = true := World.isMethod_iff.2
            ⟨l, World.signatures_eq_ok_iff.2 (World.payload?_eq_some_iff.2 ⟨o, ho, hl⟩)⟩
          cases hleaves.symm.trans hmethod
  | subclass => exact Action.sameChains_subclass hordered hcells
  | openScope => exact htrims Action.trims_openScope
  | closeScope id' result => exact htrims (Action.trims_closeScope id' result)
  | releasePool id' => exact htrims (Action.trims_releasePool id')
  | addToPool x id' => exact htrims (Action.trims_addToPool x id')
  | removeFromPool x id' => exact htrims (Action.trims_removeFromPool x id')
  | addRoot => exact htrims (Action.keeps_modify fun _ => .of_eq rfl rfl rfl)
  | removeRoot => exact htrims (Action.keeps_modifyGet fun _ => .of_eq rfl rfl rfl)
  | newMethod | addSignature | defineMethod => exact hleaves.elim
  | _ => exact hroutine hnames id trivial

end Operation

/-! ## New worlds -/

namespace World

variable {w w' : World} {settings : Settings}

/-- No chains are there. -/
def Chainless (w : World) : Prop :=
  ∀ m l, w.signatures m ≠ .ok l

theorem Chainless.keep (hnone : w.Chainless) (hsame : w.SameChains w') : w'.Chainless :=
  fun m l hl => hnone m l (hsame m l hl)

/-- If there were no chains, there are none. -/
def StaysChainless (w w' : World) : Prop :=
  w.objects.All (fun o => ∀ l, o.payload ≠ .method l) →
    w'.objects.All fun o => ∀ l, o.payload ≠ .method l

instance : IsPreorder World StaysChainless where
  refl _ := id
  trans _ _ _ hfirst hsecond := hsecond ∘ hfirst

theorem staysChainless_modifyObject (w : World) (x : Handle) {change : Object → Object}
    (hchange : ∀ o : Object, o.Abstains (change o)) :
    w.StaysChainless (w.modifyObject x change) :=
  fun hnone => hnone.modify x fun o ho l hl => ho l (hchange o l hl)

end World

namespace Action

open World

theorem staysChainless_pin (x : Handle) : (pin x).Keeps StaysChainless :=
  keeps_pin (fun _ => keeps_removeFromPool fun _ _ _ _ _ => id) (fun _ => id) fun w =>
    w.staysChainless_modifyObject x fun _ => Object.abstains_of_payload_eq rfl

theorem staysChainless_makeClasses : makeClasses.Keeps StaysChainless :=
  keeps_makeClasses
    (fun w c change => w.staysChainless_modifyObject c (Object.abstains_changeDescriptor change))
    (fun w classRef d (hnone : Arena.All _ _) => hnone.insertWith
      (fun c => .new (classRef c) 0 (.descriptor d) 0 .shared) fun _ _ h => by cases h)
    staysChainless_pin fun _ _ => id

end Action

namespace World

variable {w : World} {settings : Settings}

/-- New worlds are without chains. -/
theorem chainless_create (hcreate : create settings = .ok w)
    (hcells : w.objects.cells.size ≤ 2 ^ 32) : w.Chainless := by
  obtain ⟨hcapacity, w', hclasses, hobjects⟩ := exists_of_create hcreate
  obtain ⟨hprimed, _⟩ := Action.primed_makeClasses (founded_empty hcapacity)
    (ordered_empty settings) rfl hclasses
  have hfounded := hprimed.founded
  have hall : w'.objects.All fun o => ∀ l, o.payload ≠ .method l := by
    have hstays := Action.staysChainless_makeClasses (empty settings) Arena.all_empty
    rwa [hclasses] at hstays
  have hnone : w'.Chainless := fun m l hl => by
    obtain ⟨o, ho, hpayload⟩ := payload?_eq_some_iff.1 (signatures_eq_ok_iff.1 hl)
    exact hall.get? ho l hpayload
  have hstandard : w'.bypassPolicy.Standard := fun c hc _ _ hmethod _ =>
    ⟨hfounded.mem_classes_iff.2 hc, hmethod⟩
  have hbypasses : Action.makeObjects.Keeps (Bypasses w'.bypassPolicy) :=
    Action.keeps_bind
      (Action.bypasses_allocatePinned (hstandard _ (by decide) _ rfl (by nofun) id) (by nofun) 0 0)
      fun _ => Action.keeps_bind
        (Action.bypasses_allocatePinned (hstandard _ (by decide) _ rfl (by nofun) id) (by nofun)
          0 0)
        fun _ => (Action.routine_furnish hstandard trivial).bypasses id fun _ _ h => h.2
  have h := hbypasses w'
  rw [hobjects] at h
  exact hnone.keep (h.same w'.names_bypassPolicy hprimed.ordered hcells).2

end World

end ObjectSystem

/-
# The operations of a world

An operation respects a world if it does not move objects between pools by hand, if
what it puts into the world names registered classes, holds nothing and carries no
mark and no pin, and if it copies only what a collection would keep.

Respectful operations lead from coherent worlds to coherent worlds, whether they
succeed or fail.
-/

import ObjectSystem.Proofs.Coherence.Classes
import ObjectSystem.Proofs.Library
import ObjectSystem.Operation

namespace ObjectSystem

open World

namespace Query

variable {α : Type}

theorem routine_answer {π : Policy} (q : Query α) : Action.Routine π (.query q.answer) := by
  cases q with
  | object x => exact Action.routine_object x
  | ownership x => exact Action.routine_ask fun w _ => w.answers_ownership x
  | classOf x => exact Action.routine_classOf x
  | behaviorOf x => exact Action.routine_behaviorOf x
  | descriptor c => exact Action.routine_descriptor c
  | isAssignableClass c target => exact Action.routine_isAssignableClass c target
  | isAssignable x target =>
      exact Action.routine_ask fun _ hcoherent => answers_isAssignable hcoherent x target
  | ancestors c => exact Action.routine_ask fun _ hcoherent => answers_ancestors hcoherent c
  | resolveAttr c s => exact Action.routine_resolveAttr c s
  | getAttr x s => exact Action.routine_getAttr x s
  | classAttr c s => exact Action.routine_classAttr c s
  | read s => exact Action.routine_ask fun _ hcoherent => answers_read hcoherent s
  | symbolOf x => exact Action.routine_symbolOf x
  | nativeOf x => exact Action.routine_nativeOf x
  | items list => exact Action.routine_items list
  | frame env => exact Action.routine_frame env
  | lookup env name => exact Action.routine_lookup env name
  | lookupLocal env name =>
      exact Action.routine_ask fun _ hcoherent => answers_lookupLocal hcoherent env name
  | signatures method => exact Action.routine_signatures method
  | matchMethod method start args =>
      exact Action.routine_ask fun _ hcoherent => answers_matchMethod hcoherent method start args
  | findMethodInClass s c args =>
      exact Action.routine_ask fun _ hcoherent => answers_findMethodInClass hcoherent s c args

end Query

/-- Nothing is kept in the attributes yet. Users can make no other objects. -/
def Object.Vacant (o : Object) : Prop :=
  o.attrs = Array.replicate o.attrs.size none

/-- The object carries neither a mark nor a pin of its own. -/
structure Object.Unflagged (o : Object) : Prop where
  unmarked : o.header.marked = false
  unpinned : o.header.pinned = false

/-- A plain object without values is as good as new. -/
theorem Object.Unflagged.eq_new {o : Object} (hunflagged : o.Unflagged) (hvacant : o.Vacant) :
    o = .new o.classRef o.attrs.size o.payload o.length o.header.ownership := by
  obtain ⟨⟨own, marked, pinned⟩, c, attrs, length, payload⟩ := o
  obtain ⟨rfl, rfl⟩ : marked = false ∧ pinned = false := ⟨hunflagged.unmarked, hunflagged.unpinned⟩
  rw [Object.Vacant] at hvacant
  simp only [Object.new, Object.mk.injEq, true_and, and_true]
  exact hvacant

namespace Operation

variable {α : Type}

def perform (op : Operation α) (w : World) : Except Error α × World :=
  op.action.perform w

/-- Objects are not moved between pools by hand, what is allocated holds nothing and
carries no mark and no pin, all classes that objects come to name are registered, and
what is copied would be kept by a collection. -/
def Respects (w : World) : {α : Type} → Operation α → Prop
  | _, addToPool _ _ | _, removeFromPool _ _ => False
  | _, allocate o => o.classRef ∈ w.classes ∧ o.payload.refs = [] ∧ o.Vacant ∧ o.Unflagged
  | _, allocateOf c payload _ => c ∈ w.classes ∧ payload.refs = []
  | _, cell c _ _ => c ∈ w.classes
  | _, subclass parent _ _ newClasses =>
      parent ∈ w.classes ∧ ∀ l, newClasses = some l → ∀ c ∈ l, c ∈ w.classes
  | _, addSuperclass _ superclass => superclass ∈ w.classes
  | _, setAttrClass _ _ attrClass => attrClass ∈ w.classes
  | _, addSignature _ argClass _ => ∀ c, argClass = some c → c ∈ w.classes
  | _, defineMethod _ _ argClasses _ => ∀ c ∈ argClasses, c ∈ w.classes
  | _, shallowCopy x => w.Keeps [] x
  | _, _ => True

/-- The end of a scope passes on the error that its body has come to. -/
def PassesOn : {α : Type} → Operation α → Error → Prop
  | _, closeScope _ result, e => result = .error e
  | _, _, _ => False

end Operation

/-- Instances have different places for the item and for the rest of a linked list. -/
def Class.Pairs (d : Class) : Prop :=
  ∀ place, d.slot Symbol.head = .inInstance place → d.slot Symbol.next ≠ .inInstance place

namespace World

/-- A world with the built-in classes and the null object. -/
structure Equipped (w : World) : Prop where
  classes : ∀ c ∈ Builtin.classes, c ∈ w.classes
  null : ∃ o, w.objects.get? Builtin.null = some o ∧ o.header.pinned = true
  pairs : ∃ d : Class, d.Pairs ∧ w.PlacesWithin Builtin.pairlistClass d

theorem Equipped.evolve {w w' : World} (hequipped : w.Equipped) (hevolves : w.Evolves w') :
    w'.Equipped where
  classes c hc := hevolves.classes c (hequipped.classes c hc)
  null := by
    obtain ⟨o, ho, hpinned⟩ := hequipped.null
    obtain ⟨o', ho', hlasts⟩ := hevolves.pinned _ o ho hpinned
    exact ⟨o', ho', hlasts.pinned⟩
  pairs := by
    obtain ⟨d, hpairs, hplaces⟩ := hequipped.pairs
    exact ⟨d, hpairs, hplaces.evolve hevolves⟩

/-- What respectful operations may put into a world. -/
def policy (w : World) : Policy where
  admits c payload := c ∈ w.classes ∧ payload.refs = []
  declares c := c ∈ w.classes

theorem policy_within (w : World) : w.policy.Within w where
  admits _ _ hadmits := hadmits
  declares _ hdeclares := hdeclares

theorem generous_policy (w : World) : w.policy.Generous :=
  ⟨trivial, trivial, trivial, trivial, trivial, trivial⟩

theorem Equipped.standard {w : World} (hequipped : w.Equipped) : w.policy.Standard :=
  fun c hc _ hpayload _ _ => ⟨hequipped.classes c hc, hpayload⟩

end World

namespace Operation

variable {α : Type} {w : World}

/-- What a policy has to allow for an operation to be composite under it. The operations
that are not deal with scopes, pools and roots, or read what they put in off the world. -/
def Within (π : Policy) : {α : Type} → Operation α → Prop
  | _, shallowCopy _ | _, subclass _ _ _ _ => False
  | _, openScope | _, closeScope _ _ | _, releasePool _ => False
  | _, addToPool _ _ | _, removeFromPool _ _ | _, addRoot _ | _, removeRoot _ => False
  | _, allocate o => π.admits o.classRef o.payload ∧ o.Vacant ∧ o.Unflagged
  | _, allocateOf c payload _ => π.admits c payload
  | _, cell c _ _ => π.admits c .none
  | _, addSuperclass _ superclass => π.declares superclass
  | _, setAttrClass _ _ attrClass => π.declares attrClass
  | _, addSignature _ argClass _ => ∀ c, argClass = some c → π.declares c
  | _, defineMethod _ _ argClasses _ => ∀ c ∈ argClasses, π.declares c
  | _, _ => True

/-- What a policy has to say about how things are done, for an operation to be a routine. -/
def Licensed (π : Policy) : {α : Type} → Operation α → Prop
  | _, set s _ => (s.IsAttr → π.pokes) ∧ (s.Defines → π.defines) ∧ (s.IsBinding → π.binds)
  | _, setAttrClass _ _ _ => π.redeclares
  | _, install _ => π.lasts
  | _, newMethod | _, addSignature _ _ _ => π.defines
  | _, defineMethod _ _ _ _ => π.defines
  | _, assign _ _ _ => π.assigns
  | _, _ => True

theorem licensed {π : Policy} (hgenerous : π.Generous) (op : Operation α) : op.Licensed π := by
  cases op with
  | set s value =>
      exact ⟨fun _ => hgenerous.pokes, fun _ => hgenerous.defines, fun _ => hgenerous.binds⟩
  | setAttrClass => exact hgenerous.redeclares
  | install => exact hgenerous.lasts
  | newMethod | addSignature | defineMethod => exact hgenerous.defines
  | assign => exact hgenerous.assigns
  | _ => trivial

/-- An operation that puts in an object as it is given. -/
def IsRaw : {α : Type} → Operation α → Prop
  | _, allocate _ => True
  | _, _ => False

theorem routine_action {π : Policy} (hstandard : π.Standard) (op : Operation α)
    (hwithin : op.Within π) (hraw : ¬ op.IsRaw) (hlicensed : op.Licensed π) :
    Action.Routine π op.action := by
  cases op with
  | ask q => exact q.routine_answer
  | allocate => exact absurd trivial hraw
  | allocateOf c payload length => exact .allocateOf hwithin length
  | realVector length => exact Action.routine_realVector hstandard length
  | integerVector length => exact Action.routine_integerVector hstandard length
  | logicalVector length => exact Action.routine_logicalVector hstandard length
  | complexVector length => exact Action.routine_complexVector hstandard length
  | objectVector length => exact Action.routine_objectVector hstandard length
  | fillReals x values => exact Action.routine_fillReals x values
  | fillIntegers x values => exact Action.routine_fillIntegers x values
  | fillLogicals x values => exact Action.routine_fillLogicals x values
  | fillComplexes x values => exact Action.routine_fillComplexes x values
  | scalarReal value => exact Action.routine_scalarReal hstandard value
  | scalarInteger value => exact Action.routine_scalarInteger hstandard value
  | scalarLogical value => exact Action.routine_scalarLogical hstandard value
  | newText text => exact Action.routine_newText hstandard text
  | newString text => exact Action.routine_newString hstandard text
  | cell c head next => exact Action.routine_cell hwithin head next
  | newList items => exact Action.routine_newList hstandard items
  | newCall parts => exact Action.routine_newCall hstandard parts
  | intern name => exact Action.routine_intern name
  | install name => exact Action.routine_install hstandard hlicensed name
  | newBuiltin function => exact Action.routine_newBuiltin hstandard function
  | newSpecial function => exact Action.routine_newSpecial hstandard function
  | newGeneric name => exact Action.routine_newGeneric hstandard name
  | set s value => exact .set s value hlicensed.1 hlicensed.2.1 hlicensed.2.2
  | setAttr x s value => exact .setAttr x s value
  | addSuperclass c superclass => exact .addSuperclass c hwithin
  | setBehavior c behavior => exact Action.routine_setBehavior c behavior
  | setTypeTag c tag => exact Action.routine_setTypeTag c tag
  | setAttrClass c s attrClass => exact Action.routine_setAttrClass hlicensed c s hwithin
  | defineClassAttr c s value => exact Action.routine_defineClassAttr c s value
  | newMethod => exact Action.routine_newMethod hstandard hlicensed
  | addSignature method argClass value =>
      exact Action.routine_addSignature hlicensed method value hwithin
  | defineMethod c name argClasses value =>
      exact Action.routine_defineMethod hstandard hlicensed c name value hwithin
  | findMethod name args => exact Action.routine_findMethod name args
  | requireMethod name args => exact Action.routine_requireMethod name args
  | newEnvironment parent => exact Action.routine_newEnvironment hstandard parent
  | assign env name value => exact .assign hlicensed env name value
  | collect extra => exact .collect extra
  | warn message =>
      exact Action.routine_modify (fun _ => ⟨rfl, rfl, rfl, rfl, rfl, rfl, .refl _⟩)
        (Or.inr fun _ => rfl)
  | clearWarnings =>
      exact Action.routine_modify (fun _ => ⟨rfl, rfl, rfl, rfl, rfl, rfl, .refl _⟩)
        (Or.inr fun _ => rfl)
  | _ => exact hwithin.elim

theorem composite_action {π : Policy} (hstandard : π.Standard) (hgenerous : π.Generous)
    (op : Operation α) (hwithin : op.Within π) : Action.Composite π op.action := by
  cases op with
  | allocate o =>
      obtain ⟨hadmits, hvacant, hunflagged⟩ := hwithin
      have hcomposite := Action.Composite.allocate hadmits o.attrs.size o.length o.header.ownership
      rwa [← hunflagged.eq_new hvacant] at hcomposite
  | _ => exact (routine_action hstandard _ hwithin id (licensed hgenerous _)).composite

/-- An operation that may give a symbol an object. -/
def IsInstall : {α : Type} → Operation α → Prop
  | _, install _ => True
  | _, _ => False

/-- What the operation puts in carries no mark of its own. -/
def Unmarked : {α : Type} → Operation α → Prop
  | _, allocate o => o.header.marked = false
  | _, _ => True

theorem Respects.unmarked {op : Operation α} (hrespects : op.Respects w) : op.Unmarked := by
  cases op with
  | allocate o => exact hrespects.2.2.2.unmarked
  | _ => trivial

/-- Whatever the operation and however it is misused, what its steps keep is kept. That symbols
may get other objects matters only to the operation that gives them some, and marks only to the
one that puts in objects as they are. -/
theorem keepsBy {R : World → World → Prop} [IsPreorder World R] (hsteps : Steps R)
    (op : Operation α) (hnote : op.IsInstall → ∀ (w : World) l, R w { w with symbolObjects := l })
    (hinsert : ¬ op.Unmarked → ∀ (w : World) (value : Handle → Object),
      R w { w with objects := (w.objects.insertWith value).2 }) : op.action.Keeps R := by
  have hroutine : ∀ {β : Type} (op : Operation β), op.Within (.lastingIf op.IsInstall) →
      ¬ op.IsRaw → op.Licensed (.lastingIf op.IsInstall) →
      (op.IsInstall → ∀ (w : World) l, R w { w with symbolObjects := l }) → op.action.Keeps R :=
    fun op hwithin hraw hlicensed hnote =>
      have hroutine := op.routine_action (Policy.standard_lastingIf _) hwithin hraw hlicensed
      hroutine.composite.keepsBy hsteps hnote
  cases op with
  | allocate o =>
      by_cases hmark : o.header.marked = false
      · exact hsteps.allocate hmark
      · exact hsteps.allocateBy fun w own => hinsert hmark w fun _ => o.setOwnership own
  | shallowCopy x => exact hsteps.shallowCopy x
  | subclass parent name newAttrs newClasses =>
      exact hsteps.subclass parent name newAttrs newClasses
  | openScope => exact hsteps.openScope
  | closeScope id result => exact hsteps.closeScope id result
  | releasePool id => exact hsteps.releasePool id
  | addToPool x id => exact hsteps.addToPool x id
  | removeFromPool x id => exact hsteps.removeFromPool x id
  | addRoot x => exact Action.keeps_modify fun _ => hsteps.same rfl rfl (.refl _) rfl
  | removeRoot x => exact Action.keeps_modifyGet fun _ => hsteps.same rfl rfl (.refl _) rfl
  | set =>
      exact hroutine _ trivial id ⟨fun _ => trivial, fun _ => trivial, fun _ => trivial⟩ hnote
  | addSignature => exact hroutine _ (fun _ _ => trivial) id trivial hnote
  | defineMethod => exact hroutine _ (fun _ _ => trivial) id trivial hnote
  | _ => exact hroutine _ trivial id trivial hnote

/-- Whatever the operation and however it is misused, what all steps keep is kept. -/
theorem keeps {R : World → World → Prop} [IsPreorder World R] (hsteps : AllSteps R)
    (op : Operation α) : op.action.Keeps R :=
  op.keepsBy hsteps.toSteps (fun _ => hsteps.note) fun _ => hsteps.insert

/-- Whatever the operation and however it is misused, a tidy world stays tidy, unless an object
is put in that carries a mark. -/
theorem advances (op : Operation α) (hunmarked : op.Unmarked) : op.action.Keeps World.Advances :=
  op.keepsBy steps_advances (fun _ _ _ => .of_eq rfl rfl) fun hmarked => absurd hunmarked hmarked

/-- Whatever the operation and however it is misused, cells and scopes are only used up. -/
theorem spends (op : Operation α) : op.action.Keeps World.Spends :=
  op.keeps steps_spends

/-- Whatever the operation, symbols keep their names. -/
theorem remembers (op : Operation α) : op.action.Keeps World.Remembers :=
  op.keeps steps_remembers

/-- A respectful operation leads from a coherent world to a coherent world, and it does
not report that the world has lost track of its objects. -/
theorem evolves (hcoherent : w.Coherent) (htidy : w.Tidy) (hequipped : w.Equipped)
    (op : Operation α) (hrespects : op.Respects w) (hfits : (op.perform w).2.Fits) :
    w.Evolves (op.perform w).2 ∧ ∀ x id,
      (op.perform w).1 = .error (.poolCorruption x id) → op.PassesOn (.poolCorruption x id) := by
  have hleads : ∀ {β : Type} {result : Except Error β} {w' : World} {P : Handle → PoolId → Prop},
      Action.LeadsTo w result w' →
      w.Evolves w' ∧ ∀ x id, result = .error (.poolCorruption x id) → P x id :=
    fun hleads => ⟨hleads.evolves, fun x id heq => absurd heq (hleads.fair x id)⟩
  have hcomposite : ∀ {β : Type} {P : Handle → PoolId → Prop} (op : Operation β),
      op.Within w.policy → (op.perform w).2.Fits → w.Evolves (op.perform w).2 ∧
        ∀ x id, (op.perform w).1 = .error (.poolCorruption x id) → P x id :=
    fun op hwithin hfits => hleads
      ((op.composite_action hequipped.standard w.generous_policy hwithin).leadsTo hcoherent htidy
        w.policy_within hfits)
  cases op with
  | allocate o => exact hcomposite _ ⟨⟨hrespects.1, hrespects.2.1⟩, hrespects.2.2⟩ hfits
  | cell c head next => exact hcomposite _ ⟨hrespects, rfl⟩ hfits
  | shallowCopy x =>
      obtain ⟨hevolves, herror⟩ := Action.shallowCopy_spec hcoherent htidy hfits hrespects
      refine ⟨hevolves, fun y id heq => ?_⟩
      obtain ⟨limit, hlimit⟩ := herror _ heq
      cases hlimit
  | subclass parent name newAttrs newClasses =>
      exact hleads (Action.subclass_leadsTo hcoherent hfits (hequipped.classes _ (by decide))
        (hequipped.classes _ (by decide)) hrespects.1 hrespects.2)
  | openScope => exact ⟨Action.openScope_spec hcoherent hfits, fun _ _ heq => by cases heq⟩
  | closeScope id result =>
      refine ⟨Action.evolves_closeScope hcoherent id result, fun x id' heq => ?_⟩
      obtain ⟨w', _, _, hclose⟩ := Action.closeScope_spec hcoherent id result
      rcases hclose with ⟨e, hperform, _, hblames⟩ | ⟨w'', closed, kept, hperform, _⟩
      · exact absurd (Except.error.inj ((congrArg Prod.fst hperform).symm.trans heq))
          (hblames.ne_poolCorruption x id')
      · exact (congrArg Prod.fst hperform).symm.trans heq
  | releasePool id =>
      show w.Evolves ((Action.releasePool id).perform w).2 ∧ _
      rcases Action.releasePool_spec hcoherent id with
        ⟨e, hperform, _, hblames⟩ | ⟨n, w', closed, kept, hperform, _, hreleases⟩
      · rw [hperform]
        refine ⟨.refl hcoherent, fun x id' heq => ?_⟩
        exact absurd (Except.error.inj ((congrArg Prod.fst hperform).symm.trans heq))
          (hblames.ne_poolCorruption x id')
      · rw [hperform]
        refine ⟨hreleases.evolves, fun x id' heq => ?_⟩
        cases (congrArg Prod.fst hperform).symm.trans heq
  | addToPool x id => exact hrespects.elim
  | removeFromPool x id => exact hrespects.elim
  | addRoot x => exact ⟨.of_eq hcoherent rfl rfl rfl, fun _ _ heq => by cases heq⟩
  | removeRoot x => exact ⟨.of_eq hcoherent rfl rfl rfl, fun _ _ heq => by cases heq⟩
  | _ => exact hcomposite _ hrespects hfits

end Operation

end ObjectSystem

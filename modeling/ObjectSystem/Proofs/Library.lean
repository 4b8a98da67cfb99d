/-
# The library is made of routines

Each operation of the library, from allocating a vector to finding a method, is put
together from the steps of `Action.Routine`.
-/

import ObjectSystem.Proofs.Routine
import ObjectSystem.World.Construction

namespace ObjectSystem

/-- The payload is the overloads of a method. -/
def Payload.IsMethod : Payload → Prop
  | method _ => True
  | _ => False

/-- The payload is the descriptor of a class. -/
def Payload.IsDescriptor : Payload → Prop
  | descriptor _ => True
  | _ => False

/-- The payload is the elements of a vector, none of them an object. -/
def Payload.IsVector : Payload → Prop
  | logical _ | integer _ | real _ | complex _ => True
  | _ => False

namespace Payload.IsVector

variable {payload : Payload} (hvector : payload.IsVector)

include hvector

theorem refs_eq : payload.refs = [] := by
  cases payload <;> first | rfl | exact hvector.elim

theorem isContents : payload.IsContents := by
  cases payload <;> trivial

theorem ne_environment (f : Frame) : payload ≠ .environment f := by
  rintro rfl
  exact hvector

theorem ne_method (l : Array Signature) : payload ≠ .method l := by
  rintro rfl
  exact hvector

end Payload.IsVector

/-- A policy that allows what the library itself allocates. Of that, classes are no part. -/
def Policy.Standard (π : Policy) : Prop :=
  ∀ c ∈ Builtin.classes, ∀ payload : Payload, payload.refs = [] →
    (payload.IsMethod → π.defines) → ¬ payload.IsDescriptor → π.admits c payload

/-- The policy that allows everything. -/
def Policy.anything : Policy where
  admits _ _ := True
  declares _ := True

theorem Policy.standard_anything : Policy.anything.Standard :=
  fun _ _ _ _ _ _ => trivial

theorem Policy.generous_anything : Policy.anything.Generous :=
  ⟨trivial, trivial, trivial, trivial, trivial, trivial⟩

/-- The policy that allows everything, but objects that are never freed on a condition only. -/
def Policy.lastingIf (condition : Prop) : Policy where
  admits _ _ := True
  declares _ := True
  lasts := condition

theorem Policy.standard_lastingIf (condition : Prop) : (Policy.lastingIf condition).Standard :=
  fun _ _ _ _ _ _ => trivial

namespace Action

open World

variable {π : Policy} {α β : Type}

theorem routine_ask {question : World → Except Error α} {given : World → List Handle}
    {P : World → α → Prop}
    (hanswers : ∀ w : World, w.Coherent → w.Answers (given w) (question w) (P w)) :
    Routine π (query question) :=
  .query fun w hcoherent _ he => ((hanswers w hcoherent).error he).ne_poolCorruption

theorem routine_get : Routine π get :=
  show Routine π (query Except.ok) from .query fun _ _ _ he => by cases he

theorem routine_modify {f : World → World} (hf : ∀ w : World, w.Beside (f w))
    (hnotes : π.lasts ∨ ∀ w : World, (f w).symbolObjects = w.symbolObjects) :
    Routine π (modify f) :=
  .aside (f := fun w => ((), f w)) hf hnotes

theorem routine_forM {l : List α} {f : α → Action PUnit} (hf : ∀ a ∈ l, Routine π (f a)) :
    Routine π (l.forM f) := by
  induction l with
  | nil => exact .pure _
  | cons a l ih =>
      exact .bind (hf a List.mem_cons_self) fun _ => ih fun b hb => hf b (List.mem_cons_of_mem _ hb)

theorem routine_foldrM {l : List α} {f : α → β → Action β} (hf : ∀ a b, Routine π (f a b))
    (b : β) : Routine π (l.foldrM f b) := by
  induction l with
  | nil =>
      rw [List.foldrM_nil]
      exact .pure _
  | cons a l ih =>
      rw [List.foldrM_cons]
      exact .bind ih fun b => hf a b

/-! ## Asking -/

theorem routine_object (x : Handle) : Routine π (query (·.object x)) :=
  routine_ask fun w _ => w.answers_object x

theorem routine_classOf (x : Handle) : Routine π (query (·.classOf x)) :=
  routine_ask fun _ hcoherent => answers_classOf hcoherent x

theorem routine_descriptor (c : Handle) : Routine π (query (·.descriptor c)) :=
  routine_ask fun w _ => w.answers_descriptor c

theorem routine_behaviorOf (x : Handle) : Routine π (query (·.behaviorOf x)) :=
  routine_ask fun _ hcoherent => answers_behaviorOf hcoherent x

theorem routine_resolveAttr (c : Handle) (s : Symbol) : Routine π (query (·.resolveAttr c s)) :=
  routine_ask fun _ hcoherent => answers_resolveAttr hcoherent c s

theorem routine_getAttr (x : Handle) (s : Symbol) : Routine π (query (·.getAttr x s)) :=
  routine_ask fun _ hcoherent => answers_getAttr hcoherent x s

theorem routine_symbolOf (x : Handle) : Routine π (query (·.symbolOf x)) :=
  routine_ask fun w _ => w.answers_symbolOf x

theorem routine_nativeOf (x : Handle) : Routine π (query (·.nativeOf x)) :=
  routine_ask fun w _ => w.answers_nativeOf x

theorem routine_items (list : Handle) : Routine π (query (·.items list)) :=
  routine_ask fun _ hcoherent => answers_items hcoherent list

theorem routine_frame (env : Handle) : Routine π (query (·.frame env)) :=
  routine_ask fun w _ => w.answers_frame env

theorem routine_lookup (env : Handle) (name : Symbol) : Routine π (query (·.lookup env name)) :=
  routine_ask fun _ hcoherent => answers_lookup hcoherent env name

theorem routine_signatures (method : Handle) : Routine π (query (·.signatures method)) :=
  routine_ask fun w _ => w.answers_signatures method

theorem routine_classAttr (c : Handle) (s : Symbol) : Routine π (query (·.classAttr c s)) :=
  routine_ask fun w _ => w.answers_classAttr c s

theorem routine_isAssignableClass (c target : Handle) :
    Routine π (query (·.isAssignableClass c target)) :=
  routine_ask fun _ hcoherent => answers_isAssignableClass hcoherent c target

/-! ## Amending -/

theorem routine_modifyPayload {x : Handle} {change : Payload → Payload}
    (hchange : ∀ payload : Payload, change payload = payload ∨
      payload.IsVector ∧ (change payload).IsVector) :
    Routine π (modify (·.modifyPayload x change)) := by
  have hcontents : ∀ payload, change payload = payload ∨
      payload.IsContents ∧ (change payload).IsContents :=
    fun payload => (hchange payload).imp id fun h => ⟨h.1.isContents, h.2.isContents⟩
  refine Routine.amend (fun o => Object.amends_of_refs_eq_nil ?_)
    (fun o => o.stays_setPayload o.length _ (hcontents o.payload))
    (Or.inr fun o => Object.sameDeclared_of_contents (hcontents o.payload)) (Or.inr fun o => ?_)
    fun o => ?_
  · exact (hchange o.payload).imp id fun ⟨hbefore, hafter⟩ =>
      ⟨hbefore.refs_eq, hafter.refs_eq, hbefore.isContents.ne_descriptor,
        hafter.isContents.ne_descriptor⟩
  · rcases hchange o.payload with heq | ⟨_, hafter⟩
    · exact Object.abstains_of_payload_eq heq
    · exact Object.abstains_of_ne_method hafter.ne_method
  · rcases hchange o.payload with heq | ⟨hbefore, hafter⟩
    · exact Object.sameFrame_of_payload_eq heq
    · exact Object.sameFrame_of_payload hbefore.ne_environment hafter.ne_environment

/-- A class descriptor may change if its values and its layout stay and it names no other
classes than before, apart from declared ones. -/
theorem routine_modifyDescriptor {c : Handle} {change : Class → Class}
    (hclasses : ∀ d : Class, ∀ r, r ∈ (change d).supers.toList ++ (change d).attrClasses.toList →
      r ∈ d.supers.toList ++ d.attrClasses.toList ∨ π.declares r)
    (hvalues : ∀ d : Class, (change d).classAttrs = d.classAttrs)
    (hstays : ∀ d : Class, d.Stays (change d))
    (hsame : π.redeclares ∨ ∀ d : Class, (change d).attrClasses = d.attrClasses) :
    Routine π (modify (·.modifyDescriptor c change)) :=
  Routine.amend (fun o => o.amends_changeDescriptor hclasses (fun d _ _ hy => hvalues d ▸ hy)
      fun d s place hplace => by rwa [Class.slot, (hstays d).slots_eq] at hplace)
    (Object.stays_changeDescriptor hstays) (hsame.imp id Object.sameDeclared_changeDescriptor)
    (Or.inr (Object.abstains_changeDescriptor change))
    (Object.sameFrame_changeDescriptor change)

theorem routine_addOverload (hdefines : π.defines) (method : Handle) (argClass : Option Handle)
    (length : Nat) (hclass : ∀ c, argClass = some c → π.declares c) :
    Routine π (modify (·.modifyObject method fun o =>
      { o with
        length := length
        payload := match o.payload with
          | .method signatures =>
              .method (signatures.push { argClass := argClass, value := none })
          | other => other })) := by
  have hpayload : ∀ o : Object, (match o.payload with
      | .method signatures => .method (signatures.push { argClass := argClass, value := none })
      | other => other) = o.payload ∨ o.payload.IsContents ∧
      (match o.payload with
        | .method signatures =>
            Payload.method (signatures.push { argClass := argClass, value := none })
        | other => other).IsContents := by
    intro o
    cases hpayload : o.payload with
    | method l => exact Or.inr ⟨trivial, trivial⟩
    | _ => exact Or.inl rfl
  exact Routine.amend (Object.amends_addOverload length hclass)
    (fun o => o.stays_setPayload length _ (hpayload o))
    (Or.inr fun o => Object.sameDeclared_of_contents (hpayload o)) (Or.inl hdefines) fun o => by
      cases hpayload : o.payload with
      | method l => exact Object.sameFrame_of_payload (by rw [hpayload]; nofun) nofun
      | _ => exact Object.sameFrame_of_payload_eq (by simp only [hpayload])

/-! ## Classes -/

theorem routine_setBehavior (c : Handle) (behavior : Behavior) :
    Routine π (setBehavior c behavior) :=
  .bind (routine_descriptor c) fun _ =>
    routine_modifyDescriptor (fun _ _ hr => Or.inl hr) (fun _ => rfl)
      (fun _ => ⟨rfl, rfl, rfl, rfl, rfl⟩) (Or.inr fun _ => rfl)

theorem routine_setTypeTag (c : Handle) (tag : UInt8) : Routine π (setTypeTag c tag) :=
  .bind (routine_descriptor c) fun _ =>
    routine_modifyDescriptor (fun _ _ hr => Or.inl hr) (fun _ => rfl)
      (fun _ => ⟨rfl, rfl, rfl, rfl, rfl⟩) (Or.inr fun _ => rfl)

theorem routine_setAttrClass (hredeclares : π.redeclares) (c : Handle) (s : Symbol)
    {attrClass : Handle} (hdeclares : π.declares attrClass) :
    Routine π (setAttrClass c s attrClass) := by
  unfold setAttrClass
  refine .bind (routine_descriptor attrClass) fun _ => .bind (routine_descriptor c) fun d => ?_
  split
  · next place _ =>
      refine routine_modifyDescriptor (fun d r hr => ?_) (fun d => ?_)
        (fun d => d.stays_setAttrClass place.toNat attrClass) (Or.inl hredeclares)
      · unfold Class.setAttrClass at hr
        split at hr
        · exact Or.inl hr
        · rw [List.mem_append] at hr ⊢
          rcases hr with hr | hr
          · exact Or.inl (Or.inl hr)
          · rw [Array.toList_setIfInBounds] at hr
            rcases List.mem_or_eq_of_mem_set hr with hr | rfl
            · exact Or.inl (Or.inr hr)
            · exact Or.inr hdeclares
      · unfold Class.setAttrClass
        split <;> rfl
  · exact .bind routine_get fun _ => .throw _ fun _ _ => telling_ne nofun nofun

theorem routine_defineClassAttr (c : Handle) (s : Symbol) (value : Option Handle) :
    Routine π (defineClassAttr c s value) := by
  unfold defineClassAttr
  split
  · exact (.throw _ (by simp) : Routine π (throw (Error.reservedSymbol s)))
  · next hs =>
    exact .bind (.classAttrIndex c (Bool.eq_false_iff.2 hs)) fun index =>
      .set _ value nofun nofun nofun

/-! ## Vectors, texts and lists -/

theorem routine_fillReals (x : Handle) (values : List Double) :
    Routine π (fillReals x values) := by
  unfold fillReals
  refine .bind (routine_object x) fun o => ?_
  split
  · refine routine_modifyPayload fun payload => ?_
    cases payload with
    | real old => exact Or.inr ⟨trivial, trivial⟩
    | _ => exact Or.inl rfl
  · exact .bind routine_get fun _ => .throw _ fun _ _ => telling_ne nofun nofun

theorem routine_fillIntegers (x : Handle) (values : List Int32) :
    Routine π (fillIntegers x values) := by
  unfold fillIntegers
  refine .bind (routine_object x) fun o => ?_
  split
  · refine routine_modifyPayload fun payload => ?_
    cases payload with
    | integer old => exact Or.inr ⟨trivial, trivial⟩
    | _ => exact Or.inl rfl
  · exact .bind routine_get fun _ => .throw _ fun _ _ => telling_ne nofun nofun

theorem routine_fillLogicals (x : Handle) (values : List Int32) :
    Routine π (fillLogicals x values) := by
  unfold fillLogicals
  refine .bind (routine_object x) fun o => ?_
  split
  · refine routine_modifyPayload fun payload => ?_
    cases payload with
    | logical old => exact Or.inr ⟨trivial, trivial⟩
    | _ => exact Or.inl rfl
  · exact .bind routine_get fun _ => .throw _ fun _ _ => telling_ne nofun nofun

theorem routine_fillComplexes (x : Handle) (values : List Complex) :
    Routine π (fillComplexes x values) := by
  unfold fillComplexes
  refine .bind (routine_object x) fun o => ?_
  split
  · refine routine_modifyPayload fun payload => ?_
    cases payload with
    | complex old => exact Or.inr ⟨trivial, trivial⟩
    | _ => exact Or.inl rfl
  · exact .bind routine_get fun _ => .throw _ fun _ _ => telling_ne nofun nofun

theorem routine_setElement (x : Handle) (index : Nat) (value : Option Handle) :
    Routine π (setElement x index value) :=
  .set _ value False.elim False.elim False.elim

theorem routine_cell {c : Handle} (hadmits : π.admits c .none) (head next : Handle) :
    Routine π (cell c head next) :=
  .bind (.allocateOf hadmits 0) fun x => .bind (.setAttr x _ _) fun _ =>
    .bind (.setAttr x _ _) fun _ => .pure x

section Standard

variable (hstandard : π.Standard)
include hstandard

theorem routine_allocateBuiltin {c : Handle} {payload : Payload} (hc : c ∈ Builtin.classes)
    (hpayload : payload.refs = []) (hmethod : payload.IsMethod → π.defines)
    (hclass : ¬ payload.IsDescriptor) (length : Nat) :
    Routine π (allocateOf c payload length) :=
  .allocateOf (hstandard c hc payload hpayload hmethod hclass) length

theorem routine_realVector (length : Nat) : Routine π (realVector length) :=
  routine_allocateBuiltin hstandard (by decide) rfl False.elim id length

theorem routine_integerVector (length : Nat) : Routine π (integerVector length) :=
  routine_allocateBuiltin hstandard (by decide) rfl False.elim id length

theorem routine_logicalVector (length : Nat) : Routine π (logicalVector length) :=
  routine_allocateBuiltin hstandard (by decide) rfl False.elim id length

theorem routine_complexVector (length : Nat) : Routine π (complexVector length) :=
  routine_allocateBuiltin hstandard (by decide) rfl False.elim id length

theorem routine_objectVector (length : Nat) : Routine π (objectVector length) :=
  routine_allocateBuiltin hstandard (by decide) (by simp [Payload.refs]) False.elim id length

theorem routine_scalarReal (value : Double) : Routine π (scalarReal value) :=
  .bind (routine_realVector hstandard 1) fun x => .bind (routine_fillReals x _) fun _ => .pure x

theorem routine_scalarInteger (value : Int32) : Routine π (scalarInteger value) :=
  .bind (routine_integerVector hstandard 1) fun x =>
    .bind (routine_fillIntegers x _) fun _ => .pure x

theorem routine_scalarLogical (value : Bool) : Routine π (scalarLogical value) :=
  .bind (routine_logicalVector hstandard 1) fun x =>
    .bind (routine_fillLogicals x _) fun _ => .pure x

theorem routine_newText (text : String) : Routine π (newText text) :=
  routine_allocateBuiltin hstandard (by decide) rfl False.elim id _

theorem routine_newString (text : String) : Routine π (newString text) :=
  .scope (.bind (routine_allocateBuiltin hstandard (by decide) (by simp [Payload.refs]) False.elim
    id 1) fun x => .bind (routine_newText hstandard text) fun chars =>
      .bind (routine_setElement x 0 _) fun _ => .pure x)

theorem routine_newList (items : List Handle) : Routine π (newList items) := by
  refine .scope (routine_foldrM (fun head next => ?_) Builtin.null)
  exact routine_cell (hstandard _ (by decide) _ rfl False.elim id) head next

theorem routine_newCall (parts : List Handle) : Routine π (newCall parts) := by
  cases parts with
  | nil => exact .throw _ (by simp)
  | cons function args =>
      refine .scope (.bind (routine_newList hstandard args) fun rest => ?_)
      exact routine_cell (hstandard _ (by decide) _ rfl False.elim id) function rest

theorem routine_newBuiltin (function : Native) : Routine π (newBuiltin function) :=
  routine_allocateBuiltin hstandard (by decide) rfl False.elim id 0

theorem routine_newSpecial (function : Native) : Routine π (newSpecial function) :=
  routine_allocateBuiltin hstandard (by decide) rfl False.elim id 0

theorem routine_newMethod (hdefines : π.defines) : Routine π newMethod :=
  routine_allocateBuiltin hstandard (by decide) rfl (fun _ => hdefines) id 0

end Standard

theorem routine_intern (name : String) : Routine π (intern name) :=
  .aside (fun w => ⟨rfl, rfl, rfl, rfl, rfl, rfl, w.symbols.grows_intern name⟩)
    (Or.inr fun _ => rfl)

section Standard

variable (hstandard : π.Standard)
include hstandard

theorem routine_newGeneric (name : String) : Routine π (newGeneric name) :=
  .bind (routine_intern name) fun _ =>
    routine_allocateBuiltin hstandard (by decide) rfl False.elim id 0

theorem routine_install (hlasts : π.lasts) (name : String) : Routine π (install name) := by
  unfold install
  refine .bind (routine_intern name) fun s => .bind routine_get fun w => ?_
  split
  · exact .pure _
  · rw [← bind_assoc]
    refine .bind (.allocatePinnedOf hlasts (hstandard _ (by decide) _ rfl False.elim id) 0)
      fun x => ?_
    exact .bind (routine_modify (fun _ => ⟨rfl, rfl, rfl, rfl, rfl, rfl, .refl _⟩) (Or.inl hlasts))
      fun _ => .pure x

/-! ## Environments -/

theorem routine_newEnvironment (parent : Option Handle) : Routine π (newEnvironment parent) := by
  unfold newEnvironment
  refine .bind routine_get fun w =>
    .bind (routine_allocateBuiltin hstandard (by decide) (by simp [Payload.refs, Frame.values])
      False.elim id 0) fun env => ?_
  cases parent with
  | none => exact .pure env
  | some outer => exact .bind (.setAttr env _ _) fun _ => .pure env

end Standard

/-! ## Methods -/

theorem routine_addSignature (hdefines : π.defines) (method : Handle) {argClass : Option Handle}
    (value : Handle) (hclass : ∀ c, argClass = some c → π.declares c) :
    Routine π (addSignature method argClass value) := by
  have hrest : Routine π (do
      let index := (← query (·.signatures method)).size
      modify (·.modifyObject method fun o =>
        { o with
          length := index + 1
          payload := match o.payload with
            | .method signatures =>
                .method (signatures.push { argClass := argClass, value := none })
            | other => other })
      set (.signature method index) (some value)) :=
    .bind (routine_signatures method) fun _ =>
      .bind (routine_addOverload hdefines method argClass _ hclass) fun _ =>
        .set _ _ nofun (fun _ => hdefines) nofun
  unfold addSignature
  cases argClass with
  | none => exact hrest
  | some c => exact .bind (routine_descriptor c) fun _ => hrest

section Standard

variable (hstandard : π.Standard)
include hstandard

theorem routine_methodChain (hdefines : π.defines) (c : Handle) (s : Symbol) :
    Routine π (methodChain c s) := by
  unfold methodChain
  refine .bind (routine_classAttr c s) fun chain => ?_
  split
  · exact .pure _
  · exact .bind (routine_newMethod hstandard hdefines) fun chain =>
      .bind (routine_defineClassAttr c s _) fun _ => .pure chain

theorem routine_innerChain (hdefines : π.defines) (chain : Handle) {argClass : Handle}
    (hdeclares : π.declares argClass) : Routine π (innerChain chain argClass) := by
  unfold innerChain
  refine .bind (routine_signatures chain) fun l => .bind routine_get fun w => ?_
  simp only
  split
  · exact .pure _
  · refine .bind (routine_newMethod hstandard hdefines) fun inner =>
      .bind (routine_addSignature hdefines chain inner fun c hc => ?_) fun _ => .pure inner
    cases hc
    exact hdeclares

/-- Going down through the chains for some classes. -/
theorem routine_innerChains (hdefines : π.defines) {l : List Handle}
    (hl : ∀ d ∈ l, π.declares d) (top : Handle) : Routine π (l.foldlM innerChain top) := by
  induction l generalizing top with
  | nil =>
      rw [List.foldlM_nil]
      exact .pure top
  | cons d l ih =>
      rw [List.foldlM_cons]
      exact .bind (routine_innerChain hstandard hdefines top (hl d List.mem_cons_self)) fun chain =>
        ih (fun e he => hl e (List.mem_cons_of_mem _ he)) chain

theorem routine_defineMethod (hdefines : π.defines) (c : Handle) (name : String)
    {argClasses : List Handle} (value : Handle) (hdeclares : ∀ d ∈ argClasses, π.declares d) :
    Routine π (defineMethod c name argClasses value) := by
  unfold defineMethod
  refine .bind (routine_intern _) fun s =>
    .bind (routine_methodChain hstandard hdefines c s) fun top => ?_
  split
  · exact .bind (routine_addSignature hdefines top value fun _ hd => by cases hd) fun _ =>
      .pure top
  · next last hlast =>
      refine .bind (routine_innerChains hstandard hdefines
          (fun d hd => hdeclares d ((List.dropLast_subset _) hd)) top) fun chain =>
        .bind (routine_addSignature hdefines chain value fun d hd => ?_) fun _ => .pure top
      cases hd
      exact hdeclares last (List.mem_of_getLast? hlast)

end Standard

theorem routine_findMethod (name : String) (args : List Handle) :
    Routine π (findMethod name args) := by
  cases args with
  | nil => exact .pure none
  | cons receiver args =>
      refine .bind (routine_intern _) fun s => .bind (routine_classOf receiver) fun c => ?_
      exact routine_ask fun _ hcoherent => answers_findMethodInClass hcoherent s c args

theorem routine_requireMethod (name : String) (args : List Handle) :
    Routine π (requireMethod name args) := by
  unfold requireMethod
  refine .bind (routine_findMethod name args) fun method => ?_
  split
  · exact .pure _
  · exact .bind routine_get fun _ => .throw _ fun _ _ => telling_ne nofun nofun

end Action

end ObjectSystem

/-
# Routines

An action may be composite and yet make objects that do not fit their classes, or
classes that do not fit each other. The library does not: it gives a new object as many
attributes as its class says, writes an attribute only after it has looked at the class that
is declared for it, gives a class a superclass only after it has looked for circles, and an
attribute of its own only under a symbol that is still free, and adds a name to an environment
only in order to bind it. These steps belong together with the questions that precede them, so
`Action.Routine` takes them as a whole; what it amends otherwise keeps its class, its
attributes, its layout and its bindings.

A few operations do more, and a policy says whether a routine may be made of them.

Every routine is composite.
-/

import ObjectSystem.Proofs.Composite
import ObjectSystem.Proofs.Trimming
import ObjectSystem.World.Classes
import ObjectSystem.World.Environments

namespace ObjectSystem

namespace Class

/-- Room for more symbols maps none of them. -/
theorem getD_widen (slots : Array AttrSlot) (size i : Nat) :
    (widen slots size)[i]?.getD .unmapped = slots[i]?.getD .unmapped := by
  unfold widen
  rw [Array.getElem?_append]
  split
  · rfl
  · next hle =>
      rw [Array.getElem?_replicate, Array.getElem?_eq_none (by omega)]
      split <;> rfl

/-- Places in instances are not touched by an attribute of the class itself. -/
theorem slot_addClassAttr {d : Class} {s t : Symbol} {place : UInt32}
    (hplace : (d.addClassAttr s).slot t = .inInstance place) : d.slot t = .inInstance place := by
  rw [slot, addClassAttr, Array.getElem?_setIfInBounds] at hplace
  split at hplace
  · split at hplace <;> cases hplace
  · rwa [getD_widen] at hplace

end Class

namespace Object

theorem amends_of_payload_eq {declares : Handle → Prop} {o : Object} {payload : Payload}
    (length : Nat) (hpayload : payload = o.payload) :
    o.Amends declares { o with length := length, payload := payload } := by
  subst hpayload
  refine ⟨rfl, fun c hc => Or.inl hc, fun s y hs => ?_, fun h => h, ?_⟩
  · cases s <;> exact hs
  · exact noNewPlaces_of_payload_eq rfl

/-- The values in a payload may change if it has no references before or after. -/
theorem amends_of_refs_eq_nil {declares : Handle → Prop} {o : Object} {payload : Payload}
    (hchange : payload = o.payload ∨ o.payload.refs = [] ∧ payload.refs = [] ∧
      (∀ d, o.payload ≠ .descriptor d) ∧ ∀ d, payload ≠ .descriptor d) :
    o.Amends declares { o with payload := payload } := by
  rcases hchange with heq | ⟨hbefore, hafter, hclass, hnone⟩
  · exact amends_of_payload_eq o.length heq
  · refine ⟨rfl, fun c hc => ?_, fun s y hs => ?_, ?_, fun d hd => absurd hd (hnone d)⟩
    · rcases List.mem_cons.1 hc with rfl | hc
      · exact Or.inl List.mem_cons_self
      · have hmem : c ∈ payload.refs :=
          (mem_payload_refs_iff (x := c) (o := { o with payload := payload })).2 (Or.inl hc)
        rw [hafter] at hmem
        cases hmem
    · cases s with
      | attr z index => cases index <;> exact hs
      | element z index | binding z index | classAttr z index | signature z index =>
          have hmem : y ∈ payload.refs :=
            (mem_payload_refs_iff (x := z) (o := { o with payload := payload })).2
              (Or.inr ⟨_, rfl, by simp, hs⟩)
          rw [hafter] at hmem
          cases hmem
    · rintro ⟨d, hd⟩
      exact absurd hd (hclass d)

/-- A name may be added to an environment, still without a value. -/
theorem amends_addName {declares : Handle → Prop} (o : Object) (name : Symbol) :
    o.Amends declares { o with
      payload := match o.payload with
        | .environment f => .environment (f.addName name)
        | other => other } := by
  cases hpayload : o.payload with
  | environment f =>
      refine ⟨rfl, fun c hc => Or.inl ?_, fun s y hs => ?_, fun ⟨d, hd⟩ => ?_,
        fun d hd => by cases hd⟩
      · simpa [classRefs, Payload.classRefs, hpayload] using hc
      · cases s with
        | attr z index => cases index <;> exact hs
        | binding z index =>
            simp only [Slot.peek?, Frame.addName, Array.getElem?_push] at hs
            simp only [Slot.peek?, hpayload]
            split at hs
            · cases hs
            · exact hs
        | element | classAttr | signature => cases hs
      · rw [hpayload] at hd
        cases hd
  | _ => exact amends_of_payload_eq o.length (by simp only [hpayload])

/-- A name changes nothing but what an environment holds. -/
theorem addName_contents (o : Object) (name : Symbol) :
    (match o.payload with
      | .environment f => .environment (f.addName name)
      | other => other) = o.payload ∨ o.payload.IsContents ∧
    (match o.payload with
      | .environment f => Payload.environment (f.addName name)
      | other => other).IsContents := by
  cases o.payload with
  | environment f => exact Or.inr ⟨trivial, trivial⟩
  | _ => exact Or.inl rfl

theorem stays_addName (o : Object) (name : Symbol) : o.Stays { o with
    payload := match o.payload with
      | .environment f => .environment (f.addName name)
      | other => other } :=
  o.stays_setPayload o.length _ (o.addName_contents name)

/-- The object is an environment with the same bindings as before, or none, as before. -/
def SameFrame (o o' : Object) : Prop :=
  ∀ f, o'.payload = .environment f ↔ o.payload = .environment f

theorem SameFrame.trans {o o' o'' : Object} (hfirst : o.SameFrame o')
    (hsecond : o'.SameFrame o'') : o.SameFrame o'' :=
  fun f => (hsecond f).trans (hfirst f)

theorem sameFrame_of_payload_eq {o o' : Object} (hpayload : o'.payload = o.payload) :
    o.SameFrame o' :=
  fun _ => by rw [hpayload]

/-- The payload may change if it is no environment before or after. -/
theorem sameFrame_of_payload {o o' : Object} (hbefore : ∀ f, o.payload ≠ .environment f)
    (hafter : ∀ f, o'.payload ≠ .environment f) : o.SameFrame o' :=
  fun f => iff_of_false (hafter f) (hbefore f)

theorem sameFrame_changeDescriptor (change : Class → Class) (o : Object) :
    o.SameFrame { o with
      payload := match o.payload with
        | .descriptor d => .descriptor (change d)
        | other => other } := by
  cases hpayload : o.payload with
  | descriptor d => exact sameFrame_of_payload (by rw [hpayload]; nofun) nofun
  | _ => exact sameFrame_of_payload_eq (by simp only [hpayload])

/-- A class descriptor may change if its values stay, instances get no new places and
it names no other classes than before, apart from declared ones. -/
theorem amends_changeDescriptor {declares : Handle → Prop} {change : Class → Class}
    (hclasses : ∀ d : Class, ∀ r, r ∈ (change d).supers.toList ++ (change d).attrClasses.toList →
      r ∈ d.supers.toList ++ d.attrClasses.toList ∨ declares r)
    (hheld : ∀ (d : Class) (i : Nat) (y : Handle), (change d).classAttrs[i]? = some (some y) →
      d.classAttrs[i]? = some (some y))
    (hplaces : ∀ (d : Class) (s : Symbol) (place : UInt32),
      (change d).slot s = .inInstance place → d.slot s = .inInstance place) (o : Object) :
    o.Amends declares { o with
      payload := match o.payload with
        | .descriptor d => .descriptor (change d)
        | other => other } := by
  cases hpayload : o.payload with
  | descriptor d =>
      refine ⟨rfl, fun r hr => ?_, fun s y hs => ?_, fun _ => ⟨_, rfl⟩, fun d' hd' => ?_⟩
      · rw [classRefs, hpayload]
        rcases List.mem_cons.1 hr with rfl | hr
        · exact Or.inl List.mem_cons_self
        · exact (hclasses d r hr).imp (fun h => List.mem_cons_of_mem _ h) fun h => h
      · cases s with
        | attr z index => cases index <;> exact hs
        | classAttr z index =>
            simp only [Slot.peek?, hpayload]
            exact hheld d index y hs
        | element | binding | signature => cases hs
      · cases hd'
        exact ⟨d, hpayload, hplaces d⟩
  | _ => exact amends_of_payload_eq o.length (by simp only [hpayload])

/-- A declared class may be added to a method, as an overload that still leads
nowhere. -/
theorem amends_addOverload {declares : Handle → Prop} {argClass : Option Handle}
    (length : Nat) (hclass : ∀ c, argClass = some c → declares c) (o : Object) :
    o.Amends declares { o with
      length := length
      payload := match o.payload with
        | .method signatures =>
            .method (signatures.push { argClass := argClass, value := none })
        | other => other } := by
  cases hpayload : o.payload with
  | method l =>
      refine ⟨rfl, fun c hc => ?_, fun s y hs => ?_, fun ⟨d, hd⟩ => ?_,
        fun d hd => by cases hd⟩
      · rw [classRefs, hpayload]
        rcases List.mem_cons.1 hc with rfl | hc
        · exact Or.inl List.mem_cons_self
        · simp only [Payload.classRefs, Array.toList_push, List.filterMap_append,
            List.mem_append] at hc
          rcases hc with hc | hc
          · exact Or.inl (List.mem_cons_of_mem _ hc)
          · exact Or.inr (hclass c (by simpa using hc))
      · cases s with
        | attr z index => cases index <;> exact hs
        | signature z index =>
            simp only [Slot.peek?, Array.getElem?_push] at hs
            simp only [Slot.peek?, hpayload]
            split at hs
            · cases hs
            · exact hs
        | element | binding | classAttr => cases hs
      · rw [hpayload] at hd
        cases hd
  | _ => exact amends_of_payload_eq length (by simp only [hpayload])

/-- An object stays what it is if its descriptor does. -/
theorem stays_changeDescriptor {change : Class → Class} (hchange : ∀ d : Class, d.Stays (change d))
    (o : Object) : o.Stays { o with
      payload := match o.payload with
        | .descriptor d => .descriptor (change d)
        | other => other } := by
  cases hpayload : o.payload with
  | descriptor d => exact stays_setDescriptor hpayload (hchange d)
  | _ => exact o.stays_setPayload o.length _ (Or.inl (by simp only [hpayload]))

/-- If the first state of an object is a class, the second is a class that has the same
classes declared for its attributes. -/
def SameDeclared (o o' : Object) : Prop :=
  ∀ d, o.payload = .descriptor d →
    ∃ d', o'.payload = .descriptor d' ∧ d'.attrClasses = d.attrClasses

theorem SameDeclared.trans {o o' o'' : Object} (hfirst : o.SameDeclared o')
    (hsecond : o'.SameDeclared o'') : o.SameDeclared o'' := by
  intro d hd
  obtain ⟨d', hd', hsame⟩ := hfirst d hd
  obtain ⟨d'', hd'', hsame'⟩ := hsecond d' hd'
  exact ⟨d'', hd'', hsame'.trans hsame⟩

/-- The payload may change if it does not tell what the object is. -/
theorem sameDeclared_of_contents {o o' : Object}
    (hpayload : o'.payload = o.payload ∨ o.payload.IsContents ∧ o'.payload.IsContents) :
    o.SameDeclared o' := by
  intro d hd
  rcases hpayload with heq | ⟨hbefore, _⟩
  · exact ⟨d, heq.trans hd, rfl⟩
  · exact absurd hd (hbefore.ne_descriptor d)

theorem sameDeclared_changeDescriptor {change : Class → Class}
    (hchange : ∀ d : Class, (change d).attrClasses = d.attrClasses) (o : Object) :
    o.SameDeclared { o with
      payload := match o.payload with
        | .descriptor d => .descriptor (change d)
        | other => other } := by
  intro d hd
  simp only [hd]
  exact ⟨_, rfl, hchange d⟩

/-- The object is a chain of overloads only if it was that chain before. -/
def Abstains (o o' : Object) : Prop :=
  ∀ l, o'.payload = .method l → o.payload = .method l

theorem abstains_of_payload_eq {o o' : Object} (hpayload : o'.payload = o.payload) :
    o.Abstains o' :=
  fun _ hl => hpayload ▸ hl

theorem abstains_of_ne_method {o o' : Object} (hmethod : ∀ l, o'.payload ≠ .method l) :
    o.Abstains o' :=
  fun l hl => absurd hl (hmethod l)

theorem abstains_changeDescriptor (change : Class → Class) (o : Object) : o.Abstains { o with
      payload := match o.payload with
        | .descriptor d => .descriptor (change d)
        | other => other } := by
  cases hpayload : o.payload with
  | descriptor d => exact abstains_of_ne_method nofun
  | _ => exact abstains_of_payload_eq (by simp only [hpayload])

end Object

/-- The slot is an attribute of an object. -/
def Slot.IsAttr : Slot → Prop
  | attr _ _ => True
  | _ => False

/-- The slot is the value of a name in an environment. -/
def Slot.IsBinding : Slot → Prop
  | binding _ _ => True
  | _ => False

/-- The slot holds the value of an overload. -/
def Slot.Defines : Slot → Prop
  | signature _ _ => True
  | _ => False

namespace Action

open World

variable {π : Policy} {α β : Type} {w : World}

theorem composite_ask {question : World → Except Error α} {given : World → List Handle}
    {P : World → α → Prop}
    (hanswers : ∀ w : World, w.Coherent → w.Answers (given w) (question w) (P w)) :
    Composite π (query question) :=
  .query fun w hcoherent _ he => ((hanswers w hcoherent).error he).ne_poolCorruption

theorem composite_get : Composite π get :=
  show Composite π (query Except.ok) from .query fun _ _ _ he => by cases he

theorem composite_descriptor (c : Handle) : Composite π (query (·.descriptor c)) :=
  composite_ask fun w _ => w.answers_descriptor c

theorem composite_isAssignableClass (c target : Handle) :
    Composite π (query (·.isAssignableClass c target)) :=
  composite_ask fun _ hcoherent => answers_isAssignableClass hcoherent c target

theorem composite_modifyDescriptor {c : Handle} {change : Class → Class}
    (hclasses : ∀ d : Class, ∀ r, r ∈ (change d).supers.toList ++ (change d).attrClasses.toList →
      r ∈ d.supers.toList ++ d.attrClasses.toList ∨ π.declares r)
    (hheld : ∀ (d : Class) (i : Nat) (y : Handle), (change d).classAttrs[i]? = some (some y) →
      d.classAttrs[i]? = some (some y))
    (hplaces : ∀ (d : Class) (s : Symbol) (place : UInt32),
      (change d).slot s = .inInstance place → d.slot s = .inInstance place) :
    Composite π (modify (·.modifyDescriptor c change)) :=
  .amend fun o => o.amends_changeDescriptor hclasses hheld hplaces

theorem composite_addSuperclass (c : Handle) {superclass : Handle}
    (hdeclares : π.declares superclass) : Composite π (addSuperclass c superclass) := by
  have hchange : Composite π (do
      let _ ← query (·.descriptor c)
      modify (·.modifyDescriptor c (·.addSuperclass superclass))) := by
    refine .bind (composite_descriptor c) fun _ =>
      composite_modifyDescriptor (fun d r hr => ?_) ?_ ?_
    · unfold Class.addSuperclass at hr
      split at hr
      · exact Or.inl hr
      · simp only [Superclasses.toList_push, List.mem_append, List.mem_singleton] at hr ⊢
        rcases hr with (hr | rfl) | hr
        · exact Or.inl (Or.inl hr)
        · exact Or.inr hdeclares
        · exact Or.inl (Or.inr hr)
    · intro d i y hy
      unfold Class.addSuperclass at hy
      split at hy <;> exact hy
    · intro d s place hplace
      unfold Class.addSuperclass at hplace
      split at hplace <;> exact hplace
  unfold addSuperclass
  refine .bind (composite_descriptor superclass) fun _ =>
    .bind (composite_isAssignableClass superclass c) fun below => ?_
  split
  · exact .bind (composite_descriptor c) fun _ => .bind (composite_descriptor superclass) fun _ =>
      .bind (.throw _ (by simp)) fun _ => hchange
  · exact hchange

theorem composite_classAttrIndex (c : Handle) (s : Symbol) : Composite π (classAttrIndex c s) := by
  unfold classAttrIndex
  refine .bind (composite_descriptor c) fun d => ?_
  split
  · exact .pure _
  · exact .bind composite_get fun _ => .throw _ (by simp)
  · refine .bind (composite_modifyDescriptor (fun _ _ hr => Or.inl hr) (fun d i y hy => ?_)
      fun d t place => Class.slot_addClassAttr) fun _ => .pure _
    simp only [Class.addClassAttr, Array.getElem?_push] at hy
    split at hy
    · cases hy
    · exact hy

theorem composite_allocateOf {c : Handle} {payload : Payload} (hadmits : π.admits c payload)
    (length : Nat) : Composite π (allocateOf c payload length) :=
  .bind (composite_descriptor c) fun d => .allocate hadmits d.attrCount length .shared

theorem composite_setAttr (x : Handle) (s : Symbol) (value : Option Handle) :
    Composite π (setAttr x s value) := by
  unfold setAttr
  refine .bind (composite_ask fun _ hcoherent => answers_classOf hcoherent x) fun c =>
    .bind (composite_ask fun _ hcoherent => answers_resolveAttr hcoherent c s) fun l => ?_
  split
  · exact .throw _ (by simp)
  · exact .bind (composite_ask fun _ hcoherent => answers_checkAttr hcoherent c _ value) fun _ =>
      .set _ value
  · exact .bind composite_get fun _ => .throw _ fun _ _ => telling_ne nofun nofun

/-- A new object of a class that is never freed. -/
theorem composite_allocatePinnedOf {c : Handle} {payload : Payload}
    (hadmits : π.admits c payload) (length : Nat) : Composite π (do
      let d ← query (·.descriptor c)
      allocatePinned (.new c d.attrCount payload length .shared)) :=
  .bind (composite_descriptor c) fun d => .allocatePinned hadmits d.attrCount length

theorem composite_addName (env : Handle) (name : Symbol) :
    Composite π (modify (·.modifyFrame env (·.addName name))) :=
  .amend fun o => o.amends_addName name

theorem composite_bindingIndex (env : Handle) (name : Symbol) :
    Composite π (bindingIndex env name) := by
  unfold bindingIndex
  refine .bind (composite_ask fun w _ => w.answers_frame env) fun f => ?_
  split
  · exact .pure _
  · split
    · exact .pure _
    · exact .bind (composite_addName env name) fun _ => .pure _

theorem composite_assign (env : Handle) (name : Symbol) (value : Handle) :
    Composite π (assign env name value) := by
  unfold assign
  refine .bind (composite_ask fun w _ => w.answers_object value) fun _ =>
    .bind (composite_bindingIndex env name) fun index => ?_
  split
  · exact .bind (.set _ _) fun _ => .pure _
  · refine .bind (composite_ask fun w _ => w.answers_frame env) fun f =>
      .bind (.aside (fun _ => ?_) (Or.inr fun _ => rfl)) fun _ => .pure _
    exact ⟨rfl, rfl, rfl, rfl, rfl, rfl, .refl _⟩

/-- What an assignment keeps, if a new name and the value of a name fit it. -/
theorem trims_assign {S : Handle → Object → Object → Prop} [Object.Leeway S] {env : Handle}
    {name : Symbol} {value : Handle}
    (hname : ∀ o : Object, S env o { o with
      payload := match o.payload with
        | .environment f => .environment (f.addName name)
        | other => other })
    (hstore : ∀ index o, S env o ((Slot.binding env index).storeIn (some value) o)) :
    (assign env name value).Keeps (TrimsBy S) := by
  have hindex : (bindingIndex env name).Keeps (TrimsBy S) := by
    unfold bindingIndex
    refine keeps_bind (keeps_query _) fun f => ?_
    split
    · exact keeps_pure _
    · split
      · exact keeps_pure _
      · exact keeps_bind (keeps_modify fun w => w.trims_modifyObject env hname) fun _ =>
          keeps_pure _
  unfold assign
  refine keeps_bind (keeps_query _) fun _ => keeps_bind hindex fun index => ?_
  split
  · exact keeps_bind (trims_set (hstore _)) fun _ => keeps_pure _
  · exact keeps_bind (keeps_query _) fun _ =>
      keeps_bind (keeps_modify fun _ => .of_eq rfl rfl rfl) fun _ => keeps_pure _

/-- An action that is put together from the steps that the operations of the library are
made of. -/
inductive Routine (π : Policy) : {α : Type} → Action α → Prop where
  | pure {α : Type} (a : α) : Routine π (Pure.pure a : Action α)
  | throw {α : Type} (e : Error) (hfair : ∀ x id, e ≠ .poolCorruption x id) :
      Routine π (MonadExcept.throw e : Action α)
  | query {α : Type} {question : World → Except Error α}
      (hfair : ∀ w, w.Coherent → ∀ e, question w = .error e → ∀ x id, e ≠ .poolCorruption x id) :
      Routine π (Action.query question)
  | bind {α β : Type} {m : Action α} {f : α → Action β} (hm : Routine π m)
      (hf : ∀ a, Routine π (f a)) : Routine π (m >>= f)
  | aside {α : Type} {f : World → α × World} (hf : ∀ w : World, w.Beside (f w).2)
      (hnotes : π.lasts ∨ ∀ w : World, (f w).2.symbolObjects = w.symbolObjects) :
      Routine π (modifyGet f : Action α)
  | amend {x : Handle} {change : Object → Object}
      (hchange : ∀ o : Object, o.Amends π.declares (change o))
      (hstays : ∀ o : Object, o.Stays (change o))
      (hsame : π.redeclares ∨ ∀ o : Object, o.SameDeclared (change o))
      (habstains : π.defines ∨ ∀ o : Object, o.Abstains (change o))
      (hframe : ∀ o : Object, o.SameFrame (change o)) :
      Routine π (modify (·.modifyObject x change) : Action Unit)
  | set (s : Slot) (value : Option Handle) (hpokes : s.IsAttr → π.pokes)
      (hdefines : s.Defines → π.defines) (hbinds : s.IsBinding → π.binds) :
      Routine π (Action.set s value)
  | assign (hassigns : π.assigns) (env : Handle) (name : Symbol) (value : Handle) :
      Routine π (Action.assign env name value)
  | setAttr (x : Handle) (s : Symbol) (value : Option Handle) : Routine π (Action.setAttr x s value)
  | allocateOf {c : Handle} {payload : Payload} (hadmits : π.admits c payload) (length : Nat) :
      Routine π (Action.allocateOf c payload length)
  | allocatePinnedOf {c : Handle} {payload : Payload} (hlasts : π.lasts)
      (hadmits : π.admits c payload) (length : Nat) : Routine π (do
        let d ← Action.query (·.descriptor c)
        Action.allocatePinned (.new c d.attrCount payload length .shared))
  | addSuperclass (c : Handle) {superclass : Handle} (hdeclares : π.declares superclass) :
      Routine π (Action.addSuperclass c superclass)
  | classAttrIndex (c : Handle) {s : Symbol} (hs : s.isReserved = false) :
      Routine π (Action.classAttrIndex c s)
  | pin (x : Handle) : Routine π (Action.pin x)
  | collect (extra : List Handle) : Routine π (Action.collect extra)
  | scope {body : Action Handle} (hbody : Routine π body) : Routine π (Action.scope body)

variable {action : Action α}

theorem Routine.composite (hroutine : Routine π action) : Composite π action := by
  induction hroutine with
  | pure a => exact .pure a
  | throw e hfair => exact .throw e hfair
  | query hfair => exact .query hfair
  | bind _ _ ihm ihf => exact .bind ihm ihf
  | aside hf hnotes => exact .aside hf hnotes
  | amend hchange => exact .amend hchange
  | set s value => exact .set s value
  | assign _ env name value => exact composite_assign env name value
  | setAttr x s value => exact composite_setAttr x s value
  | allocateOf hadmits length => exact composite_allocateOf hadmits length
  | allocatePinnedOf _ hadmits length => exact composite_allocatePinnedOf hadmits length
  | addSuperclass c hdeclares => exact composite_addSuperclass c hdeclares
  | classAttrIndex c => exact composite_classAttrIndex c _
  | pin x => exact .pin x
  | collect extra => exact .collect extra
  | scope _ ih => exact .scope ih

theorem Routine.advances (hroutine : Routine π action) : action.Keeps World.Advances :=
  hroutine.composite.advances

theorem Routine.leadsTo (hroutine : Routine π action) (hcoherent : w.Coherent) (htidy : w.Tidy)
    (hwithin : π.Within w) (hfits : (action.perform w).2.Fits) :
    LeadsTo w (action.perform w).1 (action.perform w).2 :=
  hroutine.composite.leadsTo hcoherent htidy hwithin hfits

/-- A preorder that trimming, changes of classes and allocations are steps of is kept by every
routine. Objects that are never freed matter only where the policy allows them, and a class gets
a slot for a value only under a symbol that is free. -/
theorem Routine.keeps {R : World → World → Prop} [IsPreorder World R]
    (hroutine : Routine π action) (htrims : ∀ w w' : World, w.Trims w' → R w w')
    (hlink : ∀ (w : World) (c superclass : Handle),
      R w (w.modifyDescriptor c (·.addSuperclass superclass)))
    (hwiden : ∀ (w : World) (c : Handle) (d : Class) (s : Symbol), s.isReserved = false →
      w.descriptor c = .ok d → d.slot s = .unmapped →
        R w (w.modifyDescriptor c (·.addClassAttr s)))
    (hallocate : ∀ c payload, π.admits c payload → ∀ attrCount length own,
      (allocate (.new c attrCount payload length own)).Keeps R)
    (hpinned : π.lasts → ∀ c payload, π.admits c payload → ∀ attrCount length,
      (allocatePinned (.new c attrCount payload length .shared)).Keeps R) : action.Keeps R := by
  have htrimmed : ∀ {β : Type} {m : Action β}, m.Keeps World.Trims → m.Keeps R :=
    fun h => h.imp htrims
  induction hroutine with
  | pure a => exact keeps_pure a
  | throw e => exact keeps_throw e
  | query => exact keeps_query _
  | bind _ _ ihm ihf => exact keeps_bind ihm ihf
  | aside hf =>
      exact htrimmed (keeps_modifyGet fun w =>
        .of_eq (hf w).objects_eq (hf w).classes_eq (hf w).settings_eq)
  | amend _ hstays => exact htrimmed (keeps_modify fun w => w.trims_modifyObject _ hstays)
  | set s value => exact htrimmed (trims_set fun o => o.stays_storeIn s value)
  | assign _ env name value =>
      exact htrimmed (trims_assign (fun o => o.stays_addName name) fun index o =>
        o.stays_storeIn (.binding env index) (some value))
  | setAttr x s value =>
      exact htrimmed (trims_setAttr fun index o => o.stays_storeIn (.attr x index) value)
  | allocateOf hadmits => exact keeps_bind (keeps_query _) fun _ => hallocate _ _ hadmits _ _ _
  | allocatePinnedOf hlasts hadmits =>
      exact keeps_bind (keeps_query _) fun _ => hpinned hlasts _ _ hadmits _ _
  | addSuperclass c => exact keeps_addSuperclass fun w => hlink w c _
  | classAttrIndex c hs => exact keeps_classAttrIndex fun w d => hwiden w c d _ hs
  | pin x => exact htrimmed (trims_pin x)
  | collect extra => exact htrimmed (trims_collect extra)
  | scope _ ih =>
      exact keeps_bind (htrimmed trims_openScope) fun id => keeps_bind (keeps_outcome ih)
        fun result => htrimmed (trims_closeScope id result)

end Action

end ObjectSystem

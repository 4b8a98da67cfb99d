/-
# Laws of slots

The references of an object fall into two groups: those that its slots hold, and
those by which it names classes. `Slot.peek?` looks into a slot without a world
to report to; it does not count the slot that shows the class, which cannot be
written. Storing into a slot changes what is seen there and nothing else about
the object.
-/

import ObjectSystem.World.Slot

namespace ObjectSystem

section Rows

variable {α β : Type} {row : Array α} {i : Nat} {a b : α}

/-- A place that a row has can be written. -/
theorem getElem?_setIfInBounds_of_eq_some (hi : row[i]? = some a) (j : Nat) :
    (row.setIfInBounds i b)[j]? = if j = i then some b else row[j]? := by
  have hlt : i < row.size := (Array.getElem?_eq_some_iff.1 hi).1
  rw [Array.getElem?_setIfInBounds]
  by_cases heq : j = i
  · simp [heq, hlt]
  · simp [heq, Ne.symm heq]

/-- What is seen of a row when a place that it has was changed. -/
theorem map_getElem?_modify_of_eq_some {f : α → α} {view : α → β} {old new : β}
    (hi : row[i]?.map view = some old) (hnew : ∀ a, view (f a) = new) (j : Nat) :
    (row.modify i f)[j]?.map view = if j = i then some new else row[j]?.map view := by
  obtain ⟨a, ha, _⟩ := Option.map_eq_some_iff.1 hi
  rw [Array.getElem?_modify]
  by_cases heq : j = i
  · simp [heq, ha, hnew]
  · simp [heq, Ne.symm heq]

end Rows

namespace Slot

variable {o : Object} {s t : Slot} {old value : Option Handle} {y : Handle}

/-- The contents of a slot that can be written. -/
def peek? (o : Object) : Slot → Option (Option Handle)
  | attr _ 0 => none
  | attr _ (index + 1) => o.attrs[index]?
  | element _ index =>
      match o.payload with
      | .elements values => values[index]?
      | _ => none
  | binding _ index =>
      match o.payload with
      | .environment frame => frame.bindings[index]?.map Prod.snd
      | _ => none
  | classAttr _ index =>
      match o.payload with
      | .descriptor d => d.classAttrs[index]?
      | _ => none
  | signature _ index =>
      match o.payload with
      | .method signatures => signatures[index]?.map Signature.value
      | _ => none

/-- Whether a slot can be written: it is not the one that shows the class. -/
def IsWritable (s : Slot) : Prop :=
  ∀ x, s ≠ .attr x 0

theorem isWritable_of_peek? (hs : s.peek? o = some old) : s.IsWritable := by
  rintro x rfl
  cases hs

theorem peek?_element {x : Handle} {i : Nat} {values : Array (Option Handle)}
    (hpayload : o.payload = .elements values) : (element x i).peek? o = values[i]? := by
  simp only [peek?, hpayload]

theorem entry_eq_ok_iff {found : Option (Option Handle)} {index length : Nat} :
    readIn.entry found index length = .ok value ↔ found = some value := by
  cases found <;> simp [readIn.entry]

/-- Reading a slot that can be written shows its contents. -/
theorem readIn_eq_ok_iff {w : World} (hs : s.IsWritable) :
    s.readIn w o = .ok value ↔ s.peek? o = some value := by
  cases s with
  | attr x index =>
      cases index with
      | zero => exact absurd rfl (hs x)
      | succ index => exact entry_eq_ok_iff
  | element | binding | classAttr | signature =>
      cases hpayload : o.payload <;> simp [readIn, peek?, hpayload, entry_eq_ok_iff]

@[simp]
theorem header_storeIn (o : Object) (s : Slot) (value : Option Handle) :
    (s.storeIn value o).header = o.header := by
  rcases s with ⟨_, _ | _⟩ | _ | _ | _ | _ <;> unfold storeIn
  · rfl
  · rfl
  all_goals cases o.payload <;> rfl

/-- A store does not look at headers. -/
theorem storeIn_setHeader (s : Slot) (value : Option Handle) (o : Object) (h : Header) :
    s.storeIn value { o with header := h } = { s.storeIn value o with header := h } := by
  cases s with
  | attr x index => cases index <;> rfl
  | element | binding | classAttr | signature =>
      cases hpayload : o.payload <;> simp only [storeIn, hpayload]

@[simp]
theorem classRef_storeIn (o : Object) (s : Slot) (value : Option Handle) :
    (s.storeIn value o).classRef = o.classRef := by
  rcases s with ⟨_, _ | _⟩ | _ | _ | _ | _ <;> unfold storeIn
  · rfl
  · rfl
  all_goals cases o.payload <;> rfl

/-- Another slot of the same object is not affected by a store, and the slot itself
shows what was stored. -/
theorem peek?_storeIn (hs : s.peek? o = some old) (howner : t.owner = s.owner) :
    t.peek? (s.storeIn value o) = if t = s then some value else t.peek? o := by
  cases s with
  | attr x index =>
      cases index with
      | zero => cases hs
      | succ index =>
          cases t with
          | attr z place =>
              cases (howner : z = x)
              cases place with
              | zero => simp [peek?]
              | succ place =>
                  simp only [attr.injEq, true_and, Nat.add_right_cancel_iff]
                  exact getElem?_setIfInBounds_of_eq_some hs place
          | element | binding | classAttr | signature => simp [peek?, storeIn, Object.setAttr]
  | element x index =>
      cases hpayload : o.payload <;> simp only [peek?, hpayload, reduceCtorEq] at hs
      cases t with
      | element z place =>
          cases (howner : z = x)
          simp only [peek?, storeIn, hpayload, element.injEq, true_and]
          exact getElem?_setIfInBounds_of_eq_some hs place
      | attr _ place => cases place <;> simp [peek?, storeIn, hpayload]
      | binding | classAttr | signature => simp [peek?, storeIn, hpayload]
  | binding x index =>
      cases hpayload : o.payload <;> simp only [peek?, hpayload, reduceCtorEq] at hs
      cases t with
      | binding z place =>
          cases (howner : z = x)
          simp only [peek?, storeIn, hpayload, Frame.setValue, binding.injEq, true_and]
          refine map_getElem?_modify_of_eq_some hs ?_ place
          exact fun _ => rfl
      | attr _ place => cases place <;> simp [peek?, storeIn, hpayload]
      | element | classAttr | signature => simp [peek?, storeIn, hpayload]
  | classAttr x index =>
      cases hpayload : o.payload <;> simp only [peek?, hpayload, reduceCtorEq] at hs
      cases t with
      | classAttr z place =>
          cases (howner : z = x)
          simp only [peek?, storeIn, hpayload, classAttr.injEq, true_and]
          exact getElem?_setIfInBounds_of_eq_some hs place
      | attr _ place => cases place <;> simp [peek?, storeIn, hpayload]
      | element | binding | signature => simp [peek?, storeIn, hpayload]
  | signature x index =>
      cases hpayload : o.payload <;> simp only [peek?, hpayload, reduceCtorEq] at hs
      cases t with
      | signature z place =>
          cases (howner : z = x)
          simp only [peek?, storeIn, hpayload, signature.injEq, true_and]
          refine map_getElem?_modify_of_eq_some hs ?_ place
          exact fun _ => rfl
      | attr _ place => cases place <;> simp [peek?, storeIn, hpayload]
      | element | binding | classAttr => simp [peek?, storeIn, hpayload]

end Slot

/-- The classes that a payload names: superclasses, declared classes of attributes
and classes of arguments. -/
def Payload.classRefs : Payload → List Handle
  | .descriptor d => d.supers.toList ++ d.attrClasses.toList
  | .method signatures => signatures.toList.filterMap Signature.argClass
  | _ => []

namespace Object

variable {o : Object} {x y : Handle}

/-- The classes that an object names: its own and those that its payload names. -/
def classRefs (o : Object) : List Handle :=
  o.classRef :: o.payload.classRefs

/-- Whether an object has a class descriptor. -/
def IsClass (o : Object) : Prop :=
  ∃ d, o.payload = .descriptor d

theorem exists_getElem?_iff {values : Array (Option Handle)} :
    y ∈ values.toList.filterMap id ↔ ∃ i : Nat, values[i]? = some (some y) := by
  simp [List.mem_filterMap, Array.mem_iff_getElem?]

theorem mem_payload_refs_iff :
    y ∈ o.payload.refs ↔ y ∈ o.payload.classRefs ∨
      ∃ s : Slot, s.owner = x ∧ (∀ z index, s ≠ .attr z index) ∧
        s.peek? o = some (some y) := by
  constructor
  · intro hy
    cases hpayload : o.payload with
    | elements values =>
        rw [hpayload] at hy
        obtain ⟨i, hi⟩ := exists_getElem?_iff.1 hy
        exact Or.inr ⟨.element x i, rfl, by simp, by simpa [Slot.peek?, hpayload] using hi⟩
    | descriptor d =>
        rw [hpayload, Payload.refs, Class.refs, List.mem_append] at hy
        rcases hy with hy | hy
        · exact Or.inl hy
        · obtain ⟨i, hi⟩ := exists_getElem?_iff.1 hy
          exact Or.inr ⟨.classAttr x i, rfl, by simp, by simpa [Slot.peek?, hpayload] using hi⟩
    | method signatures =>
        rw [hpayload, Payload.refs, List.mem_flatMap] at hy
        obtain ⟨signature, hmem, hy⟩ := hy
        rcases List.mem_append.1 hy with hy | hy
        · exact Or.inl (List.mem_filterMap.2 ⟨signature, hmem, by simpa using hy⟩)
        · obtain ⟨i, hi⟩ := Array.mem_iff_getElem?.1 (Array.mem_toList_iff.1 hmem)
          refine Or.inr ⟨.signature x i, rfl, by simp, ?_⟩
          simpa [Slot.peek?, hpayload, hi] using hy
    | environment frame =>
        rw [hpayload, Payload.refs, Frame.values] at hy
        obtain ⟨value, hvalue, hy⟩ := List.mem_filterMap.1 hy
        obtain ⟨binding, hmem, rfl⟩ := List.mem_map.1 hvalue
        obtain ⟨i, hi⟩ := Array.mem_iff_getElem?.1 (Array.mem_toList_iff.1 hmem)
        refine Or.inr ⟨.binding x i, rfl, by simp, ?_⟩
        simpa [Slot.peek?, hpayload, hi] using hy
    | none | chars | logical | integer | real | complex | symbol | native =>
        rw [hpayload] at hy
        cases hy
  · rintro (hy | ⟨s, _, hattr, hs⟩)
    · cases hpayload : o.payload <;> rw [hpayload] at hy
      case descriptor d =>
        exact List.mem_append.2 (Or.inl hy)
      case method signatures =>
        obtain ⟨signature, hmem, hclass⟩ := List.mem_filterMap.1 hy
        exact List.mem_flatMap.2 ⟨signature, hmem, by simp [hclass]⟩
      all_goals cases hy
    · cases s with
      | attr z index => exact absurd rfl (hattr z index)
      | element z index =>
          cases hpayload : o.payload <;> simp only [Slot.peek?, hpayload, reduceCtorEq] at hs
          exact exists_getElem?_iff.2 ⟨index, hs⟩
      | binding z index =>
          cases hpayload : o.payload <;> simp only [Slot.peek?, hpayload, reduceCtorEq] at hs
          obtain ⟨binding, hbinding, hvalue⟩ := Option.map_eq_some_iff.1 hs
          refine List.mem_filterMap.2 ⟨some y, List.mem_map.2 ⟨binding, ?_, hvalue⟩, rfl⟩
          exact Array.mem_toList_iff.2 (Array.mem_of_getElem? hbinding)
      | classAttr z index =>
          cases hpayload : o.payload <;> simp only [Slot.peek?, hpayload, reduceCtorEq] at hs
          exact List.mem_append.2 (Or.inr (exists_getElem?_iff.2 ⟨index, hs⟩))
      | signature z index =>
          cases hpayload : o.payload <;> simp only [Slot.peek?, hpayload, reduceCtorEq] at hs
          obtain ⟨signature, hsignature, hvalue⟩ := Option.map_eq_some_iff.1 hs
          refine List.mem_flatMap.2 ⟨signature, ?_, by simp [hvalue]⟩
          exact Array.mem_toList_iff.2 (Array.mem_of_getElem? hsignature)

theorem mem_ownedRefs_iff :
    y ∈ o.ownedRefs ↔ y ∈ o.payload.classRefs ∨
      ∃ s : Slot, s.owner = x ∧ s.peek? o = some (some y) := by
  rw [ownedRefs, List.mem_append, exists_getElem?_iff, mem_payload_refs_iff (x := x)]
  constructor
  · rintro (⟨i, hi⟩ | hy | ⟨s, howner, _, hs⟩)
    · exact Or.inr ⟨.attr x (i + 1), rfl, hi⟩
    · exact Or.inl hy
    · exact Or.inr ⟨s, howner, hs⟩
  · rintro (hy | ⟨s, howner, hs⟩)
    · exact Or.inr (Or.inl hy)
    · by_cases hattr : ∃ z index, s = .attr z index
      · obtain ⟨z, index, rfl⟩ := hattr
        cases index with
        | zero => cases hs
        | succ index => exact Or.inl ⟨index, hs⟩
      · refine Or.inr (Or.inr ⟨s, howner, fun z index heq => ?_, hs⟩)
        exact hattr ⟨z, index, heq⟩

/-- The references of an object are the classes that it names and what its slots
hold. -/
theorem mem_refs_iff :
    y ∈ o.refs ↔ y ∈ o.classRefs ∨ ∃ s : Slot, s.owner = x ∧ s.peek? o = some (some y) := by
  rw [refs, List.mem_cons, mem_ownedRefs_iff (x := x), classRefs, List.mem_cons, or_assoc]

theorem classRefs_storeIn (o : Object) (s : Slot) (value : Option Handle) :
    (s.storeIn value o).classRefs = o.classRefs := by
  rw [classRefs, Slot.classRef_storeIn, classRefs]
  congr 1
  cases s with
  | attr x index => cases index <;> rfl
  | element | binding =>
      unfold Slot.storeIn
      cases hpayload : o.payload <;> simp [Payload.classRefs, hpayload]
  | classAttr =>
      unfold Slot.storeIn
      cases hpayload : o.payload <;> simp [Payload.classRefs, hpayload]
  | signature x index =>
      unfold Slot.storeIn
      cases hpayload : o.payload <;> simp only [Payload.classRefs, hpayload]
      next signatures =>
      have hclasses : (signatures.modify index fun s => { s with value := value }).toList.map
          Signature.argClass = signatures.toList.map Signature.argClass := by
        refine List.ext_getElem? fun i => ?_
        simp only [List.getElem?_map, Array.getElem?_toList, Array.getElem?_modify]
        by_cases heq : index = i
        · cases signatures[i]? <;> simp [heq]
        · simp [heq]
      have hfilter : ∀ l : List Signature,
          l.filterMap Signature.argClass = (l.map Signature.argClass).filterMap id := by
        simp [List.filterMap_map]
      rw [hfilter, hfilter, hclasses]

theorem isClass_storeIn (o : Object) (s : Slot) (value : Option Handle) :
    (s.storeIn value o).IsClass ↔ o.IsClass := by
  rcases s with ⟨_, _ | _⟩ | _ | _ | _ | _ <;> unfold Slot.storeIn IsClass
  · rfl
  · rfl
  all_goals cases hpayload : o.payload <;> simp [hpayload]

end Object

end ObjectSystem

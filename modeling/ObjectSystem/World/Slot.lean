/-
# Slots

A slot is a place in an object that can hold a reference: an attribute, an
element of a vector, the value of a binding, an attribute value of a class or
the value of an overload. `World.read` looks into a slot; `World.store` puts
something else there and does no more than that.
-/

import ObjectSystem.World

namespace ObjectSystem

/-- A place in an object that can hold a reference. -/
inductive Slot where
  /-- Slot zero shows the class; the attributes follow. -/
  | attr (object : Handle) (index : Nat)
  | element (object : Handle) (index : Nat)
  | binding (env : Handle) (index : Nat)
  | classAttr (cls : Handle) (index : Nat)
  | signature (method : Handle) (index : Nat)
  deriving DecidableEq

namespace Slot

/-- The object that a slot is in. -/
def owner : Slot → Handle
  | attr x _ | element x _ | binding x _ | classAttr x _ | signature x _ => x

/-- The contents of a slot, given the object that it is in. -/
def readIn (w : World) (o : Object) : Slot → Except Error (Option Handle)
  | attr _ index =>
      entry (o.slot? index) index (o.attrs.size + 1)
  | element x index =>
      match o.payload with
      | .elements values => entry values[index]? index values.size
      | _ => .error (w.mismatch "list" x)
  | binding env index =>
      match o.payload with
      | .environment frame =>
          entry (frame.bindings[index]?.map Prod.snd) index frame.size
      | _ => .error (w.mismatch "environment" env)
  | classAttr cls index =>
      match o.payload with
      | .descriptor d => entry d.classAttrs[index]? index d.classAttrs.size
      | _ => .error (w.mismatch "class" cls)
  | signature method index =>
      match o.payload with
      | .method signatures =>
          entry (signatures[index]?.map Signature.value) index signatures.size
      | _ => .error (w.mismatch "method" method)
where
  entry (found : Option (Option Handle)) (index length : Nat) :
      Except Error (Option Handle) :=
    match found with
    | some contents => .ok contents
    | none => .error (.indexOutOfBounds index length)

/-- The object that a slot is in, with other contents in the slot. An object
without the slot stays as it is. -/
def storeIn (value : Option Handle) (o : Object) : Slot → Object
  | attr _ index => o.setAttr index value
  | element _ index =>
      match o.payload with
      | .elements values =>
          { o with payload := .elements (values.setIfInBounds index value) }
      | _ => o
  | binding _ index =>
      match o.payload with
      | .environment frame =>
          { o with payload := .environment (frame.setValue index value) }
      | _ => o
  | classAttr _ index =>
      match o.payload with
      | .descriptor d =>
          { o with
            payload := .descriptor
              { d with classAttrs := d.classAttrs.setIfInBounds index value } }
      | _ => o
  | signature _ index =>
      match o.payload with
      | .method signatures =>
          { o with
            payload := .method (signatures.modify index fun s => { s with value := value }) }
      | _ => o

end Slot

namespace World

/-- The contents of a slot. -/
def read (w : World) (s : Slot) : Except Error (Option Handle) := do
  s.readIn w (← w.object s.owner)

/-- Put something else into a slot, without looking after what was there. -/
def store (w : World) (s : Slot) (value : Option Handle) : World :=
  w.modifyObject s.owner fun o => s.storeIn value o

end World

end ObjectSystem

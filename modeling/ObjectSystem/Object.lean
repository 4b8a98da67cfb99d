/-
# Objects

An object belongs to a class and has a value, or none, for each attribute of
its instances. Slot zero of an object shows its class; the attributes are the
slots from one on.
-/

import ObjectSystem.Payload

namespace ObjectSystem

/-- An object in an arena. -/
structure Object where
  header : Header
  /-- The class that the object belongs to. -/
  classRef : Handle
  attrs : Array (Option Handle)
  /-- The length that users see. -/
  length : Nat
  payload : Payload

namespace Object

/-- An object whose attributes have no values yet. -/
def new (classRef : Handle) (attrCount : Nat) (payload : Payload) (length : Nat)
    (ownership : Ownership) : Object :=
  { header := { ownership := ownership }
    classRef := classRef
    attrs := Array.replicate attrCount none
    length := length
    payload := payload }

/-- The contents of a slot, if there is such a slot. -/
def slot? (o : Object) : (index : Nat) → Option (Option Handle)
  | 0 => some (some o.classRef)
  | index + 1 => o.attrs[index]?

/-- Change the value of an attribute slot. -/
def setAttr (o : Object) (index : Nat) (value : Option Handle) : Object :=
  match index with
  | 0 => o
  | index + 1 => { o with attrs := o.attrs.setIfInBounds index value }

def setOwnership (o : Object) (ownership : Ownership) : Object :=
  { o with header := { o.header with ownership := ownership } }

def mark (o : Object) : Object :=
  { o with header := o.header.mark }

def unmark (o : Object) : Object :=
  { o with header := o.header.unmark }

/-- The references that an object answers for: all but the one to its class. -/
def ownedRefs (o : Object) : List Handle :=
  o.attrs.toList.filterMap id ++ o.payload.refs

/-- All references of an object. -/
def refs (o : Object) : List Handle :=
  o.classRef :: o.ownedRefs

/-- A second object with the same contents. -/
def duplicate (o : Object) : Object :=
  { o with header := { ownership := .single } }

end Object

end ObjectSystem

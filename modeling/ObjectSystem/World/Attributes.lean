/-
# Attributes

An attribute of an object is looked for in the class of the object: it may be a
place in every instance, or a value that the class or a class above it holds for
all. Places in the instances of other classes do not count. Every object also
shows its class under a name of its own.

Writing through `Action.setAttr` keeps to the declared class of a place.
-/

import ObjectSystem.World.Barrier
import ObjectSystem.World.Hierarchy

namespace ObjectSystem

/-- Where the value of an attribute is found. -/
inductive AttrLocation where
  | absent
  /-- The attribute is the class of the object. -/
  | ofClass
  /-- The value is in the object, at a place counted from one. -/
  | inInstance (place : UInt32)
  /-- The value is in a class. -/
  | inClass (holder : Handle) (index : UInt32)
  deriving DecidableEq

namespace World

/-- The value that a class itself holds for an attribute, if it holds one. -/
def heldAttr (w : World) (s : Symbol) (c : Handle) : Except Error (Option AttrLocation) := do
  match (← w.descriptor c).slot s with
  | .inClass index => return some (.inClass c index)
  | _ => return none

/-- Where instances of a class find an attribute. -/
def resolveAttr (w : World) (c : Handle) (s : Symbol) : Except Error AttrLocation := do
  if s = Symbol.ofClass then return .ofClass
  match (← w.descriptor c).slot s with
  | .inInstance place => return .inInstance place
  | .inClass index => return .inClass c index
  | .unmapped =>
      let inherited ← (← w.superclasses c).findSomeM? (w.search (w.heldAttr s) w.walkLimit)
      return inherited.getD .absent

/-- The value of an attribute of an object. -/
def getAttr (w : World) (x : Handle) (s : Symbol) : Except Error (Option Handle) := do
  let c ← w.classOf x
  match ← w.resolveAttr c s with
  | .ofClass => return some c
  | .inInstance place => w.read (.attr x place.toNat)
  | .inClass holder index => w.read (.classAttr holder index.toNat)
  | .absent => throw (w.noSuchAttribute c s)

/-- Check that a value may stand at a place of the instances of a class. No
value and the null object may stand anywhere. -/
def checkAttr (w : World) (c : Handle) (place : Nat) (value : Option Handle) :
    Except Error Unit := do
  match value, (← w.descriptor c).attrClass? place with
  | some x, some declared =>
      if isNull x then return
      if !(← w.isAssignable x declared) then
        throw (w.mismatch (← w.descriptor declared).name x)
  | _, _ => return

end World

namespace Action

/-- Change an attribute that is a place in the object. -/
def setAttr (x : Handle) (s : Symbol) (value : Option Handle) : Action Unit := do
  let c ← query (·.classOf x)
  match ← query (·.resolveAttr c s) with
  | .ofClass => throw .classAttributeAssignment
  | .inInstance place =>
      query (·.checkAttr c place.toNat value)
      set (.attr x place.toNat) value
  | _ => throw ((← get).noSuchAttribute c s)

end Action

end ObjectSystem

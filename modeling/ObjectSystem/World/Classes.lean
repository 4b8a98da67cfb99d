/-
# Defining classes

Classes are made as subclasses of others and can be given further superclasses,
as long as no class comes to lie above itself. A class is itself an object, of
the class of classes, and is pinned.
-/

import ObjectSystem.World.Allocation
import ObjectSystem.World.Attributes

namespace ObjectSystem

namespace World

/-- The value that a class itself holds for an attribute. -/
def classAttr (w : World) (c : Handle) (s : Symbol) : Except Error (Option Handle) := do
  let d ← w.descriptor c
  match d.slot s with
  | .inClass index => return d.classAttrs[index.toNat]?.join
  | _ => return none

end World

namespace Action

/-- Make a class of a descriptor. -/
def registerClass (d : Class) : Action Handle := do
  let c ← allocatePinned (.new Builtin.classClass 0 (.descriptor d) 0 .shared)
  modify fun w => { w with classes := w.classes.push c }
  return c

/-- Make a subclass with further attributes. Without declared classes their
values may be any objects. -/
def subclass (parent : Handle) (name : String) (newAttrs : List Symbol)
    (newClasses : Option (List Handle)) : Action Handle := do
  let d ← query fun w => do
    (← w.descriptor parent).derive parent name newAttrs newClasses Builtin.objectClass w.symbols
  registerClass d

/-- Add a class at the end of the superclasses of another, unless it is there
already. -/
def addSuperclass (c superclass : Handle) : Action Unit := do
  let _ ← query (·.descriptor superclass)
  if ← query (·.isAssignableClass superclass c) then
    let below ← query (·.descriptor c)
    let above ← query (·.descriptor superclass)
    throw (.cyclicHierarchy below.name above.name)
  let _ ← query (·.descriptor c)
  modify (·.modifyDescriptor c (·.addSuperclass superclass))

def setBehavior (c : Handle) (behavior : Behavior) : Action Unit := do
  let _ ← query (·.descriptor c)
  modify (·.modifyDescriptor c fun d => { d with behavior := behavior })

def setTypeTag (c : Handle) (tag : UInt8) : Action Unit := do
  let _ ← query (·.descriptor c)
  modify (·.modifyDescriptor c (·.setTypeTag tag))

/-- Declare the class of the values of an attribute of the instances. -/
def setAttrClass (c : Handle) (s : Symbol) (attrClass : Handle) : Action Unit := do
  let _ ← query (·.descriptor attrClass)
  match (← query (·.descriptor c)).slot s with
  | .inInstance place => modify (·.modifyDescriptor c (·.setAttrClass place.toNat attrClass))
  | _ => throw ((← get).noSuchAttribute c s)

/-- The index at which a class holds its own value of an attribute. A new
attribute gets one. -/
def classAttrIndex (c : Handle) (s : Symbol) : Action Nat := do
  let d ← query (·.descriptor c)
  match d.slot s with
  | .inClass index => return index.toNat
  | .inInstance _ => throw (.duplicateAttribute d.name ((← get).symbols.display s))
  | .unmapped =>
      modify (·.modifyDescriptor c (·.addClassAttr s))
      return d.classAttrs.size

/-- Let a class hold a value of an attribute for its instances. -/
def defineClassAttr (c : Handle) (s : Symbol) (value : Option Handle) : Action Unit := do
  if s.isReserved then throw (.reservedSymbol s)
  let index ← classAttrIndex c s
  set (.classAttr c index) value

end Action

end ObjectSystem

/-
# Class descriptors

A class names the attributes of its instances and where their values are kept,
the classes those values must belong to, the classes above it, and how its
instances behave when they are copied, evaluated or called. It may also hold
attribute values of its own, which its instances and the instances of its
subclasses see.
-/

import ObjectSystem.Class.AttrSlot
import ObjectSystem.Class.Superclasses
import ObjectSystem.Error

namespace ObjectSystem

/-- How the instances of a class behave when they are copied, evaluated or
called. -/
inductive Behavior where
  /-- A copy is a new object, the value of an instance is itself, and calling
  it is an error. -/
  | default
  /-- As `default`, but a copy is the object itself. -/
  | noCopy
  /-- The value is what the symbol is bound to; a copy is the object itself. -/
  | symbol
  /-- The value is that of a call. -/
  | language
  /-- A call runs a native function on the values of the arguments. -/
  | builtin
  /-- A call runs a native function on the arguments as they are. -/
  | special
  /-- A call runs the method that fits the values of the arguments. -/
  | generic
  /-- A call returns the callee. -/
  | method
  /-- The host program says what happens, by this name. -/
  | custom (name : String)
  deriving DecidableEq, Inhabited

namespace Behavior

def name : Behavior → String
  | default => "default"
  | noCopy => "no-copy"
  | symbol => "symbol"
  | language => "language"
  | builtin => "builtin"
  | special => "special"
  | generic => "generic"
  | method => "method"
  | custom name => name

/-- The behaviors of the library. -/
def library : List Behavior :=
  [default, noCopy, symbol, language, builtin, special, generic, method]

/-- The behavior of the library with a name. -/
def ofName? (name : String) : Option Behavior :=
  library.find? (·.name == name)

end Behavior

/-- A class descriptor. -/
structure Class where
  name : String
  /-- How many attributes each instance has. -/
  attrCount : Nat := 0
  supers : Superclasses := .empty
  /-- Where each attribute is kept, by symbol number. -/
  slots : Array AttrSlot := #[]
  /-- The class that the value at each place of an instance must belong to. -/
  attrClasses : Array Handle := #[]
  /-- The attribute values of the class itself. -/
  classAttrs : Array (Option Handle) := #[]
  /-- A number below 128 that tells kinds of values apart. -/
  typeTag : UInt8 := 0
  behavior : Behavior

namespace Class

/-- A class without attributes or superclasses. -/
def root (name : String) (behavior : Behavior) : Class :=
  { name := name, behavior := behavior }

/-- Where an attribute is kept. -/
def slot (c : Class) (s : Symbol) : AttrSlot :=
  c.slots[s.index.toNat]?.getD .unmapped

/-- The class that the value at a place, counted from one, must belong to. -/
def attrClass? (c : Class) : (place : Nat) → Option Handle
  | 0 => none
  | place + 1 => c.attrClasses[place]?

/-- All references of a descriptor: superclasses, declared classes, values. -/
def refs (c : Class) : List Handle :=
  c.supers.toList ++ c.attrClasses.toList ++ c.classAttrs.toList.filterMap id

/-- Make room for the symbols numbered below `size`. -/
def widen (slots : Array AttrSlot) (size : Nat) : Array AttrSlot :=
  slots ++ Array.replicate (size - slots.size) .unmapped

/-- Give one more attribute a place in the instances. -/
def addAttr (className : String) (symbols : SymbolTable)
    (layout : Array AttrSlot × Nat) (s : Symbol) :
    Except Error (Array AttrSlot × Nat) :=
  let (slots, count) := layout
  if s.isReserved then .error (.reservedSymbol s)
  else if slots[s.index.toNat]?.getD .unmapped ≠ .unmapped then
    .error (.duplicateAttribute className (symbols.display s))
  else
    .ok (slots.setIfInBounds s.index.toNat (.inInstance (UInt32.ofNat (count + 1))),
      count + 1)

/-- A subclass with further attributes. Its instances keep the attributes of the
parent where they are and the new ones behind them, in the order given. -/
def derive (parent : Class) (parentHandle : Handle) (name : String)
    (newAttrs : List Symbol) (newClasses : Option (List Handle))
    (defaultClass : Handle) (symbols : SymbolTable) : Except Error Class := do
  if let some classes := newClasses then
    if classes.length ≠ newAttrs.length then
      throw (.attributeClassCount classes.length newAttrs.length)
  let highest := newAttrs.foldl (fun n s => max n (s.index.toNat + 1)) 0
  let inherited := widen (parent.slots.map AttrSlot.inherited) highest
  let (slots, attrCount) ←
    newAttrs.foldlM (addAttr name symbols) (inherited, parent.attrCount)
  let classes := newClasses.getD (List.replicate newAttrs.length defaultClass)
  return {
    name := name
    attrCount := attrCount
    supers := Superclasses.empty.push parentHandle
    slots := slots
    attrClasses := parent.attrClasses ++ classes.toArray
    classAttrs := #[]
    typeTag := parent.typeTag
    behavior := parent.behavior }

def addSuperclass (c : Class) (superclass : Handle) : Class :=
  if c.supers.contains superclass then c
  else { c with supers := c.supers.push superclass }

/-- Only the low seven bits of a type tag count. -/
def setTypeTag (c : Class) (tag : UInt8) : Class :=
  { c with typeTag := tag &&& 0x7f }

/-- Declare the class of the value at a place, counted from one. -/
def setAttrClass (c : Class) (place : Nat) (attrClass : Handle) : Class :=
  match place with
  | 0 => c
  | place + 1 => { c with attrClasses := c.attrClasses.setIfInBounds place attrClass }

/-- Give an attribute a slot in the class itself, still without a value. -/
def addClassAttr (c : Class) (s : Symbol) : Class :=
  { c with
    slots := (widen c.slots (s.index.toNat + 1)).setIfInBounds s.index.toNat
      (.inClass (UInt32.ofNat c.classAttrs.size))
    classAttrs := c.classAttrs.push none }

/-- A descriptor on one line. -/
def text (c : Class) : String :=
  let slots := Text.bracketed (c.slots.toList.map AttrSlot.text)
  let fields := [
    s!"name: {Text.quoted c.name}",
    s!"instance_attrs: {c.attrCount}",
    s!"supers: {c.supers.text}",
    s!"attr_map: {slots}",
    s!"class_attrs: {c.classAttrs.size}",
    s!"type_tag: {c.typeTag.toNat}",
    s!"behavior: {Text.quoted c.behavior.name}"]
  "Class \x7b " ++ String.intercalate ", " fields ++ " \x7d"

end Class

end ObjectSystem

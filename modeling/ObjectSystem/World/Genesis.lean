/-
# New worlds

A new world is filled through the operations that also serve later: first the
class of classes, which is its own class, then the other built-in classes, then
the built-in objects, and last the assignment function, bound in the global
environment. `Builtin` knows the handles that this order leads to.
-/

import ObjectSystem.World.Construction

namespace ObjectSystem

/-- A built-in class below the class of all objects. -/
structure ClassPlan where
  name : String
  parent : Handle
  attrs : List Symbol := []
  /-- Attributes whose classes are declared as soon as the class exists, each
  with its holder. Classes made later inherit the declarations. -/
  declared : List (Handle × Symbol × Handle) := []

namespace ClassPlan

/-- The built-in classes below the class of all objects, in order. -/
def builtin : List ClassPlan := [
  { name := "null", parent := Builtin.objectClass },
  { name := "symbol", parent := Builtin.objectClass },
  { name := "characterString", parent := Builtin.objectClass },
  { name := "vector", parent := Builtin.objectClass, attrs := [Symbol.names] },
  { name := "character", parent := Builtin.vectorClass,
    declared := [
      (Builtin.vectorClass, Symbol.names, Builtin.characterClass),
      (Builtin.characterClass, Symbol.names, Builtin.characterClass)] },
  { name := "numeric", parent := Builtin.vectorClass },
  { name := "real", parent := Builtin.numericClass },
  { name := "integer", parent := Builtin.numericClass },
  { name := "list", parent := Builtin.vectorClass },
  { name := "logical", parent := Builtin.vectorClass },
  { name := "complex", parent := Builtin.vectorClass },
  { name := "pairlist", parent := Builtin.objectClass,
    attrs := [Symbol.next, Symbol.head, Symbol.tag],
    declared := [(Builtin.pairlistClass, Symbol.next, Builtin.pairlistClass)] },
  { name := "language", parent := Builtin.pairlistClass },
  { name := "environment", parent := Builtin.objectClass, attrs := [Symbol.parent],
    declared := [(Builtin.environmentClass, Symbol.parent, Builtin.environmentClass)] },
  { name := "builtin", parent := Builtin.objectClass },
  { name := "special", parent := Builtin.objectClass },
  { name := "generic", parent := Builtin.objectClass },
  { name := "method", parent := Builtin.objectClass }]

/-- The built-in classes whose instances do not behave as other objects do. -/
def behaviors : List (Handle × Behavior) := [
  (Builtin.nullClass, .noCopy),
  (Builtin.symbolClass, .symbol),
  (Builtin.languageClass, .language),
  (Builtin.builtinClass, .builtin),
  (Builtin.specialClass, .special),
  (Builtin.genericClass, .generic),
  (Builtin.methodClass, .method)]

/-- The type tags of the built-in classes; the others have none. -/
def typeTags : List (Handle × UInt8) := [
  (Builtin.nullClass, 0),
  (Builtin.symbolClass, 1),
  (Builtin.charsClass, 9),
  (Builtin.characterClass, 16),
  (Builtin.realClass, 14),
  (Builtin.integerClass, 13),
  (Builtin.listClass, 19),
  (Builtin.logicalClass, 10),
  (Builtin.complexClass, 15),
  (Builtin.pairlistClass, 2),
  (Builtin.languageClass, 6),
  (Builtin.environmentClass, 4),
  (Builtin.builtinClass, 8),
  (Builtin.specialClass, 7)]

end ClassPlan

namespace Action

/-- Make the class of classes, which belongs to itself. -/
def makeClassClass : Action Unit := do
  let c ← modifyGet fun w =>
    let (c, objects) := w.objects.insertWith fun c =>
      .new c 0 (.descriptor (.root "class" .noCopy)) 0 .shared
    (c, { w with objects := objects })
  pin c
  modify fun w => { w with classes := w.classes.push c }

/-- Make one built-in class and declare the attribute classes due then. -/
def makeClass (plan : ClassPlan) : Action Unit := do
  let _ ← subclass plan.parent plan.name plan.attrs none
  plan.declared.forM fun (c, s, attrClass) => setAttrClass c s attrClass

/-- Make the built-in classes. -/
def makeClasses : Action Unit := do
  makeClassClass
  let objectClass ← registerClass (.root "object" .default)
  addSuperclass Builtin.classClass objectClass
  ClassPlan.builtin.forM makeClass
  ClassPlan.behaviors.forM fun (c, behavior) => setBehavior c behavior
  ClassPlan.typeTags.forM fun (c, tag) => setTypeTag c tag

/-- Make the built-in objects and bind the assignment function. -/
def makeObjects : Action Unit := do
  let _ ← allocatePinned (.new Builtin.nullClass 0 .none 0 .shared)
  let _ ← allocatePinned (.new Builtin.symbolClass 0 (.symbol Symbol.empty) 0 .shared)
  pin (← newText "NA")
  let globalEnv ← newEnvironment none
  pin globalEnv
  let arrow ← newSpecial .assign
  let _ ← assign globalEnv Symbol.arrow arrow

end Action

namespace World

/-- A new world. -/
def create (settings : Settings) : Except Error World :=
  match settings.fault? with
  | some fault => .error (.invalidSettings fault)
  | none =>
      match (do Action.makeClasses; Action.makeObjects : Action Unit).run.run (empty settings) with
      | (.ok _, w) => .ok w
      | (.error e, _) => .error e

end World

end ObjectSystem

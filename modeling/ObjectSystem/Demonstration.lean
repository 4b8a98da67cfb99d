/-
# The demonstration

A scripted tour of a world: it makes a string and a vector and shows them,
defines a generic function with a method for real numbers and one for integers,
evaluates a few expressions, lists the classes and ends with a collection.

A script prints lines as it goes. A failure ends it, and what it has printed by
then stands.
-/

import ObjectSystem.World.Contents
import ObjectSystem.World.Description
import ObjectSystem.World.Evaluation
import ObjectSystem.World.Genesis

namespace ObjectSystem

/-- A world and what has been printed so far. -/
structure Stage where
  world : World
  lines : Array String := #[]

/-- An action that also prints. -/
abbrev Script := ExceptT Error (StateM Stage)

namespace Script

/-- Run an action on the world of the stage. -/
def act {α : Type} (action : Action α) : Script α :=
  ExceptT.mk fun stage =>
    let (result, w) := action.run.run stage.world
    (result, { stage with world := w })

def print (line : String) : Script Unit :=
  modify fun stage => { stage with lines := stage.lines.push line }

/-- Show an object, or that there is none. -/
def printObject (x : Option Handle) : Script Unit := do
  match x with
  | some x =>
      match (← get).world.describe x with
      | some line => print line
      | none => throw .endlessWalk
  | none => print "<unset>"

end Script

namespace Demonstration

open ObjectSystem.Action

/-- A string that tells the length of the first argument, a real vector. -/
def tellRealLength (args : Handle) : Program := Program.Phrase.program do
  match ← .perform (.ask (.items args)) with
  | [] => .fail (.reported "kind: no argument")
  | x :: _ =>
      let length ← .ofResult fun rest => .look fun w => rest (Host.bare.length w x)
      .perform (.newString s!"real of length {length}")

/-- The demonstration has one native function. -/
def host : Host :=
  { Host.bare with native := fun _ args _ => tellRealLength args }

/-- Keep the result of an action until the end. -/
def rooted (action : Action Handle) : Action Handle := do
  let x ← action
  modify (·.addRoot x)
  return x

/-- An expression and the text it is announced by. -/
structure Statement where
  source : String
  expression : Handle

/-- One expression: a symbol by itself, or a call of several parts. -/
def statement (source : String) (parts : List Handle) : Action Statement := do
  let expression ← rooted <| match parts with
    | [x] => return x
    | parts => newCall parts
  return { source := source, expression := expression }

/-- Define the generic function and make the expressions. -/
def statements : Action (List Statement) := do
  let arrow ← install "<-"
  let x ← install "x"
  let n ← install "n"
  let kind ← install "kind"
  let missing ← install "undefined"
  let generic ← newGeneric "kind"
  let _ ← assign Builtin.globalEnv (← query (·.symbolOf kind)) generic
  let function ← rooted (newBuiltin (.host "kind"))
  let _ ← defineMethod Builtin.realClass "kind" [] function
  let label ← rooted (newString "an integer")
  let _ ← defineMethod Builtin.integerClass "kind" [] label
  let half ← rooted (scalarReal (.ofFloat 0.5))
  let three ← rooted (scalarInteger 3)
  let text ← rooted (newString "text")
  let plan : List (String × List Handle) := [
    ("x <- 0.5", [arrow, x, half]),
    ("n <- 3L", [arrow, n, three]),
    ("x", [x]),
    ("undefined", [missing]),
    ("kind(x)", [kind, x]),
    ("kind(n)", [kind, n]),
    ("kind(\"text\")", [kind, text])]
  plan.mapM fun (source, parts) => statement source parts

/-- Evaluate an expression and print its value or the error. An error of the
world itself ends the script. -/
def evaluate (s : Statement) : Script Unit := do
  match ← Script.act (outcome (host.evalInScope s.expression Builtin.globalEnv)) with
  | .ok value =>
      Script.print s!"> {s.source}"
      Script.printObject (some value)
  | .error e =>
      if e.isFatal then throw e
      Script.print s!"> {s.source}"
      Script.print s!"Error: {e.message}"
  for warning in (← get).world.warnings do
    Script.print s!"Warning: {warning}"
  Script.act (modify (·.clearWarnings))

/-- A text with blanks behind it, up to a width. -/
def padRight (width : Nat) (text : String) : String :=
  text ++ String.ofList (List.replicate (width - text.length) ' ')

/-- A text with blanks in front of it, up to a width. -/
def padLeft (width : Nat) (text : String) : String :=
  String.ofList (List.replicate (width - text.length) ' ') ++ text

/-- One line about a class: its name, tag and attributes, and the classes above it. -/
def classLine (w : World) (c : Handle) : Except Error String := do
  let d ← w.descriptor c
  let above ← ((← w.ancestors c).drop 1).mapM fun a => Class.name <$> w.descriptor a
  let chain := String.intercalate " <- " above
  let name := padRight 16 d.name
  let tag := padLeft 2 (toString d.typeTag.toNat)
  return s!"  {name} tag {tag}  attrs {d.attrCount}  <- {chain}"

/-- The vector that the tour shows: the first ten multiples of one half. -/
def halves : List Double :=
  (List.range 10).map fun i => .ofFloat (i.toFloat / 2.0)

/-- The tour. -/
def run : Script Unit := do
  let string ← Script.act (rooted (newString "foo"))
  let vector ← Script.act (rooted (realVector 10))
  Script.act (fillReals vector halves)
  Script.printObject (← Script.act (query (·.read (.element string 0))))
  Script.printObject (some vector)
  Script.printObject (← Script.act (query (·.getAttr vector Symbol.names)))
  Script.printObject (← Script.act (query (·.getAttr vector Symbol.ofClass)))
  Script.printObject (some (← Script.act (install "class")))
  for s in ← Script.act statements do
    evaluate s
  Script.print ""
  Script.print "classes:"
  for c in (← get).world.classes do
    Script.print (← Script.act (query (classLine · c)))
  let freed ← Script.act (Action.collect [])
  let w := (← get).world
  Script.print ""
  Script.print <|
    s!"heap: {w.population} live, {w.objects.inserted} allocated, " ++
    s!"{w.objects.removed} freed ({freed} by the last collection), " ++
    s!"{w.promotions} promoted, {w.collections} collections"

end Demonstration

end ObjectSystem

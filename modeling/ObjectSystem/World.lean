/-
# Worlds

A world is everything that an object system knows: the arena of its objects,
its symbols, the pools of its open scopes, its classes and what its users have
asked it to keep.

Operations come in two kinds. A query reads a world and gives a result or an
error; an `Action` gives a result or an error and a new world. An action that
fails also has a new world: what it had done before it failed stays done.
-/

import ObjectSystem.Arena
import ObjectSystem.Builtin
import ObjectSystem.Object
import ObjectSystem.Pool.Stack
import ObjectSystem.Settings

namespace ObjectSystem

/-- Everything that an object system knows. -/
structure World where
  settings : Settings
  objects : Arena Object := {}
  symbols : SymbolTable
  pools : PoolStack
  /-- The registered classes, in the order of their creation. -/
  classes : Array Handle := #[]
  /-- The handles that users have asked collections to start from. -/
  roots : List Handle := []
  /-- The one object of each symbol that has been asked for as an object. -/
  symbolObjects : List (Symbol × Handle) := []
  warnings : Array String := #[]
  /-- How often an object became shared for good. -/
  promotions : Nat := 0
  collections : Nat := 0

/-- An operation that may change the world and may fail. -/
abbrev Action := ExceptT Error (StateM World)

namespace Action

/-- Ask the world without changing it. -/
def query {α : Type} (question : World → Except Error α) : Action α :=
  ExceptT.mk fun w => (question w, w)

/-- Run an action and return its outcome, whatever it is. -/
def outcome {α : Type} (action : Action α) : Action (Except Error α) :=
  ExceptT.mk fun w =>
    let (result, w) := action.run.run w
    (.ok result, w)

end Action

namespace World

/-- A world without objects. -/
def empty (settings : Settings) : World :=
  { settings := settings
    symbols := .standard
    pools := .new settings.poolCapacity }

/-- The number of live objects. -/
def population (w : World) : Nat :=
  w.objects.size

def isLive (w : World) (x : Handle) : Bool :=
  w.objects.contains x

def isNull (x : Handle) : Bool :=
  x == Builtin.null

/-- The object that a handle names. -/
def object (w : World) (x : Handle) : Except Error Object :=
  match w.objects.get? x with
  | some o => .ok o
  | none => .error (.dangling x)

def ownership (w : World) (x : Handle) : Except Error Ownership := do
  return (← w.object x).header.ownership

/-- The class that an object belongs to. -/
def classOf (w : World) (x : Handle) : Except Error Handle := do
  return (← w.object x).classRef

/-- Whether an object belongs to the class of classes. -/
def isClass (w : World) (x : Handle) : Bool :=
  match w.classOf x with
  | .ok c => c == Builtin.classClass
  | .error _ => false

/-- A walk that meets no object twice has at most this many steps: one for each
live object, and one that leaves them. -/
def walkLimit (w : World) : Nat :=
  w.population + 1

/-- What stands for the name of a class that there is not. -/
def noClassName : String := "<dangling>"

/-- The name of the class that an object belongs to, for messages. A class that is
no descriptor has no name, but is first asked for that of its own class, and so on:
where this comes to no end, there is no answer. -/
def classNameWithin (w : World) : (fuel : Nat) → Handle → Option String
  | 0, _ => none
  | fuel + 1, x =>
      match w.classOf x with
      | .error _ => some noClassName
      | .ok c =>
          match Object.payload <$> w.object c with
          | .error _ => some noClassName
          | .ok (.descriptor d) => some d.name
          | .ok _ => (classNameWithin w fuel c).map fun _ => noClassName

def className (w : World) (x : Handle) : Option String :=
  w.classNameWithin w.walkLimit x

/-- The error that tells a name, if asking for the name comes to an end. -/
def telling (name : Option String) (error : String → Error) : Error :=
  match name with
  | some name => error name
  | none => .endlessWalk

/-- The error of finding an object of the wrong kind. -/
def mismatch (w : World) (expected : String) (found : Handle) : Error :=
  telling (w.className found) (.typeMismatch expected)

/-- The error of calling an object that is no function. -/
def notCallable (w : World) (x : Handle) : Error :=
  telling (w.className x) .notCallable

/-- The descriptor that a class holds. -/
def descriptor (w : World) (c : Handle) : Except Error Class := do
  match (← w.object c).payload with
  | .descriptor d => return d
  | _ => throw (w.mismatch "class" c)

/-- The name of a class, or its handle if it is no class, for messages. -/
def classLabel (w : World) (c : Handle) : Option String :=
  match w.descriptor c with
  | .ok d => some d.name
  | .error .endlessWalk => none
  | .error _ => some c.label

/-- The error of asking for an attribute that a class does not have. -/
def noSuchAttribute (w : World) (c : Handle) (s : Symbol) : Error :=
  telling (w.classLabel c) fun label => .noSuchAttribute label (w.symbols.display s)

/-- How an object behaves: as its class says. -/
def behaviorOf (w : World) (x : Handle) : Except Error Behavior := do
  return (← w.descriptor (← w.classOf x)).behavior

/-- Change the object that a handle names; a stale handle changes nothing. -/
def modifyObject (w : World) (x : Handle) (change : Object → Object) : World :=
  { w with objects := w.objects.modify x change }

/-- Change the payload of an object. -/
def modifyPayload (w : World) (x : Handle) (change : Payload → Payload) : World :=
  w.modifyObject x fun o => { o with payload := change o.payload }

/-- Change the descriptor of a class. -/
def modifyDescriptor (w : World) (c : Handle) (change : Class → Class) : World :=
  w.modifyPayload c fun
    | .descriptor d => .descriptor (change d)
    | other => other

def setOwnership (w : World) (x : Handle) (ownership : Ownership) : World :=
  w.modifyObject x (·.setOwnership ownership)

def addRoot (w : World) (x : Handle) : World :=
  { w with roots := x :: w.roots }

/-- Take back one request to keep an object, if there is one. -/
def removeRoot (w : World) (x : Handle) : Bool × World :=
  (w.roots.contains x, { w with roots := w.roots.erase x })

def warn (w : World) (message : String) : World :=
  { w with warnings := w.warnings.push message }

def clearWarnings (w : World) : World :=
  { w with warnings := #[] }

/-- The symbol of a name, which enters the table if it is new. -/
def intern (w : World) (name : String) : Symbol × World :=
  let (s, symbols) := w.symbols.intern name
  (s, { w with symbols := symbols })

end World

namespace Action

/-- The symbol of a name. -/
def intern (name : String) : Action Symbol :=
  modifyGet (·.intern name)

end Action

end ObjectSystem

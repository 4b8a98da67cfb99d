/-
# Making and reading values

Constructors for vectors, strings, lists, calls and callables, and the queries
that read symbols, functions and lists. What is built from several objects is built in a
scope, so that no collection can take a part of it away.
-/

import ObjectSystem.World.Environments
import ObjectSystem.World.Dispatch
import ObjectSystem.World.Scope

namespace ObjectSystem

namespace World

/-- The symbol that an object stands for. -/
def symbolOf (w : World) (x : Handle) : Except Error Symbol := do
  match (← w.object x).payload with
  | .symbol s => return s
  | _ => throw (w.mismatch "symbol" x)

/-- The native function that an object holds. -/
def nativeOf (w : World) (x : Handle) : Except Error Native := do
  match (← w.object x).payload with
  | .native f => return f
  | _ => throw (w.notCallable x)

/-- Collect the items of a linked list from a cell on. -/
def itemsWithin (w : World) : (fuel : Nat) → (cell : Handle) → Except Error (List Handle)
  | 0, cell => if isNull cell then .ok [] else .error .endlessWalk
  | fuel + 1, cell => do
      if isNull cell then return []
      if !(← w.isAssignable cell Builtin.pairlistClass) then
        throw (w.mismatch "pairlist" cell)
      let item := (← w.getAttr cell Symbol.head).getD Builtin.null
      match ← w.getAttr cell Symbol.next with
      | some rest => return item :: (← itemsWithin w fuel rest)
      | none => return [item]

/-- The items of a linked list. The list ends with the null object, or with a
cell that has no next one. -/
def items (w : World) (list : Handle) : Except Error (List Handle) :=
  w.itemsWithin w.walkLimit list

end World

namespace Action

/-- Vectors start out with zeros, or empty elements. -/
def realVector (length : Nat) : Action Handle :=
  allocateOf Builtin.realClass (.real (Array.replicate length .zero)) length

def integerVector (length : Nat) : Action Handle :=
  allocateOf Builtin.integerClass (.integer (Array.replicate length 0)) length

def logicalVector (length : Nat) : Action Handle :=
  allocateOf Builtin.logicalClass (.logical (Array.replicate length 0)) length

def complexVector (length : Nat) : Action Handle :=
  allocateOf Builtin.complexClass (.complex (Array.replicate length ⟨.zero, .zero⟩)) length

def objectVector (length : Nat) : Action Handle :=
  allocateOf Builtin.listClass (.elements (Array.replicate length none)) length

/-- Overwrite the first values of a vector, as far as it goes. -/
def overwrite {α : Type} (values : Array α) (news : List α) : Array α :=
  (news.take values.size).toArray ++ values.extract news.length

def fillReals (x : Handle) (values : List Double) : Action Unit := do
  match (← query (·.object x)).payload with
  | .real _ => modify (·.modifyPayload x fun
      | .real old => .real (overwrite old values)
      | other => other)
  | _ => throw ((← get).mismatch "real" x)

def fillIntegers (x : Handle) (values : List Int32) : Action Unit := do
  match (← query (·.object x)).payload with
  | .integer _ => modify (·.modifyPayload x fun
      | .integer old => .integer (overwrite old values)
      | other => other)
  | _ => throw ((← get).mismatch "integer" x)

def fillLogicals (x : Handle) (values : List Int32) : Action Unit := do
  match (← query (·.object x)).payload with
  | .logical _ => modify (·.modifyPayload x fun
      | .logical old => .logical (overwrite old values)
      | other => other)
  | _ => throw ((← get).mismatch "logical" x)

def fillComplexes (x : Handle) (values : List Complex) : Action Unit := do
  match (← query (·.object x)).payload with
  | .complex _ => modify (·.modifyPayload x fun
      | .complex old => .complex (overwrite old values)
      | other => other)
  | _ => throw ((← get).mismatch "complex" x)

/-- A vector of one real number. -/
def scalarReal (value : Double) : Action Handle := do
  let x ← realVector 1
  fillReals x [value]
  return x

def scalarInteger (value : Int32) : Action Handle := do
  let x ← integerVector 1
  fillIntegers x [value]
  return x

def scalarLogical (value : Bool) : Action Handle := do
  let x ← logicalVector 1
  fillLogicals x [if value then 1 else 0]
  return x

def setElement (x : Handle) (index : Nat) (value : Option Handle) : Action Unit :=
  set (.element x index) value

/-- A single text. Its length is counted in bytes. -/
def newText (text : String) : Action Handle :=
  allocateOf Builtin.charsClass (.chars text) text.utf8ByteSize

/-- A vector of one text. -/
def newString (text : String) : Action Handle :=
  scope do
    let x ← allocateOf Builtin.characterClass (.elements #[none]) 1
    let chars ← newText text
    setElement x 0 (some chars)
    return x

/-- A cell of a linked list, of a given class. -/
def cell (c head next : Handle) : Action Handle := do
  let x ← allocateOf c .none 0
  setAttr x Symbol.head (some head)
  setAttr x Symbol.next (some next)
  return x

def cons (head next : Handle) : Action Handle :=
  cell Builtin.pairlistClass head next

/-- The first cell of a call: a function, or what evaluates to one, and a list
of arguments. -/
def consCall (head next : Handle) : Action Handle :=
  cell Builtin.languageClass head next

/-- A linked list. -/
def newList (items : List Handle) : Action Handle :=
  scope (items.foldrM cons Builtin.null)

/-- A call. -/
def newCall : (parts : List Handle) → Action Handle
  | [] => throw .emptyCall
  | function :: args => scope do consCall function (← newList args)

/-- The object of a symbol. Each symbol has one, which lives for good. -/
def install (name : String) : Action Handle := do
  let s ← intern name
  match (← get).symbolObjects.lookup s with
  | some x => return x
  | none =>
      let d ← query (·.descriptor Builtin.symbolClass)
      let x ← allocatePinned (.new Builtin.symbolClass d.attrCount (.symbol s) 0 .shared)
      modify fun w => { w with symbolObjects := (s, x) :: w.symbolObjects }
      return x

def newBuiltin (function : Native) : Action Handle :=
  allocateOf Builtin.builtinClass (.native function) 0

def newSpecial (function : Native) : Action Handle :=
  allocateOf Builtin.specialClass (.native function) 0

/-- A callable that runs the method of a name. -/
def newGeneric (name : String) : Action Handle := do
  let s ← intern name
  allocateOf Builtin.genericClass (.symbol s) 0

/-- A second object with the same contents. What both hold becomes shared. -/
def shallowCopy (x : Handle) : Action Handle := do
  let duplicate := (← query (·.object x)).duplicate
  let copy ← allocate duplicate
  duplicate.ownedRefs.forM share
  return copy

end Action

end ObjectSystem

/-
# Dispatch

A method is a chain of overloads that a class holds under the name of the
method. An overload names the class that the next argument must belong to and
what it leads to: a value, or a further chain for the argument after that. An
overload without a class fits where the arguments end.

The first argument chooses the class whose chain is searched first; the classes
above it follow. The overloads of a chain are tried in the order in which they
were added.
-/

import ObjectSystem.World.Classes

namespace ObjectSystem

namespace World

/-- The overloads of a method. -/
def signatures (w : World) (method : Handle) : Except Error (Array Signature) := do
  match (← w.object method).payload with
  | .method signatures => return signatures
  | _ => throw (w.mismatch "method" method)

/-- Whether an object is a chain of overloads. -/
def isMethod (w : World) (x : Handle) : Bool :=
  match w.objects.get? x with
  | some { payload := .method _, .. } => true
  | _ => false

/-- What the first fitting overload leads to, through all further chains. An
overload that leads to nothing ends the search in its chain. -/
def matchArgs (w : World) : (args : List Handle) → List Signature →
    Except Error (Option Handle)
  | [], signatures =>
      .ok ((signatures.find? (·.argClass.isNone)).bind Signature.value)
  | arg :: args, signatures => do
      let found ← signatures.findSomeM? fun s => do
        match s.argClass with
        | none => return none
        | some c =>
            if !(← w.isAssignable arg c) then return none
            match s.value with
            | some inner =>
                if w.isMethod inner then
                  return (← w.matchArgs args (← w.signatures inner).toList).map some
                return some (some inner)
            | none => return some none
      return found.join

/-- Search a chain of overloads from an index on. -/
def matchMethod (w : World) (method : Handle) (start : Nat) (args : List Handle) :
    Except Error (Option Handle) := do
  w.matchArgs args ((← w.signatures method).toList.drop start)

/-- What the overloads that a class itself holds under a name lead to. -/
def matchInClass (w : World) (s : Symbol) (args : List Handle) (c : Handle) :
    Except Error (Option Handle) := do
  match ← w.classAttr c s with
  | some chain => w.matchMethod chain 0 args
  | none => return none

/-- Search a class and the classes above it for a method that fits. -/
def findMethodInClass (w : World) (s : Symbol) (c : Handle) (args : List Handle) :
    Except Error (Option Handle) :=
  w.search (w.matchInClass s args) w.walkLimit c

end World

namespace Action

open World

/-- The symbol under which the overloads of a method are kept. -/
def methodSymbol (name : String) : Action Symbol :=
  intern (methodName name)

/-- A chain without overloads. -/
def newMethod : Action Handle :=
  allocateOf Builtin.methodClass (.method #[]) 0

/-- Add an overload at the end of a chain. -/
def addSignature (method : Handle) (argClass : Option Handle) (value : Handle) :
    Action Unit := do
  if let some c := argClass then
    let _ ← query (·.descriptor c)
  let index := (← query (·.signatures method)).size
  modify (·.modifyObject method fun o =>
    { o with
      length := index + 1
      payload := match o.payload with
        | .method signatures => .method (signatures.push { argClass := argClass, value := none })
        | other => other })
  set (.signature method index) (some value)

/-- The chain that a class holds for a method. A class that has none gets an
empty one. -/
def methodChain (c : Handle) (s : Symbol) : Action Handle := do
  match ← query (·.classAttr c s) with
  | some chain => return chain
  | none =>
      let chain ← newMethod
      defineClassAttr c s (some chain)
      return chain

/-- The chain that the first overload for a class leads to, if one leads to a
chain; a new one is added otherwise. -/
def innerChain (chain argClass : Handle) : Action Handle := do
  let signatures ← query (·.signatures chain)
  let w ← get
  let existing := signatures.toList.findSome? fun s =>
    if s.argClass = some argClass then s.value.filter w.isMethod else none
  match existing with
  | some inner => return inner
  | none =>
      let inner ← newMethod
      addSignature chain (some argClass) inner
      return inner

/-- Add an overload for a class of the receiver and the classes of the further
arguments. Returns the chain of the receiver's class. -/
def defineMethod (c : Handle) (name : String) (argClasses : List Handle) (value : Handle) :
    Action Handle := do
  let s ← methodSymbol name
  let top ← methodChain c s
  match argClasses.getLast? with
  | none => addSignature top none value
  | some last =>
      let chain ← argClasses.dropLast.foldlM innerChain top
      addSignature chain (some last) value
  return top

/-- The method for the given arguments, the first of which is the receiver. -/
def findMethod (name : String) : (args : List Handle) → Action (Option Handle)
  | [] => return none
  | receiver :: args => do
      let s ← methodSymbol name
      let c ← query (·.classOf receiver)
      query (·.findMethodInClass s c args)

/-- The method for the given arguments; that there is none is an error. -/
def requireMethod (name : String) (args : List Handle) : Action Handle := do
  match ← findMethod name args with
  | some method => return method
  | none =>
      let w ← get
      let receiver := match args.head? with
        | some x => w.className x
        | none => some "<none>"
      throw (telling receiver (.noMethod name))

end Action

end ObjectSystem

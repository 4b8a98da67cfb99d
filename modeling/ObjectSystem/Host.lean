/-
# Host programs

A host program brings native functions of its own and behaviors for its classes. What
these do with a world is data: a `Program` is a tree of requests. It may read the world,
perform operations, have expressions evaluated, functions called and objects copied, and
each request comes back with a result or an error, from which the program goes on.

A behavior of the host says what becomes of the instances of its classes. Where it says
nothing, they behave like other objects.
-/

import ObjectSystem.Operation

namespace ObjectSystem

/-- What a function of the host does. -/
inductive Program where
  | done (result : Except Error Handle)
  /-- The program reads what it wants to know off the world. -/
  | look (next : World → Program)
  | perform {α : Type} (op : Operation α) (next : Except Error α → Program)
  | eval (x env : Handle) (next : Except Error Handle → Program)
  | call (function args env : Handle) (next : Except Error Handle → Program)
  | copy (x : Handle) (next : Except Error Handle → Program)
  /-- The program has the assignment of the library applied to a list of operands. -/
  | assign (args env : Handle) (next : Except Error Handle → Program)

/-- What evaluates, calls and copies for a program. -/
structure Evaluator where
  eval : (x env : Handle) → Action Handle
  call : (function args env : Handle) → Action Handle
  copy : (x : Handle) → Action Handle

namespace Action

/-- Run an action and return its outcome, unless the outcome is never reached. -/
def attempt {α : Type} (action : Action α) : Action (Except Error α) := do
  match ← outcome action with
  | .ok a => return .ok a
  | .error e => if e.isEndless then throw e else return .error e

/-- Bind the symbol that is the first operand to the value of the second. -/
def assignOperands (inner : Evaluator) (args env : Handle) : Action Handle := do
  match ← query (·.items args) with
  | [target, x] =>
      let name ← query (·.symbolOf target)
      let value ← inner.eval x env
      let _ ← assign env name value
      return value
  | operands => throw (.assignmentArity operands.length)

end Action

namespace Program

open Action

/-- Run a program. -/
def run (inner : Evaluator) : Program → Action Handle
  | done result => query fun _ => result
  | look next => get >>= fun w => run inner (next w)
  | perform op next => attempt op.action >>= fun result => run inner (next result)
  | eval x env next => attempt (inner.eval x env) >>= fun result => run inner (next result)
  | call function args env next =>
      attempt (inner.call function args env) >>= fun result => run inner (next result)
  | copy x next => attempt (inner.copy x) >>= fun result => run inner (next result)
  | assign args env next =>
      attempt (assignOperands inner args env) >>= fun result => run inner (next result)

/-- A part of a program, which passes a value on to the rest. -/
def Phrase (α : Type) : Type 1 := (α → Program) → Program

instance : Monad Phrase where
  pure a := fun rest => rest a
  bind phrase f := fun rest => phrase fun a => f a rest

namespace Phrase

variable {α : Type}

/-- Give up. -/
def fail (e : Error) : Phrase α := fun _ => .done (.error e)

/-- Go on with the result of a request, or give up with its error. -/
def ofResult (request : (Except Error α → Program) → Program) : Phrase α := fun rest =>
  request fun
    | .ok a => rest a
    | .error e => .done (.error e)

def perform (op : Operation α) : Phrase α := ofResult (.perform op)

def eval (x env : Handle) : Phrase Handle := ofResult (.eval x env)

def call (function args env : Handle) : Phrase Handle := ofResult (.call function args env)

/-- A phrase that ends a program with a result. -/
def program (phrase : Phrase Handle) : Program := phrase fun x => .done (.ok x)

end Phrase

end Program

/-- What a host program brings along. -/
structure Host where
  /-- What its native functions do with a list of arguments in an environment. -/
  native : (name : String) → (args env : Handle) → Program
  /-- How its behaviors copy an object. -/
  copyAs : (behavior : String) → (x : Handle) → Program :=
    fun _ x => .perform (.shallowCopy x) .done
  /-- How its behaviors evaluate an object in an environment. -/
  evalAs : (behavior : String) → (x env : Handle) → Program :=
    fun _ x _ => .done (.ok x)
  /-- How its behaviors call an object. -/
  callAs : (behavior : String) → (function args env : Handle) → Program :=
    fun _ function _ _ => .look fun w => .done (.error (w.notCallable function))
  /-- What its behaviors show as the payload of an object. -/
  payloadAs : (behavior : String) → (x : Handle) → World → Except Error Payload :=
    fun _ x w => Object.payload <$> w.object x
  /-- What its behaviors show as the length of an object. -/
  lengthAs : (behavior : String) → (x : Handle) → World → Except Error Nat :=
    fun _ x w => Object.length <$> w.object x

/-- A host program that brings nothing along. -/
def Host.bare : Host where
  native name _ _ := .done (.error (.reported s!"no native function {name}"))

end ObjectSystem

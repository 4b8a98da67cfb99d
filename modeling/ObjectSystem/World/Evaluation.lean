/-
# Evaluation

The value of an expression in an environment, and the result of applying a
callable to a list of argument expressions. Both go by the behavior of the
class of the object at hand: symbols are looked up, calls are applied, and
everything else is its own value; whether the arguments of a call are evaluated
is up to the callable. Native functions and behaviors of the host program do
what their programs say.

Each definition is given the evaluator for what is inside, and `Host.evaluator`
closes the circle: it evaluates, calls and copies what is nested no deeper than
a given depth.
-/

import ObjectSystem.Host

namespace ObjectSystem

open World Action

/-- The values of argument expressions, from left to right. -/
def Evaluator.evalArgs (inner : Evaluator) (args env : Handle) : Action (List Handle) := do
  (← query (·.items args)).mapM fun arg => inner.eval arg env

namespace Host

variable (host : Host)

section Inside

variable (inner : Evaluator)

/-- Run a native function. -/
def runNative (function : Native) (args env : Handle) : Action Handle :=
  match function with
  | .assign => assignOperands inner args env
  | .host name => (host.native name args env).run inner

/-- Run the method of a name on argument values. A method that is no native
function is the result itself. -/
def runMethod (name : String) (values : List Handle) (env : Handle) : Action Handle := do
  let method ← requireMethod name values
  match (← query (·.object method)).payload with
  | .native function => host.runNative inner function (← newList values) env
  | _ => return method

/-- Apply a callable to argument expressions. -/
def callBy (function args env : Handle) : Action Handle := do
  match ← query (·.behaviorOf function) with
  | .builtin =>
      let native ← query (·.nativeOf function)
      let values ← inner.evalArgs args env
      host.runNative inner native (← newList values) env
  | .special => host.runNative inner (← query (·.nativeOf function)) args env
  | .generic =>
      let name := (← get).symbols.display (← query (·.symbolOf function))
      let values ← inner.evalArgs args env
      host.runMethod inner name values env
  | .method => return function
  | .custom name => (host.callAs name function args env).run inner
  | _ => throw ((← get).notCallable function)

/-- Evaluate a call: its head gives the callable, the rest the arguments. -/
def evalCallBy (x env : Handle) : Action Handle := do
  let head := (← query (·.getAttr x Symbol.head)).getD Builtin.null
  let function ← inner.eval head env
  let args := (← query (·.getAttr x Symbol.next)).getD Builtin.null
  host.callBy inner function args env

/-- Evaluate an expression. -/
def evalBy (x env : Handle) : Action Handle := do
  match ← query (·.behaviorOf x) with
  | .symbol =>
      let name ← query (·.symbolOf x)
      match ← query (·.lookup env name) with
      | some value => return value
      | none => throw (.undefined ((← get).symbols.display name))
  | .language => host.evalCallBy inner x env
  | .custom name => (host.evalAs name x env).run inner
  | _ => return x

/-- A copy of an object, or the object itself if there is to be only one. -/
def copyBy (x : Handle) : Action Handle := do
  match ← query (·.behaviorOf x) with
  | .noCopy | .symbol => return x
  | .custom name => (host.copyAs name x).run inner
  | _ => shallowCopy x

end Inside

/-- Evaluate, call and copy what is nested no deeper than `depth`. -/
def evaluator : (depth : Nat) → Evaluator
  | 0 =>
      { eval := fun _ _ => throw .evaluationTooDeep
        call := fun _ _ _ => throw .evaluationTooDeep
        copy := fun _ => throw .evaluationTooDeep }
  | depth + 1 =>
      { eval := fun x env => host.evalBy (evaluator depth) x env
        call := fun function args env => host.callBy (evaluator depth) function args env
        copy := fun x => host.copyBy (evaluator depth) x }

/-- How deep expressions may be nested. -/
def depthLimit : Nat := 100000

/-- The value of an expression in an environment. -/
def eval (x env : Handle) : Action Handle :=
  (host.evaluator depthLimit).eval x env

/-- The result of applying a callable to a list of argument expressions. -/
def call (function args env : Handle) : Action Handle :=
  (host.evaluator depthLimit).call function args env

def copy (x : Handle) : Action Handle :=
  (host.evaluator depthLimit).copy x

/-- The values of a list of argument expressions. -/
def evalArgs (args env : Handle) : Action (List Handle) :=
  (host.evaluator depthLimit).evalArgs args env

/-- Evaluate an expression in a scope of its own. -/
def evalInScope (x env : Handle) : Action Handle :=
  scope (host.eval x env)

end Host

end ObjectSystem

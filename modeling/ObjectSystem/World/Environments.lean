/-
# Environments

An environment is an object with a frame of bindings and, as an attribute, the
environment around it. Names are looked up from the inside out. A frame that is
full takes no further names: the assignment leaves a warning and does nothing.
-/

import ObjectSystem.World.Allocation
import ObjectSystem.World.Attributes

namespace ObjectSystem

namespace World

/-- The bindings of an environment. -/
def frame (w : World) (env : Handle) : Except Error Frame := do
  match (← w.object env).payload with
  | .environment f => return f
  | _ => throw (w.mismatch "environment" env)

/-- The value bound to a name in an environment itself. -/
def lookupLocal (w : World) (env : Handle) (name : Symbol) : Except Error (Option Handle) := do
  return (← w.frame env).get? name

/-- Look a name up in an environment and the ones around it. -/
def lookupWithin (w : World) (name : Symbol) :
    (fuel : Nat) → Handle → Except Error (Option Handle)
  | 0, _ => .error .endlessWalk
  | fuel + 1, env => do
      match ← w.lookupLocal env name with
      | some x => return some x
      | none =>
          match ← w.getAttr env Symbol.parent with
          | some outer => lookupWithin w name fuel outer
          | none => return none

/-- The value of a name as seen from an environment. -/
def lookup (w : World) (env : Handle) (name : Symbol) : Except Error (Option Handle) :=
  w.lookupWithin name w.walkLimit env

/-- Change the bindings of an environment. -/
def modifyFrame (w : World) (env : Handle) (change : Frame → Frame) : World :=
  w.modifyPayload env fun
    | .environment f => .environment (change f)
    | other => other

end World

namespace Action

/-- An environment without bindings, inside another if one is given. -/
def newEnvironment (parent : Option Handle) : Action Handle := do
  let capacity := (← get).settings.environmentCapacity
  let env ← allocateOf Builtin.environmentClass (.environment { capacity := capacity }) 0
  if let some outer := parent then setAttr env Symbol.parent (some outer)
  return env

/-- The index of a name in an environment. A new name is added if there is room. -/
def bindingIndex (env : Handle) (name : Symbol) : Action (Option Nat) := do
  let f ← query (·.frame env)
  match f.find? name with
  | some index => return some index
  | none =>
      if f.isFull then return none
      modify (·.modifyFrame env (·.addName name))
      return some f.size

/-- Bind a name to a value. Returns whether there was room for it. -/
def assign (env : Handle) (name : Symbol) (value : Handle) : Action Bool := do
  let _ ← query (·.object value)
  match ← bindingIndex env name with
  | some index =>
      set (.binding env index) (some value)
      return true
  | none =>
      let capacity := (← query (·.frame env)).capacity
      modify fun w =>
        let name := w.symbols.display name
        w.warn s!"environment {env.label} is full ({capacity} bindings), '{name}' not assigned"
      return false

end Action

end ObjectSystem

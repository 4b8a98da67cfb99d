/-
# Scopes

Objects made inside a scope are freed when it is closed, unless a slot has taken
them over in the meantime. The result of a scope is handed to the scope around
it. A scope is closed whether what ran in it succeeded or not, and so are the
scopes that were opened in it and left open.
-/

import ObjectSystem.World.Barrier

namespace ObjectSystem.Action

open World

/-- Open a scope. -/
def openScope : Action PoolId :=
  modifyGet fun w =>
    let (id, pools) := w.pools.push
    (id, { w with pools := pools })

/-- Close a scope and every scope inside it, and free the objects that they
answer for. Returns how many objects were freed. -/
def releasePool (id : PoolId) : Action Nat := do
  let (closed, pools) ← query (·.pools.pop id)
  modifyGet fun w =>
    let before := w.objects.removed
    let w := { w with pools := pools }
    let w := if 1 < closed.length then
        w.warn s!"{id.text} released with {closed.length - 1} open inner scope(s)"
      else w
    let w := closed.foldl (fun w pool => pool.toList.foldl World.free w) w
    (w.objects.removed - before, w)

/-- Hand the result of a scope that is about to be closed to the scope around
it, or to the collector. -/
def handOver (x : Handle) (id : PoolId) : Action Unit := do
  let outer := (← get).pools.enclosing id
  removeFromPool x id
  addToPool x outer
  if outer.isCollector then
    modify fun w => { w with promotions := w.promotions + 1 }

/-- Save the result of a scope that is about to be closed: if the scope answers
for it, it is handed over; if one slot does, which the scope may take with it,
it becomes shared. -/
def saveResult (id : PoolId) (result : Except Error Handle) : Action Unit := do
  match result with
  | .error _ => return
  | .ok x =>
      match (← get).ownership x with
      | .ok (.pool owner) => if owner = id then handOver x id
      | .ok .single => share x
      | _ => return

/-- Close a scope and return its result. Of several errors, one in saving the
result comes first, then one in closing, then the result itself. -/
def closeScope (id : PoolId) (result : Except Error Handle) : Action Handle := do
  let saved ← outcome (saveResult id result)
  let released ← outcome (releasePool id)
  let _ ← query fun _ => saved
  let _ ← query fun _ => released
  query fun _ => result

/-- Run an action in a scope of its own. -/
def scope (body : Action Handle) : Action Handle := do
  let id ← openScope
  closeScope id (← outcome body)

end ObjectSystem.Action

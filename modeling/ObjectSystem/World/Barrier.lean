/-
# The write barrier

References are put into slots only by `Action.set`. It keeps the ownership of
every object in step with the number of slots that hold it: the first slot
takes an object over from its scope, the second makes it shared for good. When
a slot lets go of an object that it alone answered for, the object is freed.
-/

import ObjectSystem.World.Reclaiming
import ObjectSystem.World.Slot

namespace ObjectSystem.Action

open World

/-- Put an object into a pool, which answers for it from then on. -/
def addToPool (x : Handle) (id : PoolId) : Action Unit := do
  if ((← get).pools.get? id).isNone then throw (.unknownPool id)
  modify fun w => { w with pools := w.pools.modify id (·.insert x) }
  let _ ← query (·.object x)
  modify (·.setOwnership x (.ofPool id))

/-- Take an object out of a pool. Its ownership stays to be settled. -/
def removeFromPool (x : Handle) (id : PoolId) : Action Unit := do
  match (← get).pools.get? id with
  | none => throw (.unknownPool id)
  | some pool =>
      match pool.erase? x with
      | none => throw (.poolCorruption x id)
      | some pool => modify fun w => { w with pools := w.pools.modify id fun _ => pool }

/-- Hand an object to the collector for good. -/
def promote (x : Handle) : Action Unit := do
  addToPool x PoolId.collector
  modify fun w => { w with promotions := w.promotions + 1 }

/-- Note that one more slot is about to hold an object. -/
def claim (x : Handle) : Action Unit := do
  match ← query (·.ownership x) with
  | .pool id =>
      removeFromPool x id
      modify (·.setOwnership x .single)
  | .single => promote x
  | .shared => return

/-- Make an object shared, however many slots hold it. -/
def share (x : Handle) : Action Unit := do
  match ← query (·.ownership x) with
  | .pool id =>
      removeFromPool x id
      promote x
  | .single => promote x
  | .shared => return

/-- Free an object that a slot has let go of, if the slot alone answered for it. -/
def letGo (x : Handle) : Action Unit := do
  if (← query (·.ownership x)) = .single then modify (·.free x)

/-- Exchange the contents of a slot. -/
def exchange (s : Slot) (old value : Option Handle) : Action Unit := do
  value.forM claim
  modify (·.store s value)
  old.forM letGo

/-- Put a reference, or none, into a slot. The slot that shows the class of an
object cannot be written. Writing what is there already does nothing. -/
def set (s : Slot) (value : Option Handle) : Action Unit := do
  if let .attr _ 0 := s then throw .classAttributeAssignment
  let old ← query (·.read s)
  if old ≠ value then exchange s old value

end ObjectSystem.Action

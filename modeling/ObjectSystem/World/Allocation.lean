/-
# Allocation

A new object goes into the pool of the innermost scope, or to the collector if
no scope is open. When the world is full a collection is run first. Classes and
the objects of symbols are pinned as soon as they exist.
-/

import ObjectSystem.World.Barrier
import ObjectSystem.World.Collection

namespace ObjectSystem

namespace World

def isFull (w : World) : Bool :=
  w.settings.objectLimit ≤ w.population

/-- Put an object into the arena and into the innermost pool. -/
def admitObject (w : World) (o : Object) : Handle × World :=
  let id := w.pools.current
  let (x, objects) := w.objects.insert (o.setOwnership (.ofPool id))
  (x, { w with objects := objects, pools := w.pools.modify id (·.insert x) })

end World

namespace Action

/-- Put a new object into the world. -/
def allocate (o : Object) : Action Handle := do
  if (← get).isFull then
    let _ ← collect []
    if (← get).isFull then throw (.outOfMemory (← get).settings.objectLimit)
  modifyGet (·.admitObject o)

/-- Keep an object for good. -/
def pin (x : Handle) : Action Unit := do
  if let some id := (← query (·.ownership x)).pool? then removeFromPool x id
  modify fun w =>
    let w := if w.pools.collector.contains x then w
      else { w with pools := w.pools.modify PoolId.collector (·.insert x) }
    w.modifyObject x fun o => { o with header := .permanent }

/-- Put a new object into the world for good. -/
def allocatePinned (o : Object) : Action Handle := do
  let x ← modifyGet fun w =>
    let (x, objects) := w.objects.insert o
    (x, { w with objects := objects })
  pin x
  return x

/-- A new object of a class, with room for the attributes of its instances. -/
def allocateOf (c : Handle) (payload : Payload) (length : Nat) : Action Handle := do
  let d ← query (·.descriptor c)
  allocate (.new c d.attrCount payload length .shared)

end Action

end ObjectSystem

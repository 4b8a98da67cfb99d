/-
# Collection

A collection frees every object that cannot be reached from the pinned objects,
the built-in ones, the roots that users have asked for, the objects in open
scopes and the further roots of this one collection. What is freed leaves the
collector's pool as well; the pools of scopes hold roots only and lose nothing.
-/

import ObjectSystem.World.Marking

namespace ObjectSystem.World

def isPinned (w : World) (x : Handle) : Bool :=
  match w.objects.get? x with
  | some o => o.header.pinned
  | none => false

/-- Where a collection starts from. -/
def collectionRoots (w : World) (extra : List Handle) : List Handle :=
  w.objects.handles.filter w.isPinned ++ Builtin.roots ++ w.roots ++
    w.pools.scopeObjects ++ extra

/-- Remove an object without a mark. The objects that stay lose their mark. -/
def sweep (objects : Arena Object) (x : Handle) : Arena Object :=
  match objects.get? x with
  | none => objects
  | some o =>
      if o.header.marked || o.header.pinned then objects.modify x Object.unmark
      else objects.remove x

/-- Run a collection with further roots. Returns how many objects it freed. -/
def collect (w : World) (extra : List Handle) : Nat × World :=
  let marked := mark w.objects (w.collectionRoots extra)
  let objects := marked.handles.foldl sweep marked
  (objects.removed - w.objects.removed,
    { w with
      objects := objects
      pools := w.pools.modify PoolId.collector (Pool.filter objects.contains)
      collections := w.collections + 1 })

end ObjectSystem.World

namespace ObjectSystem.Action

/-- Run a collection with further roots and return how many objects it freed. -/
def collect (extra : List Handle) : Action Nat :=
  modifyGet (·.collect extra)

end ObjectSystem.Action

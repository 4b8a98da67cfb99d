/-
# Reclaiming objects

When an object is freed, the objects that it alone held have lost their only
holder and are freed with it, and so on. Pinned objects are never freed.

`World.reclaim` keeps a list of objects still to be freed; each step either
takes an object out of the arena or shortens the list.
-/

import ObjectSystem.World

namespace ObjectSystem.World

/-- Whether a single slot answers for an object. -/
def isSingle (objects : Arena Object) (x : Handle) : Bool :=
  match objects.get? x with
  | some o => o.header.ownership == .single
  | none => false

/-- Free the objects on a list and everything that they alone hold. -/
def reclaim (objects : Arena Object) : (pending : List Handle) → Arena Object
  | [] => objects
  | x :: pending =>
      match _ : objects.get? x with
      | none => reclaim objects pending
      | some o =>
          if o.header.pinned then reclaim objects pending
          else
            let objects' := objects.remove x
            reclaim objects' ((o.ownedRefs.filter (isSingle objects')).reverse ++ pending)
  termination_by pending => (objects.occupied, pending.length)
  decreasing_by
    · exact Prod.Lex.right _ (by simp)
    · exact Prod.Lex.right _ (by simp)
    · exact Prod.Lex.left _ _ (Arena.occupied_remove_lt ‹_›)

/-- Free an object and everything that it alone holds. -/
def free (w : World) (x : Handle) : World :=
  { w with objects := reclaim w.objects [x] }

end ObjectSystem.World

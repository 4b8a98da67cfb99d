/-
# Marking

Which objects can be reached from given handles by following references? The
search marks the objects that it meets and keeps a list of handles still to
visit. A visit either marks an object or shortens the list, so the search ends;
stale handles on the list lead nowhere.
-/

import ObjectSystem.World

namespace ObjectSystem.World

/-- The number of objects without a mark. -/
def unmarked (objects : Arena Object) : Nat :=
  objects.cells.countP fun cell => cell.content.any (!·.header.marked)

theorem unmarked_modify_mark_lt {objects : Arena Object} {x : Handle} {o : Object}
    (ho : objects.get? x = some o) (hmark : ¬ o.header.marked = true) :
    unmarked (objects.modify x Object.mark) < unmarked objects := by
  obtain ⟨cell, hcell, hgeneration, hcontent⟩ := Arena.exists_cell_of_get? ho
  refine Arena.countP_modify_lt hcell ?_ ?_
  · simpa [hcontent] using hmark
  · simp [hgeneration, hcontent, Object.mark, Header.mark]

/-- Mark the objects on a list, and all that can be reached from them without
passing an object that has its mark already. -/
def mark (objects : Arena Object) : (pending : List Handle) → Arena Object
  | [] => objects
  | x :: pending =>
      match _ : objects.get? x with
      | none => mark objects pending
      | some o =>
          if _ : o.header.marked then mark objects pending
          else mark (objects.modify x Object.mark) (o.refs ++ pending)
  termination_by pending => (unmarked objects, pending.length)
  decreasing_by
    · exact Prod.Lex.right _ (by simp)
    · exact Prod.Lex.right _ (by simp)
    · exact Prod.Lex.left _ _ (unmarked_modify_mark_lt ‹_› ‹_›)

end ObjectSystem.World

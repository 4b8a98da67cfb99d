/-
# Arenas

An arena keeps values in numbered cells and hands out handles to them. A cell
that is emptied raises its generation and is used again, the last one emptied
first. Reading through a handle compares generations, so a handle to a removed
value reads nothing.

`Arena.occupied` counts the filled cells. It is what every walk that empties
cells goes down on.
-/

import ObjectSystem.Handle

namespace ObjectSystem

universe u

/-- One cell of an arena. -/
structure Arena.Cell (α : Type u) where
  generation : UInt32 := 0
  content : Option α := none

/-- Values in numbered cells. -/
structure Arena (α : Type u) where
  cells : Array (Arena.Cell α) := #[]
  /-- The emptied cells, the last one emptied in front. -/
  vacated : List UInt32 := []
  /-- How many values were ever put in. -/
  inserted : Nat := 0
  /-- How many values were ever taken out. -/
  removed : Nat := 0

namespace Arena

variable {α : Type u}

/-- The number of values in the arena. -/
def size (a : Arena α) : Nat :=
  a.inserted - a.removed

def isEmpty (a : Arena α) : Bool :=
  a.size == 0

/-- The value under a handle, unless the handle is stale. -/
def get? (a : Arena α) (h : Handle) : Option α := do
  let cell ← a.cells[h.index.toNat]?
  if cell.generation = h.generation then cell.content else none

def contains (a : Arena α) (h : Handle) : Bool :=
  (a.get? h).isSome

/-- The handle of the value in a cell, if there is one. -/
def handleAt? (a : Arena α) (index : Nat) : Option Handle :=
  a.cells[index]?.bind fun cell =>
    cell.content.map fun _ => ⟨UInt32.ofNat index, cell.generation⟩

/-- The handles of all values, by cell number. -/
def handles (a : Arena α) : List Handle :=
  (List.range a.cells.size).filterMap a.handleAt?

/-- Put in a value that may refer to its own handle. The last emptied cell is
filled first; a new cell is added when none is empty. -/
def insertWith (a : Arena α) (value : Handle → α) : Handle × Arena α :=
  let (index, cells, vacated) := match a.vacated with
    | index :: rest => (index, a.cells, rest)
    | [] => (UInt32.ofNat a.cells.size, a.cells.push {}, [])
  let generation := (cells[index.toNat]?.map Cell.generation).getD 0
  let handle : Handle := ⟨index, generation⟩
  (handle,
    { cells := cells.modify index.toNat fun cell =>
        { cell with content := some (value handle) }
      vacated := vacated
      inserted := a.inserted + 1
      removed := a.removed })

def insert (a : Arena α) (value : α) : Handle × Arena α :=
  a.insertWith fun _ => value

/-- Change the value under a handle; a stale handle changes nothing. -/
def modify (a : Arena α) (h : Handle) (change : α → α) : Arena α :=
  { a with
    cells := a.cells.modify h.index.toNat fun cell =>
      if cell.generation = h.generation then
        { cell with content := cell.content.map change }
      else cell }

/-- Take out the value under a handle; a stale handle changes nothing. -/
def remove (a : Arena α) (h : Handle) : Arena α :=
  if a.contains h then
    { cells := a.cells.modify h.index.toNat fun cell =>
        { generation := cell.generation + 1, content := none }
      vacated := h.index :: a.vacated
      inserted := a.inserted
      removed := a.removed + 1 }
  else a

/-- Take out the value under a handle and give it back. -/
def take (a : Arena α) (h : Handle) : Option α × Arena α :=
  (a.get? h, a.remove h)

/-- The number of filled cells. -/
def occupied (a : Arena α) : Nat :=
  a.cells.countP fun cell => cell.content.isSome

theorem exists_cell_of_get? {a : Arena α} {h : Handle} {x : α}
    (hx : a.get? h = some x) :
    ∃ cell, a.cells[h.index.toNat]? = some cell ∧
      cell.generation = h.generation ∧ cell.content = some x := by
  unfold get? at hx
  cases hcell : a.cells[h.index.toNat]? with
  | none => simp [hcell] at hx
  | some cell =>
      simp only [hcell, Option.bind_eq_bind, Option.bind_some] at hx
      split at hx
      · exact ⟨cell, rfl, ‹_›, hx⟩
      · simp at hx

theorem lt_size_of_get? {a : Arena α} {h : Handle} {x : α}
    (hx : a.get? h = some x) : h.index.toNat < a.cells.size := by
  obtain ⟨cell, hcell, _⟩ := exists_cell_of_get? hx
  exact (Array.getElem?_eq_some_iff.1 hcell).1

/-- A change after which one cell no longer passes a test lowers the number of cells
that pass it. -/
theorem countP_modify_lt {cells : Array (Cell α)} {test : Cell α → Bool}
    {change : Cell α → Cell α} {i : Nat} {cell : Cell α} (hcell : cells[i]? = some cell)
    (hbefore : test cell = true) (hafter : test (change cell) = false) :
    (cells.modify i change).countP test < cells.countP test := by
  obtain ⟨hlt, hget⟩ := Array.getElem?_eq_some_iff.1 hcell
  have hmodify : cells.modify i change = cells.set i (change cell) hlt := by
    apply Array.ext_getElem?
    intro j
    rw [Array.getElem?_modify, Array.getElem?_set]
    split
    · next heq => subst heq; simp [hcell]
    · rfl
  have hpos : 0 < cells.countP test :=
    Array.countP_pos_iff.2 ⟨cell, hget ▸ Array.getElem_mem hlt, hbefore⟩
  simp only [hmodify, Array.countP_set, hget, hbefore, hafter, if_true, Bool.false_eq_true,
    if_false]
  omega

/-- Taking out a value empties a cell. -/
theorem occupied_remove_lt {a : Arena α} {h : Handle} {x : α}
    (hx : a.get? h = some x) : (a.remove h).occupied < a.occupied := by
  obtain ⟨cell, hcell, _, hcontent⟩ := exists_cell_of_get? hx
  have hlive : a.contains h = true := by simp [contains, hx]
  simp only [occupied, remove, hlive, if_true]
  exact countP_modify_lt hcell (by simp [hcontent]) rfl

end Arena

end ObjectSystem

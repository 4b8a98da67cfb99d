/-
# Laws of arenas

An arena is a partial function from handles to values. Changing and removing a
value act on this function at one handle alone, whatever the arena. Putting in a
value does so as long as the emptied cells are listed correctly and the number
of cells fits the handles: then the handle given out named nothing before. As long as
that is so, the values that were put in and not taken out are as many as the filled cells.
-/

import Mathlib.Algebra.Group.Nat.Defs
import Mathlib.Data.List.Nodup
import Mathlib.Data.List.Perm.Subperm
import ObjectSystem.World.Hierarchy

namespace ObjectSystem.Arena

universe u

variable {α : Type u} {a : Arena α} {h x : Handle}

theorem get?_def (a : Arena α) (h : Handle) :
    a.get? h = a.cells[h.index.toNat]?.bind fun cell =>
      if cell.generation = h.generation then cell.content else none := rfl

theorem contains_iff : a.contains h = true ↔ ∃ v, a.get? h = some v :=
  Option.isSome_iff_exists

theorem contains_eq_false_iff : a.contains h = false ↔ a.get? h = none := by
  rw [← Bool.not_eq_true, contains_iff]
  cases a.get? h <;> simp

theorem toNat_index_ne (hindex : h.index ≠ x.index) : h.index.toNat ≠ x.index.toNat :=
  fun heq => hindex (UInt32.toNat_inj.1 heq)

/-- Changing the value under one handle is seen through that handle alone. -/
theorem get?_modify (a : Arena α) (h : Handle) (change : α → α) (x : Handle) :
    (a.modify h change).get? x =
      if x = h then (a.get? x).map change else a.get? x := by
  simp only [get?_def, modify, Array.getElem?_modify]
  by_cases hindex : h.index = x.index
  · rw [if_pos (by rw [hindex])]
    cases hcell : a.cells[x.index.toNat]? with
    | none => simp
    | some cell =>
        by_cases hgeneration : cell.generation = h.generation
        · by_cases hx : x = h
          · simp [hx, hgeneration]
          · have hstale : ¬ h.generation = x.generation := fun heq =>
              hx (by cases x; cases h; simp_all)
            simp [hx, hgeneration, hstale]
        · have hx : cell.generation = x.generation → x ≠ h := by
            rintro heq rfl
            exact hgeneration heq
          by_cases hown : cell.generation = x.generation
          · simp [hgeneration, hx hown]
          · simp [hgeneration, hown]
  · have hx : x ≠ h := by
      rintro rfl
      exact hindex rfl
    rw [if_neg (toNat_index_ne hindex), if_neg hx]

/-- A change that leaves a value as it is leaves the arena as it is. -/
theorem modify_eq_self {v : α} {change : α → α} (hv : a.get? h = some v) (hchange : change v = v) :
    a.modify h change = a := by
  obtain ⟨cell, hcell, hgeneration, hcontent⟩ := exists_cell_of_get? hv
  have hcells : (a.modify h change).cells = a.cells := by
    apply Array.ext_getElem?
    intro i
    rw [modify, Array.getElem?_modify]
    split
    · next heq =>
        cases cell
        simp_all
    · rfl
  calc a.modify h change = { a with cells := (a.modify h change).cells } := rfl
    _ = a := by rw [hcells]

/-- Removing a value empties its cell and raises the generation of the cell. -/
theorem getElem?_remove {v : α} (hv : a.get? h = some v) (i : Nat) :
    (a.remove h).cells[i]? =
      if i = h.index.toNat then some { generation := h.generation + 1 } else a.cells[i]? := by
  obtain ⟨cell, hcell, hgeneration, _⟩ := exists_cell_of_get? hv
  rw [remove, if_pos (contains_iff.2 ⟨v, hv⟩), Array.getElem?_modify]
  by_cases hindex : i = h.index.toNat
  · subst hindex
    simp [hcell, hgeneration]
  · rw [if_neg fun heq => hindex heq.symm, if_neg hindex]

theorem vacated_remove {v : α} (hv : a.get? h = some v) :
    (a.remove h).vacated = h.index :: a.vacated := by
  rw [remove, if_pos (contains_iff.2 ⟨v, hv⟩)]

theorem remove_of_stale (hstale : a.get? h = none) : a.remove h = a := by
  rw [remove, if_neg (by simp [contains, hstale])]

/-- Removing the value under one handle is seen through that handle alone. -/
theorem get?_remove (a : Arena α) (h x : Handle) :
    (a.remove h).get? x = if x = h then none else a.get? x := by
  cases hvalue : a.get? h with
  | none =>
      rw [remove_of_stale hvalue]
      split
      · next heq => rw [heq, hvalue]
      · rfl
  | some value =>
      obtain ⟨cell, hcell, hgeneration, _⟩ := exists_cell_of_get? hvalue
      rw [get?_def, getElem?_remove hvalue]
      by_cases hindex : x.index = h.index
      · rw [if_pos (by rw [hindex])]
        by_cases hx : x = h
        · simp [hx]
        · have hstale : cell.generation ≠ x.generation := fun heq =>
            hx (Handle.ext hindex (heq.symm.trans hgeneration))
          rw [if_neg hx, get?_def, hindex, hcell]
          simp [hstale]
      · have hx : x ≠ h := fun heq => hindex (by rw [heq])
        rw [if_neg (toNat_index_ne hindex), if_neg hx, get?_def]

theorem get?_of_get?_remove {v : α} (hx : (a.remove h).get? x = some v) :
    a.get? x = some v := by
  rw [get?_remove] at hx
  split at hx
  · cases hx
  · exact hx

@[simp]
theorem size_cells_modify (a : Arena α) (h : Handle) (change : α → α) :
    (a.modify h change).cells.size = a.cells.size := by
  simp [modify]

@[simp]
theorem size_cells_remove (a : Arena α) (h : Handle) :
    (a.remove h).cells.size = a.cells.size := by
  unfold remove
  split <;> simp

/-- Each cell on the list of emptied cells is empty, and it is listed once. -/
structure Tight (a : Arena α) : Prop where
  nodup : a.vacated.Nodup
  vacant : ∀ i ∈ a.vacated, ∃ cell, a.cells[i.toNat]? = some cell ∧ cell.content = none

theorem tight_empty : Tight ({} : Arena α) where
  nodup := List.nodup_nil
  vacant := by simp

theorem Tight.modify (htight : a.Tight) (h : Handle) (change : α → α) :
    (a.modify h change).Tight where
  nodup := htight.nodup
  vacant i hi := by
    obtain ⟨cell, hcell, hcontent⟩ := htight.vacant i hi
    simp only [Arena.modify, Array.getElem?_modify]
    split
    · rw [hcell]
      refine ⟨_, rfl, ?_⟩
      by_cases hgeneration : cell.generation = h.generation <;> simp [hgeneration, hcontent]
    · exact ⟨cell, hcell, hcontent⟩

theorem Tight.remove (htight : a.Tight) (h : Handle) : (a.remove h).Tight := by
  by_cases hlive : a.contains h = true
  · obtain ⟨value, hvalue⟩ := contains_iff.1 hlive
    obtain ⟨filled, hfilled, _, hcontent⟩ := exists_cell_of_get? hvalue
    have hnew : h.index ∉ a.vacated := by
      intro hmem
      obtain ⟨cell, hcell, hnone⟩ := htight.vacant _ hmem
      rw [hfilled, Option.some.injEq] at hcell
      subst hcell
      simp [hcontent] at hnone
    rw [Arena.remove, if_pos hlive]
    refine ⟨List.nodup_cons.2 ⟨hnew, htight.nodup⟩, fun i hi => ?_⟩
    simp only [Array.getElem?_modify]
    by_cases hindex : h.index.toNat = i.toNat
    · rw [if_pos hindex, ← hindex, hfilled]
      exact ⟨_, rfl, rfl⟩
    · rw [if_neg hindex]
      rcases List.mem_cons.1 hi with heq | hmem
      · exact absurd (by rw [heq]) hindex
      · exact htight.vacant i hmem
  · rw [Arena.remove, if_neg hlive]
    exact htight

theorem size_cells_le_insertWith (a : Arena α) (value : Handle → α) :
    a.cells.size ≤ (a.insertWith value).2.cells.size := by
  unfold insertWith
  cases a.vacated <;> simp

theorem inserted_remove (a : Arena α) (x : Handle) : (a.remove x).inserted = a.inserted := by
  unfold remove
  split <;> rfl

theorem removed_remove {a : Arena α} {v : α} (hv : a.get? x = some v) :
    (a.remove x).removed = a.removed + 1 := by
  rw [remove, if_pos (contains_iff.2 ⟨v, hv⟩)]

theorem inserted_insertWith (a : Arena α) (value : Handle → α) :
    (a.insertWith value).2.inserted = a.inserted + 1 := by
  unfold insertWith
  cases a.vacated <;> rfl

theorem removed_insertWith (a : Arena α) (value : Handle → α) :
    (a.insertWith value).2.removed = a.removed := by
  unfold insertWith
  cases a.vacated <;> rfl

/-- What putting in a value does, when the last emptied cell is filled. -/
theorem insertWith_of_vacated {i : UInt32} {rest : List UInt32} {cell : Cell α}
    (hvacated : a.vacated = i :: rest) (hcell : a.cells[i.toNat]? = some cell)
    (value : Handle → α) :
    a.insertWith value = (⟨i, cell.generation⟩,
      { cells := a.cells.modify i.toNat fun cell' =>
          { cell' with content := some (value ⟨i, cell.generation⟩) }
        vacated := rest
        inserted := a.inserted + 1
        removed := a.removed }) := by
  simp only [insertWith, hvacated, hcell, Option.map_some, Option.getD_some]

/-- What putting in a value does, when a cell is added. -/
theorem insertWith_of_full (hvacated : a.vacated = []) (hsize : a.cells.size < 2 ^ 32)
    (value : Handle → α) :
    a.insertWith value = (⟨UInt32.ofNat a.cells.size, 0⟩,
      { cells := (a.cells.push {}).modify a.cells.size fun cell =>
          { cell with content := some (value ⟨UInt32.ofNat a.cells.size, 0⟩) }
        vacated := []
        inserted := a.inserted + 1
        removed := a.removed }) := by
  have hindex : (UInt32.ofNat a.cells.size).toNat = a.cells.size :=
    UInt32.toNat_ofNat_of_lt' hsize
  simp [insertWith, hvacated, hindex]

/-- An emptied cell stays listed, unless it is the one that is filled. -/
theorem mem_vacated_insertWith {value : Handle → α} {i : UInt32}
    (hother : i ≠ (a.insertWith value).1.index) (hmem : i ∈ a.vacated) :
    i ∈ (a.insertWith value).2.vacated := by
  unfold insertWith at hother ⊢
  cases hvacated : a.vacated with
  | nil => simp [hvacated] at hmem
  | cons j rest => simp_all

/-- Putting in a value fills the cell that the handle for it names, and no other. -/
theorem getElem?_insertWith (htight : a.Tight) (value : Handle → α)
    (hfits : (a.insertWith value).2.cells.size ≤ 2 ^ 32) (i : Nat) :
    (a.insertWith value).2.cells[i]? =
      if i = (a.insertWith value).1.index.toNat then
        some { generation := (a.insertWith value).1.generation
               content := some (value (a.insertWith value).1) }
      else a.cells[i]? := by
  cases hvacated : a.vacated with
  | cons j rest =>
      obtain ⟨cell, hcell, _⟩ := htight.vacant j (by simp [hvacated])
      rw [insertWith_of_vacated hvacated hcell]
      simp only [Array.getElem?_modify]
      by_cases hindex : i = j.toNat
      · subst hindex
        simp [hcell]
      · rw [if_neg fun heq => hindex heq.symm, if_neg hindex]
  | nil =>
      have hsize : a.cells.size < 2 ^ 32 := by
        simp only [insertWith, hvacated, Array.size_modify, Array.size_push] at hfits
        omega
      have hindex : (UInt32.ofNat a.cells.size).toNat = a.cells.size :=
        UInt32.toNat_ofNat_of_lt' hsize
      rw [insertWith_of_full hvacated hsize]
      simp only [Array.getElem?_modify, Array.getElem?_push, hindex]
      by_cases hlast : i = a.cells.size
      · simp [hlast]
      · rw [if_neg fun heq => hlast heq.symm, if_neg hlast, if_neg hlast]

/-- The cell that a new value goes to was empty, and of the generation that the handle
carries; or it is a new one, and the handle of the first generation. -/
theorem cell_insertWith (htight : a.Tight) (value : Handle → α)
    (hfits : (a.insertWith value).2.cells.size ≤ 2 ^ 32) :
    a.cells[(a.insertWith value).1.index.toNat]? =
        some { generation := (a.insertWith value).1.generation } ∨
      a.cells.size = (a.insertWith value).1.index.toNat ∧
        (a.insertWith value).1.generation = 0 := by
  cases hvacated : a.vacated with
  | cons i rest =>
      obtain ⟨⟨generation, content⟩, hcell, hcontent⟩ := htight.vacant i (by simp [hvacated])
      rw [insertWith_of_vacated hvacated hcell]
      cases hcontent
      exact .inl hcell
  | nil =>
      have hsize : a.cells.size < 2 ^ 32 := by
        simp only [insertWith, hvacated, Array.size_modify, Array.size_push] at hfits
        omega
      rw [insertWith_of_full hvacated hsize]
      exact .inr ⟨(UInt32.toNat_ofNat_of_lt' hsize).symm, rfl⟩

/-- The handle given out for a new value named nothing before, and now names the
value; all other handles name what they named. -/
theorem get?_insertWith (htight : a.Tight) (value : Handle → α)
    (hfits : (a.insertWith value).2.cells.size ≤ 2 ^ 32) :
    a.get? (a.insertWith value).1 = none ∧
      ∀ x, (a.insertWith value).2.get? x =
        if x = (a.insertWith value).1 then some (value (a.insertWith value).1)
        else a.get? x := by
  have hcell := cell_insertWith htight value hfits
  have hnone : ∀ x : Handle, x.index = (a.insertWith value).1.index → a.get? x = none := by
    intro x hindex
    rw [get?_def, hindex]
    rcases hcell with hcell | ⟨hsize, _⟩
    · simp [hcell]
    · simp [← hsize]
  refine ⟨hnone _ rfl, fun x => ?_⟩
  rw [get?_def, getElem?_insertWith htight value hfits]
  by_cases hindex : x.index = (a.insertWith value).1.index
  · rw [if_pos (by rw [hindex]), hnone x hindex]
    by_cases hx : x = (a.insertWith value).1
    · simp [hx]
    · have hstale : (a.insertWith value).1.generation ≠ x.generation := fun heq =>
        hx (Handle.ext hindex heq.symm)
      simp [hx, hstale]
  · have hx : x ≠ (a.insertWith value).1 := fun heq => hindex (by rw [heq])
    rw [if_neg (toNat_index_ne hindex), if_neg hx, get?_def]

theorem Tight.insertWith (htight : a.Tight) (value : Handle → α) :
    (a.insertWith value).2.Tight := by
  cases hvacated : a.vacated with
  | cons i rest =>
      obtain ⟨cell, hcell, _⟩ := htight.vacant i (by simp [hvacated])
      have hnodup := htight.nodup
      rw [hvacated, List.nodup_cons] at hnodup
      rw [insertWith_of_vacated hvacated hcell]
      refine ⟨hnodup.2, fun j hj => ?_⟩
      obtain ⟨other, hother, hnone⟩ := htight.vacant j (by simp [hvacated, hj])
      have hne : ¬ i.toNat = j.toNat := by
        intro heq
        exact hnodup.1 (UInt32.toNat_inj.1 heq ▸ hj)
      exact ⟨other, by simp [Array.getElem?_modify, hne, hother], hnone⟩
  | nil =>
      constructor <;> simp [Arena.insertWith, hvacated]

/-! ## The list of handles -/

/-- The handles reach every filled cell. -/
def Addressed (a : Arena α) : Prop :=
  ∀ (i : Nat) (cell : Cell α), a.cells[i]? = some cell → cell.content.isSome = true → i < 2 ^ 32

theorem addressed_empty : Addressed ({} : Arena α) := by
  simp [Addressed]

theorem Addressed.modify (haddressed : a.Addressed) (h : Handle) (change : α → α) :
    (a.modify h change).Addressed := by
  intro i cell hcell hfilled
  simp only [Arena.modify, Array.getElem?_modify] at hcell
  split at hcell
  · obtain ⟨old, hold, rfl⟩ := Option.map_eq_some_iff.1 hcell
    refine haddressed i old hold ?_
    by_cases hgeneration : old.generation = h.generation <;>
      simpa [hgeneration] using hfilled
  · exact haddressed i cell hcell hfilled

theorem Addressed.remove (haddressed : a.Addressed) (h : Handle) :
    (a.remove h).Addressed := by
  unfold Arena.remove
  split
  · intro i cell hcell hfilled
    simp only [Array.getElem?_modify] at hcell
    split at hcell
    · obtain ⟨old, _, rfl⟩ := Option.map_eq_some_iff.1 hcell
      simp at hfilled
    · exact haddressed i cell hcell hfilled
  · exact haddressed

/-- A value goes into a cell that its handle reaches, however many cells there
are. -/
theorem Addressed.insertWith (haddressed : a.Addressed) (value : Handle → α) :
    (a.insertWith value).2.Addressed := by
  intro i cell hcell hfilled
  unfold Arena.insertWith at hcell
  cases hvacated : a.vacated with
  | cons index rest =>
      simp only [hvacated, Array.getElem?_modify] at hcell
      split at hcell
      · next heq => exact heq ▸ index.toNat_lt
      · exact haddressed i cell hcell hfilled
  | nil =>
      simp only [hvacated, Array.getElem?_modify] at hcell
      split at hcell
      · next heq => exact heq ▸ UInt32.toNat_lt _
      · rw [Array.getElem?_push] at hcell
        split at hcell
        · cases hcell
          simp at hfilled
        · exact haddressed i cell hcell hfilled

/-- A value put in may take the cell of another, but no cell gets a third value. -/
theorem getElem?_of_insertWith {value : Handle → α} {i : Nat} {cell : Cell α} {v : α}
    (hcell : (a.insertWith value).2.cells[i]? = some cell) (hv : cell.content = some v) :
    a.cells[i]? = some cell ∨ ∃ h, v = value h := by
  unfold Arena.insertWith at hcell
  cases hvacated : a.vacated with
  | cons index rest =>
      simp only [hvacated, Array.getElem?_modify] at hcell
      split at hcell
      · obtain ⟨_, _, rfl⟩ := Option.map_eq_some_iff.1 hcell
        cases hv
        exact Or.inr ⟨_, rfl⟩
      · exact Or.inl hcell
  | nil =>
      simp only [hvacated, Array.getElem?_modify] at hcell
      split at hcell
      · obtain ⟨_, _, rfl⟩ := Option.map_eq_some_iff.1 hcell
        cases hv
        exact Or.inr ⟨_, rfl⟩
      · rw [Array.getElem?_push] at hcell
        split at hcell
        · cases hcell
          cases hv
        · exact Or.inl hcell

theorem get?_of_insertWith {value : Handle → α} {v : α}
    (hv : (a.insertWith value).2.get? x = some v) : a.get? x = some v ∨ ∃ h, v = value h := by
  obtain ⟨cell, hcell, hgeneration, hcontent⟩ := exists_cell_of_get? hv
  refine (getElem?_of_insertWith hcell hcontent).imp_left fun hcell => ?_
  simp [get?_def, hcell, hgeneration, hcontent]

/-- Every value in an arena passes a test. -/
def All (a : Arena α) (P : α → Prop) : Prop :=
  ∀ (i : Nat) (cell : Cell α), a.cells[i]? = some cell → ∀ v, cell.content = some v → P v

section All

variable {P : α → Prop}

theorem All.get? (hall : a.All P) {v : α} (hv : a.get? x = some v) : P v := by
  obtain ⟨cell, hcell, _, hcontent⟩ := exists_cell_of_get? hv
  exact hall _ cell hcell v hcontent

theorem all_empty : All ({} : Arena α) P := by
  simp [All]

theorem All.modify {change : α → α} (hall : a.All P) (h : Handle)
    (hchange : ∀ v, P v → P (change v)) : (a.modify h change).All P := by
  intro i cell hcell v hv
  simp only [Arena.modify, Array.getElem?_modify] at hcell
  split at hcell
  · obtain ⟨old, hold, rfl⟩ := Option.map_eq_some_iff.1 hcell
    split at hv
    · obtain ⟨u, hu, rfl⟩ := Option.map_eq_some_iff.1 hv
      exact hchange u (hall i old hold u hu)
    · exact hall i old hold v hv
  · exact hall i cell hcell v hv

theorem All.remove (hall : a.All P) (h : Handle) : (a.remove h).All P := by
  unfold Arena.remove
  split
  · intro i cell hcell v hv
    simp only [Array.getElem?_modify] at hcell
    split at hcell
    · obtain ⟨old, _, rfl⟩ := Option.map_eq_some_iff.1 hcell
      cases hv
    · exact hall i cell hcell v hv
  · exact hall

theorem All.insertWith (hall : a.All P) (value : Handle → α) (hvalue : ∀ h, P (value h)) :
    (a.insertWith value).2.All P := by
  intro i cell hcell v hv
  rcases getElem?_of_insertWith hcell hv with hcell | ⟨h, rfl⟩
  · exact hall i cell hcell v hv
  · exact hvalue h

end All

theorem handleAt?_eq_some_iff (haddressed : a.Addressed) {i : Nat} :
    a.handleAt? i = some x ↔ x.index.toNat = i ∧ ∃ v, a.get? x = some v := by
  simp only [handleAt?, Option.bind_eq_some_iff, Option.map_eq_some_iff]
  constructor
  · rintro ⟨cell, hcell, v, hv, rfl⟩
    have hlt := haddressed i cell hcell (by simp [hv])
    have hindex : (UInt32.ofNat i).toNat = i := UInt32.toNat_ofNat_of_lt' hlt
    exact ⟨hindex, v, by simp [get?_def, hindex, hcell, hv]⟩
  · rintro ⟨rfl, v, hv⟩
    obtain ⟨cell, hcell, hgeneration, hcontent⟩ := exists_cell_of_get? hv
    refine ⟨cell, hcell, v, hcontent, ?_⟩
    simp [hgeneration]

theorem mem_handles_iff (haddressed : a.Addressed) :
    x ∈ a.handles ↔ ∃ v, a.get? x = some v := by
  simp only [handles, List.mem_filterMap, List.mem_range, handleAt?_eq_some_iff haddressed]
  constructor
  · rintro ⟨i, _, _, hv⟩
    exact hv
  · rintro ⟨v, hv⟩
    exact ⟨x.index.toNat, lt_size_of_get? hv, rfl, v, hv⟩

/-- What is true of all values that handles read is true of all values. -/
theorem all_of_get? {P : α → Prop} (haddressed : a.Addressed)
    (hget : ∀ x v, a.get? x = some v → P v) : a.All P := by
  intro i cell hcell v hv
  have hindex : (UInt32.ofNat i).toNat = i :=
    UInt32.toNat_ofNat_of_lt' (haddressed i cell hcell (by simp [hv]))
  refine hget ⟨UInt32.ofNat i, cell.generation⟩ v ?_
  simp [get?_def, hindex, hcell, hv]

theorem nodup_handles (haddressed : a.Addressed) : a.handles.Nodup := by
  refine List.Nodup.filterMap (fun i j y hi hj => ?_) List.nodup_range
  rw [Option.mem_def, handleAt?_eq_some_iff haddressed] at hi hj
  exact hi.1.symm.trans hj.1

/-! ## Counting -/

/-- What was put in and not taken out fills a cell. -/
def Counted (a : Arena α) : Prop :=
  a.inserted = a.removed + a.occupied

theorem counted_empty : Counted ({} : Arena α) := rfl

/-- The filled cells are no more than what was put in and not taken out. This holds even when the
cells outnumber the handles. -/
def Covered (a : Arena α) : Prop :=
  a.removed + a.occupied ≤ a.inserted

theorem Counted.covered (hcounted : a.Counted) : a.Covered := by
  unfold Counted at hcounted
  unfold Covered
  omega

theorem Covered.occupied_le (hcovered : a.Covered) : a.occupied ≤ a.size := by
  unfold Covered at hcovered
  unfold size
  omega

theorem cells_modify_of_none {cells : Array (Cell α)} {i : Nat} (hcell : cells[i]? = none)
    (change : Cell α → Cell α) : cells.modify i change = cells := by
  apply Array.ext_getElem?
  intro j
  rw [Array.getElem?_modify]
  split
  · next heq => rw [← heq, hcell, Option.map_none]
  · rfl

/-- A change of one cell counts that cell anew. -/
theorem countP_modify {cells : Array (Cell α)} {i : Nat} {cell : Cell α}
    (hcell : cells[i]? = some cell) (test : Cell α → Bool) (change : Cell α → Cell α) :
    (cells.modify i change).countP test + (if test cell then 1 else 0) =
      cells.countP test + if test (change cell) then 1 else 0 := by
  obtain ⟨hlt, hget⟩ := Array.getElem?_eq_some_iff.1 hcell
  have hmodify : cells.modify i change = cells.set i (change cell) hlt := by
    apply Array.ext_getElem?
    intro j
    rw [Array.getElem?_modify, Array.getElem?_set]
    split
    · next heq => subst heq; simp [hcell]
    · rfl
  have hpos : test cell = true → 0 < cells.countP test := fun htest =>
    Array.countP_pos_iff.2 ⟨cell, hget ▸ Array.getElem_mem hlt, htest⟩
  rw [hmodify, Array.countP_set, hget]
  split
  · next htest =>
      have := hpos htest
      omega
  · omega

@[simp]
theorem occupied_modify (a : Arena α) (h : Handle) (change : α → α) :
    (a.modify h change).occupied = a.occupied := by
  unfold occupied modify
  cases hcell : a.cells[h.index.toNat]? with
  | none => rw [cells_modify_of_none hcell]
  | some cell =>
      have hcount := countP_modify hcell (fun cell => cell.content.isSome) fun cell =>
        if cell.generation = h.generation then { cell with content := cell.content.map change }
        else cell
      have hkeep : ((if cell.generation = h.generation then
          { cell with content := cell.content.map change } else cell : Cell α).content).isSome =
            cell.content.isSome := by
        split <;> simp
      rw [hkeep] at hcount
      exact Nat.add_right_cancel hcount

theorem Counted.modify (hcounted : a.Counted) (h : Handle) (change : α → α) :
    (a.modify h change).Counted := by
  unfold Counted
  rw [occupied_modify]
  exact hcounted

theorem Covered.modify (hcovered : a.Covered) (h : Handle) (change : α → α) :
    (a.modify h change).Covered := by
  unfold Covered
  rw [occupied_modify]
  exact hcovered

/-- Taking out a value empties a cell. -/
theorem removed_add_occupied_remove (a : Arena α) (h : Handle) :
    (a.remove h).removed + (a.remove h).occupied = a.removed + a.occupied := by
  cases hv : a.get? h with
  | none => rw [remove_of_stale hv]
  | some v =>
      obtain ⟨cell, hcell, _, hcontent⟩ := exists_cell_of_get? hv
      have hcount := countP_modify hcell (fun cell => cell.content.isSome) fun cell =>
        { generation := cell.generation + 1, content := none }
      have hoccupied : (a.remove h).occupied + 1 = a.occupied := by
        rw [Arena.remove, if_pos (contains_iff.2 ⟨v, hv⟩)]
        simpa [occupied, hcontent] using hcount
      rw [removed_remove hv]
      omega

theorem Counted.remove (hcounted : a.Counted) (h : Handle) : (a.remove h).Counted := by
  rwa [Counted, removed_add_occupied_remove, inserted_remove]

theorem Covered.remove (hcovered : a.Covered) (h : Handle) : (a.remove h).Covered := by
  rwa [Covered, removed_add_occupied_remove, inserted_remove]

/-- Filling a cell adds at most one to the filled cells. -/
theorem countP_fill_le (cells : Array (Cell α)) (i : Nat) (value : α) :
    (cells.modify i fun cell => { cell with content := some value }).countP
      (fun cell => cell.content.isSome) ≤ cells.countP (fun cell => cell.content.isSome) + 1 := by
  cases hcell : cells[i]? with
  | none =>
      rw [cells_modify_of_none hcell]
      exact Nat.le_succ _
  | some cell =>
      have hcount := countP_modify hcell (fun cell => cell.content.isSome) fun cell =>
        { cell with content := some value }
      simp only [Option.isSome_some, if_true] at hcount
      omega

theorem Covered.insertWith (hcovered : a.Covered) (value : Handle → α) :
    (a.insertWith value).2.Covered := by
  unfold Covered at hcovered ⊢
  rw [inserted_insertWith, removed_insertWith]
  have hoccupied : (a.insertWith value).2.occupied ≤ a.occupied + 1 := by
    unfold Arena.insertWith occupied
    cases a.vacated with
    | cons i rest => exact countP_fill_le _ _ _
    | nil =>
        refine Nat.le_trans (countP_fill_le _ _ _) (Nat.le_of_eq ?_)
        simp
  omega

theorem Counted.insertWith (hcounted : a.Counted) (htight : a.Tight) (value : Handle → α)
    (hfits : (a.insertWith value).2.cells.size ≤ 2 ^ 32) : (a.insertWith value).2.Counted := by
  cases hvacated : a.vacated with
  | cons i rest =>
      obtain ⟨cell, hcell, hcontent⟩ := htight.vacant i (by simp [hvacated])
      have hcount := countP_modify hcell (fun cell => cell.content.isSome) fun cell' =>
        { cell' with content := some (value ⟨i, cell.generation⟩) }
      rw [insertWith_of_vacated hvacated hcell]
      simp only [Counted, occupied] at hcounted ⊢
      simp [hcontent] at hcount
      omega
  | nil =>
      have hsize : a.cells.size < 2 ^ 32 := by
        simp only [Arena.insertWith, hvacated, Array.size_modify, Array.size_push] at hfits
        omega
      have hcell : (a.cells.push {})[a.cells.size]? = some {} := Array.getElem?_push_size
      have hcount := countP_modify hcell (fun cell => cell.content.isSome) fun cell =>
        { cell with content := some (value ⟨UInt32.ofNat a.cells.size, 0⟩) }
      rw [insertWith_of_full hvacated hsize]
      simp only [Counted, occupied] at hcounted ⊢
      simp at hcount
      omega

/-! ## Generations -/

variable {a' a'' : Arena α}

/-- No cell is given up, and each has its generation raised as often as it is emptied. A
cell that was not emptied stays filled. -/
structure Turns (a a' : Arena α) : Prop where
  removed_le : a.removed ≤ a'.removed
  covered : a.Covered → a'.Covered
  cell : ∀ (i : Nat) (cell : Cell α), a.cells[i]? = some cell →
    ∃ (cell' : Cell α) (times : Nat), a'.cells[i]? = some cell' ∧
      a.removed + times ≤ a'.removed ∧
      cell'.generation = cell.generation + UInt32.ofNat times ∧
      (times = 0 → cell.content.isSome = true → cell'.content.isSome = true)

theorem Turns.refl (a : Arena α) : a.Turns a where
  removed_le := Nat.le_refl _
  covered := id
  cell i cell hcell := ⟨cell, 0, hcell, Nat.le_refl _, by simp, fun _ => id⟩

theorem Turns.trans (hfirst : a.Turns a') (hsecond : a'.Turns a'') : a.Turns a'' where
  removed_le := Nat.le_trans hfirst.removed_le hsecond.removed_le
  covered hcovered := hsecond.covered (hfirst.covered hcovered)
  cell i cell hcell := by
    obtain ⟨cell', times, hcell', hle, hgeneration, hfilled⟩ := hfirst.cell i cell hcell
    obtain ⟨cell'', times', hcell'', hle', hgeneration', hfilled'⟩ := hsecond.cell i cell' hcell'
    refine ⟨cell'', times + times', hcell'', by omega, ?_, fun hzero hsome => ?_⟩
    · rw [hgeneration', hgeneration, UInt32.ofNat_add, UInt32.add_assoc]
    · exact hfilled' (by omega) (hfilled (by omega) hsome)

theorem Turns.size_le (hturns : a.Turns a') : a.cells.size ≤ a'.cells.size := by
  refine Nat.le_of_not_lt fun hlt => ?_
  obtain ⟨cell', _, hcell', _⟩ := hturns.cell _ _ (Array.getElem?_eq_getElem hlt)
  rw [Array.getElem?_eq_none (Nat.le_refl _)] at hcell'
  cases hcell'

theorem turns_modify (a : Arena α) (h : Handle) (change : α → α) : a.Turns (a.modify h change) where
  removed_le := Nat.le_refl _
  covered hcovered := hcovered.modify h change
  cell i cell hcell := by
    simp only [modify, Array.getElem?_modify, hcell]
    split
    · refine ⟨_, 0, rfl, Nat.le_refl _, ?_, fun _ hsome => ?_⟩ <;>
        by_cases hgeneration : cell.generation = h.generation
      · simp [hgeneration]
      · simp [hgeneration]
      · simp [hgeneration, hsome]
      · simp [hgeneration, hsome]
    · exact ⟨cell, 0, rfl, Nat.le_refl _, by simp, fun _ => id⟩

theorem turns_remove (a : Arena α) (h : Handle) : a.Turns (a.remove h) := by
  cases hv : a.get? h with
  | none =>
      rw [remove_of_stale hv]
      exact .refl a
  | some v =>
      refine ⟨removed_remove hv ▸ Nat.le_succ _, fun hcovered => hcovered.remove h,
        fun i cell hcell => ?_⟩
      simp only [remove, if_pos (contains_iff.2 ⟨v, hv⟩), Array.getElem?_modify, hcell]
      split
      · exact ⟨_, 1, rfl, Nat.le_refl _, rfl, fun hone => absurd hone Nat.one_ne_zero⟩
      · exact ⟨cell, 0, rfl, Nat.le_succ _, by simp, fun _ => id⟩

theorem turns_insertWith (a : Arena α) (value : Handle → α) : a.Turns (a.insertWith value).2 where
  removed_le := by
    unfold insertWith
    cases a.vacated <;> exact Nat.le_refl _
  covered hcovered := hcovered.insertWith value
  cell i cell hcell := by
    have hpush : (a.cells.push {})[i]? = some cell := by
      obtain ⟨hlt, _⟩ := Array.getElem?_eq_some_iff.1 hcell
      rw [Array.getElem?_push_lt hlt, ← hcell, Array.getElem?_eq_getElem hlt]
    unfold insertWith
    cases a.vacated with
    | cons index rest =>
        simp only [Array.getElem?_modify, hcell]
        split
        · exact ⟨_, 0, rfl, Nat.le_refl _, by simp, fun _ _ => rfl⟩
        · exact ⟨cell, 0, rfl, Nat.le_refl _, by simp, fun _ => id⟩
    | nil =>
        simp only [Array.getElem?_modify, hpush]
        split
        · exact ⟨_, 0, rfl, Nat.le_refl _, by simp, fun _ _ => rfl⟩
        · exact ⟨cell, 0, rfl, Nat.le_refl _, by simp, fun _ => id⟩

/-- A value that is there before and afterwards was there in between, unless so many values
were taken out that its cell may have come back to its generation. -/
theorem Turns.get?_between {v v'' : α} (hfirst : a.Turns a') (hsecond : a'.Turns a'')
    (hx : a.get? x = some v) (hx'' : a''.get? x = some v'')
    (hfew : a''.removed < a.removed + 2 ^ 32) : ∃ v', a'.get? x = some v' := by
  obtain ⟨cell, hcell, hgeneration, hcontent⟩ := exists_cell_of_get? hx
  obtain ⟨cell'', hcell'', hgeneration'', _⟩ := exists_cell_of_get? hx''
  obtain ⟨cell', times, hcell', hle, hraised, hfilled⟩ := hfirst.cell _ cell hcell
  obtain ⟨other, times', hother, hle', hraised', _⟩ := hsecond.cell _ cell' hcell'
  cases hother.symm.trans hcell''
  have hround : UInt32.ofNat (times + times') = 0 := by
    have hsum : x.generation = x.generation + UInt32.ofNat (times + times') := by
      rw [UInt32.ofNat_add, ← UInt32.add_assoc, ← hgeneration, ← hraised, ← hraised', hgeneration'',
        hgeneration]
    exact (UInt32.left_eq_add.1 hsum)
  have htimes : times = 0 := by
    have hmod := congrArg UInt32.toNat hround
    rw [UInt32.toNat_ofNat'] at hmod
    simp at hmod
    omega
  subst htimes
  obtain ⟨v', hv'⟩ := Option.isSome_iff_exists.1 (hfilled rfl (by rw [hcontent]; rfl))
  refine ⟨v', ?_⟩
  rw [get?_def, hcell']
  simp [hraised, hgeneration, hv']

/-- A value that is there before and afterwards was there in between, if all in all fewer
values have been taken out than had been put in at first. -/
theorem Counted.get?_between {v v'' : α} (hcounted : a.Counted) (hcells : a.cells.size ≤ 2 ^ 32)
    (hfirst : a.Turns a') (hsecond : a'.Turns a'') (hx : a.get? x = some v)
    (hx'' : a''.get? x = some v'') (hfew : a''.removed < a.inserted) :
    ∃ v', a'.get? x = some v' := by
  apply hfirst.get?_between hsecond hx hx''
  have hoccupied : a.occupied ≤ a.cells.size := Array.countP_le_size
  unfold Counted at hcounted
  omega

theorem countP_range {β : Type u} (l : List β) (test : β → Bool) :
    (List.range l.length).countP (fun i => l[i]?.any test) = l.countP test := by
  induction l with
  | nil => rfl
  | cons b l ih =>
      rw [List.length_cons, List.range_succ_eq_map, List.countP_cons, List.countP_map,
        List.countP_cons, ← ih]
      simp [Function.comp_def]

/-- The filled cells are those that the list of handles runs through. -/
theorem length_handles (a : Arena α) : a.handles.length = a.occupied := by
  rw [handles, List.length_filterMap_eq_countP, occupied, ← Array.countP_toList,
    ← countP_range a.cells.toList, Array.length_toList]
  congr 1
  funext i
  rw [Array.getElem?_toList, handleAt?]
  cases a.cells[i]? <;> simp

/-- As long as the cells are no more than their numbers, the handles reach them. -/
theorem addressed_of_size_le (hcells : a.cells.size ≤ 2 ^ 32) : a.Addressed := fun _ _ hcell _ =>
  Nat.lt_of_lt_of_le (Array.getElem?_eq_some_iff.1 hcell).1 hcells

/-- Different handles of values are no more than the filled cells. -/
theorem length_le_occupied {l : List Handle} (haddressed : a.Addressed) (hnodup : l.Nodup)
    (hlive : ∀ x ∈ l, ∃ v, a.get? x = some v) : l.length ≤ a.occupied := by
  rw [← a.length_handles]
  exact (List.subperm_of_subset hnodup fun x hx =>
    (mem_handles_iff haddressed).2 (hlive x hx)).length_le

/-- The handles of values are as many as the arena says that there are values. -/
theorem Counted.length_handles (hcounted : a.Counted) : a.handles.length = a.size := by
  rw [Arena.length_handles, size, hcounted, Nat.add_sub_cancel_left]

end ObjectSystem.Arena

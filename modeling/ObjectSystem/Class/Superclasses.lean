/-
# Superclasses

The direct superclasses of a class, in the order in which they were added. The
first three stand in a row of fixed length, the others behind it: the row is
filled from its first place on, and nothing stands behind a row that has an
empty place.
-/

import ObjectSystem.Handle
import ObjectSystem.Text.Quoted

namespace ObjectSystem

/-- The places of a row are taken from the first one on. -/
def Packed (row : List (Option Handle)) : Prop :=
  ∃ l n, row = List.map some l ++ List.replicate n none

/-- The direct superclasses of a class. -/
structure Superclasses where
  /-- The first superclasses, and empty places behind them. -/
  row : List (Option Handle)
  /-- The superclasses behind the row. -/
  overflow : List Handle
  length_row : row.length = 3
  packed : Packed row
  spills : overflow ≠ [] → none ∉ row
  deriving DecidableEq

namespace Superclasses

/-- No superclasses. -/
def empty : Superclasses where
  row := [none, none, none]
  overflow := []
  length_row := rfl
  packed := ⟨[], 3, rfl⟩
  spills := by simp

instance : Inhabited Superclasses := ⟨empty⟩

/-- Put a class into the first empty place of a row, if there is one. -/
def fill (c : Handle) : (row : List (Option Handle)) → Option (List (Option Handle))
  | [] => none
  | none :: row => some (some c :: row)
  | some b :: row => (fill c row).map (some b :: ·)

theorem fill_append (c : Handle) (l : List Handle) (row : List (Option Handle)) :
    fill c (l.map some ++ row) = (fill c row).map (l.map some ++ ·) := by
  induction l with
  | nil => simp
  | cons b l ih => simp [fill, ih, Function.comp_def]

/-- A row is full, or a class that is put into it stands behind the ones in it. -/
theorem fill_cases {row : List (Option Handle)} (hpacked : Packed row) (c : Handle) :
    (fill c row = none ∧ none ∉ row) ∨
      ∃ l n, row = List.map some l ++ List.replicate (n + 1) none ∧
        fill c row = some (List.map some (l ++ [c]) ++ List.replicate n none) := by
  obtain ⟨l, n, rfl⟩ := hpacked
  cases n with
  | zero =>
      refine .inl ⟨?_, by simp⟩
      rw [fill_append]
      rfl
  | succ n => exact .inr ⟨l, n, rfl, by simp [fill_append, fill, List.replicate_succ]⟩

theorem exists_of_fill {row row' : List (Option Handle)} {c : Handle} (hpacked : Packed row)
    (hfill : fill c row = some row') :
    ∃ l n, row = List.map some l ++ List.replicate (n + 1) none ∧
      row' = List.map some (l ++ [c]) ++ List.replicate n none := by
  rcases fill_cases hpacked c with ⟨hnone, _⟩ | ⟨l, n, hrow, hsome⟩
  · cases hnone.symm.trans hfill
  · exact ⟨l, n, hrow, Option.some.inj (hfill.symm.trans hsome)⟩

theorem not_mem_of_fill {row : List (Option Handle)} {c : Handle} (hpacked : Packed row)
    (hfill : fill c row = none) : none ∉ row := by
  rcases fill_cases hpacked c with ⟨_, hfull⟩ | ⟨l, n, _, hsome⟩
  · exact hfull
  · cases hfill.symm.trans hsome

/-- Add a superclass at the end: to the row, or behind it if the row is full. -/
def push (s : Superclasses) (c : Handle) : Superclasses :=
  match hfill : fill c s.row with
  | some row =>
      { row := row
        overflow := s.overflow
        length_row := by
          obtain ⟨l, n, hrow, rfl⟩ := exists_of_fill s.packed hfill
          have hlength := s.length_row
          simp only [hrow, List.length_append, List.length_map, List.length_replicate] at hlength
          simp only [List.length_append, List.length_map, List.length_replicate,
            List.length_singleton]
          omega
        packed := by
          obtain ⟨l, n, _, rfl⟩ := exists_of_fill s.packed hfill
          exact ⟨l ++ [c], n, rfl⟩
        spills := by
          obtain ⟨l, n, hrow, _⟩ := exists_of_fill s.packed hfill
          exact fun hoverflow => absurd (by simp [hrow]) (s.spills hoverflow) }
  | none =>
      { row := s.row
        overflow := s.overflow ++ [c]
        length_row := s.length_row
        packed := s.packed
        spills := fun _ => not_mem_of_fill s.packed hfill }

/-- The superclasses in the order in which they were added. -/
def toList (s : Superclasses) : List Handle :=
  s.row.filterMap id ++ s.overflow

def size (s : Superclasses) : Nat :=
  (s.row.filterMap id).length + s.overflow.length

/-- There are none if the first place of the row is empty. -/
def isEmpty (s : Superclasses) : Bool :=
  s.row.head?.join.isNone

def contains (s : Superclasses) (c : Handle) : Bool :=
  s.toList.contains c

@[simp]
theorem toList_empty : empty.toList = [] := rfl

/-- The row and what is behind it take classes like one list. -/
@[simp]
theorem toList_push (s : Superclasses) (c : Handle) : (s.push c).toList = s.toList ++ [c] := by
  unfold push toList
  split
  · next row hfill =>
      obtain ⟨l, n, hrow, rfl⟩ := exists_of_fill s.packed hfill
      have hoverflow : s.overflow = [] :=
        Decidable.byContradiction fun hne => s.spills hne (by simp [hrow])
      simp [hrow, hoverflow]
  · simp

theorem size_eq (s : Superclasses) : s.size = s.toList.length := by
  simp [size, toList]

theorem isEmpty_iff (s : Superclasses) : s.isEmpty = true ↔ s.toList = [] := by
  obtain ⟨l, n, hrow⟩ := s.packed
  have hlength := s.length_row
  have hspills := s.spills
  unfold isEmpty toList
  rw [hrow] at hlength hspills ⊢
  cases l with
  | cons b l => simp
  | nil =>
      obtain ⟨m, rfl⟩ : ∃ m, n = m + 1 := ⟨2, by simpa using hlength⟩
      simpa [List.replicate_succ] using hspills

def text (s : Superclasses) : String :=
  let row := Text.bracketed (s.row.map Handle.optionText)
  let overflow := Text.bracketed (s.overflow.map Handle.text)
  s!"SuperClasses \x7b inline: {row}, overflow: {overflow} \x7d"

end Superclasses

end ObjectSystem

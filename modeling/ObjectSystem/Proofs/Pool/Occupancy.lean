/-
# Blocks in use

A block that starts empty and is put into, taken from and filtered in any order
says at every moment what its row says: the cursor is the smallest vacant place,
the watermark is the place after the last taken one, and the count is the number
of taken places. From these three it follows when a block refuses a handle, which
place it fills and which one it vacates, and that it never looks beside its row.
Blocks without places are no exception.
-/

import Mathlib.Order.Bounds.Basic
import ObjectSystem.Proofs.Pool.Block

namespace ObjectSystem

namespace Block

variable {b changed : Block} {capacity : Nat} {x : Handle}

/-- The blocks that come from a new one by any sequence of operations. An operation
that is refused leaves the block as it was. -/
inductive Used (capacity : Nat) : Block → Prop
  | new : Used capacity (Block.new capacity)
  | insert {b : Block} (x : Handle) (hused : Used capacity b) :
      Used capacity ((b.insert? x).getD b)
  | erase {b : Block} (x : Handle) (hused : Used capacity b) :
      Used capacity ((b.erase? x).getD b)
  | filter {b : Block} (keep : Handle → Bool) (hused : Used capacity b) :
      Used capacity (b.filter keep)

/-- The notes of a block agree with its row, and its operations do to the row what
their names say, inside the row. -/
structure Accurate (capacity : Nat) (b : Block) : Prop where
  capacity_eq : b.capacity = capacity
  cursor_least : IsLeast {i | b.places[i]? = some none ∨ i = capacity} b.cursor
  watermark_greatest :
    IsGreatest {n | n = 0 ∨ ∃ i x, b.places[i]? = some (some x) ∧ n = i + 1} b.watermark
  count_eq : b.count = b.places.toList.countP Option.isSome
  cursor_le_watermark : b.cursor ≤ b.watermark
  watermark_le : b.watermark ≤ capacity
  /-- A handle is refused exactly when every place is taken. -/
  insert_refused : ∀ x, b.insert? x = none ↔ b.count = capacity
  /-- A handle that is not refused goes to the place of the cursor. -/
  insert_fills : ∀ x changed, b.insert? x = some changed →
    b.places[b.cursor]? = some none ∧
      ∀ i, changed.places[i]? = if b.cursor = i then some (some x) else b.places[i]?
  /-- A handle is given up exactly if it is in the row. -/
  erase_refused : ∀ x, b.erase? x = none ↔ some x ∉ b.places
  /-- A handle that is given up leaves one place that held it, and the count had
  something to go down from. -/
  erase_clears : ∀ x changed, b.erase? x = some changed →
    0 < b.count ∧ ∃ place, b.placeOf? x = some place ∧ b.places[place]? = some (some x) ∧
      ∀ i, changed.places[i]? = if place = i then some none else b.places[i]?
  /-- A filter vacates the places of the handles that fail, and they were counted. -/
  filter_clears : ∀ keep : Handle → Bool, b.toList.countP (fun x => !keep x) ≤ b.count ∧
    ∀ i : Nat, (b.filter keep).places[i]? = b.places[i]?.map (Option.filter keep)

/-! ## The length of the row -/

@[simp]
theorem capacity_new (capacity : Nat) : (Block.new capacity).capacity = capacity :=
  Array.size_replicate

theorem capacity_insert? (hinsert : b.insert? x = some changed) :
    changed.capacity = b.capacity := by
  unfold insert? at hinsert
  split at hinsert
  · cases hinsert
  · cases hinsert
    exact Array.size_setIfInBounds

theorem capacity_erase? (herase : b.erase? x = some changed) :
    changed.capacity = b.capacity := by
  unfold erase? at herase
  split at herase
  · cases herase
  · cases herase
    exact Array.size_setIfInBounds

@[simp]
theorem capacity_filter (b : Block) (keep : Handle → Bool) :
    (b.filter keep).capacity = b.capacity :=
  Array.size_map

/-! ## Valid blocks are accurate -/

theorem Valid.cursor_least (hvalid : b.Valid) :
    IsLeast {i | b.places[i]? = some none ∨ i = b.capacity} b.cursor := by
  constructor
  · rcases Nat.lt_or_ge b.cursor b.places.size with hlt | hge
    · exact Or.inl (hvalid.vacant_at hlt)
    · exact Or.inr (Nat.le_antisymm hvalid.cursor_le hge)
  · rintro i (hvacant | rfl)
    · by_contra hbelow
      obtain ⟨x, hx⟩ := hvalid.taken_below i (Nat.lt_of_not_le hbelow)
      rw [hvacant] at hx
      cases hx
    · exact hvalid.cursor_le

theorem Valid.watermark_greatest (hvalid : b.Valid) :
    IsGreatest {n | n = 0 ∨ ∃ i x, b.places[i]? = some (some x) ∧ n = i + 1}
      b.watermark := by
  constructor
  · rcases Nat.eq_zero_or_pos b.watermark with hzero | hpos
    · exact Or.inl hzero
    · obtain ⟨x, hx⟩ := hvalid.taken_last hpos
      exact Or.inr ⟨b.watermark - 1, x, hx, by omega⟩
  · rintro n (rfl | ⟨i, x, hx, rfl⟩)
    · exact Nat.zero_le _
    · exact hvalid.vacant_from i x hx

/-- All places below the cursor are taken, so the last of them is below the
watermark. -/
theorem Valid.cursor_le_watermark (hvalid : b.Valid) : b.cursor ≤ b.watermark := by
  by_contra hbeyond
  obtain ⟨x, hx⟩ := hvalid.taken_below (b.cursor - 1) (by omega)
  have := hvalid.vacant_from _ x hx
  omega

theorem Valid.count_eq_countP (hvalid : b.Valid) :
    b.count = b.places.toList.countP Option.isSome := by
  rw [hvalid.count_eq, List.length_filterMap_eq_countP]
  rfl

theorem Valid.mem_toList_iff (hvalid : b.Valid) : x ∈ b.toList ↔ some x ∈ b.places := by
  rw [hvalid.toList_eq, List.mem_filterMap, ← Array.mem_toList_iff]
  simp

/-- A block counts as many handles as it has places exactly when its cursor has run
past the last place. -/
theorem Valid.count_eq_capacity_iff (hvalid : b.Valid) :
    b.count = b.capacity ↔ b.capacity ≤ b.cursor := by
  have hall : b.count = b.capacity ↔ ∀ place ∈ b.places.toList, place.isSome = true := by
    rw [hvalid.count_eq_countP, ← List.countP_eq_length, Array.length_toList]
    rfl
  rw [hall]
  constructor
  · intro htaken
    by_contra hroom
    have hvacant := hvalid.vacant_at (Nat.lt_of_not_le hroom)
    have := htaken none (Array.mem_toList_iff.2 (Array.mem_of_getElem? hvacant))
    cases this
  · intro hfull place hplace
    obtain ⟨i, hi⟩ := List.mem_iff_getElem?.1 hplace
    rw [Array.getElem?_toList] at hi
    obtain ⟨hlt, -⟩ := Array.getElem?_eq_some_iff.1 hi
    obtain ⟨x, hx⟩ := hvalid.taken_below i (Nat.lt_of_lt_of_le hlt hfull)
    rw [hi] at hx
    cases hx
    rfl

theorem Valid.insert?_eq_none_iff_count (hvalid : b.Valid) :
    b.insert? x = none ↔ b.count = b.capacity := by
  rw [insert?_eq_none_iff, hvalid.count_eq_capacity_iff]

theorem Valid.insert?_fills (hvalid : b.Valid) (hinsert : b.insert? x = some changed) :
    b.places[b.cursor]? = some none ∧
      ∀ i, changed.places[i]? = if b.cursor = i then some (some x) else b.places[i]? := by
  unfold Block.insert? at hinsert
  split at hinsert
  · cases hinsert
  next hfull =>
  have hcursor : b.cursor < b.places.size :=
    Nat.lt_of_not_le fun hle => hfull (decide_eq_true hle)
  cases hinsert
  exact ⟨hvalid.vacant_at hcursor, getElem?_setIfInBounds_of_vacant hcursor (some x)⟩

theorem erase?_clears (herase : b.erase? x = some changed) :
    ∃ place, b.placeOf? x = some place ∧ b.places[place]? = some (some x) ∧
      ∀ i, changed.places[i]? = if place = i then some none else b.places[i]? := by
  have hplace := b.placeOf?_holds x
  unfold erase? at herase
  split at herase
  · cases herase
  next place hfound =>
  rw [hfound] at hplace
  obtain ⟨hlt, -⟩ := Array.getElem?_eq_some_iff.1 hplace
  cases herase
  exact ⟨place, hfound, hplace, getElem?_setIfInBounds_of_vacant hlt none⟩

theorem Valid.count_eq_length (hvalid : b.Valid) : b.count = b.toList.length := by
  rw [hvalid.count_eq, hvalid.toList_eq]

theorem Valid.isAccurate (hvalid : b.Valid) : b.Accurate b.capacity where
  capacity_eq := rfl
  cursor_least := hvalid.cursor_least
  watermark_greatest := hvalid.watermark_greatest
  count_eq := hvalid.count_eq_countP
  cursor_le_watermark := hvalid.cursor_le_watermark
  watermark_le := hvalid.watermark_le
  insert_refused _ := hvalid.insert?_eq_none_iff_count
  insert_fills _ _ := hvalid.insert?_fills
  erase_refused _ := by rw [hvalid.erase?_eq_none_iff, hvalid.mem_toList_iff]
  erase_clears x changed herase := by
    refine ⟨?_, erase?_clears herase⟩
    rw [hvalid.count_eq_length, (hvalid.erase? herase).2.length_eq, List.length_cons]
    exact Nat.succ_pos _
  filter_clears keep := by
    refine ⟨?_, fun i => Array.getElem?_map⟩
    rw [hvalid.count_eq_length]
    exact List.countP_le_length

/-! ## Every sequence of operations -/

/-- What each operation keeps: the notes stay true, and the row keeps its length. -/
theorem Used.valid (hused : Used capacity b) : b.Valid ∧ b.capacity = capacity := by
  induction hused with
  | new => exact ⟨valid_new capacity, capacity_new capacity⟩
  | @insert b x _ ih =>
      cases hinsert : b.insert? x with
      | none => exact ih
      | some changed =>
          exact ⟨(ih.1.insert? hinsert).1, (capacity_insert? hinsert).trans ih.2⟩
  | @erase b x _ ih =>
      cases herase : b.erase? x with
      | none => exact ih
      | some changed =>
          exact ⟨(ih.1.erase? herase).1, (capacity_erase? herase).trans ih.2⟩
  | filter keep _ ih => exact ⟨(ih.1.filter keep).1, (capacity_filter _ keep).trans ih.2⟩

/-- After any sequence of operations on a new block, of whatever capacity, the notes
of the block agree with its row and each operation does what its name says. -/
theorem Used.accurate (hused : Used capacity b) : b.Accurate capacity := by
  obtain ⟨hvalid, rfl⟩ := hused.valid
  exact hvalid.isAccurate

/-- A row of three places with a hole in the middle and one handle twice. -/
theorem Used.accurate_holed :
    ∃ b : Block, Used 3 b ∧
      b.places = #[some ⟨0, 0⟩, none, some ⟨0, 0⟩] ∧
      b.cursor = 1 ∧ b.watermark = 3 ∧ b.count = 2 ∧ b.Accurate 3 := by
  have hnew : Used 3 (Block.new 3) := .new
  have hused := (((hnew.insert ⟨0, 0⟩).insert ⟨1, 0⟩).insert ⟨0, 0⟩).erase ⟨1, 0⟩
  exact ⟨_, hused, by decide +kernel, by decide +kernel, by decide +kernel,
    by decide +kernel, hused.accurate⟩

end Block

end ObjectSystem

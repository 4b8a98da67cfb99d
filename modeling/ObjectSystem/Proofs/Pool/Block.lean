/-
# Laws of blocks

A block that was only put into, taken out of and filtered keeps its cursor and
watermark true: the cursor is the smallest vacant place, and nothing stands from
the watermark on. For such a block the places are a bag of handles, and each
operation is the operation of that name on the bag.
-/

import Mathlib.Data.List.Basic
import ObjectSystem.Pool.Block

namespace ObjectSystem

/-- Filling a vacant place of a row adds one handle to what the row holds. -/
theorem filterMap_set_some_perm {places : List (Option Handle)} {i : Nat} (x : Handle)
    (hvacant : places[i]? = some none) :
    ((places.set i (some x)).filterMap id).Perm (x :: places.filterMap id) := by
  obtain ⟨hlt, hget⟩ := List.getElem?_eq_some_iff.1 hvacant
  have hsplit : places = places.take i ++ none :: places.drop (i + 1) := by
    rw [← hget, List.getElem_cons_drop, List.take_append_drop]
  have hold : places.filterMap id =
      (places.take i).filterMap id ++ (places.drop (i + 1)).filterMap id := by
    conv_lhs => rw [hsplit]
    simp
  rw [List.set_eq_take_append_cons_drop, if_pos hlt, hold]
  simp

/-- Vacating a place of a row removes one handle from what the row holds. -/
theorem filterMap_perm_set_none {places : List (Option Handle)} {i : Nat} {x : Handle}
    (htaken : places[i]? = some (some x)) :
    (places.filterMap id).Perm (x :: (places.set i none).filterMap id) := by
  obtain ⟨hlt, hget⟩ := List.getElem?_eq_some_iff.1 htaken
  have hback : (places.set i none).set i (some x) = places := by
    rw [List.set_set, ← hget, List.set_getElem_self]
  have hvacant : (places.set i none)[i]? = some none := by simp [hlt]
  have hperm := filterMap_set_some_perm x hvacant
  rwa [hback] at hperm

namespace Block

/-- What is kept next to the row is true of it. -/
structure Valid (b : Block) : Prop where
  count_eq : b.count = (b.places.toList.filterMap id).length
  cursor_le : b.cursor ≤ b.places.size
  taken_below : ∀ i, i < b.cursor → ∃ x, b.places[i]? = some (some x)
  vacant_at : b.cursor < b.places.size → b.places[b.cursor]? = some none
  watermark_le : b.watermark ≤ b.places.size
  vacant_from : ∀ i x, b.places[i]? = some (some x) → i < b.watermark
  taken_last : 0 < b.watermark → ∃ x, b.places[b.watermark - 1]? = some (some x)

theorem vacantFrom_le (places : Array (Option Handle)) (start : Nat) :
    vacantFrom places start ≤ places.size := by
  fun_induction vacantFrom places start with
  | case1 _ _ _ ih => exact ih
  | case2 start hlt _ => exact Nat.le_of_lt hlt
  | case3 => exact Nat.le_refl _

theorem taken_of_lt_vacantFrom {places : Array (Option Handle)} {start i : Nat}
    (hstart : start ≤ i) (hi : i < vacantFrom places start) :
    ∃ x, places[i]? = some (some x) := by
  fun_induction vacantFrom places start with
  | case1 start hlt htaken ih =>
      rcases Nat.eq_or_lt_of_le hstart with rfl | hafter
      · obtain ⟨x, hx⟩ := Option.isSome_iff_exists.1 htaken
        exact ⟨x, by rw [Array.getElem?_eq_getElem hlt, hx]⟩
      · exact ih hafter hi
  | case2 => omega
  | case3 start hge => omega

theorem vacant_at_vacantFrom {places : Array (Option Handle)} {start : Nat}
    (hlt : vacantFrom places start < places.size) :
    places[vacantFrom places start]? = some none := by
  fun_induction vacantFrom places start with
  | case1 _ _ _ ih => exact ih hlt
  | case2 start hstart hvacant =>
      rw [Array.getElem?_eq_getElem hstart]
      simpa using hvacant
  | case3 => omega

theorem takenBelow_le (places : Array (Option Handle)) (limit : Nat) :
    takenBelow places limit ≤ limit := by
  fun_induction takenBelow places limit with
  | case1 => exact Nat.le_refl _
  | case2 => exact Nat.le_refl _
  | case3 limit _ ih => exact Nat.le_succ_of_le ih

theorem lt_takenBelow {places : Array (Option Handle)} {limit i : Nat} {x : Handle}
    (hi : i < limit) (htaken : places[i]? = some (some x)) :
    i < takenBelow places limit := by
  fun_induction takenBelow places limit with
  | case1 => omega
  | case2 => exact hi
  | case3 limit hvacant ih =>
      rcases Nat.eq_or_lt_of_le (Nat.le_of_lt_succ hi) with rfl | hbefore
      · exact absurd htaken (hvacant x)
      · exact ih hbefore

theorem taken_takenBelow {places : Array (Option Handle)} {limit : Nat}
    (hpos : 0 < takenBelow places limit) :
    ∃ x, places[takenBelow places limit - 1]? = some (some x) := by
  fun_induction takenBelow places limit with
  | case1 => omega
  | case2 limit x htaken => exact ⟨x, htaken⟩
  | case3 _ _ ih => exact ih hpos

theorem valid_new (capacity : Nat) : (new capacity).Valid := by
  constructor <;> simp +contextual [new, Array.getElem?_replicate, Nat.pos_iff_ne_zero]

/-- The places from the watermark on add nothing to what a block holds. -/
theorem Valid.toList_eq {b : Block} (hvalid : b.Valid) :
    b.toList = b.places.toList.filterMap id := by
  have hrest : (b.places.toList.drop b.watermark).filterMap id = [] := by
    rw [List.filterMap_eq_nil_iff]
    intro place hplace
    obtain ⟨i, hi⟩ := List.mem_iff_getElem?.1 hplace
    rw [List.getElem?_drop, Array.getElem?_toList] at hi
    cases place with
    | none => rfl
    | some x =>
        have := hvalid.vacant_from _ x hi
        omega
  conv_rhs => rw [← List.take_append_drop b.watermark b.places.toList]
  rw [List.filterMap_append, hrest, List.append_nil, toList]

theorem getElem?_setIfInBounds_of_vacant {b : Block} {i : Nat} (hi : i < b.places.size)
    (place : Option Handle) (j : Nat) :
    (b.places.setIfInBounds i place)[j]? = if i = j then some place else b.places[j]? := by
  rw [Array.getElem?_setIfInBounds]
  by_cases hij : i = j
  · rw [if_pos hij, if_pos hij, if_pos hi]
  · rw [if_neg hij, if_neg hij]

/-- A block refuses a handle only when every place is taken. -/
theorem insert?_eq_none_iff {b : Block} {x : Handle} :
    b.insert? x = none ↔ b.capacity ≤ b.cursor := by
  simp [insert?, isFull]

/-- A handle put into a block fills the smallest vacant place. -/
theorem Valid.insert? {b changed : Block} {x : Handle} (hvalid : b.Valid)
    (hinsert : b.insert? x = some changed) :
    changed.Valid ∧ changed.toList.Perm (x :: b.toList) := by
  unfold Block.insert? at hinsert
  split at hinsert
  · cases hinsert
  next hfull =>
  have hcursor : b.cursor < b.places.size :=
    Nat.lt_of_not_le fun hle => hfull (decide_eq_true hle)
  have hvacant := hvalid.vacant_at hcursor
  have hplaces := getElem?_setIfInBounds_of_vacant hcursor (some x)
  have hperm : ((b.places.setIfInBounds b.cursor (some x)).toList.filterMap id).Perm
      (x :: b.places.toList.filterMap id) := by
    rw [Array.toList_setIfInBounds]
    exact filterMap_set_some_perm x (by rw [Array.getElem?_toList, hvacant])
  cases hinsert
  have hchanged : Valid
      { places := b.places.setIfInBounds b.cursor (some x)
        count := b.count + 1
        cursor := vacantFrom (b.places.setIfInBounds b.cursor (some x)) (b.cursor + 1)
        watermark := max b.watermark (b.cursor + 1) } := by
    constructor
    · rw [hperm.length_eq, List.length_cons, hvalid.count_eq]
    · exact vacantFrom_le _ _
    · intro i hi
      rcases Nat.lt_trichotomy i b.cursor with hlt | rfl | hgt
      · obtain ⟨y, hy⟩ := hvalid.taken_below i hlt
        exact ⟨y, by rw [hplaces, if_neg (by omega), hy]⟩
      · exact ⟨x, by rw [hplaces, if_pos rfl]⟩
      · exact taken_of_lt_vacantFrom hgt hi
    · exact vacant_at_vacantFrom
    · have hwatermark := hvalid.watermark_le
      simp only [Array.size_setIfInBounds]
      omega
    · intro i y hy
      rw [hplaces] at hy
      change i < max b.watermark (b.cursor + 1)
      split at hy
      · omega
      · have hi := hvalid.vacant_from i y hy
        omega
    · intro _
      rcases Nat.le_total b.watermark (b.cursor + 1) with hle | hge
      · exact ⟨x, by rw [hplaces, if_pos (by simp only; omega)]⟩
      · obtain ⟨y, hy⟩ := hvalid.taken_last (by omega)
        rw [Nat.max_eq_left hge, hplaces]
        by_cases hlast : b.cursor = b.watermark - 1
        · exact ⟨x, by rw [if_pos hlast]⟩
        · exact ⟨y, by rw [if_neg hlast, hy]⟩
  exact ⟨hchanged, by rw [hchanged.toList_eq, hvalid.toList_eq]; exact hperm⟩

/-- The place found for a handle holds it; no place is found for a handle that the
block does not hold. -/
theorem placeOf?_holds (b : Block) (x : Handle) :
    match b.placeOf? x with
    | some i => b.places[i]? = some (some x)
    | none => x ∉ b.toList := by
  unfold Block.placeOf?
  by_cases hhint : 0 < b.cursor ∧ b.places[b.cursor - 1]? = some (some x)
  · rw [if_pos hhint]
    exact hhint.2
  · rw [if_neg hhint]
    cases hfind : (b.places.toList.take b.watermark).findIdx? (· == some x) with
    | some i =>
        obtain ⟨hi, heq, _⟩ := List.findIdx?_eq_some_iff_getElem.1 hfind
        have hget := List.getElem?_eq_getElem hi
        rw [eq_of_beq heq, List.getElem?_take] at hget
        split at hget
        · simpa using hget
        · cases hget
    | none =>
        intro hmem
        rw [List.findIdx?_eq_none_iff] at hfind
        obtain ⟨place, hplace, hx⟩ := List.mem_filterMap.1 hmem
        have hne := hfind place hplace
        simp only [id_eq] at hx
        simp [hx] at hne

/-- A handle taken out of a block vacates one place that held it. -/
theorem Valid.erase? {b changed : Block} {x : Handle} (hvalid : b.Valid)
    (herase : b.erase? x = some changed) :
    changed.Valid ∧ b.toList.Perm (x :: changed.toList) := by
  have hplace := b.placeOf?_holds x
  unfold Block.erase? at herase
  split at herase
  · cases herase
  next i hfound =>
  rw [hfound] at hplace
  simp only at hplace
  have hi : i < b.places.size := (Array.getElem?_eq_some_iff.1 hplace).1
  have hplaces := getElem?_setIfInBounds_of_vacant hi none
  have hperm : (b.places.toList.filterMap id).Perm
      (x :: (b.places.setIfInBounds i none).toList.filterMap id) := by
    rw [Array.toList_setIfInBounds]
    exact filterMap_perm_set_none (by rw [Array.getElem?_toList, hplace])
  cases herase
  have hchanged : Valid
      { places := b.places.setIfInBounds i none
        count := b.count - 1
        cursor := min b.cursor i
        watermark := takenBelow (b.places.setIfInBounds i none) b.watermark } := by
    constructor
    · rw [hvalid.count_eq, hperm.length_eq, List.length_cons]
      rfl
    · simp only [Array.size_setIfInBounds]
      omega
    · intro j hj
      simp only at hj
      obtain ⟨y, hy⟩ := hvalid.taken_below j (by omega)
      exact ⟨y, by rw [hplaces, if_neg (by omega), hy]⟩
    · intro hlt
      simp only [Array.size_setIfInBounds] at hlt ⊢
      rw [hplaces]
      rcases Nat.lt_or_ge b.cursor i with hbefore | hafter
      · rw [Nat.min_eq_left (by omega), if_neg (by omega)]
        exact hvalid.vacant_at (by omega)
      · rw [Nat.min_eq_right hafter, if_pos rfl]
    · have hwatermark := hvalid.watermark_le
      have hbelow := takenBelow_le (b.places.setIfInBounds i none) b.watermark
      simp only [Array.size_setIfInBounds]
      omega
    · intro j y hy
      refine lt_takenBelow ?_ hy
      rw [hplaces] at hy
      split at hy
      · cases hy
      · exact hvalid.vacant_from j y hy
    · exact taken_takenBelow
  exact ⟨hchanged, by rw [hchanged.toList_eq, hvalid.toList_eq]; exact hperm⟩

/-- A block gives up a handle exactly if it holds it. -/
theorem Valid.erase?_eq_none_iff {b : Block} (hvalid : b.Valid) {x : Handle} :
    b.erase? x = none ↔ x ∉ b.toList := by
  have hplace := b.placeOf?_holds x
  unfold Block.erase?
  split
  · next hfound =>
      rw [hfound] at hplace
      exact iff_of_true rfl hplace
  · next i hfound =>
      rw [hfound] at hplace
      refine iff_of_false (by simp) (not_not_intro ?_)
      rw [hvalid.toList_eq, List.mem_filterMap]
      exact ⟨some x, Array.mem_toList_iff.2 (Array.mem_of_getElem? hplace), rfl⟩

/-- Filtering a block keeps the handles that pass the test where they are. -/
theorem Valid.filter {b : Block} (hvalid : b.Valid) (keep : Handle → Bool) :
    (b.filter keep).Valid ∧ (b.filter keep).toList = b.toList.filter keep := by
  have hplaces : ∀ i : Nat, (b.places.map fun place => place.filter keep)[i]? =
      b.places[i]?.map fun place => place.filter keep := fun i => Array.getElem?_map
  have hlist : (b.places.map fun place => place.filter keep).toList.filterMap id =
      (b.places.toList.filterMap id).filter keep := by
    rw [Array.toList_map, List.filterMap_map, List.filter_filterMap]
    rfl
  have hchanged : (b.filter keep).Valid := by
    constructor
    · simp only [Block.filter, hlist, hvalid.count_eq, hvalid.toList_eq]
      have hsum := List.length_eq_countP_add_countP keep (l := b.places.toList.filterMap id)
      rw [← List.countP_eq_length_filter]
      simp only [Bool.not_eq_true] at hsum
      have hnot : (b.places.toList.filterMap id).countP (fun x => !keep x) =
          (b.places.toList.filterMap id).countP fun a => decide (keep a = false) :=
        List.countP_congr fun y _ => by simp
      omega
    · exact vacantFrom_le _ _
    · exact fun i hi => taken_of_lt_vacantFrom (Nat.zero_le i) hi
    · exact vacant_at_vacantFrom
    · have hwatermark := hvalid.watermark_le
      have hbelow :=
        takenBelow_le (b.places.map fun place => place.filter keep) b.watermark
      simp only [Block.filter, Array.size_map]
      omega
    · intro i y hy
      refine lt_takenBelow ?_ hy
      simp only [Block.filter, hplaces, Option.map_eq_some_iff] at hy
      obtain ⟨place, hplace, hkept⟩ := hy
      obtain ⟨rfl, _⟩ := Option.filter_eq_some_iff.1 hkept
      exact hvalid.vacant_from i y hplace
    · exact taken_takenBelow
  exact ⟨hchanged, by rw [hchanged.toList_eq, hvalid.toList_eq]; exact hlist⟩

end Block

end ObjectSystem

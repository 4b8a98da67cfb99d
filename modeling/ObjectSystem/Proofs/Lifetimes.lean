/-
# Lifetimes in an arena

Cells are used again, so values that come and go share the cells of an arena. A record of
the calls on a new arena says for which value each handle was given out, and what was
taken out under which handle. An arena agrees with its record: no handle is given out
twice, and each names the value that it was given out for until that is taken out, and
nothing ever after.

What tells the lifetimes in one cell apart is the generation, which is the number of times
that the cell has been emptied. A handle carries the number for its cell at the time. The
handle of a value that was taken out therefore carries a smaller number than its cell, and
the next handle for that cell carries the number of the cell. This holds as long as the
cells are no more than their numbers and none of them was emptied so often that its
generation came round.
-/

import ObjectSystem.Proofs.Arena

namespace ObjectSystem.Arena

universe u

variable {α : Type u} {a : Arena α} {h x : Handle} {v : α}

/-- What a call on an arena did. -/
inductive Event (α : Type u) where
  /-- The handle was given out for a value that was put in. -/
  | gave (h : Handle) (v : α)
  /-- What was found under the handle was taken out. -/
  | took (h : Handle) (found : Option α)

/-- The handles given out, the last one in front. -/
def givenOut (events : List (Event α)) : List Handle :=
  events.filterMap fun
    | .gave h _ => some h
    | .took _ _ => none

/-- The handles under which a value was taken out, the last one in front. -/
def takenOut (events : List (Event α)) : List Handle :=
  events.filterMap fun
    | .gave _ _ => none
    | .took h found => found.map fun _ => h

/-- How often a cell was emptied. -/
def emptied (i : UInt32) (events : List (Event α)) : Nat :=
  (takenOut events).countP fun h => h.index == i

/-- The calls on a new arena that led to an arena, with what they did. The last one is in
front. -/
inductive Recorded : List (Event α) → Arena α → Prop
  | new : Recorded [] {}
  | insert {events : List (Event α)} {a : Arena α} (value : Handle → α)
      (hrecorded : Recorded events a) :
      Recorded (.gave (a.insertWith value).1 (value (a.insertWith value).1) :: events)
        (a.insertWith value).2
  | remove {events : List (Event α)} {a : Arena α} (h : Handle) (hrecorded : Recorded events a) :
      Recorded (.took h (a.take h).1 :: events) (a.take h).2

section Events

variable {i : UInt32} {events : List (Event α)} {found : Option α}

@[simp]
theorem givenOut_gave : givenOut (.gave h v :: events) = h :: givenOut events := rfl

@[simp]
theorem givenOut_took : givenOut (.took h found :: events) = givenOut events := rfl

@[simp]
theorem takenOut_gave : takenOut (.gave h v :: events) = takenOut events := rfl

@[simp]
theorem takenOut_took_none : takenOut (.took h none :: events) = takenOut events := rfl

@[simp]
theorem takenOut_took_some : takenOut (.took h (some v) :: events) = h :: takenOut events := rfl

theorem mem_givenOut_iff : h ∈ givenOut events ↔ ∃ v, Event.gave h v ∈ events := by
  rw [givenOut, List.mem_filterMap]
  constructor
  · rintro ⟨⟨_, v⟩ | _, hmem, heq⟩
    · cases heq
      exact ⟨v, hmem⟩
    · cases heq
  · rintro ⟨v, hmem⟩
    exact ⟨_, hmem, rfl⟩

@[simp]
theorem emptied_gave : emptied i (.gave h v :: events) = emptied i events := rfl

@[simp]
theorem emptied_took_none : emptied i (.took h none :: events) = emptied i events := rfl

theorem emptied_took_some :
    emptied i (.took h (some v) :: events) = emptied i events + if h.index = i then 1 else 0 := by
  rw [emptied, takenOut_took_some, List.countP_cons]
  simp only [beq_iff_eq]
  rfl

theorem emptied_le_cons (i : UInt32) (event : Event α) (events : List (Event α)) :
    emptied i events ≤ emptied i (event :: events) := by
  match event with
  | .gave _ _ | .took _ none => exact Nat.le_refl _
  | .took _ (some _) =>
      rw [emptied_took_some]
      exact Nat.le_add_right ..

theorem emptied_le_length (i : UInt32) (events : List (Event α)) :
    emptied i events ≤ events.length :=
  Nat.le_trans List.countP_le_length (List.length_filterMap_le ..)

end Events

/-! ## What the record says about the cells -/

variable {events : List (Event α)}

/-- The generation of a cell is the number of times that it was emptied, and the empty
cells are listed. A handle given out names its value, or its cell was emptied since. -/
structure Accounted (events : List (Event α)) (a : Arena α) : Prop where
  tight : a.Tight
  counted : a.Counted
  listed : ∀ (i : UInt32) (cell : Cell α), a.cells[i.toNat]? = some cell →
    cell.content = none → i ∈ a.vacated
  generation : ∀ (i : UInt32) (cell : Cell α), a.cells[i.toNat]? = some cell →
    cell.generation = UInt32.ofNat (emptied i events)
  unused : ∀ i : UInt32, a.cells.size ≤ i.toNat → emptied i events = 0
  past : ∀ h v, .gave h v ∈ events → h.index.toNat < a.cells.size ∧
    (a.get? h = some v ∨ h.generation.toNat < emptied h.index events)
  present : ∀ h v, a.get? h = some v → .gave h v ∈ events
  inserted : a.inserted = (givenOut events).length
  removed : a.removed = (takenOut events).length

theorem accounted_new : Accounted [] ({} : Arena α) where
  tight := tight_empty
  counted := counted_empty
  listed := by simp
  generation := by simp
  unused _ _ := rfl
  past := by simp
  present := by simp [get?_def]
  inserted := rfl
  removed := rfl

/-- A new handle carries the number of times that its cell was emptied. -/
theorem Accounted.generation_insertWith (haccounted : Accounted events a) (value : Handle → α)
    (hfits : (a.insertWith value).2.cells.size ≤ 2 ^ 32) :
    (a.insertWith value).1.generation =
      UInt32.ofNat (emptied (a.insertWith value).1.index events) := by
  rcases cell_insertWith haccounted.tight value hfits with hcell | ⟨hsize, hzero⟩
  · exact haccounted.generation _ _ hcell
  · rw [hzero, haccounted.unused _ (Nat.le_of_eq hsize)]
    rfl

/-- A handle that names a value carries the number of times that its cell was emptied. -/
theorem Accounted.generation_of_get? (haccounted : Accounted events a) (hv : a.get? h = some v) :
    h.generation = UInt32.ofNat (emptied h.index events) := by
  obtain ⟨cell, hcell, hgeneration, _⟩ := exists_cell_of_get? hv
  rw [← hgeneration, haccounted.generation _ cell hcell]

theorem Accounted.insertWith (haccounted : Accounted events a) (value : Handle → α)
    (hfits : (a.insertWith value).2.cells.size ≤ 2 ^ 32) :
    Accounted (.gave (a.insertWith value).1 (value (a.insertWith value).1) :: events)
      (a.insertWith value).2 := by
  have hcells := getElem?_insertWith haccounted.tight value hfits
  have hgrows := size_cells_le_insertWith a value
  obtain ⟨hnew, hget⟩ := get?_insertWith haccounted.tight value hfits
  constructor
  case tight => exact haccounted.tight.insertWith value
  case counted => exact haccounted.counted.insertWith haccounted.tight value hfits
  case listed =>
      intro i cell hcell hempty
      rw [hcells] at hcell
      split at hcell
      · cases hcell
        cases hempty
      · next hother =>
          exact mem_vacated_insertWith (fun heq => hother (by rw [heq]))
            (haccounted.listed i cell hcell hempty)
  case generation =>
      intro i cell hcell
      rw [hcells] at hcell
      split at hcell
      · next heq =>
          cases hcell
          rw [UInt32.toNat_inj.1 heq]
          exact haccounted.generation_insertWith value hfits
      · exact haccounted.generation i cell hcell
  case unused => exact fun i hi => haccounted.unused i (Nat.le_trans hgrows hi)
  case past =>
      intro h v hmem
      rcases List.mem_cons.1 hmem with heq | hmem
      · cases heq
        exact ⟨lt_size_of_get? ((hget _).trans (if_pos rfl)), .inl ((hget _).trans (if_pos rfl))⟩
      · obtain ⟨hindex, hlive | hpast⟩ := haccounted.past h v hmem
        · refine ⟨Nat.lt_of_lt_of_le hindex hgrows, .inl ?_⟩
          rw [hget, if_neg, hlive]
          rintro rfl
          simp [hnew] at hlive
        · exact ⟨Nat.lt_of_lt_of_le hindex hgrows, .inr hpast⟩
  case present =>
      intro h v hv
      rw [hget] at hv
      split at hv
      · next heq =>
          cases hv
          rw [heq]
          exact List.mem_cons_self
      · exact List.mem_cons_of_mem _ (haccounted.present h v hv)
  case inserted => rw [inserted_insertWith, haccounted.inserted, givenOut_gave, List.length_cons]
  case removed => rw [removed_insertWith, haccounted.removed, takenOut_gave]

/-- A value that is there is taken out. -/
theorem Accounted.remove (haccounted : Accounted events a) (hv : a.get? h = some v) :
    Accounted (.took h (some v) :: events) (a.remove h) := by
  have hcells := getElem?_remove hv
  constructor
  case tight => exact haccounted.tight.remove h
  case counted => exact haccounted.counted.remove h
  case listed =>
      intro i cell hcell hempty
      rw [vacated_remove hv]
      rw [hcells] at hcell
      split at hcell
      · next heq => exact List.mem_cons.2 (.inl (UInt32.toNat_inj.1 heq))
      · exact List.mem_cons_of_mem _ (haccounted.listed i cell hcell hempty)
  case generation =>
      intro i cell hcell
      rw [emptied_took_some]
      rw [hcells] at hcell
      split at hcell
      · next heq =>
          cases UInt32.toNat_inj.1 heq
          cases hcell
          rw [if_pos rfl, UInt32.ofNat_add, ← haccounted.generation_of_get? hv]
          rfl
      · next hother =>
          rw [if_neg fun heq => hother (by rw [heq])]
          exact haccounted.generation i cell hcell
  case unused =>
      intro i hi
      rw [size_cells_remove] at hi
      rw [emptied_took_some, haccounted.unused i hi, if_neg]
      rintro rfl
      exact Nat.not_lt_of_le hi (lt_size_of_get? hv)
  case past =>
      intro x v' hmem
      rw [size_cells_remove, get?_remove, emptied_took_some]
      obtain ⟨hindex, hlive | hpast⟩ := haccounted.past x v' (by simpa using hmem)
      · refine ⟨hindex, ?_⟩
        by_cases hx : x = h
        · subst hx
          right
          rw [haccounted.generation_of_get? hv, if_pos rfl, UInt32.toNat_ofNat']
          exact Nat.lt_succ_of_le (Nat.mod_le ..)
        · exact .inl (by rw [if_neg hx, hlive])
      · exact ⟨hindex, .inr (Nat.lt_of_lt_of_le hpast (Nat.le_add_right ..))⟩
  case present =>
      exact fun x v' hv' =>
        List.mem_cons_of_mem _ (haccounted.present x v' (get?_of_get?_remove hv'))
  case inserted => rw [inserted_remove, haccounted.inserted, givenOut_took]
  case removed =>
      rw [removed_remove hv, haccounted.removed, takenOut_took_some, List.length_cons]

theorem Accounted.take (haccounted : Accounted events a) (h : Handle) :
    Accounted (.took h (a.take h).1 :: events) (a.take h).2 := by
  simp only [Arena.take]
  cases hfound : a.get? h with
  | none =>
      rw [remove_of_stale hfound]
      exact
        { haccounted with
          past := fun x v hmem => haccounted.past x v (by simpa using hmem)
          present := fun x v hv => List.mem_cons_of_mem _ (haccounted.present x v hv) }
  | some found => exact haccounted.remove hfound

/-- A new handle was never given out before. -/
theorem Accounted.fresh (haccounted : Accounted events a) (value : Handle → α)
    (hfits : (a.insertWith value).2.cells.size ≤ 2 ^ 32)
    (hturns : ∀ i, emptied i events < 2 ^ 32) :
    (a.insertWith value).1 ∉ givenOut events := by
  intro hmem
  obtain ⟨v, hmem⟩ := mem_givenOut_iff.1 hmem
  rcases (haccounted.past _ v hmem).2 with hlive | hpast
  · rw [(get?_insertWith haccounted.tight value hfits).1] at hlive
    cases hlive
  · rw [haccounted.generation_insertWith value hfits, UInt32.toNat_ofNat_of_lt' (hturns _)]
      at hpast
    exact Nat.lt_irrefl _ hpast

theorem Recorded.accounted (hrecorded : Recorded events a) (hcells : a.cells.size ≤ 2 ^ 32) :
    Accounted events a := by
  induction hrecorded with
  | new => exact accounted_new
  | insert value _ ih =>
      exact (ih (Nat.le_trans (size_cells_le_insertWith ..) hcells)).insertWith value hcells
  | remove h _ ih =>
      exact (ih (Nat.le_trans (Nat.le_of_eq (size_cells_remove ..).symm) hcells)).take h

/-! ## What the record says about handles -/

/-- No handle is given out twice. -/
theorem Recorded.nodup_givenOut (hrecorded : Recorded events a) (hcells : a.cells.size ≤ 2 ^ 32)
    (hturns : ∀ i, emptied i events < 2 ^ 32) : (givenOut events).Nodup := by
  induction hrecorded with
  | new => exact List.nodup_nil
  | insert value hrecorded ih =>
      have hcells' := Nat.le_trans (size_cells_le_insertWith ..) hcells
      rw [givenOut_gave, List.nodup_cons]
      exact ⟨(hrecorded.accounted hcells').fresh value hcells hturns, ih hcells' hturns⟩
  | remove h _ ih =>
      exact ih (Nat.le_trans (Nat.le_of_eq (size_cells_remove ..).symm) hcells) fun i =>
        Nat.lt_of_le_of_lt (emptied_le_cons ..) (hturns i)

/-- A handle names the value that it was given out for until what is under it is taken out,
and nothing ever after. -/
theorem Recorded.get?_of_gave (hrecorded : Recorded events a) (hcells : a.cells.size ≤ 2 ^ 32)
    (hturns : ∀ i, emptied i events < 2 ^ 32) {after before : List (Event α)}
    (hevents : events = after ++ .gave h v :: before) :
    ((∀ found, .took h found ∉ after) → a.get? h = some v) ∧
      ∀ found, .took h found ∈ after → a.get? h = none := by
  induction hrecorded generalizing after with
  | new => simp at hevents
  | @insert events a value hrecorded ih =>
      have hcells' := Nat.le_trans (size_cells_le_insertWith ..) hcells
      have haccounted := hrecorded.accounted hcells'
      have hget := (get?_insertWith haccounted.tight value hcells).2 h
      cases after with
      | nil =>
          cases hevents
          exact ⟨fun _ => hget.trans (if_pos rfl), fun _ => nofun⟩
      | cons event after =>
          obtain ⟨rfl, rfl⟩ := List.cons.inj hevents
          have hold : h ≠ (a.insertWith value).1 := by
            rintro rfl
            exact haccounted.fresh value hcells hturns
              (mem_givenOut_iff.2 ⟨v, List.mem_append_cons_self⟩)
          rw [hget, if_neg hold]
          simpa using ih hcells' hturns rfl
  | @remove events a x hrecorded ih =>
      cases after with
      | nil => cases hevents
      | cons event after =>
          obtain ⟨rfl, rfl⟩ := List.cons.inj hevents
          have hbefore := ih (Nat.le_trans (Nat.le_of_eq (size_cells_remove ..).symm) hcells)
            (fun i => Nat.lt_of_le_of_lt (emptied_le_cons ..) (hturns i)) rfl
          rw [Arena.take, get?_remove]
          by_cases hx : h = x
          · subst hx
            exact ⟨fun hstands => absurd List.mem_cons_self (hstands _), fun _ _ => if_pos rfl⟩
          · simpa [hx] using hbefore

/-! ## The list of handles and the list of empty cells -/

/-- The handles are listed by the numbers of their cells. -/
theorem pairwise_handles (haddressed : a.Addressed) :
    a.handles.Pairwise fun x y => x.index < y.index := by
  refine List.Pairwise.filterMap _ (fun i j hij x hx y hy => ?_) List.pairwise_lt_range
  rw [handleAt?_eq_some_iff haddressed] at hx hy
  rw [UInt32.lt_iff_toNat_lt, hx.1, hy.1]
  exact hij

/-- The list of emptied cells runs through the cells without a value. -/
theorem Accounted.mem_vacated_iff (haccounted : Accounted events a) {i : UInt32} :
    i ∈ a.vacated ↔ i.toNat < a.cells.size ∧ a.handleAt? i.toNat = none := by
  constructor
  · intro hmem
    obtain ⟨cell, hcell, hempty⟩ := haccounted.tight.vacant i hmem
    exact ⟨(Array.getElem?_eq_some_iff.1 hcell).1, by simp [handleAt?, hcell, hempty]⟩
  · rintro ⟨hlt, hnone⟩
    have hcell := Array.getElem?_eq_getElem hlt
    exact haccounted.listed i _ hcell (by simpa [handleAt?, hcell] using hnone)

/-- An arena is what the record of the calls on it says. -/
structure Faithful (events : List (Event α)) (a : Arena α) : Prop where
  /-- As many values are there as were put in and not taken out. -/
  size : a.handles.length = a.size ∧ a.removed + a.size = a.inserted
  inserted : a.inserted = (givenOut events).length
  removed : a.removed = (takenOut events).length
  /-- The emptied cells are listed once, and they are the cells without a value. -/
  nodup_vacated : a.vacated.Nodup
  mem_vacated_iff : ∀ i : UInt32,
    i ∈ a.vacated ↔ i.toNat < a.cells.size ∧ a.handleAt? i.toNat = none
  /-- No handle is given out twice. -/
  nodup_givenOut : (givenOut events).Nodup
  /-- A handle names the value that it was given out for until that is taken out, -/
  get?_of_stands : ∀ after before h v, events = after ++ .gave h v :: before →
    (∀ found, .took h found ∉ after) → a.get? h = some v
  /-- and nothing ever after. -/
  get?_of_gone : ∀ after before h v found, events = after ++ .gave h v :: before →
    .took h found ∈ after → a.get? h = none
  /-- A handle that was not given out names nothing. -/
  mem_givenOut : ∀ h v, a.get? h = some v → .gave h v ∈ events
  /-- Nothing is taken out under a handle that names nothing. -/
  take_of_stale : ∀ h, a.get? h = none → a.take h = (none, a)
  /-- The handles that name a value are listed by the numbers of their cells. -/
  mem_handles_iff : ∀ h, h ∈ a.handles ↔ ∃ v, a.get? h = some v
  pairwise_handles : a.handles.Pairwise fun x y => x.index < y.index

/-- An arena is what the record of the calls on it says, as long as the cells are no more than
their numbers and none of them was emptied so often that its generation came round. -/
theorem Recorded.faithful (hrecorded : Recorded events a) (hcells : a.cells.size ≤ 2 ^ 32)
    (hturns : ∀ i, emptied i events < 2 ^ 32) : Faithful events a := by
  have haccounted := hrecorded.accounted hcells
  have haddressed := addressed_of_size_le hcells
  have hcounted : a.inserted = a.removed + a.occupied := haccounted.counted
  exact
    { size := by
        refine ⟨haccounted.counted.length_handles, ?_⟩
        rw [Arena.size]
        omega
      inserted := haccounted.inserted
      removed := haccounted.removed
      nodup_vacated := haccounted.tight.nodup
      mem_vacated_iff := fun _ => haccounted.mem_vacated_iff
      nodup_givenOut := hrecorded.nodup_givenOut hcells hturns
      get?_of_stands := fun _ _ _ _ hevents =>
        (hrecorded.get?_of_gave hcells hturns hevents).1
      get?_of_gone := fun _ _ _ _ found hevents =>
        (hrecorded.get?_of_gave hcells hturns hevents).2 found
      mem_givenOut := haccounted.present
      take_of_stale := fun h hstale => by rw [Arena.take, hstale, remove_of_stale hstale]
      mem_handles_iff := fun _ => Arena.mem_handles_iff haddressed
      pairwise_handles := Arena.pairwise_handles haddressed }

/-- The first of two values is taken out, its cell is used again, and the stale handle is
handed back a second time. -/
theorem faithful_recycled :
    let a : Arena String := (((((({} : Arena String).insert "a").2.insert "b").2.take
      ⟨0, 0⟩).2.insert "c").2.take ⟨0, 0⟩).2
    let events : List (Event String) := [.took ⟨0, 0⟩ none, .gave ⟨0, 1⟩ "c",
      .took ⟨0, 0⟩ (some "a"), .gave ⟨1, 0⟩ "b", .gave ⟨0, 0⟩ "a"]
    Recorded events a ∧ a.cells.size = 2 ∧ Faithful events a ∧ a.handles = [⟨0, 1⟩, ⟨1, 0⟩] := by
  intro a events
  have hrecorded : Recorded events a :=
    .remove ⟨0, 0⟩ (.insert (fun _ => "c") (.remove ⟨0, 0⟩ (.insert (fun _ => "b")
      (.insert (fun _ => "a") .new))))
  have hcells : a.cells.size = 2 := by decide
  exact ⟨hrecorded, hcells, hrecorded.faithful (hcells ▸ by decide) fun i =>
    Nat.lt_of_le_of_lt (emptied_le_length i events) (by decide), by decide⟩

end ObjectSystem.Arena

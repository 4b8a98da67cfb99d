/-
# Blocks

A block is a fixed row of places for handles. Next to the row it keeps how many
places are taken, the first vacant place (the cursor) and the place after the
last taken one (the watermark), so that putting in and scanning never look at
the whole row. After every operation the cursor is the smallest vacant place,
or the capacity if there is none, and everything from the watermark on is
vacant.
-/

import ObjectSystem.Handle

namespace ObjectSystem

/-- A row of places for handles. -/
structure Block where
  places : Array (Option Handle)
  count : Nat
  cursor : Nat
  watermark : Nat

namespace Block

/-- The first vacant place from `start` on, or the length of the row. -/
def vacantFrom (places : Array (Option Handle)) (start : Nat) : Nat :=
  if h : start < places.size then
    if places[start].isSome then vacantFrom places (start + 1) else start
  else places.size
  termination_by places.size - start

/-- The place after the last taken one among the first `limit` places. -/
def takenBelow (places : Array (Option Handle)) : (limit : Nat) → Nat
  | 0 => 0
  | limit + 1 =>
      match places[limit]? with
      | some (some _) => limit + 1
      | _ => takenBelow places limit

def new (capacity : Nat) : Block :=
  { places := Array.replicate capacity none, count := 0, cursor := 0, watermark := 0 }

def capacity (b : Block) : Nat :=
  b.places.size

def isFull (b : Block) : Bool :=
  b.capacity ≤ b.cursor

/-- The handles of a block, by place. -/
def toList (b : Block) : List Handle :=
  (b.places.toList.take b.watermark).filterMap id

def contains (b : Block) (x : Handle) : Bool :=
  b.toList.contains x

/-- Fill the first vacant place, if there is one. -/
def insert? (b : Block) (x : Handle) : Option Block :=
  if b.isFull then none
  else
    let places := b.places.setIfInBounds b.cursor (some x)
    some
      { places := places
        count := b.count + 1
        cursor := vacantFrom places (b.cursor + 1)
        watermark := max b.watermark (b.cursor + 1) }

/-- The place of a handle: the one just below the cursor if the handle is
there, since the last one in is often the first one out, and otherwise the
first place that holds it. -/
def placeOf? (b : Block) (x : Handle) : Option Nat :=
  if 0 < b.cursor ∧ b.places[b.cursor - 1]? = some (some x) then some (b.cursor - 1)
  else (b.places.toList.take b.watermark).findIdx? (· == some x)

/-- Vacate one place that holds the handle, if there is one. -/
def erase? (b : Block) (x : Handle) : Option Block :=
  match b.placeOf? x with
  | none => none
  | some place =>
      let places := b.places.setIfInBounds place none
      some
        { places := places
          count := b.count - 1
          cursor := min b.cursor place
          watermark := takenBelow places b.watermark }

/-- Vacate the places of all handles that fail a test. -/
def filter (keep : Handle → Bool) (b : Block) : Block :=
  let places := b.places.map fun place => place.filter keep
  { places := places
    count := b.count - (b.toList.countP fun x => !keep x)
    cursor := vacantFrom places 0
    watermark := takenBelow places b.watermark }

end Block

end ObjectSystem

/-
# Pools as bags

A pool never loses a handle and never holds one more often than it was put in,
although a handle goes into the newest block with room, comes out of the newest
block that holds it, and may stand in several blocks at once. Whatever was done to
a pool since it was new, its handles are the bag that the same operations make of
the empty bag.
-/

import Mathlib.Data.Multiset.Filter
import ObjectSystem.Proofs.Pool.Occupancy
import ObjectSystem.Proofs.Pool.Stack

namespace ObjectSystem

namespace Pool

variable {p changed : Pool} {id : PoolId} {capacity : Nat} {x : Handle}
  {bag : Multiset Handle}

/-- The pools that come from a new one by any sequence of operations, each with the
bag that the same operations make of the empty bag. -/
inductive Records (id : PoolId) (capacity : Nat) : Multiset Handle → Pool → Prop
  | new : Records id capacity 0 (Pool.new id capacity)
  | insert {bag : Multiset Handle} {p : Pool} (x : Handle)
      (hrecords : Records id capacity bag p) : Records id capacity (x ::ₘ bag) (p.insert x)
  | erase {bag : Multiset Handle} {p : Pool} (x : Handle)
      (hrecords : Records id capacity bag p) :
      Records id capacity (bag.erase x) ((p.erase? x).getD p)
  | filter {bag : Multiset Handle} {p : Pool} (keep : Handle → Bool)
      (hrecords : Records id capacity bag p) :
      Records id capacity (bag.filter fun x => keep x = true) (p.filter keep)

/-- Of two rows of blocks, oldest first, the second has the newest block on which a
change succeeds in its changed form, and is the first otherwise. -/
def Exchanges (change : Block → Option Block) (l l' : List Block) : Prop :=
  ∃ older b changed newer, l = older ++ b :: newer ∧ l' = older ++ changed :: newer ∧
    change b = some changed ∧ ∀ c ∈ newer, change c = none

/-- A pool answers as the bag does, its blocks all have the configured capacity, and
no operation drops a block. -/
structure IsBag (capacity : Nat) (bag : Multiset Handle) (p : Pool) : Prop where
  handles_eq : (p.toList : Multiset Handle) = bag
  count_eq : p.count = bag.card
  contains_iff : ∀ x, p.contains x = true ↔ x ∈ bag
  erase_isSome_iff : ∀ x, (p.erase? x).isSome = true ↔ x ∈ bag
  blocks_accurate : ∀ b ∈ p.blocks, b.Accurate capacity
  /-- A handle goes into the newest block that takes it, if there is one. -/
  insert_room : ∀ x, (∃ b ∈ p.blocks, b.isFull = false) →
    Exchanges (·.insert? x) p.blocks (p.insert x).blocks
  /-- Only when every block is full is there a further block, with this handle alone. -/
  insert_full : ∀ x, (∀ b ∈ p.blocks, b.isFull = true) →
    ∃ b, (p.insert x).blocks = p.blocks ++ [b] ∧ b.toList = [x]
  erase_exchanges : ∀ x changed, p.erase? x = some changed →
    Exchanges (·.erase? x) p.blocks changed.blocks
  filter_blocks : ∀ keep, (p.filter keep).blocks = p.blocks.map (Block.filter keep)

/-! ## Blocks -/

/-- Every block of a pool is one in use, of the capacity of the pool. -/
def Filled (capacity : Nat) (p : Pool) : Prop :=
  p.blockCapacity = capacity ∧ ∀ b ∈ p.newestFirst, b.Used capacity

theorem Filled.valid (hfilled : p.Filled capacity) : p.Valid :=
  fun b hb => (hfilled.2 b hb).valid.1

theorem filled_new (id : PoolId) (capacity : Nat) : (Pool.new id capacity).Filled capacity :=
  ⟨rfl, fun b hb => by rw [List.mem_singleton.1 hb]; exact Block.Used.new⟩

theorem Filled.insert (hfilled : p.Filled capacity) (x : Handle) :
    (p.insert x).Filled capacity := by
  refine ⟨(p.insert_blockCapacity x).trans hfilled.1, ?_⟩
  unfold Pool.insert
  split
  · next blocks hblocks =>
      obtain ⟨front, b, changed, back, heq, rfl, hb, -⟩ := changeFirst_eq_some hblocks
      have hall : ∀ c ∈ front ++ b :: back, c.Used capacity := heq ▸ hfilled.2
      have hused := (hall b (by simp)).insert x
      rw [hb] at hused
      exact forall_replace hall hused
  · refine List.forall_mem_cons.2 ⟨?_, hfilled.2⟩
    rw [hfilled.1]
    exact Block.Used.new.insert x

theorem Filled.erase? (hfilled : p.Filled capacity) (herase : p.erase? x = some changed) :
    changed.Filled capacity := by
  obtain ⟨blocks, hblocks, rfl⟩ := Option.map_eq_some_iff.1 herase
  obtain ⟨front, b, block, back, heq, rfl, hb, -⟩ := changeFirst_eq_some hblocks
  have hall : ∀ c ∈ front ++ b :: back, c.Used capacity := heq ▸ hfilled.2
  have hused := (hall b (by simp)).erase x
  rw [hb] at hused
  exact ⟨hfilled.1, forall_replace hall hused⟩

theorem Filled.filter (hfilled : p.Filled capacity) (keep : Handle → Bool) :
    (p.filter keep).Filled capacity := by
  refine ⟨hfilled.1, fun c hc => ?_⟩
  obtain ⟨b, hb, rfl⟩ := List.mem_map.1 hc
  exact (hfilled.2 b hb).filter keep

/-- From the front is from the newest. -/
theorem exchanges_of_changeFirst {change : Block → Option Block} {l l' : List Block}
    (hchange : changeFirst change l = some l') :
    Exchanges change l.reverse l'.reverse := by
  obtain ⟨front, b, changed, back, rfl, rfl, hb, hfront⟩ := changeFirst_eq_some hchange
  exact ⟨back.reverse, b, changed, front.reverse, by simp, by simp, hb,
    fun c hc => hfront c (List.mem_reverse.1 hc)⟩

theorem insert_exchanges (hroom : ∃ b ∈ p.blocks, b.isFull = false) :
    Exchanges (·.insert? x) p.blocks (p.insert x).blocks := by
  obtain ⟨b, hb, hfull⟩ := hroom
  have htakes : changeFirst (·.insert? x) p.newestFirst ≠ none := by
    rw [ne_eq, changeFirst_eq_none_iff]
    intro hnone
    have hrefused := hnone b (List.mem_reverse.1 hb)
    simp [Block.insert?, hfull] at hrefused
  obtain ⟨blocks, hblocks⟩ := Option.ne_none_iff_exists'.1 htakes
  have hinsert : p.insert x = { p with newestFirst := blocks } := by
    simp only [Pool.insert, hblocks]
  rw [hinsert]
  exact exchanges_of_changeFirst hblocks

theorem insert_appends (hcapacity : 0 < p.blockCapacity)
    (hfull : ∀ b ∈ p.blocks, b.isFull = true) :
    ∃ b, (p.insert x).blocks = p.blocks ++ [b] ∧ b.toList = [x] := by
  have hnone : changeFirst (·.insert? x) p.newestFirst = none := by
    rw [changeFirst_eq_none_iff]
    intro b hb
    simp [Block.insert?, hfull b (List.mem_reverse.2 hb)]
  have hroom : (Block.new p.blockCapacity).insert? x ≠ none := by
    rw [ne_eq, Block.insert?_eq_none_iff, Block.capacity_new]
    exact Nat.not_le_of_lt hcapacity
  obtain ⟨b, hb⟩ := Option.ne_none_iff_exists'.1 hroom
  refine ⟨b, by simp [Pool.insert, hnone, hb, blocks], ?_⟩
  have hperm := ((Block.valid_new p.blockCapacity).insert? hb).2
  rwa [show (Block.new p.blockCapacity).toList = [] by simp [Block.toList, Block.new],
    List.perm_singleton] at hperm

/-! ## Handles -/

theorem Valid.count_eq_length (hvalid : p.Valid) : p.count = p.toList.length := by
  have hsum : ∀ (l : List Block) (n : Nat), (∀ b ∈ l, b.Valid) →
      l.foldl (fun n b => n + b.count) n = n + (l.flatMap Block.toList).length := by
    intro l
    induction l with
    | nil => simp
    | cons b l ih =>
        intro n hall
        obtain ⟨hb, hall⟩ := List.forall_mem_cons.1 hall
        rw [List.foldl_cons, ih _ hall, List.flatMap_cons, List.length_append,
          hb.count_eq_length, Nat.add_assoc]
  rw [count, hsum _ _ hvalid, Nat.zero_add, (toList_perm p).length_eq]

theorem Valid.coe_insert (hvalid : p.Valid) (hcapacity : 0 < p.blockCapacity) (x : Handle) :
    ((p.insert x).toList : Multiset Handle) = x ::ₘ p.toList :=
  Multiset.coe_eq_coe.2 (hvalid.insert_perm hcapacity x)

theorem Valid.coe_erase (hvalid : p.Valid) (x : Handle) :
    (((p.erase? x).getD p).toList : Multiset Handle) = (p.toList : Multiset Handle).erase x := by
  cases herase : p.erase? x with
  | none =>
      have habsent := hvalid.erase?_eq_none_iff.1 herase
      rw [Option.getD_none, Multiset.erase_of_notMem (by rwa [Multiset.mem_coe])]
  | some changed =>
      obtain ⟨-, hperm, -⟩ := hvalid.erase? herase
      have hcons : (p.toList : Multiset Handle) = x ::ₘ changed.toList :=
        Multiset.coe_eq_coe.2 hperm
      rw [Option.getD_some, hcons, Multiset.erase_cons_head]

theorem Valid.coe_filter (hvalid : p.Valid) (keep : Handle → Bool) :
    ((p.filter keep).toList : Multiset Handle) =
      (p.toList : Multiset Handle).filter fun x => keep x = true := by
  rw [(hvalid.filter keep).2, Multiset.filter_coe]
  simp

theorem Valid.erase?_isSome_iff (hvalid : p.Valid) :
    (p.erase? x).isSome = true ↔ x ∈ p.toList := by
  rw [← not_iff_not, ← hvalid.erase?_eq_none_iff, Bool.not_eq_true, Option.isSome_eq_false_iff,
    Option.isNone_iff_eq_none]

/-! ## Every sequence of operations -/

/-- What each operation keeps: the blocks are in use, and the handles are the bag. -/
theorem Records.filled (hrecords : Records id capacity bag p) (hcapacity : 0 < capacity) :
    p.Filled capacity ∧ (p.toList : Multiset Handle) = bag := by
  induction hrecords with
  | new => exact ⟨filled_new id capacity, by simp⟩
  | insert x _ ih =>
      obtain ⟨hfilled, rfl⟩ := ih
      exact ⟨hfilled.insert x, hfilled.valid.coe_insert (hfilled.1 ▸ hcapacity) x⟩
  | @erase _ p x _ ih =>
      obtain ⟨hfilled, rfl⟩ := ih
      refine ⟨?_, hfilled.valid.coe_erase x⟩
      cases herase : p.erase? x with
      | none => exact hfilled
      | some changed => exact hfilled.erase? herase
  | filter keep _ ih =>
      obtain ⟨hfilled, rfl⟩ := ih
      exact ⟨hfilled.filter keep, hfilled.valid.coe_filter keep⟩

/-- Whatever was put into a pool whose blocks have places, taken out of it and
filtered, the pool is the bag that the same operations make. -/
theorem Records.isBag (hrecords : Records id capacity bag p) (hcapacity : 0 < capacity) :
    p.IsBag capacity bag := by
  obtain ⟨hfilled, rfl⟩ := hrecords.filled hcapacity
  have hvalid := hfilled.valid
  constructor
  · rfl
  · exact hvalid.count_eq_length
  · exact fun x => contains_iff
  · exact fun x => hvalid.erase?_isSome_iff
  · intro b hb
    obtain ⟨hblock, rfl⟩ := (hfilled.2 b (List.mem_reverse.1 hb)).valid
    exact hblock.isAccurate
  · exact fun x => insert_exchanges
  · exact fun x => insert_appends (hfilled.1 ▸ hcapacity)
  · intro x changed herase
    obtain ⟨blocks, hblocks, rfl⟩ := Option.map_eq_some_iff.1 herase
    exact exchanges_of_changeFirst hblocks
  · exact fun keep => List.map_reverse.symm

/-- Three blocks of one place each, with one handle in the oldest and in the newest of
them. The newest gives it up, and the emptied block stays. -/
theorem Records.isBag_repeated :
    ∃ p : Pool, Records PoolId.collector 1 {⟨1, 0⟩, ⟨0, 0⟩} p ∧
      p.toList = [⟨0, 0⟩, ⟨1, 0⟩] ∧ p.blocks.length = 3 ∧ p.IsBag 1 {⟨1, 0⟩, ⟨0, 0⟩} := by
  have hnew : Records PoolId.collector 1 0 (Pool.new PoolId.collector 1) := .new
  have hrecords := (((hnew.insert ⟨0, 0⟩).insert ⟨1, 0⟩).insert ⟨0, 0⟩).erase ⟨0, 0⟩
  rw [Multiset.erase_cons_head] at hrecords
  exact ⟨_, hrecords, by decide +kernel, by decide +kernel, hrecords.isBag Nat.one_pos⟩

end Pool

end ObjectSystem

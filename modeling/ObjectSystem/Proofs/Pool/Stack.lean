/-
# Laws of pools and of their stack

A pool is a bag of handles, and the stack of pools is a bag of entries: pairs of
a pool number and a handle. Each operation on pools adds or removes entries and
does nothing else, whatever blocks the handles are spread over.
-/

import Mathlib.Algebra.Group.Nat.Defs
import Mathlib.Data.List.Nodup
import Mathlib.Data.List.TakeWhile
import ObjectSystem.Pool.Stack
import ObjectSystem.Proofs.Pool.Block

namespace ObjectSystem

namespace Pool

/-- Every block of a pool is valid. -/
def Valid (p : Pool) : Prop :=
  ∀ b ∈ p.newestFirst, b.Valid

theorem valid_new (id : PoolId) (blockCapacity : Nat) : (new id blockCapacity).Valid := by
  intro b hb
  rw [List.mem_singleton.1 hb]
  exact Block.valid_new blockCapacity

@[simp]
theorem toList_new (id : PoolId) (blockCapacity : Nat) : (new id blockCapacity).toList = [] := by
  simp [new, toList, blocks, Block.toList, Block.new]

theorem toList_perm (p : Pool) : p.toList.Perm (p.newestFirst.flatMap Block.toList) :=
  (List.reverse_perm _).flatMap_right _

theorem contains_iff {p : Pool} {x : Handle} : p.contains x = true ↔ x ∈ p.toList := by
  rw [(toList_perm p).mem_iff, List.mem_flatMap]
  simp [contains, Block.contains]

/-- A change of the first block on which it succeeds leaves the blocks around this one
alone, and it did not succeed on the blocks before. -/
theorem changeFirst_eq_some {change : Block → Option Block} {l l' : List Block}
    (hchange : changeFirst change l = some l') :
    ∃ front b changed back, l = front ++ b :: back ∧ l' = front ++ changed :: back ∧
      change b = some changed ∧ ∀ c ∈ front, change c = none := by
  induction l generalizing l' with
  | nil => cases hchange
  | cons b rest ih =>
      unfold changeFirst at hchange
      split at hchange
      · next changed hb =>
          cases hchange
          exact ⟨[], b, changed, rest, rfl, rfl, hb, List.forall_mem_nil _⟩
      · next hb =>
          obtain ⟨rest', hrest, rfl⟩ := Option.map_eq_some_iff.1 hchange
          obtain ⟨front, c, changed, back, rfl, rfl, hc, hfront⟩ := ih hrest
          exact ⟨b :: front, c, changed, back, rfl, rfl, hc,
            List.forall_mem_cons.2 ⟨hb, hfront⟩⟩

theorem changeFirst_eq_none_iff {change : Block → Option Block} {l : List Block} :
    changeFirst change l = none ↔ ∀ b ∈ l, change b = none := by
  induction l with
  | nil => simp [changeFirst]
  | cons b rest ih =>
      rw [List.forall_mem_cons, ← ih]
      cases hb : change b <;> simp [changeFirst, hb]

/-- What holds of every block holds still after one block was replaced by another of
which it holds. -/
theorem forall_replace {P : Block → Prop} {front back : List Block} {b changed : Block}
    (hall : ∀ c ∈ front ++ b :: back, P c) (hchanged : P changed) :
    ∀ c ∈ front ++ changed :: back, P c := by
  intro c hc
  rcases List.mem_append.1 hc with hc | hc
  · exact hall c (by simp [hc])
  · rcases List.mem_cons.1 hc with rfl | hc
    · exact hchanged
    · exact hall c (by simp [hc])

theorem Valid.insert {p : Pool} (hvalid : p.Valid) (x : Handle) : (p.insert x).Valid := by
  unfold Pool.insert
  split
  · next blocks hblocks =>
      obtain ⟨front, b, changed, back, heq, rfl, hb, -⟩ := changeFirst_eq_some hblocks
      have hall : ∀ c ∈ front ++ b :: back, c.Valid := heq ▸ hvalid
      exact forall_replace hall ((hall b (by simp)).insert? hb).1
  · intro c hc
    rcases List.mem_cons.1 hc with rfl | hc
    · cases hblock : (Block.new p.blockCapacity).insert? x with
      | none => exact Block.valid_new _
      | some block => exact ((Block.valid_new _).insert? hblock).1
    · exact hvalid c hc

/-- A handle put into a pool is one more handle of it. -/
theorem Valid.insert_perm {p : Pool} (hvalid : p.Valid) (hcapacity : 0 < p.blockCapacity)
    (x : Handle) : (p.insert x).toList.Perm (x :: p.toList) := by
  refine (toList_perm _).trans (List.Perm.trans ?_ ((toList_perm p).symm.cons x))
  unfold Pool.insert
  split
  · next blocks hblocks =>
      obtain ⟨front, b, changed, back, heq, rfl, hb, -⟩ := changeFirst_eq_some hblocks
      have hall : ∀ c ∈ front ++ b :: back, c.Valid := heq ▸ hvalid
      have hperm := ((hall b (by simp)).insert? hb).2
      simp only [heq, List.flatMap_append, List.flatMap_cons]
      refine ((hperm.append_right _).append_left _).trans ?_
      simp
  · have hroom : (Block.new p.blockCapacity).insert? x ≠ none := by
      simp [Block.insert?_eq_none_iff, Block.new, Block.capacity, Nat.ne_of_gt hcapacity]
    obtain ⟨block, hblock⟩ := Option.ne_none_iff_exists'.1 hroom
    have hperm := ((Block.valid_new p.blockCapacity).insert? hblock).2
    have hempty : (Block.new p.blockCapacity).toList = [] := by
      simp [Block.toList, Block.new]
    rw [hempty] at hperm
    simp only [hblock, Option.getD_some, List.flatMap_cons, List.perm_singleton.1 hperm,
      List.singleton_append]
    exact List.Perm.refl _

@[simp]
theorem insert_id (p : Pool) (x : Handle) : (p.insert x).id = p.id := by
  unfold Pool.insert
  split <;> rfl

@[simp]
theorem insert_blockCapacity (p : Pool) (x : Handle) :
    (p.insert x).blockCapacity = p.blockCapacity := by
  unfold Pool.insert
  split <;> rfl

/-- A handle taken out of a pool is one handle less of it. -/
theorem Valid.erase? {p changed : Pool} {x : Handle} (hvalid : p.Valid)
    (herase : p.erase? x = some changed) :
    changed.Valid ∧ p.toList.Perm (x :: changed.toList) ∧ changed.id = p.id ∧
      changed.blockCapacity = p.blockCapacity := by
  obtain ⟨blocks, hblocks, rfl⟩ := Option.map_eq_some_iff.1 herase
  obtain ⟨front, b, block, back, heq, rfl, hb, -⟩ := changeFirst_eq_some hblocks
  have hall : ∀ c ∈ front ++ b :: back, c.Valid := heq ▸ hvalid
  obtain ⟨hblock, hperm⟩ := (hall b (by simp)).erase? hb
  refine ⟨forall_replace hall hblock, ?_, rfl, rfl⟩
  refine (toList_perm p).trans (List.Perm.trans ?_ ((toList_perm _).symm.cons x))
  simp only [heq, List.flatMap_append, List.flatMap_cons]
  refine ((hperm.append_right _).append_left _).trans ?_
  simp

theorem Valid.erase?_eq_none_iff {p : Pool} (hvalid : p.Valid) {x : Handle} :
    p.erase? x = none ↔ x ∉ p.toList := by
  rw [(toList_perm p).mem_iff, List.mem_flatMap]
  simp only [Pool.erase?, Option.map_eq_none_iff, changeFirst_eq_none_iff, not_exists,
    not_and]
  exact forall_congr' fun b => forall_congr' fun hb => (hvalid b hb).erase?_eq_none_iff

theorem Valid.filter {p : Pool} (hvalid : p.Valid) (keep : Handle → Bool) :
    (p.filter keep).Valid ∧ (p.filter keep).toList = p.toList.filter keep := by
  constructor
  · intro c hc
    obtain ⟨b, hb, rfl⟩ := List.mem_map.1 hc
    exact ((hvalid b hb).filter keep).1
  · have hlist : ∀ l : List Block, (∀ b ∈ l, b.Valid) →
        (l.map (Block.filter keep)).flatMap Block.toList =
          (l.flatMap Block.toList).filter keep := by
      intro l hl
      rw [List.flatMap_map, List.filter_flatMap]
      exact List.flatMap_congr fun b hb => ((hl b hb).filter keep).2
    simp only [Pool.toList, blocks, Pool.filter, ← List.map_reverse]
    exact hlist _ fun b hb => hvalid b (List.mem_reverse.1 hb)

end Pool

namespace PoolStack

variable {s : PoolStack} {id : PoolId} {x : Handle}

/-- The entries of all pools: which handle is in which pool, as often as it is. -/
def entries (s : PoolStack) : List (PoolId × Handle) :=
  s.collector.toList.map (PoolId.collector, ·) ++
    s.innermostFirst.flatMap fun p => p.toList.map (p.id, ·)

/-- The pools of a stack are valid, with room in every new block, and the open
scopes have different numbers among those given out. -/
structure Valid (s : PoolStack) : Prop where
  collector_valid : s.collector.Valid
  scopes_valid : ∀ p ∈ s.innermostFirst, p.Valid
  capacity_pos : 0 < s.blockCapacity
  collector_capacity : s.collector.blockCapacity = s.blockCapacity
  collector_id : s.collector.id = PoolId.collector
  scopes_capacity : ∀ p ∈ s.innermostFirst, p.blockCapacity = s.blockCapacity
  ids_nodup : (s.innermostFirst.map Pool.id).Nodup
  number_pos : ∀ p ∈ s.innermostFirst, 0 < p.id.number.toNat
  number_le : ∀ p ∈ s.innermostFirst, p.id.number.toNat ≤ s.opened

theorem isCollector_iff : id.isCollector = true ↔ id = PoolId.collector :=
  beq_iff_eq

theorem Valid.id_ne_collector (hvalid : s.Valid) {p : Pool} (hp : p ∈ s.innermostFirst) :
    p.id ≠ PoolId.collector := by
  intro heq
  have := hvalid.number_pos p hp
  rw [heq] at this
  exact absurd this (by decide)

theorem valid_new {blockCapacity : Nat} (hcapacity : 0 < blockCapacity) :
    (new blockCapacity).Valid where
  collector_valid := Pool.valid_new _ _
  scopes_valid := by simp [new]
  capacity_pos := hcapacity
  collector_capacity := rfl
  collector_id := rfl
  scopes_capacity := by simp [new]
  ids_nodup := List.nodup_nil
  number_pos := by simp [new]
  number_le := by simp [new]

@[simp]
theorem entries_new (blockCapacity : Nat) : (new blockCapacity).entries = [] := by
  simp [new, entries]

theorem mem_entries_collector (hvalid : s.Valid) :
    (PoolId.collector, x) ∈ s.entries ↔ x ∈ s.collector.toList := by
  simp only [entries, List.mem_append, List.mem_map, Prod.mk.injEq, true_and,
    exists_eq_right, List.mem_flatMap]
  constructor
  · rintro (hx | ⟨p, hp, _, _, hid, _⟩)
    · exact hx
    · exact absurd hid (hvalid.id_ne_collector hp)
  · exact Or.inl

theorem mem_entries_scope (hid : id ≠ PoolId.collector) :
    (id, x) ∈ s.entries ↔ ∃ p ∈ s.innermostFirst, p.id = id ∧ x ∈ p.toList := by
  simp only [entries, List.mem_append, List.mem_map, Prod.mk.injEq, List.mem_flatMap]
  constructor
  · rintro (⟨_, _, heq, _⟩ | ⟨p, hp, y, hy, rfl, rfl⟩)
    · exact absurd heq.symm hid
    · exact ⟨p, hp, rfl, hy⟩
  · rintro ⟨p, hp, rfl, hx⟩
    exact Or.inr ⟨p, hp, x, hx, rfl, rfl⟩

theorem changePool_append {change : Pool → Pool} {front back : List Pool} {p : Pool}
    (hfront : ∀ q ∈ front, q.id ≠ id) (hp : p.id = id) :
    changePool id change (front ++ p :: back) = front ++ change p :: back := by
  induction front with
  | nil => simp [changePool, hp]
  | cons q front ih =>
      rw [List.cons_append, changePool, if_neg (hfront q (by simp)),
        ih fun r hr => hfront r (by simp [hr])]
      rfl

/-- The pool found under the number of a scope is the innermost one with it. -/
theorem exists_append_of_get? (hid : id ≠ PoolId.collector) {p : Pool}
    (hget : s.get? id = some p) :
    ∃ front back, s.innermostFirst = front ++ p :: back ∧ p.id = id ∧
      ∀ q ∈ front, q.id ≠ id := by
  rw [get?, if_neg (by rwa [isCollector_iff]), List.find?_eq_some_iff_append] at hget
  obtain ⟨hp, front, back, heq, hfront⟩ := hget
  exact ⟨front, back, heq, eq_of_beq hp, fun q hq => by simpa using hfront q hq⟩

theorem get?_eq_none_iff :
    s.get? id = none ↔ id ≠ PoolId.collector ∧ ∀ p ∈ s.innermostFirst, p.id ≠ id := by
  by_cases hid : id = PoolId.collector
  · simp [get?, isCollector_iff, hid]
  · simp [get?, isCollector_iff, hid, List.find?_eq_none]

/-- Where there is no pool with a number, nothing is changed under it. -/
theorem modify_of_get?_eq_none (hget : s.get? id = none) (change : Pool → Pool) :
    s.modify id change = s := by
  obtain ⟨hid, hscopes⟩ := get?_eq_none_iff.1 hget
  have hsame : ∀ l : List Pool, (∀ p ∈ l, p.id ≠ id) → changePool id change l = l := by
    intro l hl
    induction l with
    | nil => rfl
    | cons p l ih =>
        obtain ⟨hp, hl⟩ := List.forall_mem_cons.1 hl
        rw [changePool, if_neg hp, ih hl]
  rw [PoolStack.modify, if_neg (by rwa [isCollector_iff]), hsame _ hscopes]

theorem get?_collector : s.get? PoolId.collector = some s.collector := rfl

/-- New objects go into a pool of the stack. -/
theorem exists_get?_current (s : PoolStack) : ∃ p, s.get? s.current = some p := by
  rw [← Option.ne_none_iff_exists', ne_eq, get?_eq_none_iff, not_and]
  intro hcurrent hall
  cases hscopes : s.innermostFirst with
  | nil => exact hcurrent (by simp [current, hscopes])
  | cons p rest => exact hall p (by simp [hscopes]) (by simp [current, hscopes])

theorem enclosing_mem (s : PoolStack) (id : PoolId) :
    s.enclosing id = PoolId.collector ∨
      ∃ p ∈ s.innermostFirst, p.id = s.enclosing id ∧ p.id ≠ id := by
  unfold enclosing
  cases hlast : (s.scopeIds.takeWhile (· != id)).getLast? with
  | none => exact Or.inl rfl
  | some outer =>
      refine Or.inr ?_
      have hmem := List.mem_of_getLast? hlast
      have hscope := (List.takeWhile_sublist _).mem hmem
      have hne := List.mem_takeWhile_imp hmem
      rw [scopeIds, List.mem_reverse, List.mem_map] at hscope
      obtain ⟨p, hp, hpid⟩ := hscope
      exact ⟨p, hp, hpid, by simpa [hpid] using hne⟩

/-- Around every scope there is a pool of the stack. -/
theorem exists_get?_enclosing (s : PoolStack) (id : PoolId) :
    ∃ p, s.get? (s.enclosing id) = some p := by
  rw [← Option.ne_none_iff_exists', ne_eq, get?_eq_none_iff, not_and]
  intro hne hall
  rcases s.enclosing_mem id with heq | ⟨p, hp, hpid, _⟩
  · exact hne heq
  · exact hall p hp hpid

theorem perm_pull {α : Type} (a b c d : List α) :
    (a ++ (b ++ (c ++ d))).Perm (c ++ (a ++ (b ++ d))) :=
  ((List.perm_append_comm_assoc b c d).append_left a).trans
    (List.perm_append_comm_assoc a c _)

/-- A scope may be exchanged for one of the same number and capacity. -/
theorem Valid.exchange {front back : List Pool} {p changed : Pool} (hvalid : s.Valid)
    (heq : s.innermostFirst = front ++ p :: back) (hchanged : changed.Valid)
    (hid : changed.id = p.id) (hcapacity : changed.blockCapacity = p.blockCapacity) :
    ({ s with innermostFirst := front ++ changed :: back } : PoolStack).Valid := by
  have hmem : p ∈ s.innermostFirst := by simp [heq]
  have hold : ∀ q ∈ front ++ changed :: back, q = changed ∨ q ∈ s.innermostFirst := by
    intro q hq
    simp only [List.mem_append, List.mem_cons] at hq
    rcases hq with hq | rfl | hq
    · simp [heq, hq]
    · exact Or.inl rfl
    · simp [heq, hq]
  refine
    { hvalid with
      scopes_valid := fun q hq => ?scopes_valid
      scopes_capacity := fun q hq => ?scopes_capacity
      ids_nodup := ?ids_nodup
      number_pos := fun q hq => ?number_pos
      number_le := fun q hq => ?number_le }
  case scopes_valid =>
      rcases hold q hq with rfl | hq
      · exact hchanged
      · exact hvalid.scopes_valid q hq
  case scopes_capacity =>
      rcases hold q hq with rfl | hq
      · exact hcapacity.trans (hvalid.scopes_capacity p hmem)
      · exact hvalid.scopes_capacity q hq
  case ids_nodup =>
      have hnodup := hvalid.ids_nodup
      simpa [heq, hid] using hnodup
  case number_pos =>
      rcases hold q hq with rfl | hq
      · exact hid ▸ hvalid.number_pos p hmem
      · exact hvalid.number_pos q hq
  case number_le =>
      rcases hold q hq with rfl | hq
      · exact hid ▸ hvalid.number_le p hmem
      · exact hvalid.number_le q hq

/-- Changing one pool of a stack exchanges the entries of this pool and keeps all
others. -/
theorem Valid.modify (hvalid : s.Valid) {p : Pool} (hget : s.get? id = some p)
    (change : Pool → Pool) (hchange : (change p).Valid) (hid : (change p).id = p.id)
    (hcapacity : (change p).blockCapacity = p.blockCapacity) :
    (s.modify id change).Valid ∧
      ∃ rest, s.entries.Perm (p.toList.map (id, ·) ++ rest) ∧
        (s.modify id change).entries.Perm ((change p).toList.map (id, ·) ++ rest) := by
  by_cases hcollector : id = PoolId.collector
  · subst hcollector
    rw [get?_collector, Option.some.injEq] at hget
    subst hget
    refine ⟨{ hvalid with
        collector_valid := hchange
        collector_capacity := hcapacity.trans hvalid.collector_capacity
        collector_id := hid.trans hvalid.collector_id },
      s.innermostFirst.flatMap fun p => p.toList.map (p.id, ·), ?_, ?_⟩
    · exact List.Perm.refl _
    · exact List.Perm.refl _
  · obtain ⟨front, back, heq, rfl, hfront⟩ := exists_append_of_get? hcollector hget
    have hmodify : s.modify p.id change =
        { s with innermostFirst := front ++ change p :: back } := by
      rw [PoolStack.modify, if_neg (by rwa [isCollector_iff]), heq,
        changePool_append hfront rfl]
    rw [hmodify]
    refine ⟨hvalid.exchange heq hchange hid hcapacity,
      s.collector.toList.map (PoolId.collector, ·) ++
        ((front ++ back).flatMap fun q => q.toList.map (q.id, ·)), ?_, ?_⟩
    · simp only [entries, heq, List.flatMap_append, List.flatMap_cons]
      exact perm_pull _ _ _ _
    · simp only [entries, hid, List.flatMap_append, List.flatMap_cons]
      exact perm_pull _ _ _ _

theorem Valid.get? (hvalid : s.Valid) {p : Pool} (hget : s.get? id = some p) :
    p.Valid ∧ p.id = id ∧ p.blockCapacity = s.blockCapacity := by
  by_cases hcollector : id = PoolId.collector
  · subst hcollector
    rw [get?_collector, Option.some.injEq] at hget
    subst hget
    exact ⟨hvalid.collector_valid, hvalid.collector_id, hvalid.collector_capacity⟩
  · obtain ⟨front, back, heq, hid, _⟩ := exists_append_of_get? hcollector hget
    have hmem : p ∈ s.innermostFirst := by simp [heq]
    exact ⟨hvalid.scopes_valid p hmem, hid, hvalid.scopes_capacity p hmem⟩

/-- Putting a handle into a pool adds one entry. -/
theorem Valid.modify_insert (hvalid : s.Valid) {p : Pool} (hget : s.get? id = some p)
    (x : Handle) :
    (s.modify id (·.insert x)).Valid ∧
      (s.modify id (·.insert x)).entries.Perm ((id, x) :: s.entries) := by
  obtain ⟨hp, _, hcapacity⟩ := hvalid.get? hget
  have hinsert := hp.insert_perm (hcapacity ▸ hvalid.capacity_pos) x
  obtain ⟨hmodify, rest, hbefore, hafter⟩ := hvalid.modify hget (·.insert x)
    (hp.insert x) (p.insert_id x) (p.insert_blockCapacity x)
  refine ⟨hmodify, hafter.trans (List.Perm.trans ?_ (hbefore.symm.cons _))⟩
  exact ((hinsert.map _).append_right rest)

/-- Whether there is a pool with a number or not, a handle may be put into it. -/
theorem Valid.insert (hvalid : s.Valid) (id : PoolId) (x : Handle) :
    (s.modify id (·.insert x)).Valid := by
  cases hget : s.get? id with
  | none => rwa [modify_of_get?_eq_none hget]
  | some p => exact (hvalid.modify_insert hget x).1

/-- Taking a handle out of a pool removes one entry. -/
theorem Valid.modify_erase (hvalid : s.Valid) {p changed : Pool} (hget : s.get? id = some p)
    (herase : p.erase? x = some changed) :
    (s.modify id fun _ => changed).Valid ∧
      s.entries.Perm ((id, x) :: (s.modify id fun _ => changed).entries) := by
  obtain ⟨hp, _, _⟩ := hvalid.get? hget
  obtain ⟨hchanged, hperm, hid, hcapacity⟩ := hp.erase? herase
  obtain ⟨hmodify, rest, hbefore, hafter⟩ :=
    hvalid.modify hget (fun _ => changed) hchanged hid hcapacity
  refine ⟨hmodify, hbefore.trans (List.Perm.trans ?_ (hafter.symm.cons _))⟩
  exact ((hperm.map _).append_right rest)

/-- A pool gives up a handle exactly if there is an entry for it. -/
theorem Valid.erase?_eq_none_iff (hvalid : s.Valid) {p : Pool} (hget : s.get? id = some p) :
    p.erase? x = none ↔ (id, x) ∉ s.entries := by
  rw [(hvalid.get? hget).1.erase?_eq_none_iff, not_iff_not]
  by_cases hcollector : id = PoolId.collector
  · subst hcollector
    rw [get?_collector, Option.some.injEq] at hget
    rw [mem_entries_collector hvalid, hget]
  · obtain ⟨front, back, heq, hid, _⟩ := exists_append_of_get? hcollector hget
    rw [mem_entries_scope hcollector]
    constructor
    · exact fun hx => ⟨p, by simp [heq], hid, hx⟩
    · rintro ⟨q, hq, hqid, hx⟩
      rwa [List.inj_on_of_nodup_map hvalid.ids_nodup (by simp [heq]) hq (hid.trans hqid.symm)]

/-- Filtering the collector's pool leaves the entries of scopes alone. -/
theorem Valid.modify_filter (hvalid : s.Valid) (keep : Handle → Bool) :
    (s.modify PoolId.collector (Pool.filter keep)).Valid ∧
      (s.modify PoolId.collector (Pool.filter keep)).entries =
        (s.collector.toList.filter keep).map (PoolId.collector, ·) ++
          s.innermostFirst.flatMap fun p => p.toList.map (p.id, ·) := by
  obtain ⟨hfilter, hlist⟩ := hvalid.collector_valid.filter keep
  exact ⟨{ hvalid with collector_valid := hfilter }, by rw [← hlist]; rfl⟩

/-- Opening a scope adds no entry; its number was not given out before. -/
theorem Valid.push (hvalid : s.Valid) (hfits : s.opened + 1 < 2 ^ 32) :
    s.push.2.Valid ∧ s.push.2.entries = s.entries ∧ s.push.1 ≠ PoolId.collector := by
  have hnumber : (UInt32.ofNat (s.opened + 1)).toNat = s.opened + 1 :=
    UInt32.toNat_ofNat_of_lt' hfits
  have hnew : ∀ p ∈ s.innermostFirst, p.id ≠ ⟨UInt32.ofNat (s.opened + 1)⟩ := by
    intro p hp heq
    have hle := hvalid.number_le p hp
    rw [heq, hnumber] at hle
    omega
  refine ⟨?_, by simp [PoolStack.push, entries], fun heq => ?_⟩
  · constructor
    · exact hvalid.collector_valid
    · exact List.forall_mem_cons.2 ⟨Pool.valid_new _ _, hvalid.scopes_valid⟩
    · exact hvalid.capacity_pos
    · exact hvalid.collector_capacity
    · exact hvalid.collector_id
    · exact List.forall_mem_cons.2 ⟨rfl, hvalid.scopes_capacity⟩
    · refine List.nodup_cons.2 ⟨fun hmem => ?_, hvalid.ids_nodup⟩
      obtain ⟨p, hp, hid⟩ := List.mem_map.1 hmem
      exact hnew p hp hid
    · refine List.forall_mem_cons.2 ⟨?_, hvalid.number_pos⟩
      simp only [Pool.new, hnumber]
      omega
    · refine List.forall_mem_cons.2 ⟨?_, fun p hp => ?_⟩
      · simp only [Pool.new, hnumber, PoolStack.push]
        omega
      · exact Nat.le_succ_of_le (hvalid.number_le p hp)
  · have hzero := congrArg (fun id : PoolId => id.number.toNat) heq
    simp only [PoolStack.push, hnumber] at hzero
    exact absurd hzero (Nat.succ_ne_zero _)

/-- Closing scopes splits the open ones into the closed and the kept. -/
theorem Valid.pop (hvalid : s.Valid) {closed : List Pool} {kept : PoolStack}
    (hpop : s.pop id = .ok (closed, kept)) :
    kept.Valid ∧ kept.collector = s.collector ∧
      s.innermostFirst = closed ++ kept.innermostFirst ∧ kept.opened = s.opened := by
  unfold PoolStack.pop at hpop
  split at hpop
  · cases hpop
  simp only at hpop
  split at hpop
  · cases hpop
  next hclosed =>
  simp only [Except.ok.injEq, Prod.mk.injEq] at hpop
  obtain ⟨rfl, rfl⟩ := hpop
  have hsplit : s.innermostFirst =
      (s.innermostFirst.reverse.dropWhile (·.id != id)).reverse ++
        (s.innermostFirst.reverse.takeWhile (·.id != id)).reverse := by
    rw [← List.reverse_append, List.takeWhile_append_dropWhile, List.reverse_reverse]
  have hsub : ∀ p, p ∈ (s.innermostFirst.reverse.takeWhile (·.id != id)).reverse →
      p ∈ s.innermostFirst := by
    intro p hp
    rw [hsplit]
    exact List.mem_append_right _ hp
  refine ⟨?_, rfl, hsplit, rfl⟩
  constructor
  · exact hvalid.collector_valid
  · exact fun p hp => hvalid.scopes_valid p (hsub p hp)
  · exact hvalid.capacity_pos
  · exact hvalid.collector_capacity
  · exact hvalid.collector_id
  · exact fun p hp => hvalid.scopes_capacity p (hsub p hp)
  · have hnodup := hvalid.ids_nodup
    rw [hsplit, List.map_append] at hnodup
    exact (List.nodup_append.1 hnodup).2.1
  · exact fun p hp => hvalid.number_pos p (hsub p hp)
  · exact fun p hp => hvalid.number_le p (hsub p hp)

end PoolStack

end ObjectSystem

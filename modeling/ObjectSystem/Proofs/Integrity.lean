/-
# Referential integrity

In every world that respectful operations lead to, the references of objects lead to
objects, and the ownership of an object says in which pool it is found and how many
slots hold it. Respectful operations never find that this is not so.
-/

import Mathlib.Data.List.Count
import ObjectSystem.Proofs.Reachable
import ObjectSystem.Proofs.Reclaiming

namespace ObjectSystem

namespace PoolStack

variable {s : PoolStack} {p : Pool} {x : Handle}

/-- All pools, the collector's first. -/
def all (s : PoolStack) : List Pool :=
  s.collector :: s.innermostFirst

theorem Valid.nodup_all (hvalid : s.Valid) : (s.all.map Pool.id).Nodup := by
  rw [all, List.map_cons, List.nodup_cons]
  refine ⟨fun hmem => ?_, hvalid.ids_nodup⟩
  obtain ⟨p, hp, hid⟩ := List.mem_map.1 hmem
  exact hvalid.id_ne_collector hp (hid.trans hvalid.collector_id)

theorem Valid.entries_eq (hvalid : s.Valid) :
    s.entries = s.all.flatMap fun p => p.toList.map (p.id, ·) := by
  rw [all, List.flatMap_cons, hvalid.collector_id]
  rfl

theorem count_flatMap {l : List Pool} (hnodup : (l.map Pool.id).Nodup) (hp : p ∈ l) :
    (l.flatMap fun q => q.toList.map (q.id, ·)).count (p.id, x) = p.toList.count x := by
  have hself : ∀ q : Pool, (q.toList.map (q.id, ·)).count (q.id, x) = q.toList.count x := by
    intro q
    exact List.count_map_of_injective _ _ (fun _ _ heq => (Prod.mk.inj heq).2) x
  induction l with
  | nil => cases hp
  | cons q l ih =>
      rw [List.map_cons, List.nodup_cons] at hnodup
      rw [List.flatMap_cons, List.count_append]
      rcases List.mem_cons.1 hp with rfl | hp
      · have hrest : (l.flatMap fun q => q.toList.map (q.id, ·)).count (p.id, x) = 0 := by
          refine List.count_eq_zero.2 fun hmem => hnodup.1 ?_
          obtain ⟨q, hq, hmem⟩ := List.mem_flatMap.1 hmem
          obtain ⟨y, _, heq⟩ := List.mem_map.1 hmem
          exact List.mem_map.2 ⟨q, hq, (Prod.mk.inj heq).1⟩
        rw [hself, hrest, Nat.add_zero]
      · have hfirst : (q.toList.map (q.id, ·)).count (p.id, x) = 0 := by
          refine List.count_eq_zero.2 fun hmem => hnodup.1 ?_
          obtain ⟨y, _, heq⟩ := List.mem_map.1 hmem
          exact List.mem_map.2 ⟨p, hp, (Prod.mk.inj heq).1.symm⟩
        rw [hfirst, Nat.zero_add, ih hnodup.2 hp]

end PoolStack

namespace World

variable {w : World}

/-- The ownership of objects says where they are found. -/
structure Classified (w : World) : Prop where
  ids_nodup : (w.pools.all.map Pool.id).Nodup
  /-- What a scope answers for is in its pool once, in no other and in no slot. -/
  of_pool : ∀ x o id, w.objects.get? x = some o → o.header.ownership = .pool id →
    id ∈ w.pools.scopeIds ∧
      (∀ p ∈ w.pools.all, p.toList.count x = if p.id = id then 1 else 0) ∧
      ∀ s, ¬ w.objects.Holds s x
  /-- What a slot answers for is in no pool and in no other slot. -/
  of_single : ∀ x o, w.objects.get? x = some o → o.header.ownership = .single →
    (∀ p ∈ w.pools.all, x ∉ p.toList) ∧
      ∀ s t, w.objects.Holds s x → w.objects.Holds t x → s = t
  /-- What is shared is in the collector's pool once and in no other. -/
  of_shared : ∀ x o, w.objects.get? x = some o → o.header.ownership = .shared →
    ∀ p ∈ w.pools.all, p.toList.count x = if p.id = PoolId.collector then 1 else 0
  pinned_shared : ∀ x o, w.objects.get? x = some o → o.header.pinned = true →
    o.header.ownership = .shared
  /-- What a pool lists is there, and the pool answers for it. -/
  entry : ∀ p ∈ w.pools.all, ∀ x ∈ p.toList,
    ∃ o, w.objects.get? x = some o ∧ o.header.ownership = .ofPool p.id

theorem Coherent.mem_entries_iff (hcoherent : w.Coherent) {p : Pool} (hp : p ∈ w.pools.all)
    {x : Handle} : (p.id, x) ∈ w.pools.entries ↔ x ∈ p.toList := by
  rw [← List.count_pos_iff, hcoherent.pools.entries_eq,
    PoolStack.count_flatMap hcoherent.pools.nodup_all hp, List.count_pos_iff]

/-- A live object has one entry, in the pool that answers for it, or none. -/
theorem Coherent.count_entries (hcoherent : w.Coherent) {x : Handle} {o : Object}
    (hx : w.objects.get? x = some o) (id : PoolId) :
    w.pools.entries.count (id, x) = if o.header.ownership = .ofPool id then 1 else 0 := by
  have hiff : (id, x) ∈ w.pools.entries ↔ o.header.ownership = .ofPool id := by
    rw [hcoherent.registered.mem_iff]
    constructor
    · rintro ⟨q, hq, hown⟩
      cases hx.symm.trans hq
      exact hown
    · exact fun hown => ⟨o, hx, hown⟩
  rw [hcoherent.registered.nodup.count]
  exact if_congr hiff rfl rfl

/-- A pool lists what it answers for once, and nothing else. -/
theorem Coherent.count_toList (hcoherent : w.Coherent) {p : Pool} (hp : p ∈ w.pools.all)
    {x : Handle} {o : Object} (hx : w.objects.get? x = some o) :
    p.toList.count x = if o.header.ownership = .ofPool p.id then 1 else 0 := by
  rw [← hcoherent.count_entries hx, hcoherent.pools.entries_eq,
    PoolStack.count_flatMap hcoherent.pools.nodup_all hp]

/-- The ownership of objects says where they are found if the parts of a world agree. -/
theorem Coherent.classified (hcoherent : w.Coherent) : w.Classified where
  ids_nodup := hcoherent.pools.nodup_all
  of_pool x o id hx hown := by
    obtain ⟨hmem, hid⟩ := hcoherent.registered.mem_of_pool hx hown
    refine ⟨?_, fun p hp => ?_, hcoherent.linked.pool_unheld x o id hx hown⟩
    · obtain ⟨p, hp, hpid, _⟩ := (PoolStack.mem_entries_scope hid).1 hmem
      rw [PoolStack.scopeIds, List.mem_reverse]
      exact hpid ▸ List.mem_map_of_mem hp
    · rw [hcoherent.count_toList hp hx, hown, ← Ownership.ofPool_of_ne hid]
      exact if_congr ⟨fun heq => (Ownership.ofPool_injective heq).symm, fun heq => by rw [heq]⟩
        rfl rfl
  of_single x o hx hown := by
    refine ⟨fun p hp hmem => ?_, hcoherent.linked.single_held_once x o hx hown List.not_mem_nil⟩
    exact hcoherent.registered.not_mem_of_single hx hown p.id
      ((hcoherent.mem_entries_iff hp).2 hmem)
  of_shared x o hx hown p hp := by
    rw [hcoherent.count_toList hp hx, hown, ← Ownership.ofPool_collector]
    exact if_congr ⟨fun heq => (Ownership.ofPool_injective heq).symm, fun heq => by rw [heq]⟩
      rfl rfl
  pinned_shared := hcoherent.linked.pinned_shared
  entry p hp x hx :=
    (hcoherent.registered.mem_iff p.id x).1 ((hcoherent.mem_entries_iff hp).2 hx)

namespace Respectful

variable {settings : Settings} {x y : Handle} {o : Object}

/-- That what is put in carries no pin is needed: whatever answers for it, a pinned object is
not freed. -/
theorem get?_free_pinned (hx : w.objects.get? x = some o) (hpinned : o.header.pinned = true)
    (y : Handle) : (w.free y).objects.get? x = some o := by
  refine World.get?_reclaim.2 ⟨hx, fun hfalls => ?_⟩
  rw [hfalls.unpinned hx] at hpinned
  cases hpinned

end Respectful

end World

end ObjectSystem

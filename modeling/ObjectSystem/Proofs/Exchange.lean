/-
# What writing a slot does

A write that exchanges one value for another does three things. The slot takes over the new
value, which changes the state of this one object and of one pool at most. The contents of
the slot are exchanged. Then the cascade of the old value is freed, if the slot alone
answered for it. All else stays as it was.

The cascade runs through what the objects refer to after the exchange. So it does not stop
at the object that the slot is in, and the new value may belong to it.
-/

import ObjectSystem.Proofs.Cascade
import ObjectSystem.Proofs.WriteBack

namespace ObjectSystem

namespace World

/-- A slot takes over a value, if there is one. A pool that answered for it gives it up, and
the slot answers for it alone. If a slot did that already, the value becomes shared and the
collector's pool takes it in. -/
inductive TakesOver (w : World) : Option Handle → World → Prop where
  | absent : TakesOver w none w
  | taken {x : Handle} {o : Object} {id : PoolId} {pool left : Pool}
      (ho : w.objects.get? x = some o) (hown : o.header.ownership = .pool id)
      (hpool : w.pools.get? id = some pool) (hleft : pool.erase? x = some left) :
      TakesOver w (some x)
        { w with
          objects := w.objects.modify x (·.setOwnership .single)
          pools := w.pools.modify id fun _ => left }
  | promoted {x : Handle} {o : Object} (ho : w.objects.get? x = some o)
      (hown : o.header.ownership = .single) :
      TakesOver w (some x)
        { w with
          objects := w.objects.modify x (·.setOwnership .shared)
          pools := w.pools.modify PoolId.collector (·.insert x)
          promotions := w.promotions + 1 }
  | shared {x : Handle} {o : Object} (ho : w.objects.get? x = some o)
      (hown : o.header.ownership = .shared) : TakesOver w (some x) w

/-- A value that a pool answered for is left to the slot alone, and is then stored. -/
theorem TakesOver.store_of_pool {w w₁ : World} {x : Handle} {o : Object} {id : PoolId}
    (htakes : w.TakesOver (some x) w₁) (s : Slot) (ho : w.objects.get? x = some o)
    (hown : o.header.ownership = .pool id) :
    (w₁.store s (some x)).objects = ((w.setOwnership x .single).store s (some x)).objects ∧
      w₁.promotions = w.promotions := by
  cases htakes with
  | taken => exact ⟨rfl, rfl⟩
  | promoted ho' hown' | shared ho' hown' =>
      cases ho.symm.trans ho'
      cases hown.symm.trans hown'

/-- What goes when a slot has been written: the cascade of the old value, if this slot alone
had answered for it. `w₁` is the world in which the slot has taken over the new value. -/
def Displaces (w w₁ : World) (s : Slot) (old value : Option Handle) (x : Handle) : Prop :=
  (w₁.store s value).objects.Cascade (old.toList.filter (isSingle w.objects)) x

/-- What a write does when the slot has taken over the new value. -/
structure Exchanges (w w₁ w' : World) (s : Slot) (old value : Option Handle) : Prop where
  /-- What goes is gone, and what stays is as it was, but for the slot. -/
  objects : ∀ x o, w'.objects.get? x = some o ↔
    (w₁.store s value).objects.get? x = some o ∧ ¬ w.Displaces w₁ s old value x
  counted : ∃ freed : Finset Handle, (∀ x, x ∈ freed ↔ w.Displaces w₁ s old value x) ∧
    w'.objects.removed = w.objects.removed + freed.card
  inserted_eq : w'.objects.inserted = w.objects.inserted
  cells_eq : w'.objects.cells.size = w.objects.cells.size
  rest_eq : w' = { w₁ with objects := w'.objects }

end World

namespace Action

open World

variable {w w' w₁ : World} {s : Slot} {old value : Option Handle} {x : Handle} {o : Object}

/-- A pool that gives up a handle is left without it, and nothing else changes. -/
theorem eq_of_removeFromPool {id : PoolId}
    (hperform : (removeFromPool x id).perform w = (.ok (), w')) :
    ∃ pool left, w.pools.get? id = some pool ∧ pool.erase? x = some left ∧
      w' = { w with pools := w.pools.modify id fun _ => left } := by
  unfold removeFromPool at hperform
  rw [perform_bind_ok (perform_get w)] at hperform
  cases hpool : w.pools.get? id with
  | none =>
      simp only [hpool] at hperform
      cases hperform
  | some pool =>
      cases hleft : pool.erase? x with
      | none =>
          simp only [hpool, hleft] at hperform
          cases hperform
      | some left =>
          simp only [hpool, hleft] at hperform
          cases hperform
          exact ⟨pool, left, rfl, hleft, rfl⟩

/-- Claiming a value for a slot lets the slot take it over. -/
theorem takesOver_claim (hperform : (value.forM claim).perform w = (.ok (), w₁)) :
    w.TakesOver value w₁ := by
  cases value with
  | none =>
      cases hperform
      exact .absent
  | some x =>
      change (claim x).perform w = _ at hperform
      unfold claim at hperform
      rw [perform_query_bind] at hperform
      cases ho : w.objects.get? x with
      | none =>
          rw [ownership_eq_error ho] at hperform
          cases hperform
      | some o =>
          rw [ownership_eq_ok ho] at hperform
          cases hown : o.header.ownership with
          | pool id =>
              simp only [hown] at hperform
              obtain ⟨_, w₂, hremove, hmodify⟩ := perform_bind_eq_ok_iff.1 hperform
              obtain ⟨pool, left, hpool, hleft, rfl⟩ := eq_of_removeFromPool hremove
              cases hmodify
              exact .taken ho hown hpool hleft
          | single =>
              simp only [hown] at hperform
              unfold promote at hperform
              rw [perform_bind_ok (perform_addToPool PoolStack.get?_collector ho)] at hperform
              cases hperform
              exact .promoted ho hown
          | shared =>
              simp only [hown] at hperform
              cases hperform
              exact .shared ho hown

/-- The arena in which a slot was written has no stale references, and its headers are in
order. -/
theorem Claims.linked_store (hclaims : Claims w w₁ value) (ho : w.objects.get? s.owner = some o)
    (hs : s.peek? o = some old) :
    Linked (w₁.store s value).objects (· ∈ w₁.classes) [] := by
  obtain ⟨h, ho₁, _⟩ := hclaims.header _ o ho
  have hs₁ : s.peek? { o with header := h } = some old := by
    cases s <;> exact hs
  exact hclaims.coherent.linked.store ho₁ hs₁ (Arena.puts_modify ho₁) hclaims.ready

/-- Whether a slot answers for the old value alone does not depend on the new one. -/
theorem Claims.isSingle_store (hclaims : Claims w w₁ value) (hne : value ≠ some x) :
    isSingle (w₁.store s value).objects x = isSingle w.objects x := by
  rw [Bool.eq_iff_iff, isSingle_iff, isSingle_iff, hclaims.get?_store_of_ne hne]
  constructor
  · rintro ⟨p, hp, hsingle⟩
    obtain ⟨q, hq, hheader, _⟩ := get?_of_get?_store hp
    exact ⟨q, hq, by rw [hheader, hsingle]⟩
  · rintro ⟨q, hq, hsingle⟩
    obtain ⟨p, hp, hheader, _⟩ := get?_store_of_get? s value hq
    exact ⟨p, hp, by rw [hheader, hsingle]⟩

/-- An exchange of one value for another takes over the new value, stores it and frees the
cascade of the old one. -/
theorem exchanges_written (hclaims : Claims w w₁ value) (htakes : w.TakesOver value w₁)
    (ho : w.objects.get? s.owner = some o) (hs : s.peek? o = some old) (hne : old ≠ value) :
    Exchanges w w₁ (written w₁ s old value) s old value := by
  let stored := (w₁.store s value).objects
  have hpending : old.toList.filter (isSingle stored) = old.toList.filter (isSingle w.objects) := by
    refine List.filter_congr fun x hx => hclaims.isSingle_store ?_
    rw [← Option.mem_toList.1 hx]
    exact hne.symm
  have hfalls : ∀ x, stored.Falls (old.toList.filter (isSingle stored)) x ↔
      w.Displaces w₁ s old value x := by
    intro x
    rw [Displaces, ← hpending]
    refine Arena.falls_iff_cascade (hclaims.linked_store ho hs) fun y hy p hp => ?_
    obtain ⟨q, hq, hsingle⟩ := isSingle_iff.1 (List.mem_filter.1 hy).2
    cases hp.symm.trans hq
    rw [hsingle]
    exact Ownership.noConfusion
  obtain ⟨hremoved, hinserted, hcells⟩ : stored.removed = w.objects.removed ∧
      stored.inserted = w.objects.inserted ∧ stored.cells.size = w.objects.cells.size := by
    cases htakes <;> simp [stored, World.store, World.modifyObject, Arena.modify]
  obtain ⟨freed, hfreed, hcount⟩ :=
    exists_removed_reclaim stored (old.toList.filter (isSingle stored))
  refine ⟨fun x p => ?_, ⟨freed, fun x => (hfreed x).trans (hfalls x), hcount.trans ?_⟩, ?_, ?_,
    rfl⟩
  · rw [← hfalls]
    exact get?_reclaim
  · rw [hremoved]
  · exact (inserted_reclaim _ _).trans hinserted
  · exact (size_cells_reclaim _ _).trans hcells

end Action

namespace World

variable {settings : Settings} {w w' : World} {s : Slot} {old value : Option Handle}

end World

end ObjectSystem

/-
# What closing a scope does

Closing a scope closes the scopes that were opened after it too, and no other. It frees
the cascade of what the closed scopes list, returns how many objects that were, and leaves
the rest of the world as it was, but for a warning if several scopes were closed. A number
under which no scope is open is refused and changes nothing.
-/

import ObjectSystem.Proofs.Cascade
import ObjectSystem.Proofs.ScopeBalance

namespace ObjectSystem

namespace PoolStack

variable {s : PoolStack} {id : PoolId} {inner outer : List Pool} {p : Pool}

theorem exists_split (hopen : id ∈ s.scopeIds) :
    ∃ inner p outer, s.innermostFirst = inner ++ p :: outer ∧ p.id = id := by
  obtain ⟨p, hp, hid⟩ := mem_scopeIds.1 hopen
  obtain ⟨inner, outer, hsplit⟩ := List.append_of_mem hp
  exact ⟨inner, p, outer, hsplit, hid⟩

/-- Closing a scope takes it away with all that lies in front of it. -/
theorem Valid.pop_eq (hvalid : s.Valid) (hsplit : s.innermostFirst = inner ++ p :: outer) :
    s.pop p.id = .ok (inner ++ [p], { s with innermostFirst := outer }) := by
  have hid : p.id ≠ PoolId.collector :=
    hvalid.id_ne_collector (hsplit ▸ List.mem_append_right _ List.mem_cons_self)
  have hnodup := hvalid.ids_nodup
  rw [hsplit, List.map_append, List.map_cons] at hnodup
  have houter : ∀ q ∈ outer.reverse, (q.id != p.id) = true := by
    intro q hq
    rw [bne_iff_ne]
    intro heq
    have hnotin := (List.nodup_cons.1 (List.nodup_append.1 hnodup).2.1).1
    exact hnotin (heq ▸ List.mem_map_of_mem (List.mem_reverse.1 hq))
  have hreverse : s.innermostFirst.reverse = outer.reverse ++ p :: inner.reverse := by
    simp [hsplit]
  unfold PoolStack.pop
  rw [if_neg (by rwa [isCollector_iff])]
  simp only [hreverse, List.dropWhile_append_of_pos houter, List.takeWhile_append_of_pos houter]
  simp

/-- Closing a scope that is not open is refused, and so is closing the collector's pool. -/
theorem pop_eq_error (hclosed : id ∉ s.scopeIds ∨ id = PoolId.collector) :
    s.pop id = .error (if id.isCollector then .collectorPoolRelease else .unknownPool id) := by
  unfold pop
  by_cases hid : id.isCollector
  · rw [if_pos hid, if_pos hid]
  · have hclosed := hclosed.resolve_right fun heq => hid (isCollector_iff.2 heq)
    have hdrop : s.innermostFirst.reverse.dropWhile (·.id != id) = [] := by
      rw [List.dropWhile_eq_nil_iff]
      intro p hp
      rw [bne_iff_ne]
      exact fun heq => hclosed (mem_scopeIds.2 ⟨p, List.mem_reverse.1 hp, heq⟩)
    rw [if_neg hid, if_neg hid]
    simp only [hdrop]

end PoolStack

namespace World

/-- What closing the scope `p` does to a world, in which `inner` were opened after `p` and
`outer` before, if `n` objects are freed. -/
structure TearsDown (w w' : World) (inner : List Pool) (p : Pool) (outer : List Pool) (n : Nat) :
    Prop where
  pools_eq : w'.pools = { w.pools with innermostFirst := outer }
  /-- What goes is gone, and what stays is as it was. -/
  objects : ∀ x o, w'.objects.get? x = some o ↔ w.objects.get? x = some o ∧
    ¬ w.objects.Cascade ((inner ++ [p]).flatMap Pool.toList) x
  counted : ∃ freed : Finset Handle, freed.card = n ∧
    ∀ x, x ∈ freed ↔ w.objects.Cascade ((inner ++ [p]).flatMap Pool.toList) x
  removed_eq : w'.objects.removed = w.objects.removed + n
  inserted_eq : w'.objects.inserted = w.objects.inserted
  warnings_eq : w'.warnings = if inner = [] then w.warnings else
    w.warnings.push s!"{p.id.text} released with {inner.length} open inner scope(s)"
  rest_eq : w' = { w with objects := w'.objects, pools := w'.pools, warnings := w'.warnings }

end World

namespace Action

open World

variable {w : World} {id : PoolId} {closed inner outer : List Pool} {kept : PoolStack} {p : Pool}

/-- Closing scopes frees what goes with all that they list, at once. -/
theorem perform_releasePool (hpop : w.pools.pop id = .ok (closed, kept)) :
    let objects := reclaim w.objects (closed.flatMap Pool.toList)
    (releasePool id).perform w = (.ok (objects.removed - w.objects.removed),
      { w with
        objects := objects
        pools := kept
        warnings := if 1 < closed.length then
            w.warnings.push s!"{id.text} released with {closed.length - 1} open inner scope(s)"
          else w.warnings }) := by
  unfold releasePool
  rw [perform_query_bind, hpop]
  show (_, _) = (_, _)
  rw [← List.foldl_flatMap, foldl_free, foldl_reclaim]
  split <;> rfl

/-- In a coherent world what scopes list goes with all that it alone held. -/
theorem tearsDown_releasePool (hcoherent : w.Coherent)
    (hsplit : w.pools.innermostFirst = inner ++ p :: outer) :
    ∃ n w', (releasePool p.id).perform w = (.ok n, w') ∧ w.TearsDown w' inner p outer n := by
  let listed := (inner ++ [p]).flatMap Pool.toList
  have hfalls : ∀ x, w.objects.Falls listed x ↔ w.objects.Cascade listed x := by
    refine fun x => Arena.falls_iff_cascade hcoherent.linked fun y hy o ho => ?_
    obtain ⟨q, hq, hyq⟩ := List.mem_flatMap.1 hy
    have hscope : q ∈ w.pools.innermostFirst := by
      rw [hsplit, ← List.singleton_append, ← List.append_assoc]
      exact List.mem_append_left _ hq
    obtain ⟨o', ho', hown⟩ := ownership_of_mem_scope hcoherent hscope hyq
    cases ho.symm.trans ho'
    rw [hown]
    exact Ownership.noConfusion
  obtain ⟨freed, hfreed, hremoved⟩ := exists_removed_reclaim w.objects listed
  have hcount : (reclaim w.objects listed).removed - w.objects.removed = freed.card := by
    rw [hremoved, Nat.add_sub_cancel_left]
  refine ⟨_, _, perform_releasePool (hcoherent.pools.pop_eq hsplit), rfl, fun x o => ?_,
    ⟨freed, hcount.symm, fun x => (hfreed x).trans (hfalls x)⟩, ?_, inserted_reclaim _ _, ?_, rfl⟩
  · show (reclaim w.objects listed).get? x = some o ↔ _
    rw [get?_reclaim, hfalls]
  · rw [hcount]
    exact hremoved
  · cases inner <;> simp

end Action

namespace World

variable {settings : Settings} {w : World}

/-- A new world in which two scopes were opened, one in the other: a vector was made in the
outer one, two numbers in the inner one, and one of the numbers was put into the vector. -/
def withNestedScopes : World :=
  let w := (Operation.openScope.perform initial).2
  let w := ((Operation.objectVector 1).perform w).2
  let w := (Operation.openScope.perform w).2
  let w := ((Operation.realVector 1).perform w).2
  let w := ((Operation.realVector 1).perform w).2
  ((Operation.set (.element (Builtin.nth 25) 0) (some (Builtin.nth 26))).perform w).2

end World

end ObjectSystem

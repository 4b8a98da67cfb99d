/-
# What a scope returns

A scope that succeeds returns what its body returned. If a scope was opened inside and left
open, it is closed with the outer one, and a result that it answers for is freed. Any other
result stays live: what the closing scope itself answers for is handed to the pool around
it, and what a slot answers for, which the scope may take with it, is shared before.
-/

import Mathlib.Data.Prod.Basic
import ObjectSystem.Proofs.Reachable

namespace ObjectSystem

namespace PoolStack

variable {s kept : PoolStack} {id : PoolId} {closed : List Pool}

/-- The open scopes that were opened after a given one. -/
def inside (s : PoolStack) (id : PoolId) : List PoolId :=
  (s.scopeIds.dropWhile (· != id)).tail

theorem takeWhile_scopeIds_of_pop (hpop : s.pop id = .ok (closed, kept)) :
    s.scopeIds.takeWhile (· != id) = kept.scopeIds ∧
      s.scopeIds.dropWhile (· != id) = id :: s.inside id := by
  unfold pop at hpop
  split at hpop
  · cases hpop
  simp only at hpop
  split at hpop
  · cases hpop
  next hclosed =>
  obtain ⟨_, rfl⟩ := Prod.mk.inj (Except.ok.inj hpop)
  have hids : s.scopeIds = s.innermostFirst.reverse.map Pool.id := List.map_reverse.symm
  have hsame : ((· != id) ∘ Pool.id) = fun p : Pool => p.id != id := rfl
  constructor
  · rw [hids, List.takeWhile_map, hsame]
    simp [scopeIds]
  · cases hcases : s.scopeIds.dropWhile (· != id) with
    | nil =>
        rw [hids, List.dropWhile_map, hsame, List.map_eq_nil_iff] at hcases
        exact absurd hcases hclosed
    | cons id' rest =>
        have hhead := List.head?_dropWhile_not (· != id) s.scopeIds
        rw [hcases] at hhead
        rw [inside, hcases, List.tail_cons]
        simp at hhead
        rw [hhead]

/-- Closing a scope closes it and the scopes inside it. -/
theorem scopeIds_of_pop (hpop : s.pop id = .ok (closed, kept)) :
    s.scopeIds = kept.scopeIds ++ id :: s.inside id := by
  obtain ⟨htake, hdrop⟩ := takeWhile_scopeIds_of_pop hpop
  rw [← htake, ← hdrop, List.takeWhile_append_dropWhile]

/-- The pool around a scope stays open when the scope is closed. -/
theorem enclosing_of_pop (hpop : s.pop id = .ok (closed, kept)) :
    s.enclosing id = PoolId.collector ∨ s.enclosing id ∈ kept.scopeIds := by
  rw [enclosing, (takeWhile_scopeIds_of_pop hpop).1]
  cases hlast : kept.scopeIds.getLast? with
  | none => exact Or.inl rfl
  | some id' => exact Or.inr (List.mem_of_getLast? hlast)

/-- An open scope stays open when another is closed, unless it is inside. -/
theorem mem_kept_iff {id' : PoolId} (hvalid : s.Valid) (hpop : s.pop id = .ok (closed, kept))
    (hopen : id' ∈ s.scopeIds) (hne : id' ≠ id) : id' ∈ kept.scopeIds ↔ id' ∉ s.inside id := by
  have hnodup : s.scopeIds.Nodup := List.nodup_reverse.2 hvalid.ids_nodup
  rw [scopeIds_of_pop hpop] at hnodup hopen
  constructor
  · intro hkept hinside
    exact (List.nodup_append.1 hnodup).2.2 id' hkept id' (List.mem_cons_of_mem _ hinside) rfl
  · intro hout
    rcases List.mem_append.1 hopen with hkept | hclosed
    · exact hkept
    · rcases List.mem_cons.1 hclosed with heq | hinside
      · exact absurd heq hne
      · exact absurd hinside hout

/-- A scope is not inside itself. -/
theorem not_mem_inside (hvalid : s.Valid) (hpop : s.pop id = .ok (closed, kept)) :
    id ∉ s.inside id := by
  have hnodup : s.scopeIds.Nodup := List.nodup_reverse.2 hvalid.ids_nodup
  rw [scopeIds_of_pop hpop] at hnodup
  exact (List.nodup_cons.1 (List.nodup_append.1 hnodup).2.1).1

end PoolStack

namespace Action

open World

variable {w w' : World} {id : PoolId} {v x : Handle} {o : Object}

section Releasing

variable {closed : List Pool} {kept : PoolStack} (hcoherent : w.Coherent)
  (hpop : w.pools.pop id = .ok (closed, kept)) (hreleases : Releases w w' closed kept)
include hcoherent hpop hreleases

/-- What neither a slot nor the scope that is closed answers for stays live unless a scope
inside answers for it. -/
theorem live_iff_of_others (hx : w.objects.get? x = some o)
    (hsingle : o.header.ownership ≠ .single) (hpool : o.header.ownership ≠ .pool id) :
    w'.objects.Live x ↔ ∀ id', o.header.ownership = .pool id' → id' ∉ w.pools.inside id := by
  cases hown : o.header.ownership with
  | single => exact absurd hown hsingle
  | shared =>
      refine ⟨fun _ id' h => ?_, fun _ => ⟨o, hreleases.stays_of_shared hcoherent hpop hx hown⟩⟩
      cases h
  | pool id' =>
      have hne : id' ≠ id := by
        rintro rfl
        exact hpool hown
      obtain ⟨hmem, hid⟩ := hcoherent.registered.mem_of_pool hx hown
      obtain ⟨pool, hscope, rfl, _⟩ := (PoolStack.mem_entries_scope hid).1 hmem
      have hopen : pool.id ∈ w.pools.scopeIds := List.mem_reverse.2 (List.mem_map_of_mem hscope)
      rw [hreleases.live_iff_of_pool hcoherent hpop hx hown, hreleases.pools_eq,
        PoolStack.mem_kept_iff hcoherent.pools hpop hopen hne]
      refine ⟨fun hout id' heq => ?_, fun hall => hall pool.id rfl⟩
      cases heq
      exact hout

/-- What the pool around the scope answers for stays live. -/
theorem live_of_enclosing (hx : w.objects.get? x = some o)
    (hown : o.header.ownership = .ofPool (w.pools.enclosing id)) : w'.objects.Live x := by
  rcases PoolStack.enclosing_of_pop hpop with hcollector | hkept
  · refine ⟨o, hreleases.stays_of_shared hcoherent hpop hx ?_⟩
    rw [hown, hcollector]
    rfl
  · obtain ⟨pool, hscope, hid⟩ := List.mem_map.1 (List.mem_reverse.1 hkept)
    obtain ⟨hkeptValid, _⟩ := hcoherent.pools.pop hpop
    have hpool : o.header.ownership = .pool (w.pools.enclosing id) := by
      rw [hown, Ownership.ofPool_of_ne]
      exact hid ▸ hkeptValid.id_ne_collector hscope
    rw [hreleases.live_iff_of_pool hcoherent hpop hx hpool, hreleases.pools_eq]
    exact hkept

end Releasing

/-- The result of a scope is live afterwards unless a scope answers for it that was left
open inside. -/
theorem live_closeScope_iff (hcoherent : w.Coherent) (hv : w.objects.get? v = some o)
    (hclose : (closeScope id (.ok v)).perform w = (.ok x, w')) :
    x = v ∧ (w'.objects.Live v ↔
      ∀ id', o.header.ownership = .pool id' → id' ∉ w.pools.inside id) := by
  obtain ⟨saved, hsaves, hsave, hcases⟩ := closeScope_spec hcoherent id (.ok v)
  rcases hcases with ⟨e, hfails, _⟩ | ⟨w'', closed, kept, hperform, hpop, hreleases⟩
  · cases hfails.symm.trans hclose
  cases hperform.symm.trans hclose
  refine ⟨rfl, ?_⟩
  have hscopes : saved.pools.scopeIds = w.pools.scopeIds := by
    have hmoves := moves_saveResult id (.ok v) w
    rw [hsave] at hmoves
    exact hmoves.scopes_eq
  have hinside : w.pools.inside id = saved.pools.inside id := by
    rw [PoolStack.inside, ← hscopes, PoolStack.inside]
  have henclosing : w.pools.enclosing id = saved.pools.enclosing id := by
    rw [PoolStack.enclosing, ← hscopes, PoolStack.enclosing]
  have hcoherent' := hsaves.evolves.coherent
  obtain ⟨p, hp, hsingle, hpool⟩ := hsaves.saved v rfl ⟨o, hv⟩
  rw [hinside]
  rcases hsaves.objects with hsame | ⟨_, q, own, heq, hq, hputs, hown⟩
  · -- The result has kept its owner.
    have hv' : saved.objects.get? v = some o := by rw [hsame, hv]
    cases hp.symm.trans hv'
    exact live_iff_of_others hcoherent' hpop hreleases hv' hsingle hpool
  · cases heq
    cases hq.symm.trans hv
    rcases hown with ⟨hown, hnew⟩ | ⟨hown, hnew⟩
    · -- The closing scope has handed the result to the pool around it.
      have hlive := live_of_enclosing hcoherent' hpop hreleases hputs.self
        (hnew.trans (by rw [henclosing]))
      refine ⟨fun _ id' heq => ?_, fun _ => hlive⟩
      cases hown.symm.trans heq
      exact PoolStack.not_mem_inside hcoherent'.pools hpop
    · -- A slot had answered for the result, which is shared now.
      have hlive : w'.objects.Live v :=
        ⟨_, hreleases.stays_of_shared hcoherent' hpop hputs.self hnew⟩
      refine ⟨fun _ id' heq => ?_, fun _ => hlive⟩
      cases hown.symm.trans heq

end Action

namespace World.Respectful

variable {settings : Settings} {w after w' : World} {body : Action Handle} {v x : Handle}
  {o : Object}

/-- A scope that succeeds returns what its body has returned, whatever respectful operations
have led through the body. The result is live afterwards unless a scope answers for it that
was opened in the body and left open. -/
theorem scope_result (hbody : body.perform (Action.openScope.perform w).2 = (.ok v, after))
    (hrespectful : Respectful settings after) (hfits : after.Fits)
    (hv : after.objects.get? v = some o)
    (hscope : (Action.scope body).perform w = (.ok x, w')) :
    x = v ∧ (w'.objects.Live v ↔
      ∀ id, o.header.ownership = .pool id → id ∉ after.pools.inside w.pools.push.1) := by
  have hclose : (Action.closeScope w.pools.push.1 (.ok v)).perform after = (.ok x, w') := by
    have hunfold : (Action.scope body).perform w =
        (Action.closeScope w.pools.push.1 (body.perform (Action.openScope.perform w).2).1).perform
          (body.perform (Action.openScope.perform w).2).2 := rfl
    rwa [hbody, hscope, eq_comm] at hunfold
  exact Action.live_closeScope_iff (hrespectful.coherent hfits).1 hv hclose

/-- A number that the body of a scope makes is live after the scope. It is not if the body
has opened a scope for it and left this one open. -/
theorem scope_result_initial :
    (∃ w', (Action.scope (Action.realVector 1)).perform initial = (.ok (Builtin.nth 25), w') ∧
        w'.objects.Live (Builtin.nth 25)) ∧
      ∃ w', (Action.scope do let _ ← Action.openScope; Action.realVector 1).perform initial =
        (.ok (Builtin.nth 25), w') ∧ ¬ w'.objects.Live (Builtin.nth 25) := by
  have hopened := respectful_initial.step .openScope trivial
  constructor
  · have hbody : ((Action.realVector 1).perform (Action.openScope.perform initial).2).1 =
        .ok (Builtin.nth 25) := by decide +kernel
    have hscope : ((Action.scope (Action.realVector 1)).perform initial).1 =
        .ok (Builtin.nth 25) := by decide +kernel
    have hlisted : (((Action.realVector 1).perform
        (Action.openScope.perform initial).2).2.objects.get? (Builtin.nth 25)).isSome = true := by
      decide +kernel
    have hinside : ((Action.realVector 1).perform
        (Action.openScope.perform initial).2).2.pools.inside initial.pools.push.1 = [] := by
      decide +kernel
    obtain ⟨o, ho⟩ := Option.isSome_iff_exists.1 hlisted
    obtain ⟨_, hiff⟩ := scope_result (Prod.fst_eq_iff.1 hbody)
      (hopened.step (.realVector 1) trivial) ⟨by decide +kernel, by decide +kernel⟩ ho
      (Prod.fst_eq_iff.1 hscope)
    refine ⟨_, Prod.fst_eq_iff.1 hscope, hiff.2 fun id _ => ?_⟩
    rw [hinside]
    exact List.not_mem_nil
  · let leaving : Action Handle := do let _ ← Action.openScope; Action.realVector 1
    have hleaving : ∀ w, leaving.perform w =
        (Action.realVector 1).perform (Action.openScope.perform w).2 := fun _ => rfl
    have hafter : Respectful {} (leaving.perform (Action.openScope.perform initial).2).2 := by
      rw [hleaving]
      exact (hopened.step .openScope trivial).step (.realVector 1) trivial
    have hbody : (leaving.perform (Action.openScope.perform initial).2).1 =
        .ok (Builtin.nth 25) := by decide +kernel
    have hok : ((Action.scope leaving).perform initial).1 = .ok (Builtin.nth 25) := by
      decide +kernel
    obtain ⟨w', hscope⟩ : ∃ w', (Action.scope leaving).perform initial =
        (.ok (Builtin.nth 25), w') := ⟨_, Prod.fst_eq_iff.1 hok⟩
    have hlisted : ((leaving.perform (Action.openScope.perform initial).2).2.objects.get?
        (Builtin.nth 25)).any (·.header.ownership == .pool ⟨2⟩) = true := by decide +kernel
    have hinside : (leaving.perform (Action.openScope.perform initial).2).2.pools.inside
        initial.pools.push.1 = [⟨2⟩] := by decide +kernel
    obtain ⟨o, ho, hown⟩ := (Option.any_eq_true _ _).1 hlisted
    obtain ⟨_, hiff⟩ := scope_result (Prod.fst_eq_iff.1 hbody) hafter
      ⟨by decide +kernel, by decide +kernel⟩ ho hscope
    refine ⟨w', hscope, fun hlive => hiff.1 hlive _ (beq_iff_eq.1 hown) ?_⟩
    rw [hinside]
    exact List.mem_singleton_self _

end World.Respectful

end ObjectSystem

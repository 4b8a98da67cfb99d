/-
# Scopes are balanced

However the body of a scope ends, and whatever scopes it has left open, the scopes that
were open before are open afterwards, and no other. What the scope and the scopes left
open in it answered for is freed with all that it alone held. The one exception is a
result that the scope itself answered for: it goes to the pool around the scope.

The operations of the body may close scopes that were opened in the body, but not the
scope itself or a scope around it.
-/

import ObjectSystem.Proofs.Integrity
import ObjectSystem.Proofs.Permanence
import ObjectSystem.Proofs.ScopeResult
import ObjectSystem.Proofs.Sparing

namespace ObjectSystem

/-- Only the innermost of given scopes can take an object over from a scope inside. -/
theorem Ownership.mem_of_ofPool_getLast? {ids : List PoolId} {id : PoolId}
    (hown : ofPool (ids.getLast?.getD PoolId.collector) = .pool id) : id ∈ ids := by
  cases hlast : ids.getLast? with
  | none =>
      rw [hlast, Option.getD_none, ofPool_collector] at hown
      cases hown
  | some last =>
      rw [hlast, Option.getD_some, ofPool] at hown
      split at hown
      · cases hown
      · cases hown
        exact List.mem_of_getLast? hlast

namespace PoolStack

variable {s kept : PoolStack} {id : PoolId} {ids inner : List PoolId} {closed : List Pool}
  {x : Handle}

/-- The handles in the open scopes that are not among given ones. -/
def listedBeside (s : PoolStack) (ids : List PoolId) : List Handle :=
  (s.innermostFirst.filter (·.id ∉ ids)).flatMap Pool.toList

theorem mem_listedBeside :
    x ∈ s.listedBeside ids ↔ ∃ p ∈ s.innermostFirst, p.id ∉ ids ∧ x ∈ p.toList := by
  simp [listedBeside, and_assoc]

theorem mem_scopeIds : id ∈ s.scopeIds ↔ ∃ p ∈ s.innermostFirst, p.id = id := by
  rw [scopeIds, List.mem_reverse, List.mem_map]

/-- An open scope can be closed. -/
theorem exists_pop (hopen : id ∈ s.scopeIds) (hid : id ≠ PoolId.collector) :
    ∃ closed kept, s.pop id = .ok (closed, kept) := by
  obtain ⟨p, hp, hpid⟩ := mem_scopeIds.1 hopen
  unfold pop
  rw [if_neg (by rwa [isCollector_iff])]
  simp only
  split
  · next hnone =>
      rw [List.dropWhile_eq_nil_iff] at hnone
      have hne := hnone p (List.mem_reverse.2 hp)
      simp [hpid] at hne
  · exact ⟨_, _, rfl⟩

theorem takeWhile_append_of_not_mem (hnew : id ∉ ids) (rest : List PoolId) :
    (ids ++ rest).takeWhile (· != id) = ids ++ rest.takeWhile (· != id) := by
  refine List.takeWhile_append_of_pos fun other hother => bne_iff_ne.2 ?_
  rintro rfl
  exact hnew hother

/-- Closing a scope leaves the scopes around it. -/
theorem scopeIds_kept (hscopes : s.scopeIds = ids ++ id :: inner) (hnew : id ∉ ids)
    (hpop : s.pop id = .ok (closed, kept)) : kept.scopeIds = ids := by
  rw [← (takeWhile_scopeIds_of_pop hpop).1, hscopes, takeWhile_append_of_not_mem hnew]
  simp

/-- Closing a scope leaves the scopes that are around one which stays open. -/
theorem prefix_kept (hopen : ids <+: s.scopeIds) (hout : id ∉ ids)
    (hpop : s.pop id = .ok (closed, kept)) : ids <+: kept.scopeIds := by
  obtain ⟨rest, hrest⟩ := hopen
  rw [← (takeWhile_scopeIds_of_pop hpop).1, ← hrest, takeWhile_append_of_not_mem hout]
  exact List.prefix_append _ _

/-- The pool around a scope is the one that took in new objects before it was opened. -/
theorem enclosing_eq (hscopes : s.scopeIds = ids ++ id :: inner) (hnew : id ∉ ids) :
    s.enclosing id = ids.getLast?.getD PoolId.collector := by
  rw [enclosing, hscopes, takeWhile_append_of_not_mem hnew]
  simp

/-- What closed scopes list are the handles in the scopes beside the kept ones. -/
theorem mem_closed_iff (hvalid : s.Valid) (hpop : s.pop id = .ok (closed, kept)) :
    x ∈ closed.flatMap Pool.toList ↔ x ∈ s.listedBeside kept.scopeIds := by
  obtain ⟨_, _, hsplit, _⟩ := hvalid.pop hpop
  have hnodup := hvalid.ids_nodup
  rw [hsplit, List.map_append] at hnodup
  have hdisjoint := (List.nodup_append.1 hnodup).2.2
  rw [List.mem_flatMap, mem_listedBeside]
  constructor
  · rintro ⟨p, hp, hx⟩
    refine ⟨p, hsplit ▸ List.mem_append_left _ hp, fun hkept => ?_, hx⟩
    obtain ⟨q, hq, heq⟩ := mem_scopeIds.1 hkept
    exact hdisjoint p.id (List.mem_map_of_mem hp) q.id (List.mem_map_of_mem hq) heq.symm
  · rintro ⟨p, hp, hout, hx⟩
    refine ⟨p, (List.mem_append.1 (hsplit ▸ hp)).resolve_right fun hkept => ?_, hx⟩
    exact hout (mem_scopeIds.2 ⟨p, hkept, rfl⟩)

end PoolStack

/-- The operation does not close any of the given scopes itself. -/
def Operation.LeavesOpen (ids : List PoolId) : {α : Type} → Operation α → Prop
  | _, closeScope id _ | _, releasePool id => id ∉ ids
  | _, _ => True

namespace Action

variable {w : World} {ids : List PoolId} {id : PoolId}

/-- Closing a scope leaves the scopes open that are around one which stays open. -/
theorem prefix_releasePool (hcoherent : w.Coherent) (hopen : ids <+: w.pools.scopeIds)
    (hout : id ∉ ids) : ids <+: ((releasePool id).perform w).2.pools.scopeIds := by
  rcases releasePool_spec hcoherent id with
    ⟨e, hperform, _⟩ | ⟨n, w', closed, kept, hperform, hpop, hreleases⟩
  · rwa [hperform]
  · rw [hperform, hreleases.pools_eq]
    exact PoolStack.prefix_kept hopen hout hpop

theorem prefix_closeScope (hcoherent : w.Coherent) (hopen : ids <+: w.pools.scopeIds)
    (hout : id ∉ ids) (result : Except Error Handle) :
    ids <+: ((closeScope id result).perform w).2.pools.scopeIds := by
  obtain ⟨saved, _, hsave, hclose⟩ := closeScope_spec hcoherent id result
  have hsaved : ids <+: saved.pools.scopeIds := by
    have hmoves := moves_saveResult id result w
    rw [hsave] at hmoves
    rwa [hmoves.scopes_eq]
  rcases hclose with ⟨e, hperform, _⟩ | ⟨w', closed, kept, hperform, hpop, hreleases⟩
  · rwa [hperform]
  · rw [hperform, hreleases.pools_eq]
    exact PoolStack.prefix_kept hsaved hout hpop

end Action

/-- An operation that closes none of the outermost scopes leaves them open, whatever other
scopes it opens and closes. -/
theorem Operation.prefix_perform {α : Type} {w : World} {ids : List PoolId}
    (hcoherent : w.Coherent) (htidy : w.Tidy) (hequipped : w.Equipped) (op : Operation α)
    (hrespects : op.Respects w) (hleaves : op.LeavesOpen ids) (hfits : (op.perform w).2.Fits)
    (hopen : ids <+: w.pools.scopeIds) : ids <+: (op.perform w).2.pools.scopeIds := by
  have hmoves : ∀ {β : Type} {action : Action β}, action.Keeps World.Moves →
      ids <+: (action.perform w).2.pools.scopeIds := by
    intro β action hkeeps
    rwa [(hkeeps w).scopes_eq]
  have hcomposite : ∀ {β : Type} (op : Operation β), op.Within w.policy → (op.perform w).2.Fits →
      ids <+: (op.perform w).2.pools.scopeIds := by
    intro β op hwithin hfits
    have hleads := (op.composite_action hequipped.standard w.generous_policy hwithin).leadsTo
      hcoherent htidy w.policy_within hfits
    rwa [← hleads.scopes_eq] at hopen
  cases op with
  | allocate o => exact hcomposite _ ⟨⟨hrespects.1, hrespects.2.1⟩, hrespects.2.2⟩ hfits
  | cell c head next => exact hcomposite _ ⟨hrespects, rfl⟩ hfits
  | shallowCopy x => exact hmoves (Action.moves_shallowCopy x)
  | subclass parent name newAttrs newClasses =>
      exact hmoves (Action.moves_subclass parent name newAttrs newClasses)
  | openScope => exact hopen.trans ((Action.openScope_adds hcoherent hfits).1 ▸
      List.prefix_append _ _)
  | closeScope id result => exact Action.prefix_closeScope hcoherent hopen hleaves result
  | releasePool id => exact Action.prefix_releasePool hcoherent hopen hleaves
  | addToPool x id => exact hrespects.elim
  | removeFromPool x id => exact hrespects.elim
  | addRoot x => exact hopen
  | removeRoot x => exact hopen
  | _ => exact hcomposite _ hrespects hfits

namespace World

variable {settings : Settings} {ids : List PoolId} {w w' after : World}

/-- The worlds that respectful operations lead to from a world without closing any of the
given scopes. -/
inductive RunInside (ids : List PoolId) (w : World) : World → Prop where
  | start : RunInside ids w w
  | step {w' : World} (hrun : RunInside ids w w') {α : Type} (op : Operation α)
      (hrespects : op.Respects w') (hleaves : op.LeavesOpen ids) :
      RunInside ids w (op.perform w').2

theorem RunInside.run (hrun : RunInside ids w w') : w.Run w' := by
  induction hrun with
  | start => exact .start
  | step _ op hrespects _ ih => exact ih.step op hrespects

/-- A run that closes none of the outermost scopes leaves them open. -/
theorem RunInside.prefix_scopeIds (hrespectful : Respectful settings w)
    (hrun : RunInside ids w w') (hfits : w'.Fits) (hopen : ids <+: w.pools.scopeIds) :
    ids <+: w'.pools.scopeIds := by
  induction hrun with
  | start => exact hopen
  | @step w' hrun _ op hrespects hleaves ih =>
      have hfits' : w'.Fits := (op.spends w').fits hfits
      have hreached := hrespectful.run hrun.run
      obtain ⟨hcoherent, hequipped⟩ := hreached.coherent hfits'
      exact op.prefix_perform hcoherent hreached.tidy hequipped hrespects hleaves hfits
        (ih hfits')

/-- What the end of a scope does to the world that its body has left. The scopes `ids` were
open before the scope `id` was opened. -/
structure Unwinds (after w' : World) (ids : List PoolId) (id : PoolId)
    (result : Except Error Handle) : Prop where
  scopes_eq : w'.pools.scopeIds = ids
  /-- What the scope and the scopes left open in it answer for is freed, unless it is the
  result and the scope itself answers for it. -/
  freed : ∀ x o, x ∈ after.pools.listedBeside ids → after.objects.get? x = some o →
    (result = .ok x → o.header.ownership ≠ .pool id) → ¬ w'.objects.Live x
  /-- If the body has failed, all of it is freed with what goes with it, and nothing else. -/
  failed : ∀ e, result = .error e → ∀ y p, w'.objects.get? y = some p ↔
    after.objects.get? y = some p ∧ ¬ after.objects.Falls (after.pools.listedBeside ids) y
  /-- A result that the scope answers for goes to the pool around the scope, and all the
  rest is freed with what goes with it. -/
  handed : ∀ v o, result = .ok v → after.objects.get? v = some o →
    o.header.ownership = .pool id →
    w'.objects.get? v =
        some (o.setOwnership (.ofPool (ids.getLast?.getD PoolId.collector))) ∧
      (∀ p ∈ w'.pools.all,
        p.toList.count v = if p.id = ids.getLast?.getD PoolId.collector then 1 else 0) ∧
      ∀ y p, y ≠ v → (w'.objects.get? y = some p ↔ after.objects.get? y = some p ∧
        ¬ after.objects.Falls ((after.pools.listedBeside ids).filter (· ≠ v)) y)

end World

namespace Action

open World

variable {w : World} {ids inner : List PoolId} {id : PoolId}

/-- When the body of a scope is done, the scope is closed. -/
theorem perform_scope {after : World} {body : Action Handle} {result : Except Error Handle}
    (hbody : body.perform (openScope.perform w).2 = (result, after)) :
    (scope body).perform w = (closeScope w.pools.push.1 result).perform after := by
  show (closeScope _ (body.perform (openScope.perform w).2).1).perform
    (body.perform (openScope.perform w).2).2 = _
  rw [hbody]
  rfl

/-- What scopes beside given ones list is what scopes beside the given ones answer for. -/
theorem mem_listedBeside_iff {x : Handle} (hcoherent : w.Coherent) :
    x ∈ w.pools.listedBeside ids ↔
      ∃ o id', w.objects.get? x = some o ∧ o.header.ownership = .pool id' ∧ id' ∉ ids := by
  rw [PoolStack.mem_listedBeside]
  constructor
  · rintro ⟨p, hp, hout, hx⟩
    obtain ⟨o, ho, hown⟩ := ownership_of_mem_scope hcoherent hp hx
    exact ⟨o, p.id, ho, hown, hout⟩
  · rintro ⟨o, id', ho, hown, hout⟩
    obtain ⟨hmem, hid⟩ := hcoherent.registered.mem_of_pool ho hown
    obtain ⟨p, hp, rfl, hx⟩ := (PoolStack.mem_entries_scope hid).1 hmem
    exact ⟨p, hp, hout, hx⟩

/-- What a scope answers for goes when it is freed. -/
theorem falls_of_pool {x : Handle} {o : Object} {id' : PoolId} (hcoherent : w.Coherent)
    (hx : w.objects.get? x = some o) (hown : o.header.ownership = .pool id') (hout : id' ∉ ids) :
    w.objects.Falls (w.pools.listedBeside ids) x := by
  exact .listed ((mem_listedBeside_iff hcoherent).2 ⟨o, id', hx, hown, hout⟩) hx
    (hcoherent.linked.unpinned hx (by simp [hown]))

/-- Nothing goes with the scopes beside given ones that a given scope answers for, and
nothing that is shared. -/
theorem not_falls_of_stays {x : Handle} {o : Object} (hcoherent : w.Coherent)
    (hx : w.objects.get? x = some o) (hsingle : o.header.ownership ≠ .single)
    (hpool : ∀ id', o.header.ownership = .pool id' → id' ∈ ids) :
    ¬ w.objects.Falls (w.pools.listedBeside ids) x := by
  intro hfalls
  cases hfalls with
  | listed hmem _ _ =>
      obtain ⟨p, id', hp, hown, hout⟩ := (mem_listedBeside_iff hcoherent).1 hmem
      cases hp.symm.trans hx
      exact hout (hpool id' hown)
  | held _ _ _ hp _ hown =>
      cases hp.symm.trans hx
      exact hsingle hown

/-- When an object has been handed out of scopes, nothing goes with it any more. -/
theorem falls_handed_iff {w' : World} {v y : Handle} {o : Object} {own : Ownership}
    (hcoherent : w.Coherent) (hcoherent' : w'.Coherent) (hv : w.objects.get? v = some o)
    (hown : o.header.ownership = .pool id)
    (hputs : w.objects.Puts w'.objects v (o.setOwnership own)) (hsingle : own ≠ .single)
    (hpool : ∀ id', own = .pool id' → id' ∈ ids) :
    w'.objects.Falls (w'.pools.listedBeside ids) y ↔
      w.objects.Falls ((w.pools.listedBeside ids).filter (· ≠ v)) y := by
  have hlisted : ∀ z, z ∈ w'.pools.listedBeside ids ↔
      z ∈ (w.pools.listedBeside ids).filter (· ≠ v) := by
    intro z
    rw [List.mem_filter, mem_listedBeside_iff hcoherent', mem_listedBeside_iff hcoherent,
      decide_eq_true_iff]
    by_cases hz : z = v
    · subst hz
      refine ⟨?_, fun h => absurd rfl h.2⟩
      rintro ⟨p, id', hp, hown', hout⟩
      cases hputs.self.symm.trans hp
      exact absurd (hpool id' hown') hout
    · rw [hputs.other hz, and_iff_left hz]
  have hne : ∀ z ∈ (w.pools.listedBeside ids).filter (· ≠ v), z ≠ v := fun z hz => by
    simpa using (List.mem_filter.1 hz).2
  constructor
  · intro hfalls
    refine (hfalls.carry (fun z hz => ⟨(hlisted z).1 hz, hne z ((hlisted z).1 hz)⟩)
      (fun z hz => (hputs.other hz).symm) fun p hp => ?_).1
    cases hputs.self.symm.trans hp
    exact hsingle
  · intro hfalls
    refine (hfalls.carry (fun z hz => ⟨(hlisted z).2 hz, hne z hz⟩)
      (fun z hz => hputs.other hz) fun p hp => ?_).1
    cases hv.symm.trans hp
    rw [hown]
    exact Ownership.noConfusion

theorem Saves.other {w' : World} {l x : Handle} (hsaves : Saves w w' id (.ok l)) (hne : x ≠ l) :
    w'.objects.get? x = w.objects.get? x := by
  rcases hsaves.objects with hsame | ⟨y, _, _, heq, _, hputs, _⟩
  · rw [hsame]
  · cases heq
    exact hputs.other hne

/-- Saving a result puts nothing into objects. -/
theorem Saves.ownedRefs_eq {w' : World} {x : Handle} {o : Object} {result : Except Error Handle}
    (hsaves : Saves w w' id result) (ho : w'.objects.get? x = some o) :
    ∃ p, w.objects.get? x = some p ∧ p.ownedRefs = o.ownedRefs := by
  rcases hsaves.objects with hsame | ⟨y, q, _, _, hq, hputs, _⟩
  · exact ⟨o, hsame ▸ ho, rfl⟩
  · rcases hputs.back ho with ⟨rfl, rfl⟩ | ⟨_, ho⟩
    · exact ⟨q, hq, rfl⟩
    · exact ⟨o, ho, rfl⟩

/-- A result that the scope answers for goes to the pool around the scope. -/
theorem Saves.handed {w' : World} {l : Handle} {o : Object} (hsaves : Saves w w' id (.ok l))
    (hl : w.objects.get? l = some o) (hown : o.header.ownership = .pool id) :
    w'.objects.get? l = some (o.setOwnership (.ofPool (w.pools.enclosing id))) := by
  rcases hsaves.objects with hsame | ⟨x, q, own, heq, hq, hputs, hcases⟩
  · obtain ⟨q, hq, _, hne⟩ := hsaves.saved l rfl ⟨o, hl⟩
    rw [hsame, hl] at hq
    cases hq
    exact absurd hown hne
  · cases heq
    cases hl.symm.trans hq
    rcases hcases with ⟨_, rfl⟩ | ⟨hsingle, _⟩
    · exact hputs.self
    · cases hown.symm.trans hsingle

/-- An open scope can be closed with any result, and with it are closed the scopes that
were opened inside. The result is saved first, and then all goes that they answer for. -/
theorem closeScope_frees (hcoherent : w.Coherent)
    (hscopes : w.pools.scopeIds = ids ++ id :: inner) (hnew : id ∉ ids)
    (hid : id ≠ PoolId.collector) (result : Except Error Handle) :
    ∃ saved w', Saves w saved id result ∧ (saveResult id result).perform w = (.ok (), saved) ∧
      (closeScope id result).perform w = (result, w') ∧ saved.Evolves w' ∧
      w'.pools.scopeIds = ids ∧ w'.roots = saved.roots ∧
      ∀ y p, w'.objects.get? y = some p ↔ saved.objects.get? y = some p ∧
        ¬ saved.objects.Falls (saved.pools.listedBeside ids) y := by
  obtain ⟨saved, hsaves, hsave, hclose⟩ := closeScope_spec hcoherent id result
  have hscopes' : saved.pools.scopeIds = ids ++ id :: inner := by
    have hmoves := moves_saveResult id result w
    rw [hsave] at hmoves
    exact hmoves.scopes_eq.trans hscopes
  rcases hclose with ⟨e, _, hpop, _⟩ | ⟨w', closed, kept, hperform, hpop, hreleases⟩
  · obtain ⟨closed, kept, hpop'⟩ :=
      PoolStack.exists_pop (hscopes' ▸ List.mem_append_right _ List.mem_cons_self) hid
    cases hpop.symm.trans hpop'
  have hkept : kept.scopeIds = ids := PoolStack.scopeIds_kept hscopes' hnew hpop
  refine ⟨saved, w', hsaves, hsave, hperform, hreleases.evolves, hreleases.pools_eq ▸ hkept,
    hreleases.roots_eq, fun y p => ?_⟩
  rw [hreleases.objects_eq, foldl_reclaim, get?_reclaim, ← hkept,
    Arena.falls_congr fun z => PoolStack.mem_closed_iff hsaves.evolves.coherent.pools hpop]

/-- An open scope can be closed with any result, and closing it has these effects. -/
theorem closeScope_unwinds (hcoherent : w.Coherent)
    (hscopes : w.pools.scopeIds = ids ++ id :: inner) (hnew : id ∉ ids)
    (hid : id ≠ PoolId.collector) (result : Except Error Handle) :
    ∃ w', (closeScope id result).perform w = (result, w') ∧ Unwinds w w' ids id result := by
  obtain ⟨saved, w', hsaves, hsave, hperform, hevolves, hkept, _, hget⟩ :=
    closeScope_frees hcoherent hscopes hnew hid result
  have hcoherent' := hsaves.evolves.coherent
  have hgone : ∀ {x o id'}, saved.objects.get? x = some o → o.header.ownership = .pool id' →
      id' ∉ ids → ¬ w'.objects.Live x := by
    rintro x o id' hx hown hout ⟨p, hp⟩
    exact ((hget x p).1 hp).2 (falls_of_pool hcoherent' hx hown hout)
  refine ⟨w', hperform, ⟨hkept, fun x o hlisted ho hresult => ?_,
    fun e he y p => ?_, fun v o hv ho hown => ?_⟩⟩
  · obtain ⟨o', id', ho', hown, hout⟩ := (mem_listedBeside_iff hcoherent).1 hlisted
    cases ho.symm.trans ho'
    rcases hsaves.objects with hsame | ⟨v, q, own, rfl, hq, hputs, hcases⟩
    · exact hgone (hsame ▸ ho) hown hout
    · by_cases hxv : x = v
      · subst hxv
        cases ho.symm.trans hq
        rcases hcases with ⟨hpool, _⟩ | ⟨hsingle, _⟩
        · exact absurd hpool (hresult rfl)
        · cases hown.symm.trans hsingle
      · exact hgone ((hputs.other hxv).trans ho) hown hout
  · subst he
    cases hsave
    exact hget y p
  · -- The scope has handed its result to the pool around it before it was closed.
    let outer := ids.getLast?.getD PoolId.collector
    subst hv
    have hputs : w.objects.Puts saved.objects v (o.setOwnership (.ofPool outer)) := by
      have hself := hsaves.handed ho hown
      rw [PoolStack.enclosing_eq hscopes hnew] at hself
      intro y
      split
      · next heq => rw [heq, hself]
      · next hne => exact hsaves.other hne
    have hopen : ∀ id', Ownership.ofPool outer = .pool id' → id' ∈ ids := fun _ hpool =>
      Ownership.mem_of_ofPool_getLast? hpool
    have hv' := (hget v _).2 ⟨hputs.self,
      not_falls_of_stays hcoherent' hputs.self (Ownership.ofPool_ne_single _) hopen⟩
    refine ⟨hv', fun p hp => ?_, fun y p hy => ?_⟩
    · rw [hevolves.coherent.count_toList hp hv', Object.setOwnership]
      exact if_congr ⟨fun heq => (Ownership.ofPool_injective heq).symm, fun heq => by rw [heq]⟩
        rfl rfl
    · rw [hget, hputs.other hy, falls_handed_iff hcoherent hcoherent' ho hown hputs
        (Ownership.ofPool_ne_single _) hopen]

end Action

namespace World.Respectful

variable {settings : Settings} {w after : World} {body : Action Handle}
  {result : Except Error Handle}

end World.Respectful

end ObjectSystem

/-
# Scopes in coherent worlds

When scopes are closed, the objects that their pools answer for are held by no
slot, so they can be freed one after another. Saving the result of a scope and
closing it lead from coherent worlds to coherent worlds.
-/

import ObjectSystem.Proofs.Coherence.Barrier

namespace ObjectSystem

namespace World

variable {w : World} {objects : Arena Object} {known : Handle → Prop}
  {rest : List (PoolId × Handle)} {id : PoolId} {x : Handle} {o : Object}

/-- Freeing one object after another concerns the arena alone. -/
theorem foldl_free (w : World) (l : List Handle) :
    l.foldl World.free w =
      { w with objects := l.foldl (fun a x => reclaim a [x]) w.objects } := by
  induction l generalizing w with
  | nil => rfl
  | cons x l ih => rw [List.foldl_cons, ih, List.foldl_cons, free]

/-- An object that a scope answers for may be freed together with its entry. -/
theorem reclaim_entry (htight : objects.Tight) (hlinked : Linked objects known [])
    (hregistered : Registered objects ((id, x) :: rest)) (hid : id ≠ PoolId.collector) :
    (reclaim objects [x]).Tight ∧ Linked (reclaim objects [x]) known [] ∧
      Registered (reclaim objects [x]) rest ∧
      ∀ y o, objects.get? y = some o → o.header.ownership ≠ .single → y ≠ x →
        (reclaim objects [x]).get? y = some o := by
  obtain ⟨o, hx, hown⟩ := (hregistered.mem_iff id x).1 List.mem_cons_self
  rw [Ownership.ofPool_of_ne hid] at hown
  have hpinned : o.header.pinned = false := hlinked.unpinned hx (by simp [hown])
  have hunheld := hlinked.pool_unheld x o id hx hown
  have hchildren := reclaimable_children [] hlinked hx (by simp)
  obtain ⟨htight', hlinked', hregistered', hkept⟩ := reclaim_spec (htight.remove x)
    (hlinked.remove hx hpinned hunheld) hregistered.remove_entry hchildren
  have hunfold : reclaim objects [x] = reclaim (objects.remove x)
      ((o.ownedRefs.filter (isSingle (objects.remove x))).reverse ++ []) := by
    rw [reclaim]
    split
    · next hnone =>
        cases hnone.symm.trans hx
    · next p hp =>
        cases hp.symm.trans hx
        simp [hpinned]
  rw [hunfold]
  refine ⟨htight', hlinked', hregistered', fun y p hp hnot hne => hkept y p ?_ hnot⟩
  rw [Arena.get?_remove, if_neg hne, hp]

/-- The objects of closed scopes may be freed one after another. -/
theorem reclaim_entries {entries : List (PoolId × Handle)} (htight : objects.Tight)
    (hlinked : Linked objects known []) (hregistered : Registered objects (entries ++ rest))
    (hids : ∀ e ∈ entries, e.1 ≠ PoolId.collector) :
    let objects' := (entries.map Prod.snd).foldl (fun a x => reclaim a [x]) objects
    objects'.Tight ∧ Linked objects' known [] ∧ Registered objects' rest ∧
      ∀ y o, objects.get? y = some o → o.header.ownership ≠ .single →
        y ∉ entries.map Prod.snd → objects'.get? y = some o := by
  induction entries generalizing objects with
  | nil => exact ⟨htight, hlinked, hregistered, fun _ _ hy _ _ => hy⟩
  | cons e entries ih =>
      obtain ⟨htight', hlinked', hregistered', hkept⟩ :=
        reclaim_entry htight hlinked hregistered (hids e List.mem_cons_self)
      obtain ⟨htight'', hlinked'', hregistered'', hkept'⟩ :=
        ih htight' hlinked' hregistered' fun e' he' => hids e' (List.mem_cons_of_mem _ he')
      refine ⟨htight'', hlinked'', hregistered'', fun y o hy hnot hout => ?_⟩
      rw [List.map_cons, List.mem_cons, not_or] at hout
      exact hkept' y o (hkept y o hy hnot hout.1) hnot hout.2

end World

namespace Action

open World

variable {w : World} {x : Handle} {o : Object} {id : PoolId}

/-- Opening a scope gives out a new number. -/
theorem openScope_spec (hcoherent : w.Coherent) (hfits : (openScope.perform w).2.Fits) :
    w.Evolves (openScope.perform w).2 := by
  have hopened : w.pools.opened + 1 < 2 ^ 32 := hfits.opened_lt
  obtain ⟨hvalid, hentries, _⟩ := hcoherent.pools.push hopened
  refine ⟨⟨hcoherent.tight, hvalid, hcoherent.linked, ?_⟩, fun _ hc => hc,
    fun x o ho hpinned => ⟨o, ho, Object.lasts_self hpinned⟩⟩
  show Registered w.objects w.pools.push.2.entries
  rw [hentries]
  exact hcoherent.registered

/-- Scopes have been closed: their objects are gone, and what these alone held. -/
structure Releases (w w' : World) (closed : List Pool) (kept : PoolStack) : Prop where
  evolves : w.Evolves w'
  pools_eq : w'.pools = kept
  classes_eq : w'.classes = w.classes
  roots_eq : w'.roots = w.roots
  collections_eq : w'.collections = w.collections
  objects_eq : w'.objects =
    (closed.flatMap Pool.toList).foldl (fun a x => reclaim a [x]) w.objects
  stays : ∀ x o, w.objects.get? x = some o → o.header.ownership ≠ .single →
    (∀ p ∈ closed, x ∉ p.toList) → w'.objects.get? x = some o

/-- Scopes that cannot be closed are not open. -/
theorem blames_pop {e : Error} (hpop : w.pools.pop id = .error e) : w.Blames [] e := by
  unfold PoolStack.pop at hpop
  split at hpop
  · cases hpop
    trivial
  · simp only at hpop
    split at hpop
    · cases hpop
      trivial
    · cases hpop

section Closing

variable {w' : World} {closed : List Pool} {kept : PoolStack}

/-- The entries of scopes. -/
def scopeEntries (closed : List Pool) : List (PoolId × Handle) :=
  closed.flatMap fun p => p.toList.map (p.id, ·)

theorem map_snd_scopeEntries (closed : List Pool) :
    (scopeEntries closed).map Prod.snd = closed.flatMap Pool.toList := by
  simp [scopeEntries, List.map_flatMap, Function.comp_def]

/-- The scopes that are closed take their entries with them. -/
theorem entries_perm_of_pop (hcoherent : w.Coherent)
    (hpop : w.pools.pop id = .ok (closed, kept)) :
    w.pools.entries.Perm (scopeEntries closed ++ kept.entries) ∧
      ∀ e ∈ scopeEntries closed, e.1 ≠ PoolId.collector := by
  obtain ⟨_, hcollector, hsplit, _⟩ := hcoherent.pools.pop hpop
  constructor
  · unfold PoolStack.entries scopeEntries
    rw [hsplit, hcollector, List.flatMap_append]
    exact List.perm_append_comm_assoc _ _ _
  · intro e he
    obtain ⟨p, hp, he⟩ := List.mem_flatMap.1 he
    obtain ⟨y, _, rfl⟩ := List.mem_map.1 he
    exact hcoherent.pools.id_ne_collector (hsplit ▸ List.mem_append_left _ hp)

/-- Scopes are closed when they are taken off and what their pools list is freed, whatever else
is noted meanwhile. -/
theorem releases_of_pop (hcoherent : w.Coherent) (hpop : w.pools.pop id = .ok (closed, kept))
    (hobjects : w'.objects =
      (closed.flatMap Pool.toList).foldl (fun a x => reclaim a [x]) w.objects)
    (hpools : w'.pools = kept) (hclasses : w'.classes = w.classes) (hroots : w'.roots = w.roots)
    (hcollections : w'.collections = w.collections) : Releases w w' closed kept := by
  obtain ⟨hkept, _⟩ := hcoherent.pools.pop hpop
  obtain ⟨hperm, hids⟩ := entries_perm_of_pop hcoherent hpop
  have hregistered := hcoherent.registered.perm hperm
  obtain ⟨htight, hlinked, hregistered', hstays⟩ := reclaim_entries hcoherent.tight
    hcoherent.linked hregistered hids
  rw [map_snd_scopeEntries, ← hobjects] at htight hlinked hregistered' hstays
  have hpinned : ∀ x o, w.objects.get? x = some o → o.header.pinned = true →
      w'.objects.get? x = some o := by
    intro x o ho hpinned
    have hshared := hcoherent.linked.pinned_shared x o ho hpinned
    refine hstays x o ho (by simp [hshared]) fun hmem => ?_
    rw [← map_snd_scopeEntries] at hmem
    obtain ⟨e, he, rfl⟩ := List.mem_map.1 hmem
    obtain ⟨p, hp, hown⟩ := (hregistered.mem_iff e.1 e.2).1 (List.mem_append_left _ he)
    cases ho.symm.trans hp
    rw [hshared, ← Ownership.ofPool_collector] at hown
    exact hids e he (Ownership.ofPool_injective hown).symm
  constructor
  case evolves =>
      refine ⟨⟨htight, hpools ▸ hkept, hclasses ▸ hlinked, hpools ▸ hregistered'⟩,
        fun c hc => hclasses ▸ hc, fun x o ho hpin => ?_⟩
      exact ⟨o, hpinned x o ho hpin, Object.lasts_self hpin⟩
  case stays =>
      intro x o ho hnot hx
      refine hstays x o ho hnot fun hmem => ?_
      obtain ⟨p, hp, hlisted⟩ := List.mem_flatMap.1 hmem
      exact hx p hp hlisted
  all_goals assumption

end Closing

theorem releasePool_spec (hcoherent : w.Coherent) (id : PoolId) :
    (∃ e, (releasePool id).perform w = (.error e, w) ∧ w.pools.pop id = .error e ∧
        w.Blames [] e) ∨
      ∃ n w' closed kept, (releasePool id).perform w = (.ok n, w') ∧
        w.pools.pop id = .ok (closed, kept) ∧ Releases w w' closed kept := by
  unfold releasePool
  rw [perform_query_bind]
  cases hpop : w.pools.pop id with
  | error e => exact Or.inl ⟨e, rfl, rfl, blames_pop hpop⟩
  | ok result =>
      obtain ⟨closed, kept⟩ := result
      refine Or.inr ⟨_, _, closed, kept, rfl, rfl, ?_⟩
      rw [← List.foldl_flatMap, foldl_free]
      split <;> exact releases_of_pop hcoherent hpop rfl rfl rfl rfl rfl

/-- What a scope lists is live, and the scope answers for it. -/
theorem ownership_of_mem_scope {p : Pool} (hcoherent : w.Coherent)
    (hp : p ∈ w.pools.innermostFirst) (hx : x ∈ p.toList) :
    ∃ o, w.objects.get? x = some o ∧ o.header.ownership = .pool p.id := by
  have hid := hcoherent.pools.id_ne_collector hp
  obtain ⟨o, ho, hown⟩ := (hcoherent.registered.mem_iff p.id x).1
    ((PoolStack.mem_entries_scope hid).2 ⟨p, hp, rfl, hx⟩)
  exact ⟨o, ho, hown.trans (Ownership.ofPool_of_ne hid)⟩

/-- Closing scopes changes no object that it does not free. -/
theorem Releases.get?_of_get? {w' : World} {closed : List Pool} {kept : PoolStack}
    (hreleases : Releases w w' closed kept) (hx : w'.objects.get? x = some o) :
    w.objects.get? x = some o := by
  have hfold : ∀ (l : List Handle) (a : Arena Object),
      (l.foldl (fun a x => reclaim a [x]) a).get? x = some o → a.get? x = some o := by
    intro l
    induction l with
    | nil => exact fun _ ha => ha
    | cons y l ih => exact fun a ha => get?_of_get?_reclaim (ih _ ha)
  rw [hreleases.objects_eq] at hx
  exact hfold _ _ hx

/-- What a scope answers for stays if the scope stays open, and only then. -/
theorem Releases.live_iff_of_pool {w' : World} {closed : List Pool} {kept : PoolStack}
    {id' : PoolId} (hreleases : Releases w w' closed kept) (hcoherent : w.Coherent)
    (hpop : w.pools.pop id = .ok (closed, kept)) (hx : w.objects.get? x = some o)
    (hown : o.header.ownership = .pool id') :
    w'.objects.Live x ↔ id' ∈ w'.pools.scopeIds := by
  have hscope : ∀ s : PoolStack, id' ∈ s.scopeIds ↔ ∃ p ∈ s.innermostFirst, p.id = id' := by
    intro s
    rw [PoolStack.scopeIds, List.mem_reverse, List.mem_map]
  constructor
  · rintro ⟨p, hp⟩
    cases hx.symm.trans (hreleases.get?_of_get? hp)
    obtain ⟨hmem, hid⟩ := hreleases.evolves.coherent.registered.mem_of_pool hp hown
    obtain ⟨pool, hpool, hpid, _⟩ := (PoolStack.mem_entries_scope hid).1 hmem
    exact (hscope _).2 ⟨pool, hpool, hpid⟩
  · intro hopen
    obtain ⟨pool, hpool, hpid⟩ := (hscope _).1 hopen
    obtain ⟨_, _, hsplit, _⟩ := hcoherent.pools.pop hpop
    have hdisjoint := hcoherent.pools.ids_nodup
    rw [hsplit, List.map_append, ← hreleases.pools_eq] at hdisjoint
    refine ⟨o, hreleases.stays x o hx (by simp [hown]) fun q hq hmem => ?_⟩
    obtain ⟨o', ho', hown'⟩ :=
      ownership_of_mem_scope hcoherent (hsplit ▸ List.mem_append_left _ hq) hmem
    cases hx.symm.trans ho'
    have hqid : q.id = pool.id :=
      (Ownership.pool.inj (hown'.symm.trans hown)).trans hpid.symm
    exact (List.nodup_append.1 hdisjoint).2.2 q.id (List.mem_map_of_mem hq) pool.id
      (List.mem_map_of_mem hpool) hqid

/-- Closing scopes frees nothing that is shared. -/
theorem Releases.stays_of_shared {w' : World} {closed : List Pool} {kept : PoolStack}
    (hreleases : Releases w w' closed kept) (hcoherent : w.Coherent)
    (hpop : w.pools.pop id = .ok (closed, kept)) (hx : w.objects.get? x = some o)
    (hown : o.header.ownership = .shared) : w'.objects.get? x = some o := by
  obtain ⟨_, _, hsplit, _⟩ := hcoherent.pools.pop hpop
  refine hreleases.stays x o hx (by simp [hown]) fun q hq hmem => ?_
  obtain ⟨o', ho', hown'⟩ :=
    ownership_of_mem_scope hcoherent (hsplit ▸ List.mem_append_left _ hq) hmem
  cases hx.symm.trans ho'
  rw [hown] at hown'
  cases hown'

/-- An object may be handed from one scope to the pool around it. -/
theorem handOver_spec (hcoherent : w.Coherent) (hx : w.objects.get? x = some o)
    (hown : o.header.ownership = .pool id) :
    ∃ w', (handOver x id).perform w = (.ok (), w') ∧ w'.Coherent ∧ w'.classes = w.classes ∧
      w.objects.Puts w'.objects x (o.setOwnership (.ofPool (w.pools.enclosing id))) := by
  let outer := w.pools.enclosing id
  obtain ⟨hmem, _⟩ := hcoherent.registered.mem_of_pool hx hown
  obtain ⟨pools, hremove, hvalid, hperm, hsame⟩ :=
    perform_removeFromPool hcoherent.pools hmem
  obtain ⟨pool, hpool⟩ : ∃ pool, pools.get? outer = some pool := by
    obtain ⟨p, hp⟩ := w.pools.exists_get?_enclosing id
    rw [← Option.ne_none_iff_exists', ne_eq, hsame, hp]
    simp
  have hadd := perform_addToPool (w := { w with pools := pools }) hpool hx
  obtain ⟨hvalid', hperm'⟩ := hvalid.modify_insert hpool x
  have hunheld := hcoherent.linked.pool_unheld x o id hx hown
  have hpinned : ¬ o.header.pinned = true := by
    simp [hcoherent.linked.unpinned hx (by simp [hown])]
  have hputs : w.objects.Puts (w.objects.modify x (·.setOwnership (.ofPool outer))) x
      (o.setOwnership (.ofPool outer)) := Arena.puts_modify hx
  have hcoherent' : CoherentBut
      { w with
        objects := w.objects.modify x (·.setOwnership (.ofPool outer))
        pools := pools.modify outer (·.insert x) } [] := by
    refine ⟨hcoherent.tight.modify x _, hvalid', ?_, ?_⟩
    · refine hcoherent.linked.setHeader hx hputs (fun h => absurd h hpinned) (fun h => h)
        (fun _ _ s t hs => absurd hs (hunheld s)) (fun _ _ => hunheld) (by simp)
    · exact ((hcoherent.registered.perm hperm).move hputs rfl).perm hperm'.symm
  have hunfold : (handOver x id).perform w = (do
      if outer.isCollector then
        modify fun w => { w with promotions := w.promotions + 1 } : Action Unit).perform
      { w with
        objects := w.objects.modify x (·.setOwnership (.ofPool outer))
        pools := pools.modify outer (·.insert x) } := by
    unfold handOver
    rw [perform_bind_ok (perform_get w), perform_bind_ok hremove, perform_bind_ok hadd]
  rw [hunfold]
  split
  · exact ⟨_, rfl, hcoherent'.of_eq rfl rfl rfl, rfl, hputs⟩
  · exact ⟨_, rfl, hcoherent', rfl, hputs⟩

/-- An object that no pool answers for can always be shared. -/
theorem share_spec {loose : List Handle} (loose' : List Handle) (hcoherent : w.CoherentBut loose)
    (hx : w.objects.get? x = some o) (hown : ∀ id, o.header.ownership ≠ .pool id)
    (hloose : ∀ y ∈ loose, y ∈ loose' ∨ y = x) :
    ∃ w', (share x).perform w = (.ok (), w') ∧ w'.CoherentBut loose' ∧
      w.objects.Puts w'.objects x (o.setOwnership .shared) ∧ w'.classes = w.classes := by
  unfold share
  simp only [perform_query_bind, World.ownership_eq_ok hx]
  cases hcase : o.header.ownership with
  | pool id => exact absurd hcase (hown id)
  | single => exact promote_spec loose' hcoherent hx hcase hloose
  | shared =>
      have heq : o.setOwnership .shared = o := by
        rw [Object.setOwnership, ← hcase]
      refine ⟨w, rfl, ⟨hcoherent.tight, hcoherent.pools, ?_, hcoherent.registered⟩, ?_, rfl⟩
      · have hputs : w.objects.Puts w.objects x { o with header := o.header } := by
          intro y
          split
          · next h => rw [h, hx]
          · rfl
        refine hcoherent.linked.setHeader hx hputs (fun _ => hcase) (fun h => h) ?_ ?_ ?_
        · intro hsingle
          rw [hcase] at hsingle
          cases hsingle
        · intro id hpool
          exact absurd hpool (hown id)
        · exact fun y hy => (hloose y hy).imp (fun h => h) fun h => ⟨h, hcase⟩
      · rw [heq]
        intro y
        split
        · next h => rw [h, hx]
        · rfl

/-- The result of a scope is saved from what closing the scope frees. At most it gets
another owner. -/
structure Saves (w w' : World) (id : PoolId) (result : Except Error Handle) : Prop where
  evolves : w.Evolves w'
  classes_eq : w'.classes = w.classes
  objects : w'.objects = w.objects ∨ ∃ x o own, result = .ok x ∧ w.objects.get? x = some o ∧
    w.objects.Puts w'.objects x (o.setOwnership own) ∧
    (o.header.ownership = .pool id ∧ own = .ofPool (w.pools.enclosing id) ∨
      o.header.ownership = .single ∧ own = .shared)
  saved : ∀ x, result = .ok x → w.objects.Live x → ∃ o, w'.objects.get? x = some o ∧
    o.header.ownership ≠ .single ∧ o.header.ownership ≠ .pool id

theorem ofPool_enclosing_ne (w : World) (id : PoolId) :
    Ownership.ofPool (w.pools.enclosing id) ≠ .pool id := by
  rcases w.pools.enclosing_mem id with heq | ⟨p, _, hp, hne⟩
  · rw [heq, Ownership.ofPool_collector]
    simp
  · by_cases hcollector : w.pools.enclosing id = PoolId.collector
    · rw [hcollector, Ownership.ofPool_collector]
      simp
    · rw [Ownership.ofPool_of_ne hcollector, ← hp]
      simpa using hne

theorem saveResult_spec (hcoherent : w.Coherent) (id : PoolId) (result : Except Error Handle) :
    ∃ w', (saveResult id result).perform w = (.ok (), w') ∧ Saves w w' id result := by
  unfold saveResult
  cases result with
  | error e =>
      refine ⟨w, rfl, .refl hcoherent, rfl, Or.inl rfl, fun x hx => ?_⟩
      cases hx
  | ok x =>
      simp only [perform_bind, perform_get]
      cases hx : w.objects.get? x with
      | none =>
          rw [World.ownership_eq_error hx]
          refine ⟨w, rfl, .refl hcoherent, rfl, Or.inl rfl, fun y hy hlive => ?_⟩
          cases hy
          obtain ⟨o, ho⟩ := hlive
          cases hx.symm.trans ho
      | some o =>
          rw [World.ownership_eq_ok hx]
          have hsame : o.header.ownership ≠ .single → o.header.ownership ≠ .pool id →
              Saves w w id (.ok x) := by
            intro hsingle hpool
            refine ⟨.refl hcoherent, rfl, Or.inl rfl, fun y hy _ => ?_⟩
            cases hy
            exact ⟨o, hx, hsingle, hpool⟩
          cases hown : o.header.ownership with
          | pool owner =>
              by_cases heq : owner = id
              · subst heq
                obtain ⟨w', hperform, hcoherent', hclasses, hputs⟩ :=
                  handOver_spec hcoherent hx hown
                simp only [if_true]
                refine ⟨w', hperform,
                  .of_puts hcoherent' hclasses hx hputs Object.lasts_setOwnership, hclasses,
                  Or.inr ⟨x, o, _, rfl, hx, hputs, Or.inl ⟨hown, rfl⟩⟩, fun y hy _ => ?_⟩
                cases hy
                exact ⟨_, hputs.self, Ownership.ofPool_ne_single _, ofPool_enclosing_ne w owner⟩
              · simp only [heq, if_false]
                refine ⟨w, rfl, hsame (by simp [hown]) (by simp [hown, heq])⟩
          | single =>
              obtain ⟨w', hperform, hcoherent', hputs, hclasses⟩ :=
                share_spec [] hcoherent hx (by simp [hown]) (by simp)
              refine ⟨w', hperform, .of_puts hcoherent' hclasses hx hputs Object.lasts_setOwnership,
                hclasses, Or.inr ⟨x, o, _, rfl, hx, hputs, Or.inr ⟨hown, rfl⟩⟩, fun y hy _ => ?_⟩
              cases hy
              exact ⟨_, hputs.self, by simp [Object.setOwnership], by simp [Object.setOwnership]⟩
          | shared => exact ⟨w, rfl, hsame (by simp [hown]) (by simp [hown])⟩

/-- Closing a scope saves its result and releases its pool. -/
theorem closeScope_spec (hcoherent : w.Coherent) (id : PoolId) (result : Except Error Handle) :
    ∃ w', Saves w w' id result ∧ (saveResult id result).perform w = (.ok (), w') ∧
      ((∃ e, (closeScope id result).perform w = (.error e, w') ∧ w'.pools.pop id = .error e ∧
          w'.Blames [] e) ∨
        ∃ w'' closed kept, (closeScope id result).perform w = (result, w'') ∧
          w'.pools.pop id = .ok (closed, kept) ∧ Releases w' w'' closed kept) := by
  obtain ⟨w', hsave, hsaves⟩ := saveResult_spec hcoherent id result
  refine ⟨w', hsaves, hsave, ?_⟩
  have houtcome : (outcome (saveResult id result)).perform w = (.ok (.ok ()), w') := by
    rw [perform_outcome, hsave]
  unfold closeScope
  rcases releasePool_spec hsaves.evolves.coherent id with
    ⟨e, hrelease, hpop, hblames⟩ | ⟨n, w'', closed, kept, hrelease, hpop, hreleases⟩
  · have hreleased : (outcome (releasePool id)).perform w' = (.ok (.error e), w') := by
      rw [perform_outcome, hrelease]
    refine Or.inl ⟨e, ?_, hpop, hblames⟩
    rw [perform_bind_ok houtcome, perform_bind_ok hreleased, perform_query_bind,
      perform_query_bind]
  · have hreleased : (outcome (releasePool id)).perform w' = (.ok (.ok n), w'') := by
      rw [perform_outcome, hrelease]
    refine Or.inr ⟨w'', closed, kept, ?_, hpop, hreleases⟩
    rw [perform_bind_ok houtcome, perform_bind_ok hreleased, perform_query_bind,
      perform_query_bind, perform_query]

theorem evolves_closeScope (hcoherent : w.Coherent) (id : PoolId) (result : Except Error Handle) :
    w.Evolves ((closeScope id result).perform w).2 := by
  obtain ⟨w', hsaves, _, hclose⟩ := closeScope_spec hcoherent id result
  rcases hclose with ⟨e, hperform, _⟩ | ⟨w'', closed, kept, hperform, _, hreleases⟩
  · rw [hperform]
    exact hsaves.evolves
  · rw [hperform]
    exact hsaves.evolves.trans hreleases.evolves

end Action

end ObjectSystem

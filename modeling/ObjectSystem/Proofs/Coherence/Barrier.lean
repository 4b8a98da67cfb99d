/-
# The write barrier in coherent worlds

Taking an object over from its pool, sharing it and writing a slot lead from
coherent worlds to coherent worlds. They are refused only for a reason that the
caller can see: a stale handle, a slot that is not there or the wrong kind of
object.
-/

import ObjectSystem.Proofs.Coherence

namespace ObjectSystem

namespace Action

open World

variable {w w' : World} {x : Handle} {o : Object} {id : PoolId} {loose : List Handle}

/-- A pool of a coherent world gives up an object that it answers for. -/
theorem perform_removeFromPool (hpools : w.pools.Valid) (hmem : (id, x) ∈ w.pools.entries) :
    ∃ pools : PoolStack, (removeFromPool x id).perform w = (.ok (), { w with pools := pools }) ∧
      pools.Valid ∧ w.pools.entries.Perm ((id, x) :: pools.entries) ∧
      ∀ id', pools.get? id' = none ↔ w.pools.get? id' = none := by
  have hpool : ∃ pool, w.pools.get? id = some pool := by
    rw [← Option.ne_none_iff_exists', ne_eq, PoolStack.get?_eq_none_iff]
    rintro ⟨hid, hall⟩
    obtain ⟨p, hp, hpid, _⟩ := (PoolStack.mem_entries_scope hid).1 hmem
    exact hall p hp hpid
  obtain ⟨pool, hpool⟩ := hpool
  cases herase : pool.erase? x with
  | none => exact absurd hmem ((hpools.erase?_eq_none_iff hpool).1 herase)
  | some changed =>
      obtain ⟨hvalid, hperm⟩ := hpools.modify_erase hpool herase
      have hid := Pool.erase?_id herase
      refine ⟨w.pools.modify id fun _ => changed, ?_, hvalid, hperm, fun id' => ?_⟩
      · unfold removeFromPool
        rw [perform_bind, perform_get]
        simp only [hpool, herase, perform_modify]
      · exact PoolStack.get?_eq_none_congr (PoolStack.scopeIds_replace hpool hid)

theorem perform_addToPool {pool : Pool} (hpool : w.pools.get? id = some pool)
    (hx : w.objects.get? x = some o) :
    (addToPool x id).perform w = (.ok (),
      { w with
        objects := w.objects.modify x (·.setOwnership (.ofPool id))
        pools := w.pools.modify id (·.insert x) }) := by
  have hquery : (query (·.object x)).perform
      { w with pools := w.pools.modify id (·.insert x) } =
        (.ok o, { w with pools := w.pools.modify id (·.insert x) }) := by
    simp only [perform_query, World.object, hx]
  unfold addToPool
  rw [perform_bind, perform_get]
  simp only [hpool, Option.isNone_some, Bool.false_eq_true, if_false]
  rw [perform_bind, perform_modify]
  simp only
  rw [perform_bind_ok hquery, perform_modify]
  rfl

/-- An object that a slot answers for becomes shared. -/
theorem promote_spec (loose' : List Handle) (hcoherent : w.CoherentBut loose)
    (hx : w.objects.get? x = some o)
    (hsingle : o.header.ownership = .single)
    (hloose : ∀ y ∈ loose, y ∈ loose' ∨ y = x) :
    ∃ w', (promote x).perform w = (.ok (), w') ∧ w'.CoherentBut loose' ∧
      w.objects.Puts w'.objects x (o.setOwnership .shared) ∧ w'.classes = w.classes := by
  have hperform := perform_addToPool (PoolStack.get?_collector (s := w.pools)) hx
  have hputs : w.objects.Puts (w.objects.modify x (·.setOwnership .shared)) x
      (o.setOwnership .shared) := Arena.puts_modify hx
  obtain ⟨hvalid, hperm⟩ := hcoherent.pools.modify_insert PoolStack.get?_collector x
  refine ⟨{ w with
      objects := w.objects.modify x (·.setOwnership .shared)
      pools := w.pools.modify PoolId.collector (·.insert x)
      promotions := w.promotions + 1 }, ?_,
    ⟨hcoherent.tight.modify x _, hvalid, ?_, ?_⟩, hputs, rfl⟩
  · unfold promote
    rw [perform_bind_ok hperform, perform_modify]
    rfl
  · refine hcoherent.linked.setHeader hx hputs (fun _ => rfl) id ?_ ?_ ?_
    · intro heq
      cases heq
    · intro _ heq
      cases heq
    · exact fun y hy => (hloose y hy).imp id fun heq => ⟨heq, rfl⟩
  · have hadd := hcoherent.registered.add
      (hcoherent.registered.not_mem_of_single hx hsingle) hputs Ownership.ofPool_collector.symm
    exact hadd.perm hperm.symm

/-- Claiming an object for a slot makes it shared, or leaves it to this slot alone. -/
theorem claim_spec (hcoherent : w.Coherent) (hx : w.objects.get? x = some o) :
    ∃ h w', (claim x).perform w = (.ok (), w') ∧ w'.Coherent ∧
      w.objects.Puts w'.objects x { o with header := h } ∧ h.pinned = o.header.pinned ∧
      w'.classes = w.classes ∧
      (h.ownership = .shared ∨ h.ownership = .single ∧ ∀ s, ¬ w'.objects.Holds s x) := by
  unfold claim
  simp only [perform_query_bind, World.ownership_eq_ok hx]
  cases hown : o.header.ownership with
  | pool id =>
      obtain ⟨hmem, _⟩ := hcoherent.registered.mem_of_pool hx hown
      obtain ⟨pools, hperform, hvalid, hperm, _⟩ := perform_removeFromPool hcoherent.pools hmem
      have hputs : w.objects.Puts (w.objects.modify x (·.setOwnership .single)) x
          (o.setOwnership .single) := Arena.puts_modify hx
      have hunheld := hcoherent.linked.pool_unheld x o id hx hown
      have hpinned : ¬ o.header.pinned = true := by
        simp [hcoherent.linked.unpinned hx (by simp [hown])]
      refine ⟨{ o.header with ownership := .single },
        { w with objects := w.objects.modify x (·.setOwnership .single), pools := pools },
        ?_, ⟨hcoherent.tight.modify x _, hvalid, ?_, ?_⟩, hputs, rfl, rfl, Or.inr ⟨rfl, ?_⟩⟩
      · rw [perform_bind_ok hperform, perform_modify]
        rfl
      · refine hcoherent.linked.setHeader hx hputs (fun h => absurd h hpinned)
          (fun h => h) ?_ ?_ ?_
        · exact fun _ _ s t hs => absurd hs (hunheld s)
        · intro _ heq
          cases heq
        · simp
      · refine (hcoherent.registered.perm hperm).drop (fun y hne => hputs.other hne) ?_
        intro p hp
        cases hputs.self.symm.trans hp
        rfl
      · intro s hs
        rw [hputs.holds_iff] at hs
        split at hs
        · next howner =>
            refine hunheld s ⟨o, by rw [howner, hx], ?_⟩
            cases s <;> exact hs
        · exact hunheld s hs
  | single =>
      obtain ⟨w', hperform, hcoherent', hputs, hclasses⟩ :=
        promote_spec [] hcoherent hx hown (by simp)
      exact ⟨_, w', hperform, hcoherent', hputs, rfl, hclasses, Or.inl rfl⟩
  | shared =>
      refine ⟨o.header, w, rfl, hcoherent, fun y => ?_, rfl, rfl, Or.inl hown⟩
      split
      · next heq => rw [heq, hx]
      · rfl

/-- A new value of a slot, if there is one, has been claimed for it. -/
structure Claims (w w' : World) (value : Option Handle) : Prop where
  coherent : w'.Coherent
  classes_eq : w'.classes = w.classes
  other : ∀ y, value ≠ some y → w'.objects.get? y = w.objects.get? y
  header : ∀ y o, w.objects.get? y = some o →
    ∃ h, w'.objects.get? y = some { o with header := h } ∧ h.pinned = o.header.pinned
  ready : ∀ x, value = some x → ∃ p, w'.objects.get? x = some p ∧
    (p.header.ownership = .shared ∨
      p.header.ownership = .single ∧ ∀ s, ¬ w'.objects.Holds s x)

theorem claims_spec {value : Option Handle} (hcoherent : w.Coherent)
    (hlive : ∀ x, value = some x → w.objects.Live x) :
    ∃ w', (value.forM claim).perform w = (.ok (), w') ∧ Claims w w' value := by
  cases value with
  | none =>
      refine ⟨w, rfl, hcoherent, rfl, fun _ _ => rfl, fun y o ho => ⟨o.header, ho, rfl⟩, ?_⟩
      intro x hx
      cases hx
  | some x =>
      obtain ⟨o, ho⟩ := hlive x rfl
      obtain ⟨h, w', hperform, hcoherent', hputs, hpinned, hclasses, hready⟩ :=
        claim_spec hcoherent ho
      refine ⟨w', hperform, hcoherent', hclasses, fun y hne => ?_, fun y p hp => ?_, ?_⟩
      · exact hputs.other fun heq => hne (heq ▸ rfl)
      · by_cases heq : y = x
        · subst heq
          cases ho.symm.trans hp
          exact ⟨h, hputs.self, hpinned⟩
        · exact ⟨p.header, by rw [hputs.other heq, hp], rfl⟩
      · intro y hy
        cases hy
        exact ⟨_, hputs.self, hready⟩

/-- The world in which a slot was written after its new value was claimed: what the
slot alone had answered for is freed. -/
def written (w : World) (s : Slot) (old value : Option Handle) : World :=
  { w.store s value with
    objects := reclaim (w.store s value).objects
      (old.toList.filter (isSingle (w.store s value).objects)) }

theorem perform_letGo (hx : w.objects.get? x = some o) :
    (letGo x).perform w = (.ok (),
      { w with objects := reclaim w.objects ([x].filter (isSingle w.objects)) }) := by
  unfold letGo
  rw [perform_query_bind, World.ownership_eq_ok hx]
  by_cases hsingle : o.header.ownership = .single
  · have htest : isSingle w.objects x = true := isSingle_iff.2 ⟨o, hx, hsingle⟩
    simp only [hsingle, if_true, perform_modify, World.free, List.filter_cons, htest,
      List.filter_nil]
  · have htest : isSingle w.objects x = false := by
      rw [← Bool.not_eq_true, isSingle_iff]
      rintro ⟨p, hp, heq⟩
      cases hx.symm.trans hp
      exact hsingle heq
    simp only [hsingle, if_false, perform_pure, List.filter_cons, htest, List.filter_nil,
      Bool.false_eq_true, reclaim]

/-- What a slot alone had answered for can be freed once the slot holds something else. -/
theorem reclaimable_of_store {s : Slot} {old value : Option Handle} (hcoherent : w.Coherent)
    (ho : w.objects.get? s.owner = some o) (hs : s.peek? o = some old) (hne : old ≠ value)
    (hx : x ∈ old.toList.filter (isSingle (w.store s value).objects)) :
    Reclaimable (w.store s value).objects x := by
  have hputs : w.objects.Puts (w.store s value).objects s.owner (s.storeIn value o) :=
    Arena.puts_modify ho
  rw [List.mem_filter, Option.mem_toList, isSingle_iff] at hx
  obtain ⟨rfl, p, hp, hsingle⟩ := hx
  refine ⟨fun t ht => ?_, fun q hq => ?_⟩
  · rw [hputs.holds_store_iff ho hs] at ht
    split at ht
    · exact hne ht.symm
    · next hts =>
        have hbefore : ∃ q, w.objects.get? x = some q ∧ q.header.ownership = .single := by
          rcases hputs.back hp with ⟨rfl, rfl⟩ | ⟨_, hp⟩
          · exact ⟨_, ho, by rwa [Slot.header_storeIn] at hsingle⟩
          · exact ⟨p, hp, hsingle⟩
        obtain ⟨q, hq, hqsingle⟩ := hbefore
        exact hts (hcoherent.linked.single_held_once x q hq hqsingle List.not_mem_nil t s ht
          ⟨_, ho, hs⟩)
  · cases hp.symm.trans hq
    exact hsingle

/-- What is pinned is there after a write, with no new places. -/
theorem Claims.lasts_store {s : Slot} {value : Option Handle} {p : Object}
    (hclaims : Claims w w' value) (hp : w.objects.get? x = some p)
    (hpinned : p.header.pinned = true) :
    ∃ q, (w'.store s value).objects.get? x = some q ∧ p.Lasts q := by
  obtain ⟨h, hp', hpinned'⟩ := hclaims.header x p hp
  by_cases heq : x = s.owner
  · subst heq
    refine ⟨_, (Arena.puts_modify hp').self, ?_,
      Object.noNewPlaces_storeIn { p with header := h } s value⟩
    rw [Slot.header_storeIn]
    exact hpinned'.trans hpinned
  · refine ⟨{ p with header := h }, ?_, hpinned'.trans hpinned,
      Object.noNewPlaces_of_payload_eq rfl⟩
    rw [World.store, World.modifyObject, Arena.get?_modify, if_neg heq, hp']

/-- Exchanging the contents of a slot claims the new value, writes it and frees what the slot
alone had answered for. -/
theorem exchange_spec {s : Slot} {old value : Option Handle} (hcoherent : w.Coherent)
    (ho : w.objects.get? s.owner = some o) (hs : s.peek? o = some old) (hne : old ≠ value)
    (hlive : ∀ x, value = some x → w.objects.Live x) :
    ∃ w', (value.forM claim).perform w = (.ok (), w') ∧ Claims w w' value ∧
      (exchange s old value).perform w = (.ok (), written w' s old value) ∧
      w.Evolves (written w' s old value) := by
  obtain ⟨w', hperform, hclaims⟩ := claims_spec hcoherent hlive
  obtain ⟨h, ho', _⟩ := hclaims.header _ o ho
  have hs' : s.peek? { o with header := h } = some old := by
    cases s <;> exact hs
  have hputs : w'.objects.Puts (w'.store s value).objects s.owner
      (s.storeIn value { o with header := h }) := Arena.puts_modify ho'
  have hlinked := hclaims.coherent.linked.store ho' hs' hputs hclaims.ready
  have hregistered : Registered (w'.store s value).objects (w'.store s value).pools.entries :=
    hclaims.coherent.registered.amend ho' hputs (by rw [Slot.header_storeIn])
  have htight : (w'.store s value).objects.Tight := hclaims.coherent.tight.modify _ _
  obtain ⟨htight', hlinked', hregistered', hkept⟩ := reclaim_spec htight hlinked hregistered
    fun _ => reclaimable_of_store hclaims.coherent ho' hs' hne
  refine ⟨w', hperform, hclaims, ?_, ⟨⟨htight', hclaims.coherent.pools, hlinked', hregistered'⟩,
    ?_, ?_⟩⟩
  · unfold exchange
    rw [perform_bind_ok hperform, perform_bind_ok (perform_modify _ _)]
    cases old with
    | none =>
        show (_, _) = (_, _)
        simp [written, reclaim]
    | some x =>
        obtain ⟨p, hp⟩ := hputs.live (hclaims.coherent.linked.held_live s x ⟨_, ho', hs'⟩)
        exact perform_letGo hp
  · intro c hc
    show c ∈ w'.classes
    rw [hclaims.classes_eq]
    exact hc
  · intro y p hp hpinned
    obtain ⟨q, hq, hlasts⟩ := hclaims.lasts_store hp hpinned
    refine ⟨q, hkept y q hq ?_, hlasts⟩
    rw [hlinked.pinned_shared y q hq hlasts.pinned]
    simp

theorem blames_read {s : Slot} {e : Error} (he : w.read s = .error e) :
    w.Blames [s.owner] e := by
  unfold World.read at he
  cases hx : w.objects.get? s.owner with
  | none =>
      rw [World.object_eq_error hx] at he
      cases he
      exact ⟨List.mem_singleton_self _, hx⟩
  | some o =>
      rw [World.object_eq_ok hx] at he
      have hentry : ∀ {found : Option (Option Handle)} {index length : Nat},
          Slot.readIn.entry found index length = .error e → w.Blames [s.owner] e := by
        intro found index length hentry
        cases found <;> cases hentry
        trivial
      cases s with
      | attr x index => exact hentry he
      | element x index | binding x index | classAttr x index | signature x index =>
          simp only [bind, Except.bind, Slot.readIn] at he
          split at he
          · exact hentry he
          · cases he
            exact World.blames_telling fun _ => trivial

theorem perform_set {s : Slot} {value : Option Handle} (hwritable : s.IsWritable) :
    (set s value).perform w = (do
      let old ← query (·.read s)
      if old ≠ value then exchange s old value : Action Unit).perform w := by
  unfold set
  split
  · next x => exact absurd rfl (hwritable x)
  · rfl

/-- Writing a slot is refused, and changes nothing, or it exchanges the contents. -/
theorem set_spec (w : World) (s : Slot) (value : Option Handle) :
    (∃ e, (set s value).perform w = (.error e, w) ∧ w.Blames (s.owner :: value.toList) e) ∨
      ∃ o old, w.objects.get? s.owner = some o ∧ s.peek? o = some old ∧
        (old = value ∧ (set s value).perform w = (.ok (), w) ∨
          old ≠ value ∧ (∀ x, value = some x → w.objects.Live x) ∧
            (set s value).perform w = (exchange s old value).perform w) := by
  by_cases hwritable : s.IsWritable
  · rw [perform_set hwritable, perform_query_bind]
    cases hread : w.read s with
    | error e =>
        refine Or.inl ⟨e, rfl, (blames_read hread).mono fun x hx => ?_⟩
        rw [List.mem_singleton.1 hx]
        exact List.mem_cons_self
    | ok old =>
        obtain ⟨o, ho⟩ : ∃ o, w.objects.get? s.owner = some o := by
          cases hx : w.objects.get? s.owner with
          | some o => exact ⟨o, rfl⟩
          | none =>
              rw [World.read, World.object_eq_error hx] at hread
              cases hread
        have hs : s.peek? o = some old := by
          rw [World.read, World.object_eq_ok ho] at hread
          exact (Slot.readIn_eq_ok_iff hwritable).1 hread
        by_cases heq : old = value
        · exact Or.inr ⟨o, old, ho, hs, Or.inl ⟨heq, by simp [heq]⟩⟩
        · by_cases hlive : ∀ x, value = some x → w.objects.Live x
          · exact Or.inr ⟨o, old, ho, hs, Or.inr ⟨heq, hlive, by simp [heq]⟩⟩
          · obtain ⟨x, rfl, hstale⟩ : ∃ x, value = some x ∧ w.objects.get? x = none := by
              simpa [Arena.Live, Option.eq_none_iff_forall_ne_some] using hlive
            refine Or.inl ⟨.dangling x, ?_, by simp, hstale⟩
            have hclaim : (claim x).perform w = (.error (.dangling x), w) := by
              unfold claim
              rw [perform_query_bind, World.ownership_eq_error hstale]
            simp only [ne_eq, heq, not_false_eq_true, if_true, exchange]
            exact perform_bind_error hclaim
  · simp only [Slot.IsWritable, not_forall, not_not] at hwritable
    obtain ⟨x, rfl⟩ := hwritable
    exact Or.inl ⟨.classAttributeAssignment, rfl, trivial⟩

end Action

end ObjectSystem

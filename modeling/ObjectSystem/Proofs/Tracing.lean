/-
# Freeing agrees with tracing

Writes and released scopes free objects at once, without a search. What they free could
not have been traced: once the slot is written, or the scopes are gone, no reference leads
to it from a pinned object or from what an open scope lists. There is one exception. When
a write frees the object that the slot is in, it may free the new value too, which a scope
had answered for until then.
-/

import ObjectSystem.Proofs.WriteBack

namespace ObjectSystem

/-- If the objects that stay are linked among each other, and refer to nothing else than
before, then only objects that stay are reached from objects that stay. -/
theorem Arena.live_of_reaches {a a' : Arena Object} {known start : Handle → Prop}
    {loose : List Handle} {x : Handle} (hlinked : Linked a' known loose)
    (hback : ∀ y o', a'.get? y = some o' → ∃ o, a.get? y = some o ∧ o'.refs = o.refs)
    (hstart : ∀ y, start y → a'.Live y) (hreach : a.Reaches start x) : a'.Live x := by
  induction hreach with
  | start hroot _ => exact hstart _ hroot
  | ref _ hx hy _ ih =>
      obtain ⟨o', ho'⟩ := ih
      obtain ⟨o, ho, hrefs⟩ := hback _ o' ho'
      cases hx.symm.trans ho
      exact hlinked.ref_live ho' (hrefs ▸ hy)

namespace World

variable {settings : Settings} {w w' : World} {s : Slot} {value : Option Handle} {x : Handle}

/-- Where tracing starts when one world has come after another: from the pinned objects and
from what the scopes that are still open list, then or before. Of what they listed before,
something may be lost. -/
inductive Anchor (w w' : World) (lost : Handle → Prop) (x : Handle) : Prop where
  | pinned {o : Object} (hx : w.objects.get? x = some o) (hpinned : o.header.pinned = true)
  | now {p : Pool} (hp : p ∈ w'.pools.innermostFirst) (hx : x ∈ p.toList)
  | before {p : Pool} (hp : p ∈ w.pools.innermostFirst) (hopen : p.id ∈ w'.pools.scopeIds)
      (hx : x ∈ p.toList) (hkept : ¬ lost x)

/-- An object is there before and not afterwards. -/
def Frees (w w' : World) (x : Handle) : Prop :=
  w.objects.Live x ∧ ¬ w'.objects.Live x

/-- Where tracing starts is live if all that scopes answered for is, save what is lost. -/
theorem Anchor.live {lost : Handle → Prop} (hcoherent : w.Coherent) (hevolves : w.Evolves w')
    (hpool : ∀ x o id, w.objects.get? x = some o → o.header.ownership = .pool id →
      id ∈ w'.pools.scopeIds → ¬ lost x → w'.objects.Live x)
    (hanchor : w.Anchor w' lost x) : w'.objects.Live x := by
  cases hanchor with
  | pinned ho hpinned =>
      obtain ⟨o', ho', _⟩ := hevolves.pinned x _ ho hpinned
      exact ⟨o', ho'⟩
  | now hp hx =>
      obtain ⟨o, ho, _⟩ := Action.ownership_of_mem_scope hevolves.coherent hp hx
      exact ⟨o, ho⟩
  | before hp hopen hx hkept =>
      obtain ⟨o, ho, hown⟩ := Action.ownership_of_mem_scope hcoherent hp hx
      exact hpool x o _ ho hown hopen hkept

/-- Nothing that a write frees is reached once the slot is written. -/
theorem unreached_of_set (hcoherent : w.Coherent)
    (hset : (Action.set s value).perform w = (.ok (), w')) (hfreed : w.Frees w' x) :
    ¬ (w.store s value).objects.Reaches
      (w.Anchor w' fun y => value = some y ∧ ¬ w'.objects.Live s.owner) x := by
  intro hreach
  rcases Action.set_spec w s value with ⟨e, hfails, _⟩ | ⟨o, old, ho, hs, hcases⟩
  · cases hfails.symm.trans hset
  rcases hcases with ⟨_, hsame⟩ | ⟨hne, hlive, hexchange⟩
  · cases hsame.symm.trans hset
    exact hfreed.2 hfreed.1
  obtain ⟨w₁, _, hclaims, hperform, hevolves⟩ := Action.exchange_spec hcoherent ho hs hne hlive
  cases hperform.symm.trans (hexchange.symm.trans hset)
  refine hfreed.2 (Arena.live_of_reaches hevolves.coherent.linked ?_ ?_ hreach)
  · intro y p hp
    obtain ⟨q, hq, heq⟩ := hclaims.get?_store hlive (get?_of_get?_reclaim hp)
    exact ⟨q, hq, by rw [heq]; rfl⟩
  · refine fun y => Anchor.live hcoherent hevolves fun y q id hq hown _ hkept => ?_
    by_cases hvalue : value = some y
    · -- The slot that is written holds the new value, if it is still there.
      have howner : (Action.written w₁ s old value).objects.Live s.owner :=
        not_not.1 fun hgone => hkept ⟨hvalue, hgone⟩
      obtain ⟨p, hp⟩ := howner
      exact hevolves.coherent.linked.held_live s y
        ⟨p, hp, hvalue ▸ hclaims.peek?_written ho hs hp⟩
    · -- A write frees nothing that a scope answers for.
      obtain ⟨p, hp, hheader, _⟩ := get?_store_of_get? s value hq
      rw [← hclaims.get?_store_of_ne hvalue] at hp
      refine ⟨p, get?_reclaim.2 ⟨hp, fun hfalls => ?_⟩⟩
      have hsingle := hfalls.single hp fun z hz r hr => by
        rw [List.mem_filter, isSingle_iff] at hz
        obtain ⟨_, r', hr', hsingle⟩ := hz
        cases hr.symm.trans hr'
        exact hsingle
      rw [hheader, hown] at hsingle
      cases hsingle

/-- Nothing that goes with scopes is reached once they are gone. -/
theorem unreached_of_releasePool {id : PoolId} {n : Nat} (hcoherent : w.Coherent)
    (hrelease : (Action.releasePool id).perform w = (.ok n, w')) (hfreed : w.Frees w' x) :
    ¬ w.objects.Reaches (w.Anchor w' fun _ => False) x := by
  intro hreach
  rcases Action.releasePool_spec hcoherent id with
    ⟨e, hfails, _⟩ | ⟨m, w'', closed, kept, hperform, hpop, hreleases⟩
  · cases hfails.symm.trans hrelease
  cases hperform.symm.trans hrelease
  refine hfreed.2 (Arena.live_of_reaches hreleases.evolves.coherent.linked ?_ ?_ hreach)
  · exact fun y p hp => ⟨p, hreleases.get?_of_get? hp, rfl⟩
  · refine fun y => Anchor.live hcoherent hreleases.evolves fun y q id' hq hown hopen _ => ?_
    exact (hreleases.live_iff_of_pool hcoherent hpop hq hown).2 hopen

/-- What a write or the release of scopes frees is reached neither from pinned objects nor
from what scopes list that are still open. Only the new value of a slot may have been
listed and be freed, and only with the object that the slot is in. -/
theorem Respectful.freed_unreached (hrespectful : Respectful settings w) (hfits : w.Fits) :
    (∀ (s : Slot) (value : Option Handle) (w' : World),
      (Operation.set s value).perform w = (.ok (), w') → ∀ x, w.Frees w' x →
        ¬ (w.store s value).objects.Reaches
          (w.Anchor w' fun y => value = some y ∧ ¬ w'.objects.Live s.owner) x) ∧
      ∀ (id : PoolId) (n : Nat) (w' : World),
        (Operation.releasePool id).perform w = (.ok n, w') → ∀ x, w.Frees w' x →
          ¬ w.objects.Reaches (w.Anchor w' fun _ => False) x := by
  obtain ⟨hcoherent, _⟩ := hrespectful.coherent hfits
  exact ⟨fun s value w' hset x => unreached_of_set hcoherent hset,
    fun id n w' hrelease x => unreached_of_releasePool hcoherent hrelease⟩

/-- Two vectors that hold each other are freed by a write into one of them. The scope in
which they were made still lists a number, and frees it when it is released. -/
theorem Respectful.freed_unreached_ring :
    let ring := withRing.store (.element (Builtin.nth 25) 0) (some (Builtin.nth 27))
    (∃ w', (Operation.set (.element (Builtin.nth 25) 0) (some (Builtin.nth 27))).perform
        withRing = (.ok (), w') ∧ withRing.Frees w' (Builtin.nth 25) ∧
      ¬ ring.objects.Reaches (withRing.Anchor w' fun y =>
        some (Builtin.nth 27) = some y ∧ ¬ w'.objects.Live (Builtin.nth 25)) (Builtin.nth 25)) ∧
      ∃ n w', (Operation.releasePool ⟨1⟩).perform withRing = (.ok n, w') ∧
        withRing.Frees w' (Builtin.nth 27) ∧
        ¬ withRing.objects.Reaches (withRing.Anchor w' fun _ => False) (Builtin.nth 27) := by
  have hfits : withRing.Fits := ⟨by decide +kernel, by decide +kernel⟩
  obtain ⟨hcoherent, _⟩ := respectful_withRing.coherent hfits
  obtain ⟨hset, hrelease⟩ := freed_unreached respectful_withRing hfits
  constructor
  · have hok : ((Operation.set (.element (Builtin.nth 25) 0) (some (Builtin.nth 27))).perform
        withRing).1 = .ok () := by decide +kernel
    obtain ⟨w', hperform⟩ : ∃ w', (Operation.set (.element (Builtin.nth 25) 0)
        (some (Builtin.nth 27))).perform withRing = (.ok (), w') := ⟨_, Prod.fst_eq_iff.1 hok⟩
    have hlive : withRing.isLive (Builtin.nth 25) = true := by decide +kernel
    have hperform' : (Action.set (.element (Builtin.nth 25) 0)
        (some (Builtin.nth 27))).perform withRing = (.ok (), w') := hperform
    have hgone := (stores_of_set hcoherent hperform').1 undercuts_withRing
    have hfrees : withRing.Frees w' (Builtin.nth 25) := by
      refine ⟨Arena.contains_iff.1 hlive, ?_⟩
      rintro ⟨o, ho⟩
      cases hgone.symm.trans ho
    exact ⟨w', hperform, hfrees, hset _ _ _ hperform _ hfrees⟩
  · have hpop : (withRing.pools.pop ⟨1⟩).map (·.2.scopeIds) = .ok [] := by decide +kernel
    have hlisted : (withRing.objects.get? (Builtin.nth 27)).any
        (·.header.ownership == .pool ⟨1⟩) = true := by decide +kernel
    obtain ⟨o, ho, hown⟩ := (Option.any_eq_true _ _).1 hlisted
    rcases Action.releasePool_spec hcoherent ⟨1⟩ with
      ⟨e, _, hfails, _⟩ | ⟨n, w', closed, kept, hperform, hcloses, hreleases⟩
    · rw [hfails] at hpop
      cases hpop
    · rw [hcloses] at hpop
      have hclosed : w'.pools.scopeIds = [] :=
        hreleases.pools_eq ▸ Except.ok.inj hpop
      have hfrees : withRing.Frees w' (Builtin.nth 27) := by
        refine ⟨⟨o, ho⟩, fun hlive => ?_⟩
        have hopen :=
          (hreleases.live_iff_of_pool hcoherent hcloses ho (beq_iff_eq.1 hown)).1 hlive
        rw [hclosed] at hopen
        cases hopen
      have hperform' : (Operation.releasePool ⟨1⟩).perform withRing = (.ok n, w') := hperform
      exact ⟨n, w', hperform', hfrees, hrelease ⟨1⟩ n w' hperform' _ hfrees⟩

end World

end ObjectSystem

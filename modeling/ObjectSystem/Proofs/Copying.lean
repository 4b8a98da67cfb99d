/-
# Copies and collections

A shallow copy duplicates the references of an object before it allocates the duplicate, and
the allocation may run a collection. The duplicate is no root of that collection. If what the
object holds survives it, or no collection is run, the copy is fresh, it belongs to the
innermost scope, and what it holds is live and shared with it.

Otherwise the duplicate goes into the world with references that lead nowhere. The copy stops
with a stale handle when it comes to share the first of them, and the duplicate stays. This
happens only if the object itself would not survive a collection.
-/

import ObjectSystem.Proofs.Admission
import ObjectSystem.Proofs.Integrity

namespace ObjectSystem

namespace Action

open World

variable {w : World} {x y : Handle} {o : Object}

/-- An object that no pool answers for is shared, whatever else is wrong with the world. -/
theorem perform_share (hx : w.objects.get? x = some o)
    (hown : ∀ id, o.header.ownership ≠ .pool id) :
    ∃ w', (share x).perform w = (.ok (), w') ∧
      w.objects.Puts w'.objects x (o.setOwnership .shared) := by
  unfold share
  rw [perform_query_bind, ownership_eq_ok hx]
  cases hcase : o.header.ownership with
  | pool id => exact absurd hcase (hown id)
  | single =>
      have hadd := perform_addToPool (PoolStack.get?_collector (s := w.pools)) hx
      refine ⟨{ w with
          objects := w.objects.modify x (·.setOwnership .shared)
          pools := w.pools.modify PoolId.collector (·.insert x)
          promotions := w.promotions + 1 }, ?_, Arena.puts_modify hx⟩
      simp only
      unfold promote
      rw [perform_bind_ok hadd, perform_modify]
      rfl
  | shared =>
      have hsame : o.setOwnership .shared = o := by
        rw [Object.setOwnership, ← hcase]
      refine ⟨w, rfl, fun y => ?_⟩
      split
      · next heq => rw [heq, hx, hsame]
      · rfl

/-- Sharing stops at the first stale handle. Until then it changes nothing but owners. -/
theorem forM_share_stale {front back : List Handle}
    (hfront : ∀ y ∈ front, ∃ p, w.objects.get? y = some p ∧ ∀ id, p.header.ownership ≠ .pool id)
    (hx : w.objects.get? x = none) :
    ∃ w', ((front ++ x :: back).forM share).perform w = (.error (.dangling x), w') ∧
      ∀ y, w'.objects.get? y =
        if y ∈ front then (w.objects.get? y).map (·.setOwnership .shared)
        else w.objects.get? y := by
  induction front generalizing w with
  | nil =>
      have hshare : (share x).perform w = (.error (.dangling x), w) := by
        unfold share
        rw [perform_query_bind, ownership_eq_error hx]
      exact ⟨w, perform_bind_error hshare, fun y => rfl⟩
  | cons y front ih =>
      obtain ⟨p, hp, hown⟩ := hfront y List.mem_cons_self
      obtain ⟨w', hshare, hputs⟩ := perform_share hp hown
      have hne : x ≠ y := by
        rintro rfl
        cases hx.symm.trans hp
      obtain ⟨w'', hrest, hget⟩ := ih (w := w') (fun z hz => by
        by_cases heq : z = y
        · subst heq
          exact ⟨_, hputs.self, by simp [Object.setOwnership]⟩
        · obtain ⟨q, hq, hqown⟩ := hfront z (List.mem_cons_of_mem _ hz)
          exact ⟨q, by rw [hputs.other heq, hq], hqown⟩) (by rw [hputs.other hne, hx])
      refine ⟨w'', ?_, fun z => ?_⟩
      · exact (perform_bind_ok hshare).trans hrest
      · rw [hget z]
        by_cases heq : z = y
        · subst heq
          rw [hputs.self, hp, if_pos List.mem_cons_self]
          split <;> rfl
        · rw [hputs.other heq]
          exact if_congr (by rw [List.mem_cons, or_iff_right heq]) rfl rfl

end Action

namespace World

variable {settings : Settings} {w w' : World} {x y : Handle} {o : Object}

/-- What a shallow copy of an object is, and what has happened beside it. -/
structure Copies (w : World) (o : Object) (copy : Handle) (w' : World) : Prop where
  new : ¬ w.objects.Live copy
  get?_eq : w'.objects.get? copy = some (o.duplicate.setOwnership (.ofPool w.pools.current))
  /-- The innermost scope, or the collector, answers for the copy. -/
  count_eq : ∀ id, w'.pools.entries.count (id, copy) = if id = w.pools.current then 1 else 0
  shared : ∀ y ∈ o.ownedRefs, ∃ p, w.objects.get? y = some p ∧
    w'.objects.get? y = some (p.setOwnership .shared)
  other : ∀ y, y ≠ copy → y ∉ o.ownedRefs → w'.objects.get? y = w.relieved.objects.get? y
  scopes_eq : w'.pools.scopeIds = w.pools.scopeIds
  resolves : ∀ y p, w'.objects.get? y = some p → ∀ z ∈ p.refs, w'.objects.Live z

/-- What a shallow copy leaves behind that has lost what it was to hold to a collection. -/
structure Miscopies (w : World) (o : Object) (lost : Handle) (w' : World) : Prop where
  mem : lost ∈ o.ownedRefs
  unkept : w.isFull = true ∧ ¬ w.Keeps [] lost
  stale : ¬ w'.objects.Live lost
  duplicate : ∃ copy, ¬ w.objects.Live copy ∧
    w'.objects.get? copy = some (o.duplicate.setOwnership (.ofPool w.pools.current))

/-- What an object holds is as it was if it survives the collection. -/
theorem Coherent.held_relieved (hcoherent : w.Coherent) (htidy : w.Tidy)
    (hx : w.objects.get? x = some o) (hy : y ∈ o.ownedRefs)
    (hkept : w.isFull = true → w.Keeps [] y) :
    ∃ p, w.objects.get? y = some p ∧ w.relieved.objects.get? y = some p ∧
      ∀ id, p.header.ownership ≠ .pool id := by
  obtain ⟨p, hp, hown⟩ := Action.held_spec hcoherent hx hy
  exact ⟨p, hp, htidy.get?_relieved_iff.2 ⟨hp, hkept⟩, hown⟩

/-- A list has a first element without a property, or all have it. -/
theorem exists_first {P : Handle → Prop} (l : List Handle) :
    (∀ y ∈ l, P y) ∨ ∃ front y back, l = front ++ y :: back ∧ (∀ z ∈ front, P z) ∧ ¬ P y := by
  induction l with
  | nil => exact Or.inl fun y hy => absurd hy List.not_mem_nil
  | cons y l ih =>
      by_cases hy : P y
      · rcases ih with hall | ⟨front, z, back, rfl, hfront, hz⟩
        · exact Or.inl (List.forall_mem_cons.2 ⟨hy, hall⟩)
        · exact Or.inr ⟨y :: front, z, back, rfl, List.forall_mem_cons.2 ⟨hy, hfront⟩, hz⟩
      · exact Or.inr ⟨[], y, l, rfl, fun z hz => absurd hz List.not_mem_nil, hy⟩

/-- The new handle is not among those that the object holds. -/
theorem TakesIn.not_held {copy : Handle} (htakes : w.TakesIn o.duplicate copy w')
    (hcoherent : w.Coherent) (hx : w.objects.get? x = some o) : ∀ y ∈ o.ownedRefs, y ≠ copy := by
  rintro y hy rfl
  obtain ⟨p, hp, _⟩ := Action.held_spec hcoherent hx hy
  exact htakes.new ⟨p, hp⟩

/-- What the object holds has survived, so that it can be shared with the duplicate. -/
theorem copies_of_kept (hcoherent : w.Coherent) (htidy : w.Tidy)
    (hx : w.objects.get? x = some o) (hfits : (w.relieved.admitObject o.duplicate).2.Fits)
    (htakes : w.TakesIn o.duplicate (w.relieved.admitObject o.duplicate).1
      (w.relieved.admitObject o.duplicate).2)
    (hkept : ∀ y ∈ o.ownedRefs, w.isFull = true → w.Keeps [] y) :
    ∃ w', (o.duplicate.ownedRefs.forM Action.share).perform
        (w.relieved.admitObject o.duplicate).2 = (.ok ⟨⟩, w') ∧
      w.Copies o (w.relieved.admitObject o.duplicate).1 w' ∧ w.Evolves w' := by
  have hevolves := evolves_relieved hcoherent htidy
  have hheld := fun y hy => hcoherent.held_relieved htidy hx hy (hkept y hy)
  obtain ⟨w', hshare, hevolves', hself, hother⟩ :=
    Action.share_duplicate_spec hevolves.coherent hfits
      (fun c hc => hevolves.classes c (hcoherent.linked.classes_known x o hx c hc)) fun y hy => by
        obtain ⟨p, _, hp, hown⟩ := hheld y hy
        exact ⟨p, hp, hown⟩
  have hmoves := Action.keeps_forM (l := o.duplicate.ownedRefs) Action.moves_share
    (w.relieved.admitObject o.duplicate).2
  rw [hshare] at hmoves
  have hget : w'.objects.get? (w.relieved.admitObject o.duplicate).1 =
      some (o.duplicate.setOwnership (.ofPool w.pools.current)) := by
    rw [hself, PoolStack.current, innermostFirst_relieved]
    rfl
  refine ⟨w', hshare, ?_, hevolves.trans hevolves'⟩
  constructor
  case new => exact htakes.new
  case get?_eq => exact hget
  case count_eq =>
    intro id
    rw [hevolves'.coherent.count_entries hget]
    exact if_congr ⟨fun heq => (Ownership.ofPool_injective heq).symm, fun heq => heq ▸ rfl⟩
      rfl rfl
  case shared =>
    intro y hy
    obtain ⟨p, hp, hp', _⟩ := hheld y hy
    refine ⟨p, hp, ?_⟩
    rw [hother y (htakes.not_held hcoherent hx y hy), if_pos hy, hp', Option.map_some]
  case other =>
    intro y hne hy
    rw [hother y hne, if_neg hy]
  case scopes_eq => exact hmoves.scopes_eq.trans htakes.scopes_eq
  case resolves => exact fun y p hp z hz => hevolves'.coherent.linked.ref_live hp hz

/-- Sharing with the duplicate stops at the first reference whose object is gone. -/
theorem miscopies_of_lost {front back : List Handle} {lost : Handle} (hcoherent : w.Coherent)
    (htidy : w.Tidy) (hx : w.objects.get? x = some o)
    (htakes : w.TakesIn o.duplicate (w.relieved.admitObject o.duplicate).1
      (w.relieved.admitObject o.duplicate).2)
    (hsplit : o.ownedRefs = front ++ lost :: back)
    (hfront : ∀ y ∈ front, w.isFull = true → w.Keeps [] y)
    (hlost : w.isFull = true ∧ ¬ w.Keeps [] lost) :
    ∃ w', (o.duplicate.ownedRefs.forM Action.share).perform
        (w.relieved.admitObject o.duplicate).2 = (.error (.dangling lost), w') ∧
      w.Miscopies o lost w' := by
  have hne := htakes.not_held hcoherent hx
  have hmem : ∀ y ∈ front, y ∈ o.ownedRefs := fun y hy => hsplit ▸ List.mem_append_left _ hy
  have hmemLost : lost ∈ o.ownedRefs := hsplit ▸ List.mem_append_right _ List.mem_cons_self
  have hstale : (w.relieved.admitObject o.duplicate).2.objects.get? lost = none := by
    rw [htakes.other lost (hne lost hmemLost)]
    apply Option.eq_none_iff_forall_ne_some.2
    intro p hp
    exact hlost.2 ((htidy.get?_relieved_iff.1 hp).2 hlost.1)
  obtain ⟨w', hshare, hget⟩ := Action.forM_share_stale (fun y hy => by
    obtain ⟨p, _, hp, hown⟩ := hcoherent.held_relieved htidy hx (hmem y hy) (hfront y hy)
    exact ⟨p, by rw [htakes.other y (hne y (hmem y hy)), hp], hown⟩) hstale
  refine ⟨w', ?_, hmemLost, hlost, ?_, (w.relieved.admitObject o.duplicate).1, htakes.new, ?_⟩
  · have hrefs : o.duplicate.ownedRefs = front ++ lost :: back := hsplit
    rw [hrefs, hshare]
  · rintro ⟨p, hp⟩
    rw [hget lost, hstale] at hp
    split at hp <;> cases hp
  · have hnew : (w.relieved.admitObject o.duplicate).1 ∉ front :=
      fun hmem' => hne _ (hmem _ hmem') rfl
    rw [hget, if_neg hnew, htakes.get?_eq]

/-- In every world that respectful operations lead to, a shallow copy of a live object gives
up if there is no room, or makes a copy that holds live objects, shared with it, if what the
object holds survives the collection that a full world runs. In both cases all references
lead to objects. Otherwise it leaves a duplicate behind that has lost what it was to hold. -/
theorem Respectful.shallowCopy_exact (hrespectful : Respectful settings w)
    (hx : w.objects.get? x = some o) (hfits : ((Operation.shallowCopy x).perform w).2.Fits) :
    (settings.objectLimit ≤ {y | w.Keeps [] y}.ncard ∧
      (Operation.shallowCopy x).perform w =
        (.error (.outOfMemory settings.objectLimit), (w.collect []).2) ∧
      ∀ y p, (w.collect []).2.objects.get? y = some p → ∀ z ∈ p.refs,
        (w.collect []).2.objects.Live z) ∨
    ({y | w.Keeps [] y}.ncard < settings.objectLimit ∧
      (((∀ y ∈ o.ownedRefs, w.isFull = true → w.Keeps [] y) ∧
        ∃ copy w', (Operation.shallowCopy x).perform w = (.ok copy, w') ∧ w.Copies o copy w') ∨
      ∃ lost w', (Operation.shallowCopy x).perform w = (.error (.dangling lost), w') ∧
        w.Miscopies o lost w')) := by
  have hreachable := hrespectful.reachable
  have htidy := hrespectful.tidy
  have hfits' : w.Fits := ((Operation.shallowCopy x).spends w).fits hfits
  have hsturdy := hreachable.sturdy hfits'
  obtain ⟨hcoherent, _⟩ := hrespectful.coherent hfits'
  have hiff := htidy.isFull_relieved_iff hsturdy.counted
  have hallocate := Action.perform_allocate_eq o.duplicate w
  rw [hreachable.settings_eq] at hiff hallocate
  have hperform : (Operation.shallowCopy x).perform w = _ := Action.perform_shallowCopy hx
  rw [hperform] at hfits ⊢
  by_cases hfull : w.relieved.isFull = true
  · left
    rw [if_pos hfull, relieved_eq_collect hfull] at hallocate
    refine ⟨hiff.1 hfull, Action.perform_bind_error hallocate, fun y p hp z hz => ?_⟩
    exact (evolves_collect hcoherent htidy []).coherent.linked.ref_live hp hz
  · right
    rw [if_neg hfull] at hallocate
    rw [Action.perform_bind_ok hallocate] at hfits ⊢
    have hshares : (do
        o.duplicate.ownedRefs.forM Action.share
        return (w.relieved.admitObject o.duplicate).1 : Action Handle).Keeps World.Moves :=
      Action.keeps_bind (Action.keeps_forM Action.moves_share) fun _ => Action.keeps_pure _
    have hadmitted := (hshares (w.relieved.admitObject o.duplicate).2).fits hfits
    have htakes := hsturdy.takesIn htidy (Bool.eq_false_iff.2 hfull) hadmitted
    refine ⟨Nat.lt_of_not_le (mt hiff.2 hfull), ?_⟩
    rcases exists_first (P := fun y => w.isFull = true → w.Keeps [] y) o.ownedRefs with
      hkept | ⟨front, lost, back, hsplit, hfront, hlost⟩
    · left
      obtain ⟨w', hshare, hcopies, _⟩ := copies_of_kept hcoherent htidy hx hadmitted htakes hkept
      rw [Action.perform_bind_ok hshare]
      exact ⟨hkept, _, w', rfl, hcopies⟩
    · right
      obtain ⟨w', hshare, hmiscopies⟩ := miscopies_of_lost hcoherent htidy hx htakes hsplit hfront
        (Classical.not_imp.1 hlost)
      rw [Action.perform_bind_error hshare]
      exact ⟨lost, w', rfl, hmiscopies⟩

/-- A world with one open scope, in which a vector holds a number. -/
def laden : World :=
  let w := (Operation.openScope.perform initial).2
  let w := ((Operation.objectVector 1).perform w).2
  let w := ((Operation.scalarReal .zero).perform w).2
  ((Operation.set (.element ⟨25, 0⟩ 0) (some ⟨26, 0⟩)).perform w).2

theorem respectful_laden : Respectful {} laden := by
  have hopened : Respectful {} _ := respectful_initial.step .openScope trivial
  have hvector := hopened.step (.objectVector 1) trivial
  have hnumber := hvector.step (.scalarReal .zero) trivial
  exact hnumber.step (.set (.element ⟨25, 0⟩ 0) (some ⟨26, 0⟩)) trivial

theorem ownedRefs_laden :
    (laden.objects.get? ⟨25, 0⟩).map Object.ownedRefs = some [⟨26, 0⟩] := by
  decide +kernel

theorem shallowCopy_laden :
    ((Operation.shallowCopy ⟨25, 0⟩).perform laden).1.toOption = some ⟨27, 0⟩ ∧
      ((Operation.shallowCopy ⟨25, 0⟩).perform laden).2.objects.cells.size = 28 ∧
      ((Operation.shallowCopy ⟨25, 0⟩).perform laden).2.pools.opened = 1 := by
  decide +kernel

/-- There is room, so the copy of the vector holds the number too. -/
theorem Respectful.shallowCopy_exact_laden :
    (Respectful {} laden ∧ ((Operation.shallowCopy ⟨25, 0⟩).perform laden).2.Fits) ∧
      ∃ o, laden.objects.get? ⟨25, 0⟩ = some o ∧ o.ownedRefs = [⟨26, 0⟩] ∧
        ∃ w', (Operation.shallowCopy ⟨25, 0⟩).perform laden = (.ok ⟨27, 0⟩, w') ∧
          laden.Copies o ⟨27, 0⟩ w' := by
  obtain ⟨hok, hcells, hopened⟩ := shallowCopy_laden
  have hfits : ((Operation.shallowCopy ⟨25, 0⟩).perform laden).2.Fits := ⟨by omega, by omega⟩
  obtain ⟨o, ho, hrefs⟩ := Option.map_eq_some_iff.1 ownedRefs_laden
  refine ⟨⟨respectful_laden, hfits⟩, o, ho, hrefs, ?_⟩
  rcases respectful_laden.shallowCopy_exact ho hfits with
    ⟨_, herror, _⟩ | ⟨_, ⟨_, copy, w', hperform, hcopies⟩ | ⟨lost, w', herror, _⟩⟩
  · rw [herror] at hok
    cases hok
  · rw [hperform] at hok
    cases hok
    exact ⟨w', hperform, hcopies⟩
  · rw [herror] at hok
    cases hok

end World

end ObjectSystem

/-
# Ownership is only ever passed on

Who answers for an object changes in one direction: from a scope to a slot and from these
to the collector. `World.Ages` says that nothing new came into a world and that all objects
that stayed were passed on at most; what is shared or pinned stays. Whatever state a world
is in, the write barrier does not do more than that. The release of scopes does not either
if the world is coherent.
-/

import ObjectSystem.Proofs.Coherence.Scope
import ObjectSystem.Proofs.Reclaiming

namespace ObjectSystem

namespace Ownership

variable {own own' own'' : Ownership} {id id' : PoolId}

/-- One owner may pass an object on to the other. -/
inductive Precedes : Ownership → Ownership → Prop where
  | refl (own : Ownership) : Precedes own own
  | claimed (id : PoolId) : Precedes (.pool id) .single
  | shared (own : Ownership) : Precedes own .shared

theorem Precedes.trans (hfirst : own.Precedes own') (hsecond : own'.Precedes own'') :
    own.Precedes own'' := by
  cases hsecond with
  | refl => exact hfirst
  | claimed id =>
      cases hfirst with
      | refl => exact .claimed id
  | shared => exact .shared own

theorem Precedes.eq_of_shared (hprecedes : Precedes .shared own) : own = .shared := by
  cases hprecedes <;> rfl

/-- How far an object has come on its way to the collector. -/
def rank : Ownership → Nat
  | .pool _ => 0
  | .single => 1
  | .shared => 2

theorem Precedes.rank_le (hprecedes : own.Precedes own') : own.rank ≤ own'.rank := by
  cases hprecedes with
  | refl => exact Nat.le_refl _
  | claimed id => exact Nat.zero_le _
  | shared => cases own <;> simp [rank]

end Ownership

namespace Object

variable {o o' o'' : Object}

/-- An object is passed on at most, and stays pinned if it is. -/
structure Precedes (o o' : Object) : Prop where
  ownership : o.header.ownership.Precedes o'.header.ownership
  pinned : o.header.pinned = true → o'.header.pinned = true

theorem Precedes.refl (o : Object) : o.Precedes o :=
  ⟨.refl _, id⟩

theorem Precedes.trans (hfirst : o.Precedes o') (hsecond : o'.Precedes o'') : o.Precedes o'' :=
  ⟨hfirst.ownership.trans hsecond.ownership, fun h => hsecond.pinned (hfirst.pinned h)⟩

theorem precedes_of_header_eq (hheader : o'.header = o.header) : o.Precedes o' := by
  constructor
  · rw [hheader]
    exact .refl _
  · rw [hheader]
    exact id

/-- The object is shared or pinned: no slot and no scope may take it along. -/
def Kept (o : Object) : Prop :=
  o.header.ownership = .shared ∨ o.header.pinned = true

theorem Kept.precede (hkept : o.Kept) (hprecedes : o.Precedes o') : o'.Kept := by
  rcases hkept with hshared | hpinned
  · refine Or.inl ?_
    have howner := hprecedes.ownership
    rw [hshared] at howner
    exact howner.eq_of_shared
  · exact Or.inr (hprecedes.pinned hpinned)

end Object

namespace World

variable {w w' : World} {x : Handle} {o : Object} {own : Ownership}

/-- Nothing new came into a world, what stayed was passed on at most, and what is shared or
pinned did stay. No collection was run. -/
structure Ages (w w' : World) : Prop where
  back : ∀ x o', w'.objects.get? x = some o' →
    ∃ o, w.objects.get? x = some o ∧ o.Precedes o'
  stays : ∀ x o, w.objects.get? x = some o → o.Kept → w'.objects.Live x
  collections_eq : w'.collections = w.collections

instance : IsPreorder World Ages where
  refl _ := ⟨fun _ o ho => ⟨o, ho, .refl o⟩, fun _ o ho _ => ⟨o, ho⟩, rfl⟩
  trans w w' w'' hfirst hsecond := by
    refine ⟨fun x o'' ho'' => ?_, fun x o ho hkept => ?_,
      hsecond.collections_eq.trans hfirst.collections_eq⟩
    · obtain ⟨o', ho', hprecedes'⟩ := hsecond.back x o'' ho''
      obtain ⟨o, ho, hprecedes⟩ := hfirst.back x o' ho'
      exact ⟨o, ho, hprecedes.trans hprecedes'⟩
    · obtain ⟨o', ho'⟩ := hfirst.stays x o ho hkept
      obtain ⟨p, hp, hprecedes⟩ := hfirst.back x o' ho'
      cases hp.symm.trans ho
      exact hsecond.stays x o' ho' (hkept.precede hprecedes)

theorem Ages.of_eq (hobjects : w'.objects = w.objects)
    (hcollections : w'.collections = w.collections) : w.Ages w' where
  back x o' ho' := ⟨o', by rw [← hobjects, ho'], .refl o'⟩
  stays x o ho _ := ⟨o, by rw [hobjects, ho]⟩
  collections_eq := hcollections

/-- One object is changed, and passed on at most. -/
theorem ages_modifyObject (w : World) (x : Handle) {change : Object → Object}
    (hchange : ∀ o, w.objects.get? x = some o → o.Precedes (change o)) :
    w.Ages (w.modifyObject x change) := by
  refine ⟨fun y o' ho' => ?_, fun y o ho _ => ?_, rfl⟩
  · change (w.objects.modify x change).get? y = some o' at ho'
    rw [Arena.get?_modify] at ho'
    split at ho'
    · next heq =>
        obtain ⟨o, ho, rfl⟩ := Option.map_eq_some_iff.1 ho'
        exact ⟨o, ho, hchange o (heq ▸ ho)⟩
    · exact ⟨o', ho', .refl o'⟩
  · show ∃ o', (w.objects.modify x change).get? y = some o'
    rw [Arena.get?_modify, ho]
    split <;> exact ⟨_, rfl⟩

theorem ages_setOwnership (w : World) (x : Handle)
    (hown : ∀ o, w.objects.get? x = some o → o.header.ownership.Precedes own) :
    w.Ages (w.setOwnership x own) :=
  ages_modifyObject w x fun o ho => ⟨hown o ho, id⟩

/-- Freeing what one slot answered for takes nothing along that is shared or pinned. -/
theorem ages_free (w : World)
    (hsingle : ∀ o, w.objects.get? x = some o → o.header.ownership = .single) :
    w.Ages (w.free x) := by
  refine ⟨fun y o' ho' => ⟨o', get?_of_get?_reclaim ho', .refl o'⟩, fun y o ho hkept => ?_, rfl⟩
  refine ⟨o, get?_reclaim.2 ⟨ho, fun hfalls => ?_⟩⟩
  rcases hkept with hshared | hpinned
  · have howner := hfalls.single ho fun z hz p hp => by
      cases List.mem_singleton.1 hz
      exact hsingle p hp
    rw [hshared] at howner
    cases howner
  · rw [hfalls.unpinned ho] at hpinned
    cases hpinned

end World

namespace Action

open World

variable {x : Handle} {w : World} {o : Object}

theorem ages_removeFromPool (x : Handle) (id : PoolId) :
    (removeFromPool x id).Keeps World.Ages :=
  keeps_removeFromPool fun _ _ _ _ _ => .of_eq rfl rfl

theorem objects_removeFromPool (x : Handle) (id : PoolId) (w : World) :
    ((removeFromPool x id).perform w).2.objects = w.objects := by
  unfold removeFromPool
  rw [perform_bind, perform_get]
  cases hpool : w.pools.get? id with
  | none => simp only [hpool]; rfl
  | some pool =>
      cases herase : pool.erase? x with
      | none => simp only [hpool, herase]; rfl
      | some changed => simp only [hpool, herase, perform_modify]

theorem ages_promote (x : Handle) : (promote x).Keeps World.Ages :=
  keeps_promote
    (keeps_addToPool (fun _ => .of_eq rfl rfl) fun w => ages_setOwnership w x fun _ _ => .shared _)
    fun _ => .of_eq rfl rfl

theorem ages_claim (x : Handle) : (claim x).Keeps World.Ages := by
  intro w
  unfold claim
  rw [perform_query_bind]
  cases hx : w.objects.get? x with
  | none =>
      rw [World.ownership_eq_error hx]
      exact refl_of World.Ages w
  | some o =>
      rw [World.ownership_eq_ok hx]
      cases hown : o.header.ownership with
      | pool id =>
          simp only
          rw [perform_bind]
          have hages := ages_removeFromPool x id w
          have hobjects := objects_removeFromPool x id w
          cases hperform : (removeFromPool x id).perform w with
          | mk result w' =>
              rw [hperform] at hages hobjects
              cases result with
              | error e => exact hages
              | ok =>
                  refine trans_of World.Ages hages (ages_setOwnership w' x fun p hp => ?_)
                  rw [hobjects] at hp
                  cases hp.symm.trans hx
                  rw [hown]
                  exact .claimed id
      | single => exact ages_promote x w
      | shared => exact refl_of World.Ages w

theorem ages_share (x : Handle) : (share x).Keeps World.Ages :=
  keeps_share (ages_removeFromPool x) (ages_promote x)

theorem ages_store (s : Slot) (value : Option Handle) :
    Keeps World.Ages (modify (·.store s value)) :=
  keeps_modify fun w => ages_modifyObject w s.owner fun _ _ =>
    Object.precedes_of_header_eq (Slot.header_storeIn _ s value)

theorem ages_letGo (x : Handle) : (letGo x).Keeps World.Ages := by
  intro w
  unfold letGo
  rw [perform_query_bind]
  cases hx : w.objects.get? x with
  | none =>
      rw [World.ownership_eq_error hx]
      exact refl_of World.Ages w
  | some o =>
      rw [World.ownership_eq_ok hx]
      simp only
      split
      · next hsingle =>
          refine ages_free w fun p hp => ?_
          cases hp.symm.trans hx
          exact hsingle
      · exact refl_of World.Ages w

theorem ages_set (s : Slot) (value : Option Handle) : (set s value).Keeps World.Ages :=
  keeps_set ages_claim (ages_store s value) ages_letGo

theorem ages_pin (x : Handle) : (pin x).Keeps World.Ages :=
  keeps_pin (ages_removeFromPool x) (fun _ => .of_eq rfl rfl) fun w =>
    ages_modifyObject w x fun _ _ => ⟨.shared _, fun _ => rfl⟩

/-- The release of scopes leaves objects as they are, if it leaves them. -/
theorem get?_of_get?_releasePool (hcoherent : w.Coherent) (id : PoolId)
    (hx : ((releasePool id).perform w).2.objects.get? x = some o) :
    w.objects.get? x = some o := by
  rcases releasePool_spec hcoherent id with
    ⟨e, hperform, _⟩ | ⟨n, w', closed, kept, hperform, _, hreleases⟩
  · rwa [hperform] at hx
  · rw [hperform] at hx
    exact hreleases.get?_of_get? hx

/-- Scopes take along what they answer for and what that holds alone, if a world is
coherent. -/
theorem ages_releasePool (hcoherent : w.Coherent) (id : PoolId) :
    w.Ages ((releasePool id).perform w).2 := by
  rcases releasePool_spec hcoherent id with
    ⟨e, hperform, _⟩ | ⟨n, w', closed, kept, hperform, hpop, hreleases⟩
  · rw [hperform]
    exact refl_of World.Ages w
  · rw [hperform]
    refine ⟨fun x o ho => ⟨o, hreleases.get?_of_get? ho, .refl o⟩, fun x o ho hkept => ?_,
      hreleases.collections_eq⟩
    refine ⟨o, hreleases.stays_of_shared hcoherent hpop ho ?_⟩
    rcases hkept with hshared | hpinned
    · exact hshared
    · exact hcoherent.linked.pinned_shared x o ho hpinned

end Action

end ObjectSystem

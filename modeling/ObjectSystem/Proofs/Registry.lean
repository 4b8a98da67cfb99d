/-
# The registry

The pools of a world list the objects that they answer for. `Registered` says
that the lists and the headers of the objects agree: every object that a pool
answers for has one entry, in this pool, and every entry is such an object. An
object that a slot answers for has no entry.
-/

import ObjectSystem.Proofs.Graph
import ObjectSystem.Proofs.Pool.Stack

namespace ObjectSystem

namespace Ownership

theorem ofPool_ne_single (id : PoolId) : ofPool id ≠ .single := by
  unfold ofPool
  split <;> simp

theorem ofPool_collector : ofPool PoolId.collector = .shared := rfl

theorem ofPool_of_ne {id : PoolId} (hid : id ≠ PoolId.collector) : ofPool id = .pool id := by
  rw [ofPool, if_neg (by rwa [PoolStack.isCollector_iff])]

theorem ofPool_injective {id id' : PoolId} (heq : ofPool id = ofPool id') : id = id' := by
  by_cases hid : id = PoolId.collector
  · by_cases hid' : id' = PoolId.collector
    · rw [hid, hid']
    · rw [hid, ofPool_collector, ofPool_of_ne hid'] at heq
      cases heq
  · by_cases hid' : id' = PoolId.collector
    · rw [hid', ofPool_collector, ofPool_of_ne hid] at heq
      cases heq
    · rw [ofPool_of_ne hid, ofPool_of_ne hid', Ownership.pool.injEq] at heq
      exact heq

end Ownership

/-- The entries of pools are the objects that pools answer for, each once. -/
structure Registered (a : Arena Object) (entries : List (PoolId × Handle)) : Prop where
  nodup : entries.Nodup
  mem_iff : ∀ id x, (id, x) ∈ entries ↔
    ∃ o, a.get? x = some o ∧ o.header.ownership = .ofPool id
  single_or_kept : ∀ x o, a.get? x = some o →
    o.header.ownership = .single ∨ ∃ id, o.header.ownership = .ofPool id

namespace Registered

variable {a a' : Arena Object} {entries rest : List (PoolId × Handle)} {x y : Handle}
  {o o' : Object} {id : PoolId}

theorem empty : Registered ({} : Arena Object) [] := by
  constructor <;> simp [Arena.get?_def]

theorem perm (hregistered : Registered a entries) (hperm : entries.Perm rest) :
    Registered a rest where
  nodup := hperm.nodup_iff.1 hregistered.nodup
  mem_iff id x := by rw [← hperm.mem_iff, hregistered.mem_iff]
  single_or_kept := hregistered.single_or_kept

/-- An object that a pool answers for has an entry there. -/
theorem mem_of_pool (hregistered : Registered a entries) (hx : a.get? x = some o)
    (hpool : o.header.ownership = .pool id) : (id, x) ∈ entries ∧ id ≠ PoolId.collector := by
  rcases hregistered.single_or_kept x o hx with hsingle | ⟨id', hkept⟩
  · rw [hpool] at hsingle
    cases hsingle
  · by_cases hid' : id' = PoolId.collector
    · rw [hpool, hid', Ownership.ofPool_collector] at hkept
      cases hkept
    · rw [hpool, Ownership.ofPool_of_ne hid', Ownership.pool.injEq] at hkept
      subst hkept
      refine ⟨(hregistered.mem_iff _ _).2 ⟨o, hx, ?_⟩, hid'⟩
      rw [hpool, Ownership.ofPool_of_ne hid']

theorem not_mem_of_stale (hregistered : Registered a entries) (hx : a.get? x = none)
    (id : PoolId) : (id, x) ∉ entries := by
  rw [hregistered.mem_iff]
  rintro ⟨o, ho, _⟩
  cases hx.symm.trans ho

theorem not_mem_of_single (hregistered : Registered a entries) (hx : a.get? x = some o)
    (hsingle : o.header.ownership = .single) (id : PoolId) : (id, x) ∉ entries := by
  rw [hregistered.mem_iff]
  rintro ⟨p, hp, hkept⟩
  cases hx.symm.trans hp
  exact Ownership.ofPool_ne_single id (hkept.symm.trans hsingle)

/-- No handle has entries in two pools. -/
theorem id_unique {id' : PoolId} (hregistered : Registered a entries)
    (hmem : (id, x) ∈ entries) (hmem' : (id', x) ∈ entries) : id = id' := by
  obtain ⟨o, ho, hkept⟩ := (hregistered.mem_iff id x).1 hmem
  obtain ⟨p, hp, hkept'⟩ := (hregistered.mem_iff id' x).1 hmem'
  cases ho.symm.trans hp
  exact Ownership.ofPool_injective (hkept.symm.trans hkept')

/-- What happens to the entries depends on the ownership of objects alone. -/
theorem same (hregistered : Registered a entries)
    (hsame : ∀ x, (a'.get? x).map (·.header.ownership) = (a.get? x).map (·.header.ownership)) :
    Registered a' entries := by
  have hiff : ∀ x own, (∃ o, a'.get? x = some o ∧ o.header.ownership = own) ↔
      ∃ o, a.get? x = some o ∧ o.header.ownership = own := by
    intro x own
    simp only [← Option.map_eq_some_iff, hsame]
  constructor
  · exact hregistered.nodup
  · intro id x
    rw [hregistered.mem_iff, hiff]
  · intro x o ho
    obtain ⟨p, hp, hown⟩ := (hiff x o.header.ownership).1 ⟨o, ho, rfl⟩
    rw [← hown]
    exact hregistered.single_or_kept x p hp

theorem amend (hregistered : Registered a entries) (hx : a.get? x = some o)
    (hputs : a.Puts a' x o') (hown : o'.header.ownership = o.header.ownership) :
    Registered a' entries := by
  refine hregistered.same fun y => ?_
  by_cases heq : y = x
  · rw [heq, hputs.self, hx, Option.map_some, Option.map_some, hown]
  · rw [hputs.other heq]

/-- A pool takes an object on that has no entry yet. -/
theorem add (hregistered : Registered a entries) (hnone : ∀ id, (id, x) ∉ entries)
    (hputs : a.Puts a' x o) (hown : o.header.ownership = .ofPool id) :
    Registered a' ((id, x) :: entries) := by
  constructor
  case nodup => exact List.nodup_cons.2 ⟨hnone id, hregistered.nodup⟩
  case mem_iff =>
      intro id' y
      rw [List.mem_cons, Prod.mk.injEq]
      by_cases heq : y = x
      · subst heq
        constructor
        · rintro (⟨rfl, _⟩ | hmem)
          · exact ⟨o, hputs.self, hown⟩
          · exact absurd hmem (hnone id')
        · rintro ⟨p, hp, hkept⟩
          cases hputs.self.symm.trans hp
          exact Or.inl ⟨Ownership.ofPool_injective (hkept.symm.trans hown), rfl⟩
      · rw [hputs.other heq, ← hregistered.mem_iff]
        simp [heq]
  case single_or_kept =>
      intro y p hp
      rcases hputs.back hp with ⟨_, rfl⟩ | ⟨_, hp⟩
      · exact Or.inr ⟨id, hown⟩
      · exact hregistered.single_or_kept y p hp

/-- A pool gives an object up, which goes or is left to a slot. -/
theorem drop (hregistered : Registered a ((id, x) :: rest))
    (hother : ∀ y, y ≠ x → a'.get? y = a.get? y)
    (hsingle : ∀ o, a'.get? x = some o → o.header.ownership = .single) :
    Registered a' rest := by
  have hnodup := List.nodup_cons.1 hregistered.nodup
  have hnone : ∀ id', (id', x) ∉ rest := by
    intro id' hmem
    have heq := hregistered.id_unique (List.mem_cons_self) (List.mem_cons_of_mem _ hmem)
    exact hnodup.1 (heq ▸ hmem)
  constructor
  case nodup => exact hnodup.2
  case mem_iff =>
      intro id' y
      by_cases heq : y = x
      · subst heq
        constructor
        · exact fun hmem => absurd hmem (hnone id')
        · rintro ⟨p, hp, hkept⟩
          exact absurd (hkept.symm.trans (hsingle p hp)) (Ownership.ofPool_ne_single id')
      · rw [hother y heq, ← hregistered.mem_iff, List.mem_cons, Prod.mk.injEq]
        simp [heq]
  case single_or_kept =>
      intro y p hp
      by_cases heq : y = x
      · subst heq
        exact Or.inl (hsingle p hp)
      · rw [hother y heq] at hp
        exact hregistered.single_or_kept y p hp

/-- One pool gives an object up and another takes it on. -/
theorem move {id' : PoolId} (hregistered : Registered a ((id, x) :: rest))
    (hputs : a.Puts a' x o) (hown : o.header.ownership = .ofPool id') :
    Registered a' ((id', x) :: rest) := by
  obtain ⟨p, hx, _⟩ := (hregistered.mem_iff id x).1 List.mem_cons_self
  -- In between, no pool answers for the object.
  have hbetween : a.Puts (a.modify x (·.setOwnership .single)) x (p.setOwnership .single) :=
    Arena.puts_modify hx
  have hdropped := hregistered.drop (fun y hne => hbetween.other hne) fun q hq => by
    cases hbetween.self.symm.trans hq
    rfl
  refine hdropped.add (hdropped.not_mem_of_single hbetween.self rfl) (fun y => ?_) hown
  rw [hputs]
  split
  · rfl
  · next hne => rw [hbetween.other hne]

/-- An object without an entry may go. -/
theorem remove_single (hregistered : Registered a entries) (hx : a.get? x = some o)
    (hsingle : o.header.ownership = .single) : Registered (a.remove x) entries := by
  constructor
  · exact hregistered.nodup
  · intro id y
    rw [hregistered.mem_iff]
    constructor
    · rintro ⟨p, hp, hkept⟩
      refine ⟨p, ?_, hkept⟩
      rw [Arena.get?_remove, if_neg, hp]
      rintro rfl
      cases hx.symm.trans hp
      exact Ownership.ofPool_ne_single id (hkept.symm.trans hsingle)
    · rintro ⟨p, hp, hkept⟩
      exact ⟨p, Arena.get?_of_get?_remove hp, hkept⟩
  · exact fun y p hp => hregistered.single_or_kept y p (Arena.get?_of_get?_remove hp)

/-- An object with an entry may go together with its entry. -/
theorem remove_entry (hregistered : Registered a ((id, x) :: rest)) :
    Registered (a.remove x) rest := by
  refine hregistered.drop (fun y hne => ?_) fun o ho => ?_
  · rw [Arena.get?_remove, if_neg hne]
  · rw [Arena.get?_remove, if_pos rfl] at ho
    cases ho

end Registered

end ObjectSystem

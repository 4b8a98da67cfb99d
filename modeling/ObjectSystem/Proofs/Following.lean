/-
# Following links

From some things a link leads on to another, and there are two ways for links to go. Either they
come to a thing from which none leads on; if links lead on from so many things only, there are no
more links than that, since nothing is met twice. Or they come back to a thing that they have led to
before, and then they go round for ever.

A walk follows links and gathers something on the way. It goes as the links go, but for one thing:
what it does where no link leads on may itself come to no end.
-/

import Mathlib.Data.List.Nodup
import Mathlib.Logic.Relation
import ObjectSystem.Error

namespace ObjectSystem

section Following

variable {α : Type} {next : α → Option α} {x y : α} {m n : Nat}

/-- Where so many links lead to. -/
def follow (next : α → Option α) : Nat → α → Option α
  | 0, x => some x
  | n + 1, x => (next x).bind (follow next n)

/-- The objects from which the first links lead on. -/
def trail (next : α → Option α) : Nat → α → List α
  | 0, _ => []
  | n + 1, x => x :: ((next x).map (trail next n)).getD []

theorem follow_add (m n : Nat) (x : α) :
    follow next (m + n) x = (follow next m x).bind (follow next n) := by
  induction m generalizing x with
  | zero => rw [Nat.zero_add, follow, Option.bind_some]
  | succ m ih =>
      rw [Nat.succ_add, follow, follow, Option.bind_assoc]
      exact Option.bind_congr fun y _ => ih y

theorem follow_add_of_eq (hm : follow next m x = some y) (n : Nat) :
    follow next (m + n) x = follow next n y := by
  rw [follow_add, hm, Option.bind_some]

theorem follow_succ (hm : follow next m x = some y) : follow next (m + 1) x = next y := by
  rw [follow_add_of_eq hm, follow]
  cases next y <;> rfl

theorem exists_follow_of_le (hn : follow next n x = some y) (hle : m ≤ n) :
    ∃ z, follow next m x = some z := by
  obtain ⟨k, rfl⟩ := Nat.exists_eq_add_of_le hle
  rw [follow_add] at hn
  obtain ⟨z, hz, _⟩ := Option.bind_eq_some_iff.1 hn
  exact ⟨z, hz⟩

/-- So many links lead to an object from which none leads on. -/
structure Ends (next : α → Option α) (x : α) (n : Nat) (last : α) : Prop where
  arrives : follow next n x = some last
  stops : next last = none

/-- The links come back to an object that they have led to before. -/
def Winds (next : α → Option α) (x : α) : Prop :=
  ∃ (m n : Nat) (y : α), m < n ∧ follow next m x = some y ∧ follow next n x = some y

/-- Links that lead round in a circle lead on. -/
theorem exists_follow_of_circle {k : Nat} (hk : 0 < k) (hcircle : follow next k y = some y)
    (n : Nat) : ∃ z, follow next n y = some z := by
  induction n using Nat.strongRecOn with
  | ind n ih =>
      rcases Nat.lt_or_ge n k with hlt | hge
      · exact exists_follow_of_le hcircle (Nat.le_of_lt hlt)
      · obtain ⟨rest, rfl⟩ := Nat.exists_eq_add_of_le hge
        rw [follow_add_of_eq hcircle]
        exact ih rest (by omega)

/-- After the first link the links still come back. -/
theorem Winds.tail (hwinds : Winds next x) (hy : next x = some y) : Winds next y := by
  obtain ⟨i, j, z, hlt, hi, hj⟩ := hwinds
  have hlater : ∀ n, follow next (n + 1) x = follow next n y := fun n => by
    rw [follow, hy, Option.bind_some]
  cases hz : next z with
  | none =>
      obtain ⟨k, rfl⟩ := Nat.exists_eq_add_of_lt hlt
      rw [Nat.add_assoc, follow_add_of_eq hi, follow, hz] at hj
      cases hj
  | some z' =>
      refine ⟨i, j, z', hlt, ?_, ?_⟩
      · rw [← hlater, follow_succ hi, hz]
      · rw [← hlater, follow_succ hj, hz]

theorem reflTransGen_of_follow (hn : follow next n x = some y) :
    Relation.ReflTransGen (fun a b => next a = some b) x y := by
  induction n generalizing x with
  | zero =>
      cases hn
      exact .refl
  | succ n ih =>
      obtain ⟨z, hz, hn⟩ := Option.bind_eq_some_iff.1 hn
      exact .head hz (ih hn)

/-- Links that come back lead to a circle. -/
theorem Winds.exists_circle (hwinds : Winds next x) :
    ∃ y, Relation.ReflTransGen (fun a b => next a = some b) x y ∧
      Relation.TransGen (fun a b => next a = some b) y y := by
  obtain ⟨i, j, y, hlt, hi, hj⟩ := hwinds
  obtain ⟨k, rfl⟩ := Nat.exists_eq_add_of_lt hlt
  rw [Nat.add_assoc, follow_add_of_eq hi, follow] at hj
  obtain ⟨z, hz, hk⟩ := Option.bind_eq_some_iff.1 hj
  exact ⟨y, reflTransGen_of_follow hi, .head' hz (reflTransGen_of_follow hk)⟩

theorem Winds.exists_follow (hwinds : Winds next x) (n : Nat) :
    ∃ z, follow next n x = some z := by
  obtain ⟨i, j, y, hlt, hi, hj⟩ := hwinds
  obtain ⟨k, rfl⟩ := Nat.exists_eq_add_of_le (Nat.le_of_lt hlt)
  have hcircle : follow next k y = some y := (follow_add_of_eq hi k).symm.trans hj
  rcases Nat.le_total n i with hle | hge
  · exact exists_follow_of_le hi hle
  · obtain ⟨rest, rfl⟩ := Nat.exists_eq_add_of_le hge
    rw [follow_add_of_eq hi]
    exact exists_follow_of_circle (by omega) hcircle rest

/-- Links that do not lead on for ever come to an end. -/
theorem exists_ends (hnone : follow next (n + 1) x = none) :
    ∃ m ≤ n, ∃ last, Ends next x m last := by
  induction n generalizing x with
  | zero => exact ⟨0, Nat.le_refl 0, x, rfl, (follow_succ rfl).symm.trans hnone⟩
  | succ n ih =>
      cases hnext : next x with
      | none => exact ⟨0, Nat.zero_le _, x, rfl, hnext⟩
      | some y =>
          rw [follow, hnext, Option.bind_some] at hnone
          obtain ⟨m, hle, last, harrives, hstops⟩ := ih hnone
          refine ⟨m + 1, Nat.succ_le_succ hle, last, ?_, hstops⟩
          rw [follow, hnext, Option.bind_some, harrives]

/-- If links lead on from a limited number of objects only, they end after as many links, or come
back. -/
theorem ends_or_winds {limit : Nat}
    (hlimit : ∀ l : List α, l.Nodup → (∀ y ∈ l, (next y).isSome) → l.length ≤ limit) (x : α) :
    (∃ n ≤ limit, ∃ last, Ends next x n last) ∨ Winds next x := by
  cases hfar : follow next (limit + 1) x with
  | none => exact Or.inl (exists_ends hfar)
  | some far =>
      refine Or.inr (Classical.byContradiction fun hstraight => ?_)
      let met (i : Nat) := (follow next i x).getD x
      have hmet : ∀ i ≤ limit + 1, follow next i x = some (met i) := fun i hi => by
        obtain ⟨y, hy⟩ := exists_follow_of_le hfar hi
        simp [met, hy]
      have hinj : ∀ i < limit + 1, ∀ j < limit + 1, met i = met j → i = j := by
        intro i hi j hj heq
        have hi' := hmet i (Nat.le_of_lt hi)
        have hj' := hmet j (Nat.le_of_lt hj)
        rcases Nat.lt_trichotomy i j with hlt | hsame | hlt
        · exact absurd ⟨i, j, met i, hlt, hi', heq ▸ hj'⟩ hstraight
        · exact hsame
        · exact absurd ⟨j, i, met j, hlt, hj', heq ▸ hi'⟩ hstraight
      have hlength := hlimit ((List.range (limit + 1)).map met) ?_ ?_
      · rw [List.length_map, List.length_range] at hlength
        exact Nat.not_succ_le_self limit hlength
      · refine List.Nodup.map_on (fun i hi j hj => ?_) List.nodup_range
        exact hinj i (List.mem_range.1 hi) j (List.mem_range.1 hj)
      · intro y hy
        obtain ⟨i, hi, rfl⟩ := List.mem_map.1 hy
        have hlt := List.mem_range.1 hi
        rw [← follow_succ (hmet i (Nat.le_of_lt hlt)), hmet (i + 1) hlt]
        rfl

/-- Where links end at once they end there. -/
theorem Ends.eq_of_stops (hends : Ends next x n y) (hstops : next x = none) : n = 0 ∧ y = x := by
  cases n with
  | zero => exact ⟨rfl, (Option.some.inj hends.arrives).symm⟩
  | succ n =>
      have harrives := hends.arrives
      rw [follow, hstops] at harrives
      cases harrives

theorem Ends.not_winds (hends : Ends next x n y) : ¬ Winds next x := by
  intro hwinds
  obtain ⟨z, hz⟩ := hwinds.exists_follow (n + 1)
  rw [follow_succ hends.arrives, hends.stops] at hz
  cases hz

/-! ## Walks -/

variable {β : Type} {item : α → β → β} {walk : Nat → α → Except Error β} {limit : Nat}
  {tangled : α → Prop}

/-- A walk is granted a number of steps. It takes one for each object, and adds something to what
the rest of the walk brings, until it comes to where no link leads on. -/
structure IsWalk (next : α → Option α) (item : α → β → β) (walk : Nat → α → Except Error β) :
    Prop where
  cut : ∀ x y, next x = some y → walk 0 x = .error .endlessWalk
  pass : ∀ x y n, next x = some y → walk (n + 1) x = (walk n y).map (item x)
  stop : ∀ x n, next x = none → walk (n + 1) x = walk 1 x

/-- The ways for a walk to go. -/
inductive Goes (next : α → Option α) (item : α → β → β) (walk : Nat → α → Except Error β)
    (limit : Nat) (tangled : α → Prop) (start : α) : Prop where
  /-- It follows so many links and no more, if it is granted more steps than that. -/
  | ends (n : Nat) (hn : n ≤ limit) (last : α) (hends : Ends next start n last)
      (hclear : walk 1 last ≠ .error .endlessWalk)
      (hanswer : ∀ m, n < m →
        walk m start = (walk 1 last).map ((trail next n start).foldr item))
  /-- It follows so many links and no more, but does not get done with where they lead to. -/
  | sticks (n : Nat) (hn : n ≤ limit) (last : α) (hends : Ends next start n last)
      (htangled : tangled last) (hendless : ∀ m, n < m → walk m start = .error .endlessWalk)
  /-- It goes round, and no number of steps suffices. -/
  | winds (hwinds : Winds next start) (hendless : ∀ m, walk m start = .error .endlessWalk)

theorem IsWalk.add (hwalk : IsWalk next item walk) (hn : follow next n x = some y) (m : Nat) :
    walk (n + m) x = (walk m y).map ((trail next n x).foldr item) := by
  induction n generalizing x with
  | zero =>
      cases hn
      rw [Nat.zero_add, trail]
      cases walk m y <;> rfl
  | succ n ih =>
      obtain ⟨z, hz, hn⟩ := Option.bind_eq_some_iff.1 hn
      rw [Nat.succ_add, hwalk.pass x z _ hz, ih hn, trail, hz]
      cases walk m y <;> rfl

/-- What keeps a walk from ending where no link leads on has its reason there. -/
theorem IsWalk.goes (hwalk : IsWalk next item walk)
    (hlinks : (∃ n ≤ limit, ∃ last, Ends next x n last) ∨ Winds next x)
    (htangled : ∀ last, next last = none → walk 1 last = .error .endlessWalk → tangled last) :
    Goes next item walk limit tangled x := by
  obtain ⟨n, hn, last, hends⟩ | hwinds := hlinks
  · have hanswer : ∀ m, n < m →
        walk m x = (walk 1 last).map ((trail next n x).foldr item) := by
      intro m hm
      obtain ⟨k, rfl⟩ := Nat.exists_eq_add_of_lt hm
      rw [Nat.add_assoc, hwalk.add hends.arrives, hwalk.stop last k hends.stops]
    by_cases hclear : walk 1 last = .error .endlessWalk
    · refine .sticks n hn last hends (htangled last hends.stops hclear) fun m hm => ?_
      rw [hanswer m hm, hclear]
      rfl
    · exact .ends n hn last hends hclear hanswer
  · refine .winds hwinds fun m => ?_
    obtain ⟨y, hy⟩ := hwinds.exists_follow m
    obtain ⟨z, hz⟩ := hwinds.exists_follow (m + 1)
    have h := hwalk.add hy 0
    rwa [hwalk.cut y z ((follow_succ hy).symm.trans hz)] at h

/-- Where nothing is tangled, a walk goes on for ever exactly if its links go round. -/
theorem Goes.endless_iff (hgoes : Goes next item walk limit tangled x) (hm : limit < m)
    (hclear : ∀ last, ¬ tangled last) : walk m x = .error .endlessWalk ↔ Winds next x := by
  cases hgoes with
  | winds hwinds hendless => exact iff_of_true (hendless m) hwinds
  | sticks _ _ last _ htangled => exact absurd htangled (hclear last)
  | ends n hn last hends hlast hanswer =>
      refine iff_of_false ?_ hends.not_winds
      rw [hanswer m (Nat.lt_of_le_of_lt hn hm)]
      cases hwalk : walk 1 last with
      | ok b => exact nofun
      | error e =>
          rintro ⟨⟩
          exact hlast hwalk

/-- The answer of all walks that are granted many steps is that of a walk to the limit. -/
theorem Goes.eq_of_settled {answer : Except Error β} (hgoes : Goes next item walk limit tangled x)
    (hsettled : ∀ m, n < m → walk m x = answer) (hanswer : answer ≠ .error .endlessWalk)
    (hm : limit < m) : walk m x = answer := by
  cases hgoes with
  | winds _ hendless =>
      exact absurd ((hsettled (n + 1) (Nat.lt_succ_self n)).symm.trans (hendless _)) hanswer
  | sticks k _ _ _ _ hendless =>
      have hfar := hsettled (k + n + 1) (by omega)
      exact absurd (hfar.symm.trans (hendless _ (by omega))) hanswer
  | ends k hk last hends _ hlast =>
      rw [hlast m (Nat.lt_of_le_of_lt hk hm), ← hlast (m + n + 1) (by omega)]
      exact hsettled (m + n + 1) (by omega)

end Following

end ObjectSystem

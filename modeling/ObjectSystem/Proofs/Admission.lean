/-
# Allocations are exact

An allocation gives up if and only if a collection would leave no room: as many objects as
the limit allows, or more, are led to from where collections start. It has then run one
collection and done nothing else. Otherwise it puts the object in under a handle that was not
live before, and enters the handle once in the pool of the innermost scope, or in the
collector's pool.

That the handle has no other entries takes more. A pool can be made to list a handle that no
object has yet: `Action.addToPool` enters what it is given before it looks whether it is live,
and when it fails the entry stays. An object that comes under this handle later has both
entries. Respectful operations do not do this, and after them the new entry is the only one.
-/

import Mathlib.Data.Set.Card
import ObjectSystem.Proofs.Population
import ObjectSystem.Proofs.Sturdiness

namespace ObjectSystem

namespace World

variable {settings : Settings} {w w' : World} {o : Object} {x y : Handle}

/-! ## The relieved world -/

theorem sustains_relieved (w : World) : w.Sustains w.relieved := by
  rcases w.relieved_cases with heq | heq
  · rw [heq]
    exact refl_of Sustains w
  · rw [heq]
    exact steps_sustains.sweep w []

theorem Tidy.tidy_relieved (htidy : w.Tidy) : w.relieved.Tidy := by
  rcases w.relieved_cases with heq | heq
  · rw [heq]
    exact htidy
  · rw [heq]
    exact (moves_collect w []).tidy htidy

theorem trims_relieved (w : World) : w.Trims w.relieved := by
  rcases w.relieved_cases with heq | heq
  · rw [heq]
    exact refl_of World.Trims w
  · rw [heq]
    exact w.trims_collect []

theorem relieved_eq_collect (hfull : w.relieved.isFull = true) :
    w.relieved = (w.collect []).2 := by
  unfold relieved at hfull ⊢
  split at hfull
  · next h => rw [if_pos h]
  · next h => exact absurd hfull h

theorem innermostFirst_relieved (w : World) :
    w.relieved.pools.innermostFirst = w.pools.innermostFirst := by
  rcases w.relieved_cases with heq | heq
  · rw [heq]
  · rw [heq]
    rfl

theorem collections_relieved (w : World) :
    w.relieved.collections = w.collections + if w.isFull then 1 else 0 := by
  unfold relieved
  split <;> rfl

/-- Of the objects, those are left that the collection keeps if one is run. -/
theorem Tidy.get?_relieved_iff (htidy : w.Tidy) :
    w.relieved.objects.get? x = some o ↔
      w.objects.get? x = some o ∧ (w.isFull = true → w.Keeps [] x) := by
  unfold relieved
  split
  · next hfull =>
      rw [get?_collect htidy.clear htidy.addressed]
      exact and_congr_right fun _ => ⟨fun h _ => h, fun h => h hfull⟩
  · next hroom => exact (and_iff_left fun h => absurd h hroom).symm

theorem Tidy.get?_relieved (htidy : w.Tidy) (hkeeps : w.Keeps [] x) :
    w.relieved.objects.get? x = w.objects.get? x := by
  obtain ⟨o, ho⟩ := hkeeps.live
  rw [ho, htidy.get?_relieved_iff]
  exact ⟨ho, fun _ => hkeeps⟩

theorem Tidy.finite_live (htidy : w.Tidy) : {x | w.objects.Live x}.Finite := by
  apply (List.finite_toSet w.objects.handles).subset
  exact fun x hx => (Arena.mem_handles_iff htidy.addressed).2 hx

/-- The population is the number of live handles. -/
theorem Tidy.ncard_live (htidy : w.Tidy) (hcounted : w.objects.Counted) :
    {x | w.objects.Live x}.ncard = w.population := by
  have hlive : {x | w.objects.Live x} = (w.objects.handles.toFinset : Set Handle) := by
    ext x
    rw [List.coe_toFinset]
    exact (Arena.mem_handles_iff htidy.addressed).symm
  rw [hlive, Set.ncard_coe_finset,
    List.toFinset_card_of_nodup (Arena.nodup_handles htidy.addressed), hcounted.length_handles]
  rfl

/-- The world is still full after a collection exactly if too many objects are led to from
where collections start. -/
theorem Tidy.isFull_relieved_iff (htidy : w.Tidy) (hcounted : w.objects.Counted) :
    w.relieved.isFull = true ↔ w.settings.objectLimit ≤ {x | w.Keeps [] x}.ncard := by
  by_cases hfull : w.isFull = true
  · have hkept : (w.collect []).2.population = {x | w.Keeps [] x}.ncard := by
      have htidy' := (moves_collect w []).tidy htidy
      have htrims : w.Trims (w.collect []).2 := w.trims_collect []
      rw [← htidy'.ncard_live (htrims.objects.counted hcounted)]
      simp only [live_collect_iff htidy.clear htidy.addressed]
    rw [relieved, if_pos hfull, isFull, decide_eq_true_iff, hkept]
    rfl
  · rw [relieved, if_neg hfull]
    apply iff_of_false hfull
    have hroom : w.population < w.settings.objectLimit := by
      rwa [isFull, decide_eq_true_iff, Nat.not_le] at hfull
    have hle : {x | w.Keeps [] x}.ncard ≤ w.population := by
      rw [← htidy.ncard_live hcounted]
      exact Set.ncard_le_ncard (fun x hx => hx.live) htidy.finite_live
    omega

/-! ## What an allocation does -/

/-- What an allocation that succeeds does. A collection that is run in a full world comes
first. -/
structure PutsIn (w : World) (o : Object) (x : Handle) (w' : World) : Prop where
  new : ¬ w.objects.Live x
  get?_eq : w'.objects.get? x = some (o.setOwnership (.ofPool w.pools.current))
  /-- Nothing but the collection happens to the other objects. -/
  other : ∀ y, y ≠ x → w'.objects.get? y = w.relieved.objects.get? y
  scopes_eq : w'.pools.scopeIds = w.pools.scopeIds
  entries_perm : w'.pools.entries.Perm ((w.pools.current, x) :: w.relieved.pools.entries)
  collections_eq : w'.collections = w.collections + if w.isFull then 1 else 0
  population_le : w'.population ≤ w.settings.objectLimit

/-- What an allocation that succeeds does where no marks were left. -/
structure TakesIn (w : World) (o : Object) (x : Handle) (w' : World) : Prop extends
    PutsIn w o x w' where
  kept : ∀ y, w.Keeps [] y → w'.objects.get? y = w.objects.get? y

/-- The handle of an object that is put into the relieved world was not live before either. -/
theorem Sturdy.stale_of_relieved (hsturdy : w.Sturdy) (hfits : w.relieved.Fits)
    {value : Handle → Object} (hnew : w.relieved.objects.get? x = none)
    (hget : (w.relieved.objects.insertWith value).2.get? x = some o) : ¬ w.objects.Live x := by
  rintro ⟨p, hp⟩
  have hsturdy' := w.sustains_relieved.sturdy hfits hsturdy
  have hfew : (w.relieved.objects.insertWith value).2.removed < w.objects.inserted := by
    have hpos := hsturdy'.occupied_pos
    have hcounted := hsturdy'.counted
    have hinserted := w.trims_relieved.objects.inserted_eq
    unfold Arena.Counted at hcounted
    rw [Arena.removed_insertWith]
    omega
  obtain ⟨q, hq⟩ := hsturdy.counted.get?_between (w.sustains_relieved.fits hfits).cells_le
    w.sustains_relieved.turns (Arena.turns_insertWith _ value) hp hget hfew
  cases hnew.symm.trans hq

theorem Sturdy.putsIn (hsturdy : w.Sturdy) (hroom : w.relieved.isFull = false)
    (hfits : (w.relieved.admitObject o).2.Fits) :
    w.PutsIn o (w.relieved.admitObject o).1 (w.relieved.admitObject o).2 := by
  have hfits' : w.relieved.Fits :=
    (steps_spends.admitObject w.relieved (steps_spends.insert _ _)).fits hfits
  have hsturdy' := w.sustains_relieved.sturdy hfits' hsturdy
  have hcurrent : w.relieved.pools.current = w.pools.current := by
    unfold PoolStack.current
    rw [innermostFirst_relieved]
  let value : Handle → Object := fun _ => o.setOwnership (.ofPool w.relieved.pools.current)
  obtain ⟨hnew, hget⟩ := Arena.get?_insertWith hsturdy'.tight value hfits.cells_le
  have hself := (hget _).trans (if_pos rfl)
  have hother : ∀ y, y ≠ (w.relieved.admitObject o).1 →
      (w.relieved.admitObject o).2.objects.get? y = w.relieved.objects.get? y :=
    fun y hne => (hget y).trans (if_neg hne)
  constructor
  case new => exact hsturdy.stale_of_relieved hfits' hnew hself
  case get?_eq => exact hcurrent ▸ hself
  case other => exact hother
  case scopes_eq =>
    have hmoves := moves_insertPool w.relieved w.relieved.pools.current (w.relieved.admitObject o).1
    refine hmoves.scopes_eq.trans ?_
    rw [PoolStack.scopeIds, innermostFirst_relieved, PoolStack.scopeIds]
  case entries_perm =>
    obtain ⟨pool, hpool⟩ := w.relieved.pools.exists_get?_current
    exact hcurrent ▸ (hsturdy'.pools.modify_insert hpool (w.relieved.admitObject o).1).2
  case collections_eq => exact w.collections_relieved
  case population_le =>
    have hbounds := (swells_admitObject w.relieved o).bounds_of_room hroom
    have hlt := Nat.lt_of_not_le (decide_eq_false_iff_not.1 hroom)
    have hlimit := w.trims_relieved.settings_eq
    have hle := hbounds.population_le
    rw [hlimit] at hlt hle
    omega

theorem Sturdy.takesIn (hsturdy : w.Sturdy) (htidy : w.Tidy) (hroom : w.relieved.isFull = false)
    (hfits : (w.relieved.admitObject o).2.Fits) :
    w.TakesIn o (w.relieved.admitObject o).1 (w.relieved.admitObject o).2 := by
  have hputs := hsturdy.putsIn hroom hfits
  refine ⟨hputs, fun y hkeeps => ?_⟩
  rw [hputs.other y, htidy.get?_relieved hkeeps]
  rintro rfl
  exact hputs.new hkeeps.live

/-- After respectful operations the entry of a new object is the only one with its handle. -/
theorem TakesIn.count_eq (htakes : w.TakesIn o x w') (hcoherent : w.Coherent) (htidy : w.Tidy)
    (id : PoolId) :
    w'.pools.entries.count (id, x) = if id = w.pools.current then 1 else 0 := by
  have hstale : w.relieved.objects.get? x = none := by
    apply Option.eq_none_iff_forall_ne_some.2
    intro p hp
    exact htakes.new ⟨p, (htidy.get?_relieved_iff.1 hp).1⟩
  have hcoherent' := (evolves_relieved hcoherent htidy).coherent
  rw [htakes.entries_perm.count_eq, List.count_cons,
    List.count_eq_zero.2 (hcoherent'.registered.not_mem_of_stale hstale id), Nat.zero_add]
  apply if_congr _ rfl rfl
  rw [beq_iff_eq, Prod.mk.injEq, and_iff_left rfl, eq_comm]

/-- In every world that operations lead to without putting in an object that carries a mark, an
allocation gives up if and only if at least as many objects as the limit are led to from where
collections start; one collection is then all that has happened. Otherwise it takes the object
in, whatever flags it has. The new entry is the only one with the new handle if operations were
respectful. -/
theorem Unmarked.allocate_exact (hunmarked : Unmarked settings w) (o : Object)
    (hfits : ((Operation.allocate o).perform w).2.Fits) :
    (settings.objectLimit ≤ {x | w.Keeps [] x}.ncard ∧
      (Operation.allocate o).perform w =
        (.error (.outOfMemory settings.objectLimit), (w.collect []).2)) ∨
    ({x | w.Keeps [] x}.ncard < settings.objectLimit ∧
      ∃ x w', (Operation.allocate o).perform w = (.ok x, w') ∧ w.TakesIn o x w' ∧
        (Respectful settings w → ∀ id,
          w'.pools.entries.count (id, x) = if id = w.pools.current then 1 else 0)) := by
  have hreachable := hunmarked.reachable
  have hsettings := hreachable.settings_eq
  have htidy := hunmarked.tidy
  have hfits' : w.Fits := ((Operation.allocate o).spends w).fits hfits
  have hsturdy := hreachable.sturdy hfits'
  have hperform : (Operation.allocate o).perform w = _ := Action.perform_allocate_eq o w
  have hiff := htidy.isFull_relieved_iff hsturdy.counted
  rw [hsettings] at hiff hperform
  rw [hperform] at hfits ⊢
  by_cases hfull : w.relieved.isFull = true
  · left
    rw [if_pos hfull, relieved_eq_collect hfull]
    exact ⟨hiff.1 hfull, rfl⟩
  · right
    rw [if_neg hfull] at hfits ⊢
    have htakes := hsturdy.takesIn htidy (Bool.eq_false_iff.2 hfull) hfits
    refine ⟨Nat.lt_of_not_le (mt hiff.2 hfull), _, _, rfl, htakes, fun hrespectful => ?_⟩
    exact htakes.count_eq (hrespectful.coherent hfits').1 htidy

/-- A world with one open scope, whose pool was asked to take in a handle that is not live
yet. -/
def misled : World :=
  ((Operation.addToPool ⟨25, 0⟩ ⟨1⟩).perform ((Operation.openScope).perform initial).2).2

/-- The next object comes under this very handle, and the pool lists it twice. -/
theorem Unmarked.allocate_exact_misled :
    let cell := Object.new Builtin.pairlistClass 3 .none 0 .shared
    (Unmarked {} misled ∧ ((Operation.allocate cell).perform misled).2.Fits) ∧
    ∃ x w', (Operation.allocate cell).perform misled = (.ok x, w') ∧
      misled.TakesIn cell x w' ∧ w'.pools.entries.count (⟨1⟩, x) = 2 := by
  intro cell
  have hunmarked : Unmarked {} misled :=
    (respectful_initial.unmarked.step .openScope trivial).step (.addToPool ⟨25, 0⟩ ⟨1⟩) trivial
  let after := (Operation.allocate cell).perform misled
  have hafter : after.1.toOption = some ⟨25, 0⟩ ∧ after.2.objects.cells.size = 26 ∧
      after.2.pools.opened = 1 ∧ after.2.pools.entries.count (⟨1⟩, ⟨25, 0⟩) = 2 := by
    decide +kernel
  obtain ⟨hok, hcells, hopened, hcount⟩ := hafter
  have hfits : after.2.Fits := ⟨by omega, by omega⟩
  refine ⟨⟨hunmarked, hfits⟩, ?_⟩
  rcases hunmarked.allocate_exact cell hfits with ⟨_, herror⟩ | ⟨_, x, w', hperform, htakes, _⟩
  · rw [show after = _ from herror] at hok
    cases hok
  · refine ⟨x, w', hperform, htakes, ?_⟩
    rw [show after = _ from hperform] at hok hcount
    cases hok
    exact hcount

end World

end ObjectSystem

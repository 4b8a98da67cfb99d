/-
# What even misuse does not break

Users who move objects between pools by hand, or put in objects that hold stale references,
can make the parts of a world disagree. Some things they cannot break, as long as the numbers
of cells and scopes do not run out: the arena lists its empty cells correctly and counts what
was put in and taken out, the pools are in order, and something is pinned, so that the world
is never empty.
-/

import ObjectSystem.Proofs.Bootstrap

namespace ObjectSystem

namespace World

variable {w w' : World}

/-- What holds of every world that operations lead to. -/
structure Sturdy (w : World) : Prop where
  tight : w.objects.Tight
  counted : w.objects.Counted
  pools : w.pools.Valid
  lasting : ∃ x o, w.objects.get? x = some o ∧ o.header.pinned = true

/-- A sturdy world stays sturdy if its numbers do not run out on the way. -/
structure Sustains (w w' : World) : Prop extends Spends w w' where
  sturdy : w'.Fits → w.Sturdy → w'.Sturdy

instance : IsPreorder World Sustains where
  refl w := ⟨refl_of Spends w, fun _ => id⟩
  trans _ _ _ hfirst hsecond := ⟨trans_of Spends hfirst.toSpends hsecond.toSpends,
    fun hfits hsturdy =>
      hsecond.sturdy hfits (hfirst.sturdy (hsecond.toSpends.fits hfits) hsturdy)⟩

/-- Where the world is trimmed it is enough to look at the pools. -/
theorem Spends.sustains (hspends : w.Spends w') (htrims : w.Trims w')
    (hpools : w'.Fits → w.pools.Valid → w'.pools.Valid) : w.Sustains w' := by
  refine ⟨hspends, fun hfits hsturdy => ?_⟩
  obtain ⟨x, o, ho, hpinned⟩ := hsturdy.lasting
  obtain ⟨o', ho', hstays⟩ := htrims.objects.get? ho hpinned
  exact ⟨htrims.objects.tight hsturdy.tight, htrims.objects.counted hsturdy.counted,
    hpools hfits hsturdy.pools, x, o', ho', hstays.pinned hpinned⟩

/-- A change of one object that keeps its pin is no harm, whatever else it does. -/
theorem Sturdy.modifyObject (hsturdy : w.Sturdy) (x : Handle) {f : Object → Object}
    (hpinned : ∀ o, o.header.pinned = true → (f o).header.pinned = true) :
    (w.modifyObject x f).Sturdy := by
  refine ⟨hsturdy.tight.modify x f, hsturdy.counted.modify x f, hsturdy.pools, ?_⟩
  obtain ⟨y, o, ho, hlasts⟩ := hsturdy.lasting
  refine ⟨y, if y = x then f o else o, ?_, ?_⟩
  · rw [World.modifyObject, Arena.get?_modify, ho]
    split <;> rfl
  · split
    · exact hpinned o hlasts
    · exact hlasts

theorem Sturdy.insertWith (hsturdy : w.Sturdy) (value : Handle → Object)
    (hcells : (w.objects.insertWith value).2.cells.size ≤ 2 ^ 32) :
    { w with objects := (w.objects.insertWith value).2 }.Sturdy := by
  refine ⟨hsturdy.tight.insertWith value, hsturdy.counted.insertWith hsturdy.tight value hcells,
    hsturdy.pools, ?_⟩
  obtain ⟨hnew, hget⟩ := Arena.get?_insertWith hsturdy.tight value hcells
  obtain ⟨y, o, ho, hpinned⟩ := hsturdy.lasting
  refine ⟨y, o, (hget y).trans ?_, hpinned⟩
  rw [if_neg, ho]
  rintro rfl
  cases hnew.symm.trans ho

theorem steps_sustains : AllSteps Sustains where
  same hobjects hpools _ _ := by
    refine ⟨(Advances.of_eq hobjects hpools).toSpends, fun _ hsturdy => ?_⟩
    exact ⟨hobjects ▸ hsturdy.tight, hobjects ▸ hsturdy.counted, hpools ▸ hsturdy.pools,
      hobjects ▸ hsturdy.lasting⟩
  enter w id x := by
    apply (steps_spends.enter w id x).sustains (.of_eq rfl rfl rfl)
    exact fun _ hvalid => hvalid.insert id x
  leave w id x pool changed hpool herase := by
    apply (steps_spends.leave w id x pool changed hpool herase).sustains (.of_eq rfl rfl rfl)
    exact fun _ hvalid => (hvalid.modify_erase hpool herase).1
  change w x f hmark hpinned :=
    ⟨steps_spends.change w x hmark hpinned, fun _ hsturdy => hsturdy.modifyObject x hpinned⟩
  reclaim w x := (steps_spends.reclaim w x).sustains (w.trims_free x) fun _ => id
  sweep w extra := by
    apply (steps_spends.sweep w extra).sustains (w.trims_collect extra)
    exact fun _ hvalid => (hvalid.modify_filter _).1
  put w value hmark :=
    ⟨steps_spends.put w value hmark, fun hfits hsturdy =>
      hsturdy.insertWith value hfits.cells_le⟩
  push w := by
    apply (steps_spends.push w).sustains (.of_eq rfl rfl rfl)
    exact fun hfits hvalid => (hvalid.push hfits.opened_lt).1
  pop w id closed kept hpop := by
    apply (steps_spends.pop w id closed kept hpop).sustains (.of_eq rfl rfl rfl)
    exact fun _ hvalid => (hvalid.pop hpop).1
  note w l := (steps_spends.note w l).sustains (.of_eq rfl rfl rfl) fun _ => id
  insert w value :=
    ⟨steps_spends.insert w value, fun hfits hsturdy => hsturdy.insertWith value hfits.cells_le⟩

theorem Sturdy.occupied_pos (hsturdy : w.Sturdy) : 0 < w.objects.occupied := by
  obtain ⟨x, o, ho, _⟩ := hsturdy.lasting
  exact (Nat.zero_le _).trans_lt (Arena.occupied_remove_lt ho)

/-- Every world that operations lead to, however they are used, is sturdy. -/
theorem Reachable.sturdy {settings : Settings} (hreachable : Reachable settings w)
    (hfits : w.Fits) : w.Sturdy := by
  induction hreachable with
  | create hcreate =>
      obtain ⟨hcoherent, hequipped⟩ := coherent_create hcreate hfits
      exact ⟨hcoherent.tight, (tallies_create hcreate hfits.cells_le).ordered.counted,
        hcoherent.pools, Builtin.null, hequipped.null⟩
  | @step w _ _ op ih =>
      have hsustains : w.Sustains (op.perform w).2 := op.keeps steps_sustains w
      exact hsustains.sturdy hfits (ih (hsustains.fits hfits))

end World

end ObjectSystem

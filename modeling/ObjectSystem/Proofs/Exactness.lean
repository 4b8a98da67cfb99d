/-
# Collections are exact

In every world that operations lead to, however they are used, a collection frees the
objects that nothing leads to from where it starts, and does nothing else. A second one
finds nothing to free. Only marks must not have been there before: an object that is put in
with a mark on it passes for one that has been visited already.
-/

import ObjectSystem.Proofs.Reachable

namespace ObjectSystem.World

variable {settings : Settings} {w : World} {extra : List Handle}

/-- What a collection with further roots does: how many objects it frees and which world
it leaves. -/
structure CollectsExactly (w : World) (extra : List Handle) (count : Nat) (w' : World) :
    Prop where
  /-- What is reached stays as it was, and nothing else stays. -/
  get?_iff : ∀ x o, w'.objects.get? x = some o ↔ w.objects.get? x = some o ∧ w.Keeps extra x
  unmarked : ∀ x o, w'.objects.get? x = some o → o.header.marked = false
  count_eq : ∃ freed : List Handle, freed.Nodup ∧
    (∀ x, x ∈ freed ↔ (∃ o, w.objects.get? x = some o) ∧ ¬ w.Keeps extra x) ∧
    count = freed.length
  scopes_eq : w'.pools.innermostFirst = w.pools.innermostFirst
  /-- The collector's pool keeps the entries that are still live, in their order. -/
  collector_eq : w'.pools.collector.toList =
    w.pools.collector.toList.filter w'.objects.contains

theorem Tidy.collectsExactly (htidy : w.Tidy) (extra : List Handle) :
    w.CollectsExactly extra (w.collect extra).1 (w.collect extra).2 where
  get?_iff _ _ := get?_collect htidy.clear htidy.addressed
  unmarked _ _ hx := (clear_collect htidy.clear htidy.addressed).get? hx
  count_eq := count_collect htidy.clear htidy.addressed
  scopes_eq := rfl
  collector_eq := (htidy.collector_valid.filter _).2

/-- What was kept once is kept again. -/
theorem Tidy.collect_again (htidy : w.Tidy) (extra : List Handle) :
    ((w.collect extra).2.collect extra).1 = 0 ∧
      ∀ x, ((w.collect extra).2.collect extra).2.objects.get? x =
        (w.collect extra).2.objects.get? x := by
  have htidy' := (moves_collect w extra).tidy htidy
  have hstays : ∀ x, (w.collect extra).2.objects.Live x → (w.collect extra).2.Keeps extra x :=
    fun x hx => keeps_collect htidy.clear htidy.addressed
      ((live_collect_iff htidy.clear htidy.addressed).1 hx)
  constructor
  · obtain ⟨freed, _, hfreed, hcount⟩ := @count_collect _ extra htidy'.clear
      htidy'.addressed
    have hempty : freed = [] := by
      refine List.eq_nil_iff_forall_not_mem.2 fun x hx => ?_
      obtain ⟨hlive, hgone⟩ := (hfreed x).1 hx
      exact hgone (hstays x hlive)
    rw [hcount, hempty, List.length_nil]
  · intro x
    refine Option.ext fun o => ?_
    rw [get?_collect htidy'.clear htidy'.addressed]
    exact ⟨And.left, fun hx => ⟨hx, hstays x ⟨o, hx⟩⟩⟩

/-- That no object carries a mark before is needed: one that does outlives the collection, though
nothing may lead to it. -/
theorem get?_collect_marked {x : Handle} {o : Object} (haddressed : w.objects.Addressed)
    (hx : w.objects.get? x = some o) (hmarked : o.header.marked = true) :
    (w.collect extra).2.objects.get? x = some o.unmark := by
  obtain ⟨p, hp, hmark⟩ : (mark w.objects (w.collectionRoots extra)).Marked x :=
    marked_mark_of_marked ⟨o, hx, hmarked⟩
  obtain ⟨q, hq, hsame⟩ := (mark_remarks w.objects (w.collectionRoots extra)).get? hx
  cases hq.symm.trans hp
  rw [get?_collect_eq_bind haddressed, hp, Option.bind_some, swept,
    if_pos (by rw [hmark, Bool.true_or])]
  exact congrArg some hsame

end ObjectSystem.World

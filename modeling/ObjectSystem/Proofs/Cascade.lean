/-
# Cascades

When objects are freed, the objects that one slot alone held in one of them go with them,
and so on along the references. `Arena.Cascade` is this set, with no word about the order
and about pins. In an arena whose references and headers agree it is exactly what
reclaiming frees, and reclaiming counts each of its objects once.
-/

import Mathlib.Data.Finset.Card
import ObjectSystem.Proofs.Reclaiming

namespace ObjectSystem

namespace Arena

variable {a : Arena Object} {start : List Handle} {known : Handle → Prop} {loose : List Handle}
  {x y : Handle} {o : Object}

/-- The least set that has the live objects on a list, and with an object every object that
it refers to and that is held by one slot. -/
inductive Cascade (a : Arena Object) (start : List Handle) : Handle → Prop where
  | start {x : Handle} {o : Object} (hx : x ∈ start) (ho : a.get? x = some o) :
      Cascade a start x
  | ref {x y : Handle} {o p : Object} (hcascade : Cascade a start x) (ho : a.get? x = some o)
      (hy : y ∈ o.refs) (hp : a.get? y = some p) (hsingle : p.header.ownership = .single) :
      Cascade a start y

/-- One step along a reference, with conditions that can be computed. -/
theorem Cascade.next (hcascade : a.Cascade start x)
    (href : (a.get? x).any (·.refs.contains y) = true) (hsingle : World.isSingle a y = true) :
    a.Cascade start y := by
  obtain ⟨o, ho, hy⟩ := (Option.any_eq_true _ _).1 href
  obtain ⟨p, hp, hown⟩ := World.isSingle_iff.1 hsingle
  exact hcascade.ref ho (List.contains_iff_mem.1 hy) hp hown

/-- What has the live objects on a list, and with an object every object that it alone
holds, has the whole cascade. -/
theorem Cascade.least {P : Handle → Prop} (hcascade : a.Cascade start y)
    (hstart : ∀ x ∈ start, P x)
    (href : ∀ x o, P x → a.get? x = some o → ∀ z ∈ o.refs, World.isSingle a z = true → P z) :
    P y := by
  induction hcascade with
  | start hmem _ => exact hstart _ hmem
  | ref _ ho hy hp hsingle ih =>
      exact href _ _ ih ho _ hy (World.isSingle_iff.2 ⟨_, hp, hsingle⟩)

/-- If nothing on a list is shared, what falls with the list is its cascade: neither pins
nor classes stand in the way. -/
theorem falls_iff_cascade (hlinked : Linked a known loose)
    (hstart : ∀ x ∈ start, ∀ o, a.get? x = some o → o.header.ownership ≠ .shared) :
    a.Falls start y ↔ a.Cascade start y := by
  constructor
  · intro hfalls
    induction hfalls with
    | listed hmem ho _ => exact .start hmem ho
    | held _ ho hy hp _ hsingle ih => exact ih.ref ho (List.mem_cons_of_mem _ hy) hp hsingle
  · intro hcascade
    induction hcascade with
    | start hmem ho => exact .listed hmem ho (hlinked.unpinned ho (hstart _ hmem _ ho))
    | @ref x y o p _ ho hy hp hsingle ih =>
        rcases List.mem_cons.1 hy with rfl | howned
        · -- The class of an object is pinned, so it is not held by one slot.
          obtain ⟨c, hc, hpinned, _⟩ :=
            hlinked.known_class _ (hlinked.classes_known x o ho _ List.mem_cons_self)
          cases hc.symm.trans hp
          cases hsingle.symm.trans (hlinked.pinned_shared _ _ hp hpinned)
        · exact ih.held ho howned hp (hlinked.unpinned hp (by simp [hsingle])) hsingle

/-- What falls is live. -/
theorem Falls.live (hfalls : a.Falls start x) : a.Live x := by
  cases hfalls with
  | listed _ ho _ => exact ⟨_, ho⟩
  | held _ _ _ hp _ _ => exact ⟨_, hp⟩

end Arena

namespace World

open Arena

/-- Reclaiming puts nothing in. -/
theorem inserted_reclaim (objects : Arena Object) (pending : List Handle) :
    (reclaim objects pending).inserted = objects.inserted := by
  apply reclaim_induction (P := fun a => a.inserted = objects.inserted)
  · rfl
  · exact fun a x ha => (inserted_remove a x).trans ha

/-- The objects that reclaiming frees are finitely many, and each is counted once. -/
theorem exists_removed_reclaim (objects : Arena Object) (pending : List Handle) :
    ∃ freed : Finset Handle, (∀ y, y ∈ freed ↔ objects.Falls pending y) ∧
      (reclaim objects pending).removed = objects.removed + freed.card := by
  fun_induction reclaim objects pending with
  | case1 objects => exact ⟨∅, fun y => by simp [not_falls_nil], rfl⟩
  | case2 objects x pending hx ih =>
      obtain ⟨freed, hfreed, hremoved⟩ := ih
      exact ⟨freed, fun y => (hfreed y).trans
        (falls_cons_of_stays fun o ho => by cases hx.symm.trans ho).symm, hremoved⟩
  | case3 objects x pending o hx hpinned ih =>
      obtain ⟨freed, hfreed, hremoved⟩ := ih
      refine ⟨freed, fun y => (hfreed y).trans (falls_cons_of_stays fun q hq => ?_).symm, hremoved⟩
      cases hx.symm.trans hq
      exact hpinned
  | case4 objects x pending o hx hpinned objects' ih =>
      obtain ⟨freed, hfreed, hremoved⟩ := ih
      -- The object that goes first is not there any more when the others go.
      have hnew : x ∉ freed := by
        intro hmem
        obtain ⟨p, hp⟩ := ((hfreed x).1 hmem).live
        rw [get?_remove, if_pos rfl] at hp
        cases hp
      refine ⟨insert x freed, fun y => ?_, ?_⟩
      · rw [Finset.mem_insert, hfreed, falls_cons hx (Bool.eq_false_iff.2 hpinned)]
      · rw [hremoved, removed_remove hx, Finset.card_insert_of_notMem hnew]
        omega

end World

end ObjectSystem

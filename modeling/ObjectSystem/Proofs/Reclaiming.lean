/-
# What freeing an object takes with it

`Arena.Falls` says which objects go when given ones are freed, without saying in which
order they go: what an object that goes alone answered for goes with it, and pinned
objects stay. Reclaiming frees exactly these objects and changes no other.
-/

import ObjectSystem.Proofs.Coherence

namespace ObjectSystem

namespace Arena

variable {a : Arena Object} {pending : List Handle} {x y : Handle} {o p : Object}

/-- The objects that go when the objects on a list are freed. -/
inductive Falls (a : Arena Object) (pending : List Handle) : Handle → Prop where
  | listed {x : Handle} {o : Object} (hx : x ∈ pending) (ho : a.get? x = some o)
      (hpinned : o.header.pinned = false) : Falls a pending x
  | held {x y : Handle} {o p : Object} (hfalls : Falls a pending x) (ho : a.get? x = some o)
      (hy : y ∈ o.ownedRefs) (hp : a.get? y = some p) (hpinned : p.header.pinned = false)
      (hsingle : p.header.ownership = .single) : Falls a pending y

theorem not_falls_nil : ¬ a.Falls [] x := by
  intro hfalls
  induction hfalls with
  | listed hmem => cases hmem
  | held _ _ _ _ _ _ ih => exact ih

theorem Falls.unpinned (hfalls : a.Falls pending x) (hx : a.get? x = some o) :
    o.header.pinned = false := by
  cases hfalls with
  | listed _ ho hpinned =>
      cases hx.symm.trans ho
      exact hpinned
  | held _ _ _ hp hpinned _ =>
      cases hx.symm.trans hp
      exact hpinned

/-- If the listed objects are each held by one slot, so is all that goes. -/
theorem Falls.single (hfalls : a.Falls pending x) (hx : a.get? x = some o)
    (hlisted : ∀ y ∈ pending, ∀ p, a.get? y = some p → p.header.ownership = .single) :
    o.header.ownership = .single := by
  cases hfalls with
  | listed hmem _ _ => exact hlisted x hmem o hx
  | held _ _ _ hp _ hsingle =>
      cases hx.symm.trans hp
      exact hsingle

/-- Nothing goes with a stale handle or a pinned object. -/
theorem falls_cons_of_stays (hstays : ∀ o, a.get? x = some o → o.header.pinned = true) :
    a.Falls (x :: pending) y ↔ a.Falls pending y := by
  constructor
  · intro hfalls
    induction hfalls with
    | listed hmem ho hpinned =>
        rcases List.mem_cons.1 hmem with rfl | hmem
        · rw [hstays _ ho] at hpinned
          cases hpinned
        · exact .listed hmem ho hpinned
    | held _ ho hy hp hpinned hsingle ih => exact ih.held ho hy hp hpinned hsingle
  · intro hfalls
    induction hfalls with
    | listed hmem ho hpinned => exact .listed (List.mem_cons_of_mem _ hmem) ho hpinned
    | held _ ho hy hp hpinned hsingle ih => exact ih.held ho hy hp hpinned hsingle

/-- With the first object of a list goes what goes with the rest of the list and with what
the object alone answered for, once it is out of the arena. -/
theorem falls_cons (hx : a.get? x = some o) (hpinned : o.header.pinned = false) :
    a.Falls (x :: pending) y ↔ y = x ∨ (a.remove x).Falls
      ((o.ownedRefs.filter (World.isSingle (a.remove x))).reverse ++ pending) y := by
  have hget : ∀ {z q}, z ≠ x → a.get? z = some q → (a.remove x).get? z = some q := by
    intro z q hne hz
    rw [get?_remove, if_neg hne, hz]
  constructor
  · intro hfalls
    induction hfalls with
    | @listed z q hmem hz hunpinned =>
        by_cases heq : z = x
        · exact Or.inl heq
        · refine Or.inr (.listed ?_ (hget heq hz) hunpinned)
          exact List.mem_append_right _ ((List.mem_cons.1 hmem).resolve_left heq)
    | @held z z' q q' _ hz hmem hz' hunpinned hsingle ih =>
        by_cases heq : z' = x
        · exact Or.inl heq
        · refine Or.inr ?_
          by_cases hzx : z = x
          · subst hzx
            cases hz.symm.trans hx
            refine .listed (List.mem_append_left _ ?_) (hget heq hz') hunpinned
            rw [List.mem_reverse, List.mem_filter, World.isSingle_iff]
            exact ⟨hmem, q', hget heq hz', hsingle⟩
          · exact (ih.resolve_left hzx).held (hget hzx hz) hmem (hget heq hz') hunpinned hsingle
  · have hself : a.Falls (x :: pending) x := .listed List.mem_cons_self hx hpinned
    rintro (rfl | hfalls)
    · exact hself
    · induction hfalls with
      | listed hmem hz hunpinned =>
          have hz' := get?_of_get?_remove hz
          rcases List.mem_append.1 hmem with hmem | hmem
          · rw [List.mem_reverse, List.mem_filter, World.isSingle_iff] at hmem
            obtain ⟨href, q, hq, hsingle⟩ := hmem
            cases hq.symm.trans hz
            exact hself.held hx href hz' hunpinned hsingle
          · exact .listed (List.mem_cons_of_mem _ hmem) hz' hunpinned
      | held _ hz hmem hz' hunpinned hsingle ih =>
          exact ih.held (get?_of_get?_remove hz) hmem (get?_of_get?_remove hz') hunpinned hsingle

/-- What goes with given objects goes too if more are freed, and if the owner of one that
stays is changed. -/
theorem Falls.carry {a' : Arena Object} {pending' : List Handle} {v : Handle}
    (hfalls : a.Falls pending y) (hlisted : ∀ z ∈ pending, z ∈ pending' ∧ z ≠ v)
    (hsame : ∀ z, z ≠ v → a'.get? z = a.get? z)
    (hstays : ∀ o, a.get? v = some o → o.header.ownership ≠ .single) :
    a'.Falls pending' y ∧ y ≠ v := by
  induction hfalls with
  | listed hmem ho hpinned =>
      obtain ⟨hmem', hne⟩ := hlisted _ hmem
      exact ⟨.listed hmem' ((hsame _ hne).trans ho) hpinned, hne⟩
  | @held _ z _ _ _ ho hy hp hpinned hsingle ih =>
      obtain ⟨hfalls', hne⟩ := ih
      have hne' : z ≠ v := by
        rintro rfl
        exact hstays _ hp hsingle
      exact ⟨hfalls'.held ((hsame _ hne).trans ho) hy ((hsame _ hne').trans hp) hpinned hsingle,
        hne'⟩

/-- Only the objects on a list matter, and not their order. -/
theorem falls_congr {pending' : List Handle} (hlisted : ∀ z, z ∈ pending ↔ z ∈ pending') :
    a.Falls pending y ↔ a.Falls pending' y := by
  have himp : ∀ {l l' : List Handle}, (∀ z, z ∈ l → z ∈ l') → a.Falls l y → a.Falls l' y := by
    intro l l' hsub hfalls
    induction hfalls with
    | listed hmem ho hpinned => exact .listed (hsub _ hmem) ho hpinned
    | held _ ho hy hp hpinned hsingle ih => exact ih.held ho hy hp hpinned hsingle
  exact ⟨himp fun z => (hlisted z).1, himp fun z => (hlisted z).2⟩

end Arena

namespace World

/-- Reclaiming frees what goes with the listed objects, and leaves the others as they
are. -/
theorem get?_reclaim {objects : Arena Object} {pending : List Handle} {y : Handle} {p : Object} :
    (reclaim objects pending).get? y = some p ↔
      objects.get? y = some p ∧ ¬ objects.Falls pending y := by
  fun_induction reclaim objects pending with
  | case1 objects => exact ⟨fun hy => ⟨hy, Arena.not_falls_nil⟩, And.left⟩
  | case2 objects x pending hx ih =>
      rw [ih, Arena.falls_cons_of_stays fun o ho => by cases hx.symm.trans ho]
  | case3 objects x pending o hx hpinned ih =>
      rw [ih, Arena.falls_cons_of_stays fun q hq => by
        cases hx.symm.trans hq
        exact hpinned]
  | case4 objects x pending o hx hpinned objects' ih =>
      rw [ih, Arena.falls_cons hx (Bool.eq_false_iff.2 hpinned), Arena.get?_remove]
      by_cases heq : y = x
      · simp [heq]
      · simp [heq, objects']

/-- Freeing the objects on a list and then those on another frees those on both. -/
theorem reclaim_append (objects : Arena Object) (first second : List Handle) :
    reclaim objects (first ++ second) = reclaim (reclaim objects first) second := by
  fun_induction reclaim objects first with
  | case1 objects => rfl
  | case2 objects x first hx ih =>
      rw [← ih, List.cons_append, reclaim]
      split
      · rfl
      · next o ho => cases hx.symm.trans ho
  | case3 objects x first o hx hpinned ih =>
      rw [← ih, List.cons_append, reclaim]
      split
      · next hnone => cases hx.symm.trans hnone
      · next p hp =>
          cases hx.symm.trans hp
          rw [if_pos hpinned]
  | case4 objects x first o hx hpinned objects' ih =>
      rw [← ih, List.cons_append, reclaim]
      split
      · next hnone => cases hx.symm.trans hnone
      · next p hp =>
          cases hx.symm.trans hp
          rw [if_neg hpinned, List.append_assoc]

/-- It does not matter whether the objects on a list are freed together or one by one. -/
theorem foldl_reclaim (objects : Arena Object) (pending : List Handle) :
    pending.foldl (fun a x => reclaim a [x]) objects = reclaim objects pending := by
  induction pending generalizing objects with
  | nil => rw [List.foldl_nil, reclaim]
  | cons x pending ih => rw [List.foldl_cons, ih, ← reclaim_append, List.singleton_append]

end World

end ObjectSystem

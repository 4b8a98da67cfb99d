/-
# Ownership along runs

What holds at every moment of a run is put together here. As long as an object is there
its owner does not go back from the collector to a slot or from a slot to a scope, and a
scope loses it to another scope only by handing it over. A shared object stays and stays
shared until a collection does not reach it. A pinned object stays whatever happens.

A handle may come to mean another object when the object that it meant was taken out. So
what is said about an object here supposes that it was there after every moment.
-/

import ObjectSystem.Proofs.Course

namespace ObjectSystem

namespace World

variable {settings : Settings} {w w' : World} {course past rest : List Moment} {m : Moment}
  {x : Handle} {o o' : Object} {id id' : PoolId}

/-- The object is there after each of the moments. -/
def Lasting (course : List Moment) (x : Handle) : Prop :=
  ∀ m ∈ course, m.after.objects.Live x

theorem lasting_cons :
    Lasting (m :: rest) x ↔ m.after.objects.Live x ∧ Lasting rest x :=
  List.forall_mem_cons

namespace Course

theorem advances (hcourse : w.Course course w') : w.Advances w' := by
  induction course generalizing w with
  | nil =>
      cases hcourse
      exact refl_of World.Advances _
  | cons m rest ih =>
      obtain ⟨rfl, hrest⟩ := hcourse
      exact trans_of World.Advances m.step.advances (ih hrest)

/-- What a moment of a course leaves lies between its ends. -/
theorem between (hcourse : w.Course course w') (hm : m ∈ course) :
    w.Advances m.after ∧ m.after.Advances w' := by
  induction course generalizing w with
  | nil => cases hm
  | cons m' rest ih =>
      obtain ⟨rfl, hrest⟩ := hcourse
      rcases List.mem_cons.1 hm with rfl | hm
      · exact ⟨m.step.advances, hrest.advances⟩
      · obtain ⟨hbefore, hafter⟩ := ih hrest hm
        exact ⟨trans_of World.Advances m'.step.advances hbefore, hafter⟩

/-- A handle that has a meaning before and afterwards has had it all along, unless so many
objects were taken out that a cell may have come back to its generation. -/
theorem lasting (hcourse : w.Course course w') (hlive : w.objects.Live x)
    (hlive' : w'.objects.Live x) (hfew : w'.objects.removed < w.objects.removed + 2 ^ 32) :
    Lasting course x := by
  intro m hm
  obtain ⟨o, ho⟩ := hlive
  obtain ⟨o', ho'⟩ := hlive'
  obtain ⟨hbefore, hafter⟩ := hcourse.between hm
  exact hbefore.turns.get?_between hafter.turns ho ho' hfew

/-- An object does not go back on its way to the collector. -/
theorem rank_le (hcourse : w.Course course w') (hupholds : ∀ m ∈ course, m.Upholds)
    (hlasting : Lasting course x) (ho : w.objects.get? x = some o)
    (ho' : w'.objects.get? x = some o') :
    o.header.ownership.rank ≤ o'.header.ownership.rank := by
  induction course generalizing w o with
  | nil =>
      cases hcourse
      cases ho.symm.trans ho'
      exact Nat.le_refl _
  | cons m rest ih =>
      obtain ⟨rfl, hrest⟩ := hcourse
      obtain ⟨hm, hupholds⟩ := List.forall_mem_cons.1 hupholds
      obtain ⟨⟨p, hp⟩, hlasting⟩ := lasting_cons.1 hlasting
      rcases hm.passed x o p ho hp with hprecedes | ⟨id, hhands⟩
      · exact hprecedes.rank_le.trans (ih hrest hupholds hlasting hp)
      · obtain ⟨q, hq, hpool⟩ := hhands.before
        cases hq.symm.trans ho
        rw [hpool]
        exact Nat.zero_le _

/-- A scope loses an object to another scope only by handing it over. -/
theorem handed (hcourse : w.Course course w') (hupholds : ∀ m ∈ course, m.Upholds)
    (hlasting : Lasting course x) (ho : w.objects.get? x = some o)
    (ho' : w'.objects.get? x = some o') (hown : o.header.ownership = .pool id)
    (hown' : o'.header.ownership = .pool id') (hne : id ≠ id') :
    ∃ m ∈ course, m.Hands id x := by
  induction course generalizing w o with
  | nil =>
      cases hcourse
      cases ho.symm.trans ho'
      cases hown.symm.trans hown'
      exact absurd rfl hne
  | cons m rest ih =>
      obtain ⟨rfl, hrest⟩ := hcourse
      obtain ⟨hm, hupholds⟩ := List.forall_mem_cons.1 hupholds
      obtain ⟨⟨p, hp⟩, hlasting⟩ := lasting_cons.1 hlasting
      rcases hm.passed x o p ho hp with hprecedes | ⟨id₁, hhands⟩
      · have hstays : p.header.ownership = .pool id := by
          have hrank := rank_le hrest hupholds hlasting hp ho'
          rw [hown'] at hrank
          rw [hown] at hprecedes
          cases hprecedes' : p.header.ownership with
          | pool id₁ =>
              rw [hprecedes'] at hprecedes
              cases hprecedes
              rfl
          | single | shared =>
              rw [hprecedes'] at hrank
              cases hrank
        obtain ⟨m', hm', hhands⟩ := ih hrest hupholds hlasting hp hstays
        exact ⟨m', List.mem_cons_of_mem _ hm', hhands⟩
      · obtain ⟨q, hq, hpool⟩ := hhands.before
        cases hq.symm.trans ho
        cases hpool.symm.trans hown
        exact ⟨m, List.mem_cons_self, hhands⟩

/-- Only a collection that does not reach a shared object ends it. -/
theorem shared (hcourse : w.Course course w') (hupholds : ∀ m ∈ course, m.Upholds)
    (ho : w.objects.get? x = some o) (hshared : o.header.ownership = .shared) :
    (Lasting course x ∧ ∃ o', w'.objects.get? x = some o' ∧ o'.header.ownership = .shared) ∨
      ∃ past m rest, course = past ++ m :: rest ∧ Lasting past x ∧ m.Misses x := by
  induction course generalizing w o with
  | nil =>
      cases hcourse
      exact Or.inl ⟨List.forall_mem_nil _, o, ho, hshared⟩
  | cons m rest ih =>
      obtain ⟨rfl, hrest⟩ := hcourse
      obtain ⟨hm, hupholds⟩ := List.forall_mem_cons.1 hupholds
      rcases hm.shared x o ho hshared with ⟨p, hp⟩ | hmisses
      · have hshared' : p.header.ownership = .shared := by
          rcases hm.passed x o p ho hp with hprecedes | ⟨id, hhands⟩
          · rw [hshared] at hprecedes
            exact hprecedes.eq_of_shared
          · obtain ⟨q, hq, hpool⟩ := hhands.before
            cases hq.symm.trans ho
            cases hpool.symm.trans hshared
        rcases ih hrest hupholds hp hshared' with
          ⟨hlasting, hend⟩ | ⟨past, m', rest', rfl, hlasting, hmisses⟩
        · exact Or.inl ⟨lasting_cons.2 ⟨⟨p, hp⟩, hlasting⟩, hend⟩
        · exact Or.inr ⟨m :: past, m', rest', rfl, lasting_cons.2 ⟨⟨p, hp⟩, hlasting⟩, hmisses⟩
      · exact Or.inr ⟨[], m, rest, rfl, List.forall_mem_nil _, hmisses⟩

theorem pinned (hcourse : w.Course course w') (hupholds : ∀ m ∈ course, m.Upholds)
    (ho : w.objects.get? x = some o) (hpinned : o.header.pinned = true) :
    Lasting course x ∧ ∃ o', w'.objects.get? x = some o' ∧ o'.header.pinned = true := by
  induction course generalizing w o with
  | nil =>
      cases hcourse
      exact ⟨List.forall_mem_nil _, o, ho, hpinned⟩
  | cons m rest ih =>
      obtain ⟨rfl, hrest⟩ := hcourse
      obtain ⟨hm, hupholds⟩ := List.forall_mem_cons.1 hupholds
      obtain ⟨p, hp, hpinned'⟩ := hm.pinned x o ho hpinned
      obtain ⟨hlasting, hend⟩ := ih hrest hupholds hp hpinned'
      exact ⟨lasting_cons.2 ⟨⟨p, hp⟩, hlasting⟩, hend⟩

theorem collections_eq (hcourse : w.Course course w') (hupholds : ∀ m ∈ course, m.Upholds) :
    w'.collections = w.collections + course.countP (·.isCollection) := by
  induction course generalizing w with
  | nil =>
      cases hcourse
      rfl
  | cons m rest ih =>
      obtain ⟨rfl, hrest⟩ := hcourse
      obtain ⟨hm, hupholds⟩ := List.forall_mem_cons.1 hupholds
      rw [ih hrest hupholds, hm.collections_eq, List.countP_cons]
      omega

end Course

/-- What a course does with objects: it passes them on towards the collector at most. -/
structure Promotes (w : World) (course : List Moment) (w' : World) : Prop where
  lasting : ∀ x, w.objects.Live x → w'.objects.Live x →
    w'.objects.removed < w.objects.removed + 2 ^ 32 → Lasting course x
  rank_le : ∀ x o o', w.objects.get? x = some o → w'.objects.get? x = some o' →
    Lasting course x → o.header.ownership.rank ≤ o'.header.ownership.rank
  handed : ∀ x o o' id id', w.objects.get? x = some o → w'.objects.get? x = some o' →
    Lasting course x → o.header.ownership = .pool id → o'.header.ownership = .pool id' →
    id ≠ id' → ∃ m ∈ course, m.Hands id x
  shared : ∀ x o, w.objects.get? x = some o → o.header.ownership = .shared →
    (Lasting course x ∧ ∃ o', w'.objects.get? x = some o' ∧ o'.header.ownership = .shared) ∨
      ∃ past m rest, course = past ++ m :: rest ∧ Lasting past x ∧ m.Misses x
  pinned : ∀ x o, w.objects.get? x = some o → o.header.pinned = true →
    Lasting course x ∧ ∃ o', w'.objects.get? x = some o' ∧ o'.header.pinned = true
  collections_eq : w'.collections = w.collections + course.countP (·.isCollection)

theorem Course.promotes (hcourse : w.Course course w') (hupholds : ∀ m ∈ course, m.Upholds) :
    w.Promotes course w' where
  lasting _ hlive hlive' hfew := hcourse.lasting hlive hlive' hfew
  rank_le _ _ _ ho ho' hlasting := hcourse.rank_le hupholds hlasting ho ho'
  handed _ _ _ _ _ ho ho' hlasting hown hown' hne :=
    hcourse.handed hupholds hlasting ho ho' hown hown' hne
  shared _ _ ho hshared := hcourse.shared hupholds ho hshared
  pinned _ _ ho hpinned := hcourse.pinned hupholds ho hpinned
  collections_eq := hcourse.collections_eq hupholds

/-- The worlds that respectful operations lead to from a world. A single operation is a
run, and so is a scope with the operations of its body. -/
inductive Run (w : World) : World → Prop where
  | start : Run w w
  | step {w' : World} (hrun : Run w w') {α : Type} (op : Operation α)
      (hrespects : op.Respects w') : Run w (op.perform w').2

theorem Respectful.run (hrespectful : Respectful settings w) (hrun : w.Run w') :
    Respectful settings w' := by
  induction hrun with
  | start => exact hrespectful
  | step _ op hrespects ih => exact ih.step op hrespects

theorem Run.advances (hrun : w.Run w') : w.Advances w' := by
  induction hrun with
  | start => exact refl_of World.Advances w
  | step _ op hrespects ih => exact trans_of World.Advances ih (op.advances hrespects.unmarked _)

theorem Run.progresses (hrespectful : Respectful settings w) (hrun : w.Run w')
    (hfits : w'.Fits) : w.Progresses w' := by
  induction hrun with
  | start => exact refl_of World.Progresses w
  | @step w' hrun _ op hrespects ih =>
      have hfits' : w'.Fits := (op.spends w').fits hfits
      have hreached := hrespectful.run hrun
      obtain ⟨hcoherent, hequipped⟩ := hreached.coherent hfits'
      exact trans_of World.Progresses (ih hfits')
        (op.progresses hcoherent hreached.tidy hequipped hrespects hfits)

end World

end ObjectSystem

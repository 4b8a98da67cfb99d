/-
# The class hierarchy

Classes form a graph by their superclasses. Two walks go through it, both from
a class up and from left to right: `World.search` stops at the first class at
which a test succeeds, and `World.ancestors` lists each class once, where it is
met first.

No class lies above itself, so a path upwards meets no class twice and is no
longer than the number of objects. `World.search` counts its steps down from
there; running out of them is an error of its own.
-/

import ObjectSystem.World

namespace ObjectSystem

namespace Arena

variable {α : Type}

/-- Every handle that reads a value is on the list of handles. -/
theorem mem_handles_of_get? {a : Arena α} {h : Handle} {x : α}
    (hx : a.get? h = some x) : h ∈ a.handles := by
  obtain ⟨cell, hcell, hgeneration, hcontent⟩ := exists_cell_of_get? hx
  refine List.mem_filterMap.2 ⟨h.index.toNat, List.mem_range.2 (lt_size_of_get? hx), ?_⟩
  simp [handleAt?, hcell, hcontent, hgeneration]

end Arena

/-- A stricter test that one member no longer passes counts fewer members. -/
theorem countP_lt_countP {α : Type} {p q : α → Bool} {l : List α} {x : α}
    (himp : ∀ y, p y = true → q y = true) (hx : x ∈ l) (hq : q x = true)
    (hp : p x = false) : l.countP p < l.countP q := by
  induction l with
  | nil => simp at hx
  | cons y l ih =>
      have hle : l.countP p ≤ l.countP q := List.countP_mono_left fun z _ => himp z
      rcases List.mem_cons.1 hx with rfl | hmem
      · rw [List.countP_cons_of_neg (by simp [hp]), List.countP_cons_of_pos hq]
        omega
      · have hlt := ih hmem
        by_cases hy : p y = true
        · rw [List.countP_cons_of_pos hy, List.countP_cons_of_pos (himp y hy)]
          omega
        · rw [List.countP_cons_of_neg hy]
          have := List.countP_cons (p := q) (a := y) (l := l)
          omega

namespace World

/-- The direct superclasses of a class. -/
def superclasses (w : World) (c : Handle) : Except Error (List Handle) := do
  return (← w.descriptor c).supers.toList

/-- Walk from a class upwards, from left to right, until a test succeeds. -/
def search {α : Type} (w : World) (test : Handle → Except Error (Option α)) :
    (fuel : Nat) → Handle → Except Error (Option α)
  | 0, _ => .error .endlessWalk
  | fuel + 1, c => do
      match ← test c with
      | some found => return some found
      | none => (← w.superclasses c).findSomeM? (search w test fuel)

/-- Whether a class is another or lies below it. -/
def isAssignableClass (w : World) (c target : Handle) : Except Error Bool := do
  let found ← w.search (fun d => .ok (if d = target then some () else none)) w.walkLimit c
  return found.isSome

/-- Whether the class of an object is another or lies below it. -/
def isAssignable (w : World) (x target : Handle) : Except Error Bool := do
  w.isAssignableClass (← w.classOf x) target

/-- The number of live objects that a walk has not met yet. -/
def unmet (w : World) (met : List Handle) : Nat :=
  w.objects.handles.countP fun x => !met.contains x

theorem unmet_cons_lt {w : World} {met : List Handle} {c : Handle} {supers : List Handle}
    (hmet : met.contains c = false) (hsupers : w.superclasses c = .ok supers) :
    w.unmet (c :: met) < w.unmet met := by
  have hlive : ∃ o, w.objects.get? c = some o := by
    cases hget : w.objects.get? c with
    | some o => exact ⟨o, rfl⟩
    | none =>
        simp [superclasses, descriptor, object, hget, bind, Except.bind] at hsupers
  obtain ⟨o, ho⟩ := hlive
  refine countP_lt_countP (x := c) ?_ (Arena.mem_handles_of_get? ho) ?_ ?_
  · intro y hy
    simp only [List.contains_cons, Bool.not_or, Bool.and_eq_true] at hy
    exact hy.2
  · simpa using hmet
  · simp

/-- List the classes that are met from `pending` on, after those already met. -/
def ancestorsFrom (w : World) (met : List Handle) :
    (pending : List Handle) → Except Error (List Handle)
  | [] => .ok met.reverse
  | c :: pending =>
      if _ : met.contains c then ancestorsFrom w met pending
      else
        match _ : w.superclasses c with
        | .error e => .error e
        | .ok supers => ancestorsFrom w (c :: met) (supers ++ pending)
  termination_by pending => (w.unmet met, pending.length)
  decreasing_by
    · exact Prod.Lex.right _ (by simp)
    · exact Prod.Lex.left _ _ (unmet_cons_lt (by simp_all) ‹_›)

/-- A class and all classes above it, each listed once, where a walk upwards
from left to right meets it first. -/
def ancestors (w : World) (c : Handle) : Except Error (List Handle) :=
  w.ancestorsFrom [] [c]

end World

end ObjectSystem

/-
# Dispatch along the ancestors

A call is dispatched by a walk through the hierarchy that does not remember where it has been.
However a world has been used, as long as only registered classes were used as classes, the
outcome is that of one pass along the ancestors of a class, errors included. The list has each
class above once, in the order in which a walk upwards from left to right first meets it.
-/

import ObjectSystem.Proofs.Bootstrap

namespace ObjectSystem

open Relation

section Visit

variable {α : Type} [DecidableEq α] {met : List α}

theorem nodup_visit (hmet : met.Nodup) (l : List α) : (visit met l).Nodup := by
  induction l generalizing met with
  | nil => exact hmet
  | cons a l ih => exact ih hmet.insert

/-- What has been noted stays where it is. -/
theorem exists_visit_eq (met l : List α) : ∃ new, visit met l = new ++ met := by
  induction l generalizing met with
  | nil => exact ⟨[], rfl⟩
  | cons a l ih =>
      by_cases ha : a ∈ met
      · rw [visit_cons_of_mem ha]
        exact ih met
      · rw [visit_cons_of_not_mem ha]
        obtain ⟨new, hnew⟩ := ih (a :: met)
        exact ⟨new ++ [a], by rw [hnew, List.append_assoc, List.singleton_append]⟩

end Visit

namespace World

variable {settings : Settings} {a : Annals} {w : World} {c : Handle}

/-- One pass along a list of classes. At every class the overloads that it holds under a name
are matched, if it holds any; the first that fits ends the pass, and so does an error. -/
def pass (w : World) (s : Symbol) (args : List Handle) :
    (classes : List Handle) → Except Error (Option Handle)
  | [] => return none
  | c :: classes => do
      let some chain ← w.classAttr c s | pass w s args classes
      let some value ← w.matchMethod chain 0 args | pass w s args classes
      return some value

theorem pass_eq_findSomeM? (w : World) (s : Symbol) (args classes : List Handle) :
    w.pass s args classes = classes.findSomeM? (w.matchInClass s args) := by
  induction classes with
  | nil => rfl
  | cons c classes ih =>
      rw [List.findSomeM?_cons, ← ih, pass, matchInClass]
      cases w.classAttr c s with
      | error e => rfl
      | ok chain? =>
          cases chain? with
          | none => rfl
          | some chain =>
              simp only [bind, Except.bind]
              cases w.matchMethod chain 0 args with
              | error e => rfl
              | ok found => cases found <;> rfl

/-- The list of ancestors starts with the class itself and has every class above it once. -/
theorem Ordered.ancestors_lists (hordered : w.Ordered) (hc : c ∈ w.classes) :
    ∃ l, w.ancestors c = .ok (c :: l) ∧ (c :: l).Nodup ∧
      ∀ t, t ∈ c :: l ↔ ReflTransGen w.Above c t := by
  obtain ⟨new, hnew⟩ : ∃ new, visit [] (w.climb w.walkLimit c) = new ++ [c] := by
    rw [walkLimit, climb, visit_cons_of_not_mem (List.not_mem_nil)]
    exact exists_visit_eq _ _
  have hreverse : (visit [] (w.climb w.walkLimit c)).reverse = c :: new.reverse := by
    rw [hnew, List.reverse_append]
    rfl
  refine ⟨new.reverse, by rw [hordered.ancestors_eq hc, hreverse], ?_, fun t => ?_⟩
  · rw [← hreverse]
    exact List.nodup_reverse.2 (nodup_visit List.nodup_nil _)
  · rw [← hreverse, List.mem_reverse, mem_visit_iff,
      hordered.mem_climb_iff hc (hordered.rank_lt_walkLimit c)]
    simp

/-- After any run, dispatch from a registered class is one pass along its ancestors. -/
theorem Classed.dispatch_linear (hclassed : Classed settings a w)
    (hcells : w.objects.cells.size ≤ 2 ^ 32) (hc : c ∈ w.classes) (s : Symbol)
    (args : List Handle) :
    ∃ l, w.ancestors c = .ok l ∧ w.findMethodInClass s c args = w.pass s args l := by
  have hordered := (hclassed.tallies hcells).ordered
  obtain ⟨l, hl, _⟩ := hordered.ancestors_lists hc
  refine ⟨_, hl, ?_⟩
  rw [pass_eq_findSomeM?, ← hordered.search_eq_findSomeM? hc hl]
  rfl

/-- A shape is drawn, and also measured. The class of all objects is met right above what is
drawn, so a method of its own comes before that of what is measured. -/
theorem dispatch_linear_shape :
    let drawn := Builtin.nth 25
    let measured := Builtin.nth 26
    let shape := Builtin.nth 27
    let w₁ := ((Operation.subclass Builtin.objectClass "drawn" [] none).perform initial).2
    let w₂ := ((Operation.subclass Builtin.objectClass "measured" [] none).perform w₁).2
    let w₃ := ((Operation.subclass drawn "shape" [] none).perform w₂).2
    let w₄ := ((Operation.addSuperclass shape measured).perform w₃).2
    let w₅ := ((Operation.defineMethod measured "area" [] Builtin.missingArg).perform w₄).2
    let w := ((Operation.defineMethod Builtin.objectClass "area" []
      Builtin.missingString).perform w₅).2
    let area := (w.intern (methodName "area")).1
    w.ancestors shape = .ok [shape, drawn, Builtin.objectClass, measured] ∧
      w.findMethodInClass area shape [] = .ok (some Builtin.missingString) := by
  intro drawn measured shape w₁ w₂ w₃ w₄ w₅ w area
  have h₁ : Classed {} _ w₁ :=
    Classed.step (.create create_default) (.subclass Builtin.objectClass "drawn" [] none)
      ⟨by decide +kernel, nofun⟩
  have h₂ : Classed {} _ w₂ :=
    h₁.step (.subclass Builtin.objectClass "measured" [] none) ⟨by decide +kernel, nofun⟩
  have h₃ : Classed {} _ w₃ := h₂.step (.subclass drawn "shape" [] none)
    ⟨by decide +kernel, nofun⟩
  have h₄ : Classed {} _ w₄ := h₃.step (.addSuperclass shape measured)
    (show measured ∈ w₃.classes by decide +kernel)
  have h₅ : Classed {} _ w₅ := h₄.step (.defineMethod measured "area" [] Builtin.missingArg) nofun
  have hclassed : Classed {} _ w :=
    h₅.step (.defineMethod Builtin.objectClass "area" [] Builtin.missingString) nofun
  have hcells : w.objects.cells.size ≤ 2 ^ 32 := by decide +kernel
  have hshape : shape ∈ w.classes := by decide +kernel
  have hlist : w.ancestors shape = .ok [shape, drawn, Builtin.objectClass, measured] := by
    rw [(hclassed.tallies hcells).ordered.ancestors_eq hshape]
    exact congrArg Except.ok (by decide +kernel)
  obtain ⟨l, hl, hfind⟩ := hclassed.dispatch_linear hcells hshape area []
  cases hl.symm.trans hlist
  exact ⟨hlist, hfind.trans (by decide +kernel)⟩

end World

end ObjectSystem

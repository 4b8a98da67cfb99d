/-
# Ancestors in preorder

The preorder of a class is the class itself, followed by the preorders of its superclasses, one
after the other. It has a class once for every way up to it. However a world has been used, as
long as only registered classes were used as classes, each registered class has exactly one
preorder, and the list of its ancestors keeps of it the first occurrence of every class.

`World.ancestors` looks for repetitions only when it comes to a class, so a class may be pending
several times. That the two lists agree rests on the order of the classes: whenever the walk comes
to a class again, it has met all that lies above. Around a circle there would be no preorder.
-/

import ObjectSystem.Proofs.Linearization
import ObjectSystem.Proofs.Subtyping

namespace ObjectSystem

open Relation

/-- To note each member where it is first met is to erase the repetitions. -/
theorem reverse_visit {α : Type} [DecidableEq α] (met l : List α) :
    (visit met l).reverse = List.eraseDupsBy.loop (· == ·) l met := by
  induction l generalizing met with
  | nil => rfl
  | cons a l ih =>
      by_cases ha : a ∈ met
      · have hany : met.any (a == ·) = true := by simpa using ha
        rw [visit_cons_of_mem ha, ih, List.eraseDupsBy.loop, hany]
      · have hany : met.any (a == ·) = false :=
          Bool.eq_false_iff.2 fun hany => ha (by simpa using hany)
        rw [visit_cons_of_not_mem ha, ih, List.eraseDupsBy.loop, hany]

namespace World

variable {settings : Settings} {a : Annals} {w : World} {c : Handle} {l l' classes : List Handle}
  {fuel : Nat}

/-- The preorders of some classes, one after the other. Superclasses in the row come before
those behind it. -/
inductive Preorder (w : World) : (classes : List Handle) → List Handle → Prop where
  | nil : Preorder w [] []
  | cons {c : Handle} {d : Class} {classes above rest : List Handle}
      (hd : w.descriptor c = .ok d)
      (habove : Preorder w (d.supers.row.filterMap id ++ d.supers.overflow) above)
      (hrest : Preorder w classes rest) : Preorder w (c :: classes) (c :: (above ++ rest))

/-- Classes have one preorder at most. -/
theorem Preorder.unique (hl : w.Preorder classes l) (hl' : w.Preorder classes l') : l = l' := by
  induction hl generalizing l' with
  | nil =>
      cases hl'
      rfl
  | cons hd _ _ ihAbove ihRest =>
      cases hl' with
      | cons hd' habove' hrest' =>
          cases hd.symm.trans hd'
          rw [ihAbove habove', ihRest hrest']

/-- What a walk without memory meets is a preorder. -/
theorem Ordered.preorder_climb (hordered : w.Ordered)
    (hclasses : ∀ c ∈ classes, c ∈ w.classes ∧ w.rank c < fuel) :
    w.Preorder classes (classes.flatMap (w.climb fuel)) := by
  -- The outer induction is for going up, the inner one for going along the list.
  induction fuel generalizing classes with
  | zero =>
      cases classes with
      | nil => exact .nil
      | cons c classes => exact absurd (hclasses c List.mem_cons_self).2 (Nat.not_lt_zero _)
  | succ fuel ihUp =>
      induction classes with
      | nil => exact .nil
      | cons c classes ihAlong =>
          obtain ⟨hc, hfuel⟩ := hclasses c List.mem_cons_self
          obtain ⟨d, hd⟩ := hordered.described c hc
          have hsupers : d.supers.row.filterMap id ++ d.supers.overflow = w.supersOf c := by
            rw [d.supers.row_append_overflow, supersOf, hd.describes.superclasses_eq]
          rw [List.flatMap_cons, climb, List.cons_append]
          refine .cons hd.describes.descriptor_eq ?_
            (ihAlong fun c hc => hclasses c (List.mem_cons_of_mem _ hc))
          rw [hsupers]
          refine ihUp fun s hs => ?_
          rw [hordered.mem_supersOf_iff hc] at hs
          have hrank := hordered.rank_lt hc hs
          exact ⟨hordered.above_mem hc hs, by omega⟩

theorem Ordered.preorder_of_mem (hordered : w.Ordered) (hc : c ∈ w.classes)
    (hfuel : w.rank c < fuel) : w.Preorder [c] (w.climb fuel c) := by
  have hwalk : w.Preorder [c] ([c].flatMap (w.climb fuel)) :=
    hordered.preorder_climb (by simpa using ⟨hc, hfuel⟩)
  rwa [List.flatMap_singleton] at hwalk

/-- A walk with enough steps meets the same classes, however many more it may take. -/
theorem Ordered.climb_eq {fuel' : Nat} (hordered : w.Ordered) (hc : c ∈ w.classes)
    (hfuel : w.rank c < fuel) (hfuel' : w.rank c < fuel') : w.climb fuel c = w.climb fuel' c :=
  (hordered.preorder_of_mem hc hfuel).unique (hordered.preorder_of_mem hc hfuel')

theorem Ordered.ancestors_eq_eraseDups (hordered : w.Ordered) (hc : c ∈ w.classes) :
    w.ancestors c = .ok (w.climb w.walkLimit c).eraseDups := by
  rw [hordered.ancestors_eq hc, reverse_visit]
  rfl

/-- A list of classes is the preorder of a class without repetitions: it starts with the class
and has every class above it once. -/
structure Linearizes (w : World) (c : Handle) (l : List Handle) : Prop where
  head : l.head? = some c
  nodup : l.Nodup
  mem_iff : ∀ t, t ∈ l ↔ w.isAssignableClass c t = .ok true
  preorder : ∃ all, (∀ l', w.Preorder [c] l' ↔ l' = all) ∧ l = all.eraseDups

/-- After any run the ancestors of a registered class are its preorder, less repetitions. -/
theorem Classed.ancestors_linearize (hclassed : Classed settings a w)
    (hcells : w.objects.cells.size ≤ 2 ^ 32) (hc : c ∈ w.classes) :
    ∃ l, w.ancestors c = .ok l ∧ w.Linearizes c l := by
  have hordered := (hclassed.tallies hcells).ordered
  obtain ⟨l, hl, hnodup, hmem⟩ := hordered.ancestors_lists hc
  refine ⟨c :: l, hl, rfl, hnodup, fun t => ?_, w.climb w.walkLimit c, fun l' => ?_, ?_⟩
  · rw [hmem, ← hordered.below_iff hc]
    rfl
  · have hclimb := hordered.preorder_of_mem hc (hordered.rank_lt_walkLimit c)
    exact ⟨fun hl' => hl'.unique hclimb, fun heq => heq ▸ hclimb⟩
  · exact Except.ok.inj (hl.symm.trans (hordered.ancestors_eq_eraseDups hc))

/-- A new world with shapes, which are drawn, measured, named and stored. All four are classes
below the class of all objects; the last one stands behind the row. -/
def withShapes : World :=
  let shape := Builtin.nth 29
  let w := ((Operation.subclass Builtin.objectClass "drawn" [] none).perform initial).2
  let w := ((Operation.subclass Builtin.objectClass "measured" [Symbol.head] none).perform w).2
  let w := ((Operation.subclass Builtin.objectClass "named" [] none).perform w).2
  let w := ((Operation.subclass Builtin.objectClass "stored" [] none).perform w).2
  let w := ((Operation.subclass (Builtin.nth 25) "shape" [] none).perform w).2
  let w := ((Operation.addSuperclass shape (Builtin.nth 26)).perform w).2
  let w := ((Operation.addSuperclass shape (Builtin.nth 27)).perform w).2
  ((Operation.addSuperclass shape (Builtin.nth 28)).perform w).2

theorem classed_withShapes : ∃ a, Classed {} a withShapes := by
  let top := Builtin.objectClass
  have h₁ := Classed.step (.create create_default) (.subclass top "drawn" [] none)
    ⟨by decide +kernel, nofun⟩
  have h₂ := h₁.step (.subclass top "measured" [Symbol.head] none) ⟨by decide +kernel, nofun⟩
  have h₃ := h₂.step (.subclass top "named" [] none) ⟨by decide +kernel, nofun⟩
  have h₄ := h₃.step (.subclass top "stored" [] none) ⟨by decide +kernel, nofun⟩
  have h₅ := h₄.step (.subclass (Builtin.nth 25) "shape" [] none) ⟨by decide +kernel, nofun⟩
  have h₆ := h₅.step (.addSuperclass (Builtin.nth 29) (Builtin.nth 26))
    (show Builtin.nth 26 ∈ _ by decide +kernel)
  have h₇ := h₆.step (.addSuperclass (Builtin.nth 29) (Builtin.nth 27))
    (show Builtin.nth 27 ∈ _ by decide +kernel)
  exact ⟨_, h₇.step (.addSuperclass (Builtin.nth 29) (Builtin.nth 28))
    (show Builtin.nth 28 ∈ _ by decide +kernel)⟩

/-- The class of all objects lies above shapes in four ways. It is in their preorder four times,
and among their ancestors where it is first met. -/
theorem ancestors_linearize_shape :
    let object := Builtin.objectClass
    let shape := Builtin.nth 29
    let l := [shape, Builtin.nth 25, object, Builtin.nth 26, Builtin.nth 27, Builtin.nth 28]
    withShapes.ancestors shape = .ok l ∧ withShapes.Linearizes shape l ∧
      withShapes.Preorder [shape] [shape, Builtin.nth 25, object, Builtin.nth 26, object,
        Builtin.nth 27, object, Builtin.nth 28, object] := by
  intro object shape l
  obtain ⟨a, hclassed⟩ := classed_withShapes
  have hcells : withShapes.objects.cells.size ≤ 2 ^ 32 := by decide +kernel
  have hshape : shape ∈ withShapes.classes := by decide +kernel
  have hordered := (hclassed.tallies hcells).ordered
  obtain ⟨l', hl', hlinearizes⟩ := hclassed.ancestors_linearize hcells hshape
  have hclimb := hordered.preorder_of_mem hshape (hordered.rank_lt_walkLimit shape)
  rw [show withShapes.climb withShapes.walkLimit shape = [shape, Builtin.nth 25, object,
    Builtin.nth 26, object, Builtin.nth 27, object, Builtin.nth 28, object] by decide +kernel]
    at hclimb
  have heq : l' = l := by
    obtain ⟨all, hall, rfl⟩ := hlinearizes.preorder
    rw [← (hall _).1 hclimb]
    decide +kernel
  exact ⟨heq ▸ hl', heq ▸ hlinearizes, hclimb⟩

end World

end ObjectSystem

/-
# Worlds that operations lead to

Every world that operations lead to from a new one is tidy, however they are used, as
long as they put in no object that carries a mark. If they respect the worlds that they
are used in, and the numbers of cells and scopes do not run out, every such world is
coherent.
-/

import ObjectSystem.Proofs.Genesis

namespace ObjectSystem.World

variable {settings : Settings} {w : World}

/-- The worlds that operations lead to from a new one, however they are used. -/
inductive Reachable (settings : Settings) : World → Prop where
  | create {w : World} (hcreate : World.create settings = .ok w) : Reachable settings w
  | step {w : World} (hreachable : Reachable settings w) {α : Type} (op : Operation α) :
      Reachable settings (op.perform w).2

/-- What all steps keep leads from the world without objects to every world. -/
theorem Reachable.along {R : World → World → Prop} [IsPreorder World R] (hsteps : AllSteps R)
    (hreachable : Reachable settings w) : R (empty settings) w := by
  induction hreachable with
  | create hcreate => exact hsteps.create hcreate
  | @step w _ _ op ih => exact trans_of R ih (op.keeps hsteps w)

/-- The worlds that operations lead to if they put in no object that carries a mark. -/
inductive Unmarked (settings : Settings) : World → Prop where
  | create {w : World} (hcreate : World.create settings = .ok w) : Unmarked settings w
  | step {w : World} (hunmarked : Unmarked settings w) {α : Type} (op : Operation α)
      (hop : op.Unmarked) : Unmarked settings (op.perform w).2

theorem Unmarked.reachable (hunmarked : Unmarked settings w) : Reachable settings w := by
  induction hunmarked with
  | create hcreate => exact .create hcreate
  | step _ op _ ih => exact ih.step op

theorem Unmarked.tidy (hunmarked : Unmarked settings w) : w.Tidy := by
  induction hunmarked with
  | create hcreate => exact tidy_create hcreate
  | step _ op hop ih => exact (op.advances hop _).tidy ih

/-- The worlds that respectful operations lead to from a new one. They may fail. -/
inductive Respectful (settings : Settings) : World → Prop where
  | create {w : World} (hcreate : World.create settings = .ok w) : Respectful settings w
  | step {w : World} (hrespectful : Respectful settings w) {α : Type} (op : Operation α)
      (hrespects : op.Respects w) : Respectful settings (op.perform w).2

namespace Respectful

theorem unmarked (hrespectful : Respectful settings w) : Unmarked settings w := by
  induction hrespectful with
  | create hcreate => exact .create hcreate
  | step _ op hrespects ih => exact ih.step op hrespects.unmarked

theorem reachable (hrespectful : Respectful settings w) : Reachable settings w :=
  hrespectful.unmarked.reachable

theorem tidy (hrespectful : Respectful settings w) : w.Tidy :=
  hrespectful.unmarked.tidy

/-- The parts of a world that respectful operations lead to agree. -/
theorem coherent (hrespectful : Respectful settings w) (hfits : w.Fits) :
    w.Coherent ∧ w.Equipped := by
  induction hrespectful with
  | create hcreate => exact coherent_create hcreate hfits
  | step hrespectful op hrespects ih =>
      obtain ⟨hcoherent, hequipped⟩ := ih ((op.spends _).fits hfits)
      have hevolves := (op.evolves hcoherent hrespectful.tidy hequipped hrespects hfits).1
      exact ⟨hevolves.coherent, hequipped.evolve hevolves⟩

end Respectful

/-- The new world, if the settings allow one. -/
def created (settings : Settings) : World :=
  match create settings with
  | .ok w => w
  | .error _ => .empty settings

theorem create_eq_created (hok : (create settings).isOk = true) :
    create settings = .ok (created settings) := by
  unfold created
  split
  · assumption
  · next heq =>
      rw [heq] at hok
      cases hok

/-- The new world with the default settings. -/
def initial : World :=
  match create {} with
  | .ok w => w
  | .error _ => .empty {}

theorem create_default : create {} = .ok initial :=
  create_eq_created (by decide +kernel)

theorem respectful_initial : Respectful {} initial :=
  .create create_default

/-- A world at work. A vector that users keep holds a number, an open scope answers for
another number, and two vectors hold each other that nothing else leads to. -/
def busy : World :=
  let w := ((Operation.objectVector 1).perform initial).2
  let w := ((Operation.addRoot (Builtin.nth 25)).perform w).2
  let w := (Operation.openScope.perform w).2
  let w := ((Operation.realVector 1).perform w).2
  let w := ((Operation.set (.element (Builtin.nth 25) 0) (some (Builtin.nth 26))).perform w).2
  let w := ((Operation.objectVector 1).perform w).2
  let w := ((Operation.objectVector 1).perform w).2
  let w := ((Operation.set (.element (Builtin.nth 27) 0) (some (Builtin.nth 28))).perform w).2
  let w := ((Operation.set (.element (Builtin.nth 28) 0) (some (Builtin.nth 27))).perform w).2
  ((Operation.realVector 1).perform w).2

theorem respectful_busy : Respectful {} busy := by
  have hkept := (respectful_initial.step (.objectVector 1) trivial).step
    (.addRoot (Builtin.nth 25)) trivial
  have hheld := ((hkept.step .openScope trivial).step (.realVector 1) trivial).step
    (.set (.element (Builtin.nth 25) 0) (some (Builtin.nth 26))) trivial
  have hmade := (hheld.step (.objectVector 1) trivial).step (.objectVector 1) trivial
  have hring := (hmade.step (.set (.element (Builtin.nth 27) 0) (some (Builtin.nth 28)))
    trivial).step (.set (.element (Builtin.nth 28) 0) (some (Builtin.nth 27))) trivial
  exact hring.step (.realVector 1) trivial

theorem fits_busy : busy.Fits :=
  ⟨by decide +kernel, by decide +kernel⟩

end ObjectSystem.World

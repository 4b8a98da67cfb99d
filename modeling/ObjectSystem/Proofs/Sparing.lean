/-
# What steps spare

A collection would keep what is reached from its roots. What has changed nothing but the
open scopes leaves all of it reached.
-/

import ObjectSystem.Proofs.Operation

namespace ObjectSystem

namespace PoolStack

variable {s : PoolStack}

theorem current_eq (s : PoolStack) : s.current = s.scopeIds.getLast?.getD PoolId.collector := by
  unfold current scopeIds
  cases s.innermostFirst <;> simp

/-- New objects go to a scope if one is open. -/
theorem Valid.current_ne_collector (hvalid : s.Valid) (hscopes : s.scopeIds ≠ []) :
    s.current ≠ PoolId.collector := by
  unfold current
  cases hcases : s.innermostFirst with
  | nil => exact absurd (by rw [scopeIds, hcases]; rfl) hscopes
  | cons p rest => exact hvalid.id_ne_collector (hcases ▸ List.mem_cons_self)

end PoolStack

namespace World

variable {w w' : World} {x : Handle} {o : Object} {id : PoolId}

/-- All that a collection would have kept it would still keep. -/
def Spares (w w' : World) : Prop :=
  ∀ x, w.Keeps [] x → w'.Keeps [] x

/-- What a scope answers for is kept. -/
theorem keeps_of_pool (hcoherent : w.Coherent) (hx : w.objects.get? x = some o)
    (hown : o.header.ownership = .pool id) : w.Keeps [] x := by
  obtain ⟨hmem, hid⟩ := hcoherent.registered.mem_of_pool hx hown
  obtain ⟨p, hp, _, hx'⟩ := (PoolStack.mem_entries_scope hid).1 hmem
  exact .start (.scope hp hx') ⟨o, hx⟩

/-- If no object is lost or changed, what leads to it is not either. -/
theorem spares_of_same (hcoherent : w.Coherent) (hcoherent' : w'.Coherent)
    (hroots : w'.roots = w.roots)
    (hsame : ∀ x o, w.objects.get? x = some o → w'.objects.get? x = some o) : w.Spares w' := by
  have hlive : ∀ {x}, w.objects.Live x → w'.objects.Live x := fun ⟨o, ho⟩ => ⟨o, hsame _ o ho⟩
  intro x hx
  induction hx with
  | start hroot hx =>
      cases hroot with
      | pinned ho hpinned => exact .start (.pinned (hsame _ _ ho) hpinned) (hlive hx)
      | builtin hmem => exact .start (.builtin hmem) (hlive hx)
      | root hmem => exact .start (.root (hroots ▸ hmem)) (hlive hx)
      | @scope p hp hmem =>
          have hid := hcoherent.pools.id_ne_collector hp
          obtain ⟨o, ho, hown⟩ := (hcoherent.registered.mem_iff p.id _).1
            ((PoolStack.mem_entries_scope hid).2 ⟨p, hp, rfl, hmem⟩)
          exact keeps_of_pool hcoherent' (hsame _ o ho)
            (hown.trans (Ownership.ofPool_of_ne hid))
      | extra hmem => cases hmem
  | ref _ ho hy hlive' ih => exact ih.ref (hsame _ _ ho) hy (hlive hlive')

end World

end ObjectSystem

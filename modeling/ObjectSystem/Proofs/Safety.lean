/-
# Worlds in use

While a scope is open, actions are performed one after another in worlds whose parts agree.
`World.Ready` is what each of them starts from and `World.Resumes` what is kept on the way to the
next one. A scope that is opened answers for nothing yet.
-/

import ObjectSystem.Proofs.Sparing

namespace ObjectSystem

namespace World

/-- A world in which a scope is open and all parts agree. -/
structure Ready (w : World) : Prop where
  coherent : w.Coherent
  tidy : w.Tidy
  equipped : w.Equipped
  inside : w.pools.scopeIds ≠ []

/-- What is kept from the start of an action to its end, if it succeeds. -/
structure Resumes (w w' : World) : Prop where
  evolves : w.Evolves w'
  tidy : w'.Tidy
  scopes_eq : w'.pools.scopeIds = w.pools.scopeIds

variable {w w' w'' : World} {id : PoolId}

theorem Resumes.trans (hfirst : w.Resumes w') (hsecond : w'.Resumes w'') : w.Resumes w'' :=
  ⟨hfirst.evolves.trans hsecond.evolves, hsecond.tidy, hsecond.scopes_eq.trans hfirst.scopes_eq⟩

theorem Resumes.current_eq (hresumes : w.Resumes w') : w'.pools.current = w.pools.current := by
  rw [PoolStack.current_eq, PoolStack.current_eq, hresumes.scopes_eq]

theorem Ready.refl (hready : w.Ready) : w.Resumes w :=
  ⟨.refl hready.coherent, hready.tidy, rfl⟩

theorem Ready.resume (hready : w.Ready) (hresumes : w.Resumes w') : w'.Ready where
  coherent := hresumes.evolves.coherent
  tidy := hresumes.tidy
  equipped := hready.equipped.evolve hresumes.evolves
  inside := hresumes.scopes_eq ▸ hready.inside

theorem Ready.current_ne_collector (hready : w.Ready) :
    w.pools.current ≠ PoolId.collector :=
  hready.coherent.pools.current_ne_collector hready.inside

theorem Ready.keeps_null (hready : w.Ready) : w.Keeps [] Builtin.null := by
  obtain ⟨o, ho, hpinned⟩ := hready.equipped.null
  exact .start (.pinned ho hpinned) ⟨o, ho⟩

/-- A scope that has just been opened answers for nothing, and what was kept is kept. -/
structure Opens (w w' : World) (id : PoolId) : Prop where
  ready : w'.Ready
  evolves : w.Evolves w'
  spares : w.Spares w'
  scopes_eq : w'.pools.scopeIds = w.pools.scopeIds ++ [id]
  new : id ∉ w.pools.scopeIds
  ne_collector : id ≠ PoolId.collector
  unused : ∀ y o, w'.objects.get? y = some o → o.header.ownership ≠ .pool id

end World

open World in
theorem Action.opens_openScope {w : World} (hcoherent : w.Coherent) (htidy : w.Tidy)
    (hequipped : w.Equipped) (hfits : (openScope.perform w).2.Fits) :
    Opens w (openScope.perform w).2 w.pools.push.1 := by
  have hevolves := openScope_spec hcoherent hfits
  obtain ⟨hscopes, hnew, hid⟩ := openScope_adds hcoherent hfits
  refine ⟨⟨hevolves.coherent, (advances_openScope w).tidy htidy, hequipped.evolve hevolves,
      by rw [hscopes]; simp⟩, hevolves,
    spares_of_same hcoherent hevolves.coherent rfl fun _ _ ho => ho, hscopes, hnew, hid,
    fun y o ho hown => hnew ?_⟩
  obtain ⟨hmem, _⟩ := hcoherent.registered.mem_of_pool ho hown
  obtain ⟨p, hp, hpid, _⟩ := (PoolStack.mem_entries_scope hid).1 hmem
  rw [PoolStack.scopeIds, List.mem_reverse]
  exact hpid ▸ List.mem_map_of_mem hp

end ObjectSystem

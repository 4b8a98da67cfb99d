/-
# The steps that all operations are made of

Whatever an operation does, it does it in a few steps: a pool takes a handle in or gives it
up, an object is changed, freed or put in, a collection is run, scopes are opened and closed.
A preorder that leads from every world to what each such step makes of it leads from every
world to what the operation makes of it. `World.Steps` collects the steps, so that what is
kept by all operations, respectful or not, has to be shown for the steps only.
-/

import ObjectSystem.Proofs.Naming
import ObjectSystem.Proofs.Tidy
import ObjectSystem.World.Classes

namespace ObjectSystem.World

/-- Every step that operations are made of keeps a relation between worlds. -/
structure Steps (R : World → World → Prop) : Prop where
  /-- Only objects and pools matter, and that symbols keep their names and objects. -/
  same : ∀ {w w' : World}, w'.objects = w.objects → w'.pools = w.pools →
    w.symbols.Grows w'.symbols → w'.symbolObjects = w.symbolObjects → R w w'
  enter : ∀ (w : World) (id : PoolId) (x : Handle),
    R w { w with pools := w.pools.modify id (·.insert x) }
  leave : ∀ (w : World) (id : PoolId) (x : Handle) (pool changed : Pool),
    w.pools.get? id = some pool → pool.erase? x = some changed →
      R w { w with pools := w.pools.modify id fun _ => changed }
  /-- An object is changed that gets no mark and does not lose its pin. -/
  change : ∀ (w : World) (x : Handle) {f : Object → Object},
    (∀ o, o.header.marked = false → (f o).header.marked = false) →
      (∀ o, o.header.pinned = true → (f o).header.pinned = true) → R w (w.modifyObject x f)
  reclaim : ∀ (w : World) (x : Handle), R w (w.free x)
  sweep : ∀ (w : World) (extra : List Handle), R w (w.collect extra).2
  /-- An object is put in, which may know its own handle. -/
  put : ∀ (w : World) (value : Handle → Object), (∀ x, (value x).header.marked = false) →
    R w { w with objects := (w.objects.insertWith value).2 }
  push : ∀ w : World, R w { w with pools := w.pools.push.2 }
  pop : ∀ (w : World) (id : PoolId) (closed : List Pool) (kept : PoolStack),
    w.pools.pop id = .ok (closed, kept) → R w { w with pools := kept }

/-- Every step keeps a relation between worlds, and so does it to say that a symbol has another
object, and to put in an object with a mark on it. -/
structure AllSteps (R : World → World → Prop) : Prop extends Steps R where
  note : ∀ (w : World) (l : List (Symbol × Handle)), R w { w with symbolObjects := l }
  insert : ∀ (w : World) (value : Handle → Object),
    R w { w with objects := (w.objects.insertWith value).2 }

theorem Steps.imp {R S : World → World → Prop} (hsteps : Steps R) (himp : ∀ w w', R w w' → S w w') :
    Steps S where
  same hobjects hpools hsymbols hnotes := himp _ _ (hsteps.same hobjects hpools hsymbols hnotes)
  enter w id x := himp _ _ (hsteps.enter w id x)
  leave w id x pool changed hpool herase := himp _ _ (hsteps.leave w id x pool changed hpool herase)
  change w x _ hmark hpinned := himp _ _ (hsteps.change w x hmark hpinned)
  reclaim w x := himp _ _ (hsteps.reclaim w x)
  sweep w extra := himp _ _ (hsteps.sweep w extra)
  put w value hmark := himp _ _ (hsteps.put w value hmark)
  push w := himp _ _ (hsteps.push w)
  pop w id closed kept hpop := himp _ _ (hsteps.pop w id closed kept hpop)

theorem steps_advances : Steps Advances where
  same hobjects hpools _ _ := .of_eq hobjects hpools
  enter w id x := (moves_insertPool w id x).toAdvances
  leave w id x pool changed hpool herase := by
    have hmoves := Action.moves_removeFromPool x id w
    unfold Action.removeFromPool at hmoves
    rw [Action.perform_bind, Action.perform_get] at hmoves
    simp only [hpool, herase, Action.perform_modify] at hmoves
    exact hmoves.toAdvances
  change w x _ hmark _ := (moves_modifyObject w x hmark).toAdvances
  reclaim w x := (moves_free w x).toAdvances
  sweep w extra := (moves_collect w extra).toAdvances
  put w value hmark := (moves_insertWith w value hmark).toAdvances
  push w := Action.advances_openScope w
  pop w id closed kept hpop := by
    have hkept : kept.collector = w.pools.collector ∧ kept.opened = w.pools.opened := by
      unfold PoolStack.pop at hpop
      split at hpop
      · cases hpop
      · simp only at hpop
        split at hpop
        · cases hpop
        · cases hpop
          exact ⟨rfl, rfl⟩
    exact ⟨⟨fun haddressed => haddressed, fun hvalid => hkept.1 ▸ hvalid, Nat.le_refl _, .refl _,
      Nat.le_of_eq hkept.2.symm⟩, Tidy.clear⟩

theorem steps_spends : AllSteps Spends where
  toSteps := steps_advances.imp fun _ _ => Advances.toSpends
  note w l :=
    have hadvances : w.Advances { w with symbolObjects := l } := .of_eq rfl rfl
    hadvances.toSpends
  insert := spends_insertWith

/-- Symbols keep their names. -/
def Remembers (w w' : World) : Prop :=
  w.symbols.Grows w'.symbols

instance : IsPreorder World Remembers where
  refl w := .refl w.symbols
  trans _ _ _ hfirst hsecond := hfirst.trans hsecond

theorem steps_remembers : AllSteps Remembers where
  same _ _ hsymbols _ := hsymbols
  enter w _ _ := .refl w.symbols
  leave w _ _ _ _ _ _ := .refl w.symbols
  change w _ _ _ _ := .refl w.symbols
  reclaim w _ := .refl w.symbols
  sweep w _ := .refl w.symbols
  put w _ _ := .refl w.symbols
  push w := .refl w.symbols
  pop w _ _ _ _ := .refl w.symbols
  note w _ := .refl w.symbols
  insert w _ := .refl w.symbols

namespace Steps

open ObjectSystem.Action

variable {R : World → World → Prop} (hsteps : Steps R)

include hsteps

theorem setOwnership (x : Handle) (own : Ownership) :
    Action.Keeps R (modify (·.setOwnership x own)) :=
  keeps_modify fun w => hsteps.change w x (fun _ => id) fun _ => id

theorem store (w : World) (s : Slot) (value : Option Handle) : R w (w.store s value) := by
  refine hsteps.change w s.owner (fun o hmark => ?_) fun o hpinned => ?_
  · rw [Slot.header_storeIn, hmark]
  · rw [Slot.header_storeIn, hpinned]

theorem collect (extra : List Handle) : (Action.collect extra).Keeps R :=
  keeps_modifyGet fun w => hsteps.sweep w extra

theorem openScope : Action.openScope.Keeps R :=
  keeps_modifyGet hsteps.push

variable [IsPreorder World R]

/-! ## The barrier -/

theorem addToPool (x : Handle) (id : PoolId) : (Action.addToPool x id).Keeps R :=
  keeps_addToPool (fun w => hsteps.enter w id x) (hsteps.setOwnership x _)

theorem removeFromPool (x : Handle) (id : PoolId) : (Action.removeFromPool x id).Keeps R :=
  keeps_removeFromPool fun w pool changed => hsteps.leave w id x pool changed

theorem promote (x : Handle) : (Action.promote x).Keeps R :=
  keeps_promote (hsteps.addToPool x _) fun _ => hsteps.same rfl rfl (.refl _) rfl

theorem claim (x : Handle) : (Action.claim x).Keeps R := by
  unfold Action.claim
  refine keeps_bind (keeps_query _) fun own => ?_
  cases own with
  | pool id => exact keeps_bind (hsteps.removeFromPool x id) fun _ => hsteps.setOwnership x _
  | single => exact hsteps.promote x
  | shared => exact keeps_pure _

theorem share (x : Handle) : (Action.share x).Keeps R :=
  keeps_share (hsteps.removeFromPool x) (hsteps.promote x)

theorem letGo (x : Handle) : (Action.letGo x).Keeps R := by
  unfold Action.letGo
  refine keeps_bind (keeps_query _) fun own => ?_
  split
  · exact keeps_modify fun w => hsteps.reclaim w x
  · exact keeps_pure _

theorem set (s : Slot) (value : Option Handle) : (Action.set s value).Keeps R :=
  keeps_set hsteps.claim (fun w => hsteps.store w s value) hsteps.letGo

/-! ## New objects -/

theorem admitObject (w : World) {o : Object}
    (hput : R w { w with
      objects := (w.objects.insertWith fun _ => o.setOwnership (.ofPool w.pools.current)).2 }) :
    R w (w.admitObject o).2 :=
  trans_of R hput (hsteps.enter _ w.pools.current (w.admitObject o).1)

/-- An allocation takes its steps around putting in the object. -/
theorem allocateBy {o : Object} (hput : ∀ (w : World) (own : Ownership),
    R w { w with objects := (w.objects.insertWith fun _ => o.setOwnership own).2 }) :
    (Action.allocate o).Keeps R := by
  have hadmit : Action.Keeps R (modifyGet (·.admitObject o)) :=
    keeps_modifyGet fun w => hsteps.admitObject w (hput w _)
  unfold Action.allocate
  refine keeps_bind keeps_get fun _ => ?_
  split
  · refine keeps_bind (hsteps.collect []) fun _ => keeps_bind keeps_get fun _ => ?_
    split
    · exact keeps_bind keeps_get fun _ => keeps_bind (keeps_throw _) fun _ => hadmit
    · exact hadmit
  · exact hadmit

theorem allocate {o : Object} (hmark : o.header.marked = false) : (Action.allocate o).Keeps R :=
  hsteps.allocateBy fun w own => hsteps.put w (fun _ => o.setOwnership own) fun _ => hmark

theorem pin (x : Handle) : (Action.pin x).Keeps R :=
  keeps_pin (hsteps.removeFromPool x) (fun w => hsteps.enter w _ x) fun w =>
    hsteps.change w x (fun _ _ => rfl) fun _ _ => rfl

theorem allocatePinned {o : Object} (hmark : o.header.marked = false) :
    (Action.allocatePinned o).Keeps R :=
  keeps_bind (keeps_modifyGet fun w => hsteps.put w (fun _ => o) fun _ => hmark) fun x =>
    keeps_bind (hsteps.pin x) fun _ => keeps_pure x

theorem registerClass (d : Class) : (Action.registerClass d).Keeps R :=
  keeps_bind (hsteps.allocatePinned rfl) fun c =>
    keeps_bind (keeps_modify fun _ => hsteps.same rfl rfl (.refl _) rfl) fun _ => keeps_pure c

theorem subclass (parent : Handle) (name : String) (newAttrs : List Symbol)
    (newClasses : Option (List Handle)) :
    (Action.subclass parent name newAttrs newClasses).Keeps R :=
  keeps_bind (keeps_query _) hsteps.registerClass

theorem shallowCopy (x : Handle) : (Action.shallowCopy x).Keeps R :=
  keeps_bind (keeps_query _) fun _ => keeps_bind (hsteps.allocate rfl) fun copy =>
    keeps_bind (keeps_forM hsteps.share) fun _ => keeps_pure copy

/-! ## Scopes -/

theorem releasePool (id : PoolId) : (Action.releasePool id).Keeps R := by
  intro w
  unfold Action.releasePool
  rw [perform_query_bind]
  cases hpop : w.pools.pop id with
  | error e => exact refl_of R w
  | ok result =>
      obtain ⟨closed, kept⟩ := result
      simp only [perform_modifyGet]
      refine trans_of R (hsteps.pop w id closed kept hpop) ?_
      refine trans_of R ?_ (World.foldl_along _ _ fun w pool =>
        World.foldl_along w _ fun w x => hsteps.reclaim w x)
      split
      · exact hsteps.same rfl rfl (.refl _) rfl
      · exact refl_of R _

theorem handOver (x : Handle) (id : PoolId) : (Action.handOver x id).Keeps R :=
  keeps_handOver (hsteps.removeFromPool x id) (hsteps.addToPool x) fun _ =>
    hsteps.same rfl rfl (.refl _) rfl

theorem saveResult (id : PoolId) (result : Except Error Handle) :
    (Action.saveResult id result).Keeps R :=
  keeps_saveResult (fun x => hsteps.handOver x id) hsteps.share result

theorem closeScope (id : PoolId) (result : Except Error Handle) :
    (Action.closeScope id result).Keeps R :=
  keeps_bind (keeps_outcome (hsteps.saveResult id result)) fun _ =>
    keeps_bind (keeps_outcome (hsteps.releasePool id)) fun _ =>
      keeps_bind (keeps_query _) fun _ => keeps_bind (keeps_query _) fun _ => keeps_query _

theorem scope {body : Action Handle} (hbody : body.Keeps R) : (Action.scope body).Keeps R :=
  keeps_bind hsteps.openScope fun id =>
    keeps_bind (keeps_outcome hbody) fun result => hsteps.closeScope id result

end Steps

end ObjectSystem.World

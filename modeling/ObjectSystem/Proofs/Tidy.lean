/-
# What every operation keeps

Whatever an operation does, be it refused or misused, no object carries a mark
afterwards, the handles reach every cell that is filled and the blocks of the
collector's pool are in order. The cells of the arena, their generations and the
numbers of scopes are used up and never given back.

That an action keeps a relation between worlds follows from its parts. The rules for
this are here, also for the other relations that actions keep.
-/

import ObjectSystem.Proofs.Action
import ObjectSystem.Proofs.Collection
import ObjectSystem.Proofs.Pool.Stack
import ObjectSystem.World.Construction

namespace ObjectSystem

namespace World

variable {w w' w'' : World}

/-- What holds of every world in which no collection is under way. -/
structure Tidy (w : World) : Prop where
  clear : Clear w.objects
  addressed : w.objects.Addressed
  collector_valid : w.pools.collector.Valid

/-- One world may come after another, with objects of any kind put in meanwhile. -/
structure Spends (w w' : World) : Prop where
  addressed : w.objects.Addressed → w'.objects.Addressed
  collector_valid : w.pools.collector.Valid → w'.pools.collector.Valid
  cells_le : w.objects.cells.size ≤ w'.objects.cells.size
  turns : w.objects.Turns w'.objects
  opened_le : w.pools.opened ≤ w'.pools.opened

/-- One world may come after another, and no object was put in with a mark on it. -/
structure Advances (w w' : World) : Prop extends Spends w w' where
  clear : w.Tidy → Clear w'.objects

theorem Advances.tidy (hadvances : w.Advances w') (htidy : w.Tidy) : w'.Tidy :=
  ⟨hadvances.clear htidy, hadvances.addressed htidy.addressed,
    hadvances.collector_valid htidy.collector_valid⟩

/-- One world may come after another with the same scopes open, and nobody asked to
keep other objects in the meantime. -/
structure Moves (w w' : World) : Prop extends Advances w w' where
  scopes_eq : w'.pools.scopeIds = w.pools.scopeIds
  roots_eq : w'.roots = w.roots

instance : IsPreorder World Spends where
  refl _ := ⟨id, id, Nat.le_refl _, .refl _, Nat.le_refl _⟩
  trans _ _ _ hfirst hsecond := ⟨fun haddressed => hsecond.addressed (hfirst.addressed haddressed),
    fun hvalid => hsecond.collector_valid (hfirst.collector_valid hvalid),
    hfirst.cells_le.trans hsecond.cells_le, hfirst.turns.trans hsecond.turns,
    hfirst.opened_le.trans hsecond.opened_le⟩

instance : IsPreorder World Advances where
  refl w := ⟨refl_of Spends w, Tidy.clear⟩
  trans _ _ _ hfirst hsecond := ⟨trans_of Spends hfirst.toSpends hsecond.toSpends,
    fun htidy => hsecond.clear (hfirst.tidy htidy)⟩

instance : IsPreorder World Moves where
  refl w := ⟨refl_of Advances w, rfl, rfl⟩
  trans _ _ _ hfirst hsecond := ⟨trans_of Advances hfirst.toAdvances hsecond.toAdvances,
    hsecond.scopes_eq.trans hfirst.scopes_eq, hsecond.roots_eq.trans hfirst.roots_eq⟩

/-- Only objects and pools matter. -/
theorem Advances.of_eq (hobjects : w'.objects = w.objects) (hpools : w'.pools = w.pools) :
    w.Advances w' where
  clear htidy := hobjects ▸ htidy.clear
  addressed haddressed := hobjects ▸ haddressed
  collector_valid hvalid := hpools ▸ hvalid
  cells_le := by rw [hobjects]
  turns := hobjects ▸ .refl w.objects
  opened_le := by rw [hpools]

theorem Moves.of_eq (hobjects : w'.objects = w.objects) (hpools : w'.pools = w.pools)
    (hroots : w'.roots = w.roots) : w.Moves w' :=
  ⟨.of_eq hobjects hpools, by rw [hpools], hroots⟩

theorem moves_modifyObject (w : World) (x : Handle) {change : Object → Object}
    (hmark : ∀ o, o.header.marked = false → (change o).header.marked = false) :
    w.Moves (w.modifyObject x change) where
  clear htidy := htidy.clear.modify x hmark
  addressed haddressed := haddressed.modify x change
  collector_valid := id
  cells_le := by simp [modifyObject]
  turns := Arena.turns_modify _ x change
  opened_le := Nat.le_refl _
  scopes_eq := rfl
  roots_eq := rfl

end World

theorem Pool.erase?_id {p changed : Pool} {x : Handle} (herase : p.erase? x = some changed) :
    changed.id = p.id := by
  obtain ⟨_, _, rfl⟩ := Option.map_eq_some_iff.1 herase
  rfl

namespace PoolStack

variable {s : PoolStack} {id : PoolId} {change : Pool → Pool}

@[simp]
theorem opened_modify (s : PoolStack) (id : PoolId) (change : Pool → Pool) :
    (s.modify id change).opened = s.opened := by
  unfold PoolStack.modify
  split <;> rfl

theorem map_id_changePool (hchange : ∀ p : Pool, p.id = id → (change p).id = id)
    (l : List Pool) : (changePool id change l).map Pool.id = l.map Pool.id := by
  induction l with
  | nil => rfl
  | cons p l ih =>
      unfold changePool
      split
      · next heq => rw [List.map_cons, hchange p heq, List.map_cons, heq]
      · rw [List.map_cons, ih, List.map_cons]

theorem scopeIds_modify (hchange : ∀ p : Pool, p.id = id → (change p).id = id) :
    (s.modify id change).scopeIds = s.scopeIds := by
  unfold PoolStack.modify scopeIds
  split
  · rfl
  · rw [map_id_changePool hchange]

theorem scopeIds_replace {p changed : Pool} (hget : s.get? id = some p)
    (hid : changed.id = p.id) : (s.modify id fun _ => changed).scopeIds = s.scopeIds := by
  by_cases hcollector : id = PoolId.collector
  · rw [PoolStack.modify, if_pos (isCollector_iff.2 hcollector)]
    rfl
  · obtain ⟨_, _, _, hp, _⟩ := exists_append_of_get? hcollector hget
    exact scopeIds_modify fun _ _ => hid.trans hp

theorem collector_valid_modify (hvalid : s.collector.Valid)
    (hchange : id.isCollector = true → (change s.collector).Valid) :
    (s.modify id change).collector.Valid := by
  unfold PoolStack.modify
  split
  · next hid => exact hchange hid
  · exact hvalid

end PoolStack

namespace World

theorem moves_insertPool (w : World) (id : PoolId) (x : Handle) :
    w.Moves { w with pools := w.pools.modify id (·.insert x) } where
  clear htidy := htidy.clear
  addressed haddressed := haddressed
  collector_valid hvalid := PoolStack.collector_valid_modify hvalid fun _ => hvalid.insert x
  cells_le := Nat.le_refl _
  turns := .refl _
  opened_le := by simp
  scopes_eq := PoolStack.scopeIds_modify fun p hp => (p.insert_id x).trans hp
  roots_eq := rfl

/-- Reclaiming takes objects out and does nothing else to the arena. -/
theorem reclaim_induction {P : Arena Object → Prop} {objects : Arena Object}
    {pending : List Handle} (hstart : P objects) (hremove : ∀ a x, P a → P (a.remove x)) :
    P (reclaim objects pending) := by
  fun_induction reclaim objects pending with
  | case1 => exact hstart
  | case2 _ _ _ _ ih => exact ih hstart
  | case3 _ _ _ _ _ _ ih => exact ih hstart
  | case4 _ _ _ _ _ _ _ ih => exact ih (hremove _ _ hstart)

@[simp]
theorem size_cells_reclaim (objects : Arena Object) (pending : List Handle) :
    (reclaim objects pending).cells.size = objects.cells.size := by
  apply reclaim_induction (P := fun a => a.cells.size = objects.cells.size)
  · rfl
  · intro a x ha
    rw [Arena.size_cells_remove, ha]

theorem moves_free (w : World) (x : Handle) : w.Moves (w.free x) where
  clear htidy := reclaim_induction htidy.clear fun _ y ha => ha.remove y
  addressed haddressed := reclaim_induction haddressed fun _ y ha => ha.remove y
  collector_valid := id
  cells_le := by simp [free]
  turns := reclaim_induction (.refl _) fun a y ha => ha.trans (Arena.turns_remove a y)
  opened_le := Nat.le_refl _
  scopes_eq := rfl
  roots_eq := rfl

@[simp]
theorem size_cells_mark (objects : Arena Object) (pending : List Handle) :
    (mark objects pending).cells.size = objects.cells.size := by
  fun_induction mark objects pending with
  | case1 => rfl
  | case2 _ _ _ _ ih => exact ih
  | case3 _ _ _ _ _ _ ih => exact ih
  | case4 _ _ _ _ _ _ ih => rw [ih, Arena.size_cells_modify]

@[simp]
theorem size_cells_foldl_sweep (objects : Arena Object) (l : List Handle) :
    (l.foldl sweep objects).cells.size = objects.cells.size := by
  induction l generalizing objects with
  | nil => rfl
  | cons x l ih =>
      rw [List.foldl_cons, ih]
      unfold sweep
      split
      · rfl
      · split <;> simp

theorem turns_mark (objects : Arena Object) (pending : List Handle) :
    objects.Turns (mark objects pending) := by
  fun_induction mark objects pending with
  | case1 objects => exact .refl objects
  | case2 _ _ _ _ ih => exact ih
  | case3 _ _ _ _ _ _ ih => exact ih
  | case4 objects x _ _ _ _ ih => exact (Arena.turns_modify objects x _).trans ih

theorem turns_foldl_sweep (objects : Arena Object) (l : List Handle) :
    objects.Turns (l.foldl sweep objects) := by
  induction l generalizing objects with
  | nil => exact .refl objects
  | cons x l ih =>
      refine Arena.Turns.trans ?_ (ih _)
      unfold sweep
      split
      · exact .refl objects
      · split
        · exact Arena.turns_modify objects x _
        · exact Arena.turns_remove objects x

theorem moves_collect (w : World) (extra : List Handle) : w.Moves (w.collect extra).2 where
  clear htidy := clear_collect htidy.clear htidy.addressed
  addressed := addressed_collect
  collector_valid hvalid := PoolStack.collector_valid_modify hvalid fun _ => (hvalid.filter _).1
  cells_le := by simp [collect]
  turns := (turns_mark _ _).trans (turns_foldl_sweep _ _)
  opened_le := by simp [collect]
  scopes_eq := PoolStack.scopeIds_modify fun _ hp => hp
  roots_eq := rfl

theorem spends_insertWith (w : World) (value : Handle → Object) :
    w.Spends { w with objects := (w.objects.insertWith value).2 } where
  addressed haddressed := haddressed.insertWith value
  collector_valid := id
  cells_le := Arena.size_cells_le_insertWith w.objects value
  turns := Arena.turns_insertWith w.objects value
  opened_le := Nat.le_refl _

theorem moves_insertWith (w : World) (value : Handle → Object)
    (hmark : ∀ x, (value x).header.marked = false) :
    w.Moves { w with objects := (w.objects.insertWith value).2 } where
  toSpends := w.spends_insertWith value
  clear htidy := htidy.clear.insertWith value hmark
  scopes_eq := rfl
  roots_eq := rfl

theorem moves_admitObject (w : World) {o : Object} (hmark : o.header.marked = false) :
    w.Moves (w.admitObject o).2 :=
  trans_of World.Moves
    (w.moves_insertWith (fun _ => o.setOwnership (.ofPool w.pools.current)) fun _ => hmark)
    (World.moves_insertPool _ w.pools.current (w.admitObject o).1)

theorem foldl_along {α : Type} {R : World → World → Prop} [IsPreorder World R]
    {step : World → α → World} (w : World) (l : List α) (hstep : ∀ w a, R w (step w a)) :
    R w (l.foldl step w) := by
  induction l generalizing w with
  | nil => exact refl_of R w
  | cons a l ih => exact trans_of R (hstep w a) (ih _)

end World

namespace Action

variable {α β : Type}

/-- Whatever world an action is performed in, a relation leads from it to the world
that the action leaves. -/
def Keeps (R : World → World → Prop) (action : Action α) : Prop :=
  ∀ w, R w (action.perform w).2

/-- A link is made if the hierarchy does not lead back, and otherwise nothing happens. -/
theorem addSuperclass_cases (c superclass : Handle) (w : World) :
    (∃ e, (addSuperclass c superclass).perform w = (.error e, w)) ∨
      w.isAssignableClass superclass c = .ok false ∧ (addSuperclass c superclass).perform w =
        (.ok (), w.modifyDescriptor c (·.addSuperclass superclass)) := by
  unfold addSuperclass
  rw [perform_query_bind]
  cases habove : w.descriptor superclass with
  | error e => exact Or.inl ⟨e, rfl⟩
  | ok above =>
      simp only
      rw [perform_query_bind]
      cases w.isAssignableClass superclass c with
      | error e => exact Or.inl ⟨e, rfl⟩
      | ok back =>
          cases back with
          | true =>
              simp only [if_true, perform_query_bind, habove]
              cases w.descriptor c with
              | error e => exact Or.inl ⟨e, rfl⟩
              | ok d => exact Or.inl ⟨_, rfl⟩
          | false =>
              simp only [Bool.false_eq_true, if_false, perform_query_bind]
              cases w.descriptor c with
              | error e => exact Or.inl ⟨e, rfl⟩
              | ok d => exact Or.inr ⟨trivial, rfl⟩

/-- A class that has no index for an attribute gets one, unless its instances hold the attribute. -/
theorem classAttrIndex_cases (c : Handle) (s : Symbol) (w : World) :
    (∃ e, (classAttrIndex c s).perform w = (.error e, w)) ∨
      ∃ d, w.descriptor c = .ok d ∧
        ((∃ index, d.slot s = .inClass index ∧
            (classAttrIndex c s).perform w = (.ok index.toNat, w)) ∨
          d.slot s = .unmapped ∧ (classAttrIndex c s).perform w =
            (.ok d.classAttrs.size, w.modifyDescriptor c (·.addClassAttr s))) := by
  unfold classAttrIndex
  rw [perform_query_bind]
  cases w.descriptor c with
  | error e => exact Or.inl ⟨e, rfl⟩
  | ok d =>
      simp only
      cases hslot : d.slot s with
      | inInstance => exact Or.inl ⟨_, rfl⟩
      | inClass index => exact Or.inr ⟨d, rfl, Or.inl ⟨index, hslot, rfl⟩⟩
      | unmapped => exact Or.inr ⟨d, rfl, Or.inr ⟨hslot, rfl⟩⟩

section Rules

variable {R : World → World → Prop}

theorem Keeps.imp {S : World → World → Prop} {action : Action α} (hkeeps : action.Keeps R)
    (himp : ∀ w w', R w w' → S w w') : action.Keeps S :=
  fun w => himp w _ (hkeeps w)

theorem Keeps.of_perform {w w' : World} {action : Action α} {result : Except Error α}
    (hkeeps : action.Keeps R) (hperform : action.perform w = (result, w')) : R w w' := by
  have h := hkeeps w
  rwa [hperform] at h

theorem keeps_modify {f : World → World} (hf : ∀ w, R w (f w)) : Keeps R (modify f) := hf

theorem keeps_modifyGet {f : World → α × World} (hf : ∀ w, R w (f w).2) :
    Keeps R (modifyGet f) := hf

theorem keeps_outcome {action : Action α} (haction : action.Keeps R) :
    (outcome action).Keeps R := haction

variable [IsPreorder World R]

theorem keeps_pure (a : α) : Keeps R (pure a : Action α) := refl_of R

theorem keeps_throw (e : Error) : Keeps R (throw e : Action α) := refl_of R

theorem keeps_query (question : World → Except Error α) : Keeps R (query question) := refl_of R

theorem keeps_get : Keeps R get := refl_of R

theorem keeps_bind {m : Action α} {f : α → Action β} (hm : m.Keeps R)
    (hf : ∀ a, (f a).Keeps R) : (m >>= f).Keeps R := by
  intro w
  rw [perform_bind]
  have hfirst := hm w
  split
  · next a w' heq =>
      rw [heq] at hfirst
      exact trans_of R hfirst (hf a w')
  · next e w' heq =>
      rw [heq] at hfirst
      exact hfirst

theorem keeps_forM {l : List α} {f : α → Action PUnit} (hf : ∀ a, (f a).Keeps R) :
    (l.forM f).Keeps R := by
  induction l with
  | nil => exact keeps_pure _
  | cons a l ih => exact keeps_bind (hf a) fun _ => ih

theorem keeps_optionForM {a : Option α} {f : α → Action PUnit} (hf : ∀ a, (f a).Keeps R) :
    (a.forM f).Keeps R := by
  cases a with
  | none => exact keeps_pure _
  | some a => exact hf a

/-! ## Rules for the barrier and for scopes -/

variable {x : Handle} {id : PoolId}

theorem keeps_addToPool
    (hinsert : ∀ w : World, R w { w with pools := w.pools.modify id (·.insert x) })
    (howner : ∀ w : World, R w (w.setOwnership x (.ofPool id))) : (addToPool x id).Keeps R := by
  have hrest := keeps_bind (keeps_modify hinsert) fun _ =>
    keeps_bind (keeps_query (·.object x)) fun _ => keeps_modify howner
  unfold addToPool
  refine keeps_bind keeps_get fun w => ?_
  split
  · exact keeps_bind (keeps_throw _) fun _ => hrest
  · exact hrest

theorem keeps_removeFromPool
    (herase : ∀ (w : World) (pool changed : Pool), w.pools.get? id = some pool →
      pool.erase? x = some changed → R w { w with pools := w.pools.modify id fun _ => changed }) :
    (removeFromPool x id).Keeps R := by
  intro w
  unfold removeFromPool
  rw [perform_bind, perform_get]
  cases hpool : w.pools.get? id with
  | none =>
      simp only [hpool]
      exact refl_of R w
  | some pool =>
      cases herased : pool.erase? x with
      | none =>
          simp only [hpool, herased]
          exact refl_of R w
      | some changed =>
          simp only [hpool, herased, perform_modify]
          exact herase w pool changed hpool herased

theorem keeps_promote (hadd : (addToPool x PoolId.collector).Keeps R)
    (hcount : ∀ w : World, R w { w with promotions := w.promotions + 1 }) : (promote x).Keeps R :=
  keeps_bind hadd fun _ => keeps_modify hcount

theorem keeps_share (hremove : ∀ id, (removeFromPool x id).Keeps R)
    (hpromote : (promote x).Keeps R) : (share x).Keeps R := by
  unfold share
  refine keeps_bind (keeps_query _) fun own => ?_
  cases own with
  | pool id => exact keeps_bind (hremove id) fun _ => hpromote
  | single => exact hpromote
  | shared => exact keeps_pure _

theorem keeps_set {s : Slot} {value : Option Handle} (hclaim : ∀ x, (claim x).Keeps R)
    (hstore : ∀ w : World, R w (w.store s value)) (hletGo : ∀ x, (letGo x).Keeps R) :
    (set s value).Keeps R := by
  have hrest : Keeps R (do
      let old ← query (·.read s)
      if old ≠ value then exchange s old value) := by
    refine keeps_bind (keeps_query _) fun old => ?_
    split
    · exact keeps_bind (keeps_optionForM hclaim) fun _ =>
        keeps_bind (keeps_modify hstore) fun _ => keeps_optionForM hletGo
    · exact keeps_pure _
  unfold set
  split
  · exact keeps_bind (keeps_throw _) fun _ => hrest
  · exact hrest

theorem keeps_pin (hremove : ∀ id, (removeFromPool x id).Keeps R)
    (hinsert : ∀ w : World, R w { w with pools := w.pools.modify PoolId.collector (·.insert x) })
    (hchange : ∀ w : World, R w (w.modifyObject x fun o => { o with header := .permanent })) :
    (pin x).Keeps R := by
  have hpin : Keeps R (modify fun w =>
      let w := if w.pools.collector.contains x then w
        else { w with pools := w.pools.modify PoolId.collector (·.insert x) }
      w.modifyObject x fun o => { o with header := .permanent }) := by
    refine keeps_modify fun w => trans_of R ?_ (hchange _)
    split
    · exact refl_of R w
    · exact hinsert w
  unfold pin
  refine keeps_bind (keeps_query _) fun own => ?_
  cases own.pool? with
  | none => exact hpin
  | some id => exact keeps_bind (hremove id) fun _ => hpin

theorem keeps_handOver (hremove : (removeFromPool x id).Keeps R)
    (hadd : ∀ outer, (addToPool x outer).Keeps R)
    (hcount : ∀ w : World, R w { w with promotions := w.promotions + 1 }) :
    (handOver x id).Keeps R := by
  unfold handOver
  refine keeps_bind keeps_get fun _ => keeps_bind hremove fun _ => keeps_bind (hadd _) fun _ => ?_
  split
  · exact keeps_modify hcount
  · exact keeps_pure _

theorem keeps_saveResult (hhandOver : ∀ x, (handOver x id).Keeps R)
    (hshare : ∀ x, (share x).Keeps R) (result : Except Error Handle) :
    (saveResult id result).Keeps R := by
  unfold saveResult
  cases result with
  | error e => exact keeps_pure _
  | ok x =>
      refine keeps_bind keeps_get fun _ => ?_
      split
      · split
        · exact hhandOver x
        · exact keeps_pure _
      · exact hshare x
      · exact keeps_pure _

/-! ## Rules for classes -/

theorem keeps_classAttrIndex {c : Handle} {s : Symbol}
    (hwiden : ∀ (w : World) (d : Class), w.descriptor c = .ok d → d.slot s = .unmapped →
      R w (w.modifyDescriptor c (·.addClassAttr s))) : (classAttrIndex c s).Keeps R := by
  intro w
  rcases classAttrIndex_cases c s w with ⟨_, hsame⟩ | ⟨d, hd, ⟨_, _, hsame⟩ | ⟨hfree, hadds⟩⟩
  · rw [hsame]
    exact refl_of R w
  · rw [hsame]
    exact refl_of R w
  · rw [hadds]
    exact hwiden w d hd hfree

theorem keeps_addSuperclass {c superclass : Handle}
    (hlink : ∀ w : World, R w (w.modifyDescriptor c (·.addSuperclass superclass))) :
    (addSuperclass c superclass).Keeps R := by
  intro w
  rcases addSuperclass_cases c superclass w with ⟨_, hfails⟩ | ⟨_, hlinks⟩
  · rw [hfails]
    exact refl_of R w
  · rw [hlinks]
    exact hlink w

section Classes

variable (hamend : ∀ (w : World) (c : Handle) (change : Class → Class),
  R w (w.modifyDescriptor c change))
include hamend

theorem keeps_setBehavior (c : Handle) (behavior : Behavior) : (setBehavior c behavior).Keeps R :=
  keeps_bind (keeps_query _) fun _ => keeps_modify fun w => hamend w c _

theorem keeps_setTypeTag (c : Handle) (tag : UInt8) : (setTypeTag c tag).Keeps R :=
  keeps_bind (keeps_query _) fun _ => keeps_modify fun w => hamend w c _

theorem keeps_setAttrClass (c : Handle) (s : Symbol) (attrClass : Handle) :
    (setAttrClass c s attrClass).Keeps R := by
  unfold setAttrClass
  refine keeps_bind (keeps_query _) fun _ => keeps_bind (keeps_query _) fun d => ?_
  split
  · exact keeps_modify fun w => hamend w c _
  · exact keeps_bind keeps_get fun _ => keeps_throw _

end Classes

end Rules

theorem moves_setOwnership (x : Handle) (own : Ownership) :
    Keeps World.Moves (modify (·.setOwnership x own)) :=
  keeps_modify fun w => World.moves_modifyObject w x fun _ hmark => hmark

theorem moves_addToPool (x : Handle) (id : PoolId) : (addToPool x id).Keeps World.Moves :=
  keeps_addToPool (fun w => World.moves_insertPool w id x) (moves_setOwnership x _)

theorem moves_removeFromPool (x : Handle) (id : PoolId) :
    (removeFromPool x id).Keeps World.Moves := by
  refine keeps_removeFromPool fun w pool changed hpool herase => ?_
  refine ⟨⟨⟨fun haddressed => haddressed, fun hvalid => ?_, Nat.le_refl _, .refl _, ?_⟩,
    World.Tidy.clear⟩, ?_, rfl⟩
  · refine PoolStack.collector_valid_modify hvalid fun hid => ?_
    rw [PoolStack.get?, if_pos hid, Option.some.injEq] at hpool
    exact ((hpool ▸ hvalid).erase? herase).1
  · simp
  · exact PoolStack.scopeIds_replace hpool (Pool.erase?_id herase)

theorem moves_promote (x : Handle) : (promote x).Keeps World.Moves :=
  keeps_promote (moves_addToPool x _) fun _ => .of_eq rfl rfl rfl

theorem moves_claim (x : Handle) : (claim x).Keeps World.Moves := by
  unfold claim
  refine keeps_bind (keeps_query _) fun own => ?_
  cases own with
  | pool id => exact keeps_bind (moves_removeFromPool x id) fun _ => moves_setOwnership x _
  | single => exact moves_promote x
  | shared => exact keeps_pure _

theorem moves_share (x : Handle) : (share x).Keeps World.Moves :=
  keeps_share (moves_removeFromPool x) (moves_promote x)

theorem moves_store (s : Slot) (value : Option Handle) :
    Keeps World.Moves (modify (·.store s value)) :=
  keeps_modify fun w => World.moves_modifyObject w s.owner fun o hmark => by
    rw [Slot.header_storeIn, hmark]

theorem moves_letGo (x : Handle) : (letGo x).Keeps World.Moves := by
  unfold letGo
  refine keeps_bind (keeps_query _) fun own => ?_
  split
  · exact keeps_modify fun w => World.moves_free w x
  · exact keeps_pure _

theorem moves_set (s : Slot) (value : Option Handle) : (set s value).Keeps World.Moves :=
  keeps_set moves_claim (moves_store s value) moves_letGo

theorem moves_collect (extra : List Handle) : (collect extra).Keeps World.Moves :=
  keeps_modifyGet fun w => World.moves_collect w extra

theorem moves_allocate {o : Object} (hmark : o.header.marked = false) :
    (allocate o).Keeps World.Moves := by
  have hadmit : Keeps World.Moves (modifyGet (·.admitObject o)) :=
    keeps_modifyGet fun w => World.moves_admitObject w hmark
  unfold allocate
  refine keeps_bind keeps_get fun _ => ?_
  split
  · refine keeps_bind (moves_collect []) fun _ => keeps_bind keeps_get fun _ => ?_
    split
    · exact keeps_bind keeps_get fun _ => keeps_bind (keeps_throw _) fun _ => hadmit
    · exact hadmit
  · exact hadmit

theorem moves_pin (x : Handle) : (pin x).Keeps World.Moves :=
  keeps_pin (moves_removeFromPool x) (fun w => World.moves_insertPool w _ x) fun w =>
    World.moves_modifyObject w x fun _ _ => rfl

theorem moves_allocatePinned {o : Object} (hmark : o.header.marked = false) :
    (allocatePinned o).Keeps World.Moves :=
  keeps_bind (keeps_modifyGet fun w => World.moves_insertWith w (fun _ => o) fun _ => hmark)
    fun x => keeps_bind (moves_pin x) fun _ => keeps_pure x

theorem moves_handOver (x : Handle) (id : PoolId) : (handOver x id).Keeps World.Moves :=
  keeps_handOver (moves_removeFromPool x id) (moves_addToPool x) fun _ => .of_eq rfl rfl rfl

theorem moves_saveResult (id : PoolId) (result : Except Error Handle) :
    (saveResult id result).Keeps World.Moves :=
  keeps_saveResult (fun x => moves_handOver x id) moves_share result

theorem moves_shallowCopy (x : Handle) : (shallowCopy x).Keeps World.Moves := by
  unfold shallowCopy
  refine keeps_bind (keeps_query _) fun o => keeps_bind (moves_allocate rfl)
    fun copy => keeps_bind (keeps_forM moves_share) fun _ => keeps_pure copy

theorem advances_openScope : openScope.Keeps World.Advances :=
  keeps_modifyGet fun _ => ⟨⟨id, id, Nat.le_refl _, .refl _, Nat.le_succ _⟩, World.Tidy.clear⟩

theorem advances_releasePool (id : PoolId) : (releasePool id).Keeps World.Advances := by
  intro w
  unfold releasePool
  rw [perform_query_bind]
  cases hpop : w.pools.pop id with
  | error e => exact refl_of World.Advances w
  | ok result =>
      obtain ⟨closed, kept⟩ := result
      simp only [perform_modifyGet]
      refine trans_of World.Advances ?_ (World.foldl_along (R := World.Advances) _ _ fun w pool =>
        World.foldl_along w _ fun w x => (World.moves_free w x).toAdvances)
      have hkept : kept.collector = w.pools.collector ∧ kept.opened = w.pools.opened := by
        unfold PoolStack.pop at hpop
        split at hpop
        · cases hpop
        · simp only at hpop
          split at hpop
          · cases hpop
          · cases hpop
            exact ⟨rfl, rfl⟩
      have hfirst : w.Advances { w with pools := kept } :=
        ⟨⟨fun haddressed => haddressed, fun hvalid => hkept.1 ▸ hvalid, Nat.le_refl _, .refl _,
          Nat.le_of_eq hkept.2.symm⟩, World.Tidy.clear⟩
      split
      · refine trans_of World.Advances hfirst ?_
        exact World.Advances.of_eq rfl rfl
      · exact hfirst

theorem advances_closeScope (id : PoolId) (result : Except Error Handle) :
    (closeScope id result).Keeps World.Advances :=
  keeps_bind
    (keeps_outcome ((moves_saveResult id result).imp fun _ _ => World.Moves.toAdvances)) fun _ =>
    keeps_bind (keeps_outcome (advances_releasePool id)) fun _ =>
      keeps_bind (keeps_query _) fun _ => keeps_bind (keeps_query _) fun _ =>
        keeps_query _

end Action

end ObjectSystem

/-
# The course of operations

Whatever respectful operations do, they do it in steps of a few kinds, and between these
the owners of objects do not change. `World.Course` lists the moments of a run: what each
of them starts from, what kind of step it is and what it leaves. A moment passes objects on
towards the collector at most. A scope may hand its result to the pool around it instead,
and only a collection that does not reach a shared object frees it.
-/

import ObjectSystem.Proofs.Promotion
import ObjectSystem.Proofs.Reachable

namespace ObjectSystem

namespace World

/-- No collection was run. -/
def Uncollected (w w' : World) : Prop :=
  w'.collections = w.collections

instance : IsPreorder World Uncollected where
  refl _ := rfl
  trans _ _ _ hfirst hsecond := hsecond.trans hfirst

end World

namespace Action

theorem uncollected_saveResult (id : PoolId) (result : Except Error Handle) :
    (saveResult id result).Keeps World.Uncollected := by
  have hhandOver : ∀ x, (handOver x id).Keeps World.Uncollected := fun x =>
    keeps_handOver (keeps_removeFromPool fun _ _ _ _ _ => rfl)
      (fun _ => keeps_addToPool (fun _ => rfl) fun _ => rfl) fun _ => rfl
  have hshare : ∀ x, (share x).Keeps World.Uncollected := fun x =>
    (ages_share x).imp fun _ _ hages => hages.collections_eq
  exact keeps_saveResult hhandOver hshare result

/-- Closing a scope saves its result and releases its pool, whatever comes of it. -/
theorem perform_closeScope_snd (id : PoolId) (result : Except Error Handle)
    (w : World) :
    ((closeScope id result).perform w).2 =
      ((releasePool id).perform ((saveResult id result).perform w).2).2 := by
  unfold closeScope
  rw [perform_bind_ok (perform_outcome _ _), perform_bind_ok (perform_outcome _ _),
    perform_query_bind]
  split
  · rw [perform_query_bind]
    split <;> rfl
  · rfl

end Action

namespace World

variable {w w' w'' : World} {x y : Handle} {o o' : Object} {id : PoolId}

/-- What stands out about a step. -/
inductive Event where
  | change
  /-- A scope is closed whose body has come to a result. -/
  | closing (id : PoolId) (result : Except Error Handle)
  | collection (extra : List Handle)

/-- The steps that operations take. -/
inductive Step (w : World) : Event → World → Prop where
  /-- What concerns neither objects nor pools. -/
  | aside {w' : World} (hobjects : w'.objects = w.objects) (hpools : w'.pools = w.pools)
      (hcollections : w'.collections = w.collections) : Step w .change w'
  | amend (x : Handle) {change : Object → Object}
      (hheader : ∀ o : Object, (change o).header = o.header) :
      Step w .change (w.modifyObject x change)
  | insert {o : Object} (hmark : o.header.marked = false) : Step w .change (w.admitObject o).2
  | allocatePinned {o : Object} (hmark : o.header.marked = false) :
      Step w .change ((Action.allocatePinned o).perform w).2
  | pin (x : Handle) : Step w .change ((Action.pin x).perform w).2
  | share (x : Handle) : Step w .change ((Action.share x).perform w).2
  | set (s : Slot) (value : Option Handle) : Step w .change ((Action.set s value).perform w).2
  | openScope : Step w .change (Action.openScope.perform w).2
  | releasePool (id : PoolId) : Step w .change ((Action.releasePool id).perform w).2
  | closeScope (id : PoolId) (result : Except Error Handle) :
      Step w (.closing id result) ((Action.closeScope id result).perform w).2
  | collect (extra : List Handle) : Step w (.collection extra) (w.collect extra).2

theorem Step.advances {event : Event} (hstep : w.Step event w') : w.Advances w' := by
  cases hstep with
  | aside hobjects hpools _ => exact .of_eq hobjects hpools
  | amend x hheader =>
      exact (moves_modifyObject w x fun o hmark => by rw [hheader, hmark]).toAdvances
  | insert hmark => exact (moves_admitObject w hmark).toAdvances
  | allocatePinned hmark => exact (Action.moves_allocatePinned hmark w).toAdvances
  | pin x => exact (Action.moves_pin x w).toAdvances
  | share x => exact (Action.moves_share x w).toAdvances
  | set s value => exact (Action.moves_set s value w).toAdvances
  | openScope => exact Action.advances_openScope w
  | releasePool id => exact Action.advances_releasePool id w
  | closeScope id result => exact Action.advances_closeScope id result w
  | collect extra => exact (moves_collect w extra).toAdvances

/-- A step that was taken. -/
structure Moment where
  before : World
  event : Event
  after : World
  step : before.Step event after

/-- Steps that were taken one after another lead from one world to another. -/
def Course : World → List Moment → World → Prop
  | w, [], w' => w = w'
  | w, m :: course, w' => m.before = w ∧ m.after.Course course w'

theorem Course.append {first second : List Moment} (hfirst : w.Course first w')
    (hsecond : w'.Course second w'') : w.Course (first ++ second) w'' := by
  induction first generalizing w with
  | nil =>
      cases hfirst
      exact hsecond
  | cons m first ih => exact ⟨hfirst.1, ih hfirst.2⟩

namespace Moment

variable {m : Moment}

/-- A scope is closed and hands an object, its result, to the pool around it. -/
structure Hands (m : Moment) (id : PoolId) (x : Handle) : Prop where
  event_eq : m.event = .closing id (.ok x)
  before : ∃ o, m.before.objects.get? x = some o ∧ o.header.ownership = .pool id
  after : ∃ o, m.after.objects.get? x = some o ∧
    o.header.ownership = .ofPool (m.before.pools.enclosing id)

/-- A collection does not reach an object, which is live when it starts. -/
structure Misses (m : Moment) (x : Handle) : Prop where
  live : m.before.objects.Live x
  unreached : ∃ extra, m.event = .collection extra ∧ ¬ m.before.Keeps extra x

/-- Whether the step is a collection. -/
def isCollection (m : Moment) : Bool :=
  match m.event with
  | .collection _ => true
  | _ => false

/-- What a moment does with the owners of objects. -/
structure Upholds (m : Moment) : Prop where
  passed : ∀ x o o', m.before.objects.get? x = some o → m.after.objects.get? x = some o' →
    o.header.ownership.Precedes o'.header.ownership ∨ ∃ id, m.Hands id x
  shared : ∀ x o, m.before.objects.get? x = some o → o.header.ownership = .shared →
    m.after.objects.Live x ∨ m.Misses x
  pinned : ∀ x o, m.before.objects.get? x = some o → o.header.pinned = true →
    ∃ o', m.after.objects.get? x = some o' ∧ o'.header.pinned = true
  collections_eq : m.after.collections = m.before.collections + if m.isCollection then 1 else 0

/-- A step that is no collection and in which objects are passed on at most. -/
theorem upholds_of_ages {m : Moment} (hages : m.before.Ages m.after)
    (hevent : m.isCollection = false) : m.Upholds where
  passed x o o' ho ho' := by
    obtain ⟨p, hp, hprecedes⟩ := hages.back x o' ho'
    cases hp.symm.trans ho
    exact Or.inl hprecedes.ownership
  shared x o ho hshared := Or.inl (hages.stays x o ho (Or.inl hshared))
  pinned x o ho hpinned := by
    obtain ⟨o', ho'⟩ := hages.stays x o ho (Or.inr hpinned)
    obtain ⟨p, hp, hprecedes⟩ := hages.back x o' ho'
    cases hp.symm.trans ho
    exact ⟨o', ho', hprecedes.pinned hpinned⟩
  collections_eq := by rw [hages.collections_eq, hevent]; rfl

/-- A step that puts in one new object. -/
theorem upholds_of_puts {m : Moment} (hnew : m.before.objects.get? x = none)
    (hputs : m.before.objects.Puts m.after.objects x o) (hevent : m.isCollection = false)
    (hcollections : m.after.collections = m.before.collections) : m.Upholds := by
  have hget : ∀ y p, m.before.objects.get? y = some p → m.after.objects.get? y = some p := by
    intro y p hp
    rw [hputs.other, hp]
    rintro rfl
    cases hnew.symm.trans hp
  refine ⟨fun y p p' hp hp' => ?_, fun y p hp _ => Or.inl ⟨p, hget y p hp⟩,
    fun y p hp hpinned => ⟨p, hget y p hp, hpinned⟩, by rw [hcollections, hevent]; rfl⟩
  cases (hget y p hp).symm.trans hp'
  exact Or.inl (.refl _)

theorem upholds_collect {extra : List Handle} (htidy : w.Tidy) :
    Upholds ⟨w, .collection extra, (w.collect extra).2, .collect extra⟩ := by
  have hget : ∀ x o, (w.collect extra).2.objects.get? x = some o ↔
      w.objects.get? x = some o ∧ w.Keeps extra x := fun x o =>
    get?_collect htidy.clear htidy.addressed
  refine ⟨fun x o o' ho ho' => ?_, fun x o ho _ => ?_, fun x o ho hpinned => ?_, rfl⟩
  · cases ho.symm.trans ((hget x o').1 ho').1
    exact Or.inl (.refl _)
  · by_cases hkeeps : w.Keeps extra x
    · exact Or.inl ⟨o, (hget x o).2 ⟨ho, hkeeps⟩⟩
    · exact Or.inr ⟨⟨o, ho⟩, extra, rfl, hkeeps⟩
  · exact ⟨o, (hget x o).2 ⟨ho, .start (.pinned ho hpinned) ⟨o, ho⟩⟩, hpinned⟩

/-- Closing a scope changes the owner of its result at most. What is shared or pinned
outlasts the scope. -/
theorem upholds_closeScope (hcoherent : w.Coherent) (id : PoolId)
    (result : Except Error Handle) :
    Upholds ⟨w, .closing id result, _, .closeScope id result⟩ := by
  obtain ⟨w', hperform, hsaves⟩ := Action.saveResult_spec hcoherent id result
  have hsaved : ((Action.saveResult id result).perform w).2 = w' := by rw [hperform]
  have hafter : ((Action.closeScope id result).perform w).2 =
      ((Action.releasePool id).perform w').2 := by
    rw [Action.perform_closeScope_snd, hsaved]
  have hages := Action.ages_releasePool hsaves.evolves.coherent id
  have hback := fun y p => Action.get?_of_get?_releasePool (x := y) (o := p)
    hsaves.evolves.coherent id
  rw [← hafter] at hages hback
  have hchanged : ∀ y p, w.objects.get? y = some p → ∃ p', w'.objects.get? y = some p' ∧
      p'.header.pinned = p.header.pinned ∧
      (p.header.ownership.Precedes p'.header.ownership ∨ result = .ok y ∧
        p.header.ownership = .pool id ∧
        p'.header.ownership = .ofPool (w.pools.enclosing id)) := by
    intro y p hp
    rcases hsaves.objects with hsame | ⟨x, o, own, heq, ho, hputs, hown⟩
    · exact ⟨p, by rw [hsame, hp], rfl, Or.inl (.refl _)⟩
    · by_cases hy : y = x
      · subst hy
        cases ho.symm.trans hp
        refine ⟨_, hputs.self, rfl, ?_⟩
        rcases hown with ⟨hpool, hnew⟩ | ⟨_, hnew⟩
        · exact Or.inr ⟨heq, hpool, hnew⟩
        · refine Or.inl ?_
          rw [Object.setOwnership, hnew]
          exact .shared _
      · exact ⟨p, by rw [hputs.other hy, hp], rfl, Or.inl (.refl _)⟩
  refine ⟨fun y p p' hp hp' => ?_, fun y p hp hshared => Or.inl ?_, fun y p hp hpinned => ?_, ?_⟩
  · obtain ⟨q, hq, _, hown⟩ := hchanged y p hp
    cases hq.symm.trans (hback y p' hp')
    rcases hown with hprecedes | ⟨heq, hpool, hnew⟩
    · exact Or.inl hprecedes
    · exact Or.inr ⟨id, congrArg _ heq, ⟨p, hp, hpool⟩, _, hp', hnew⟩
  · obtain ⟨q, hq, _, hown⟩ := hchanged y p hp
    refine hages.stays y q hq (Or.inl ?_)
    rw [hshared] at hown
    rcases hown with hprecedes | ⟨_, hpool, _⟩
    · exact hprecedes.eq_of_shared
    · cases hpool
  · obtain ⟨q, hq, hsame, _⟩ := hchanged y p hp
    obtain ⟨q', hq'⟩ := hages.stays y q hq (Or.inr (hsame.trans hpinned))
    cases hq.symm.trans (hback y q' hq')
    exact ⟨q, hq', hsame.trans hpinned⟩
  · exact hages.collections_eq.trans (hsaved ▸ Action.uncollected_saveResult id result w)

end Moment

/-- A course leads from one world to another that does no more than pass objects on. -/
def Progresses (w w' : World) : Prop :=
  ∃ course, w.Course course w' ∧ ∀ m ∈ course, m.Upholds

instance : IsPreorder World Progresses where
  refl _ := ⟨[], rfl, by simp⟩
  trans := by
    rintro w w' w'' ⟨first, hfirst, hupholds⟩ ⟨second, hsecond, hupholds'⟩
    refine ⟨first ++ second, hfirst.append hsecond, fun m hm => ?_⟩
    exact (List.mem_append.1 hm).elim (hupholds m) (hupholds' m)

theorem Progresses.of_moment {event : Event} (hstep : w.Step event w')
    (hupholds : Moment.Upholds ⟨w, event, w', hstep⟩) : w.Progresses w' :=
  ⟨[⟨w, event, w', hstep⟩], ⟨rfl, rfl⟩, by simpa using hupholds⟩

theorem Progresses.of_ages (hstep : w.Step .change w') (hages : w.Ages w') : w.Progresses w' :=
  .of_moment hstep (Moment.upholds_of_ages hages rfl)

theorem progresses_admitObject (htight : w.objects.Tight) (hmark : o.header.marked = false)
    (hfits : (w.admitObject o).2.Fits) :
    w.Progresses (w.admitObject o).2 := by
  obtain ⟨hnew, hputs⟩ := Arena.get?_insertWith htight
    (fun _ => o.setOwnership (.ofPool w.pools.current)) hfits.cells_le
  exact .of_moment (.insert hmark) (Moment.upholds_of_puts hnew hputs rfl rfl)

end World

namespace Action

open World

variable {α β : Type} {w : World} {x : Handle} {o : Object} {id : PoolId}

theorem progresses_bind {m : Action α} {f : α → Action β}
    (hadvances : ∀ a, (f a).Keeps World.Advances)
    (hm : (m.perform w).2.Fits → w.Progresses (m.perform w).2)
    (hf : ∀ a w', m.perform w = (.ok a, w') → ((f a).perform w').2.Fits →
      w'.Progresses ((f a).perform w').2)
    (hfits : ((m >>= f).perform w).2.Fits) : w.Progresses ((m >>= f).perform w).2 := by
  rw [perform_bind] at hfits ⊢
  cases hperform : m.perform w with
  | mk result w' =>
      rw [hperform] at hfits hm
      cases result with
      | error e => exact hm hfits
      | ok a =>
          exact trans_of World.Progresses (hm ((hadvances a w').fits hfits))
            (hf a w' hperform hfits)

theorem progresses_allocate (hcoherent : w.Coherent) (htidy : w.Tidy)
    (hmark : o.header.marked = false)
    (hfits : ((allocate o).perform w).2.Fits) : w.Progresses ((allocate o).perform w).2 := by
  obtain ⟨w', hw', hallocate⟩ := perform_allocate o w
  have hfirst : w.Progresses w' ∧ w'.objects.Tight := by
    rcases hw' with rfl | rfl
    · exact ⟨refl_of World.Progresses w', hcoherent.tight⟩
    · exact ⟨.of_moment (.collect []) (Moment.upholds_collect htidy),
        (evolves_collect hcoherent htidy []).coherent.tight⟩
  rcases hallocate with ⟨limit, hallocate⟩ | ⟨_, hallocate⟩
  · rw [hallocate]
    exact hfirst.1
  · rw [hallocate] at hfits ⊢
    exact trans_of World.Progresses hfirst.1 (progresses_admitObject hfirst.2 hmark hfits)

theorem progresses_allocatePinned (hcoherent : w.Coherent)
    (hmark : o.header.marked = false) (hfits : ((allocatePinned o).perform w).2.Fits)
    (hown : o.header.ownership = .shared) :
    w.Progresses ((allocatePinned o).perform w).2 := by
  have hcollections : (allocatePinned o).Keeps World.Uncollected :=
    keeps_bind (keeps_modifyGet fun _ => rfl) fun x =>
      keeps_bind ((ages_pin x).imp fun _ _ hages => hages.collections_eq) fun _ => keeps_pure x
  obtain ⟨w', hperform, hputs⟩ := allocatePinned_spec hcoherent hfits hown
  have hafter : ((allocatePinned o).perform w).2 = w' := by rw [hperform]
  have hstep : w.Step .change w' := hafter ▸ .allocatePinned hmark
  rw [hafter]
  exact .of_moment hstep (Moment.upholds_of_puts hputs.new hputs.puts rfl
    (hafter ▸ hcollections w))

theorem progresses_closeScope (hcoherent : w.Coherent) (id : PoolId)
    (result : Except Error Handle) : w.Progresses ((closeScope id result).perform w).2 :=
  .of_moment (.closeScope id result) (Moment.upholds_closeScope hcoherent id result)

/-- A composite action takes its steps one after another. -/
theorem Composite.progresses {π : Policy} {action : Action α} (hcomposite : Composite π action)
    (hcoherent : w.Coherent) (htidy : w.Tidy) (hwithin : π.Within w)
    (hfits : (action.perform w).2.Fits) : w.Progresses (action.perform w).2 := by
  induction hcomposite generalizing w with
  | pure | throw | query => exact refl_of World.Progresses w
  | @bind _ _ m f hm hf ihm ihf =>
      refine progresses_bind (fun a => (hf a).advances) (ihm hcoherent htidy hwithin)
        (fun a w' hperform hfits' => ?_) hfits
      have hfitsm : (m.perform w).2.Fits := by
        rw [hperform]
        exact ((hf a).advances w').fits hfits'
      have hleads := hm.leadsTo hcoherent htidy hwithin hfitsm
      have hadvances := hm.advances w
      rw [hperform] at hleads hadvances
      exact ihf a hleads.evolves.coherent (hadvances.tidy htidy) (hwithin.evolve hleads.evolves)
        hfits'
  | aside hf =>
      exact .of_ages (.aside (hf w).objects_eq (hf w).pools_eq (hf w).collections_eq)
        (.of_eq (hf w).objects_eq (hf w).collections_eq)
  | @amend x change hchange =>
      exact .of_ages (.amend x fun o => (hchange o).header_eq)
        (ages_modifyObject w x fun o _ => Object.precedes_of_header_eq (hchange o).header_eq)
  | set s value => exact .of_ages (.set s value) (ages_set s value w)
  | allocate => exact progresses_allocate hcoherent htidy rfl hfits
  | allocatePinned => exact progresses_allocatePinned hcoherent rfl hfits rfl
  | pin x => exact .of_ages (.pin x) (ages_pin x w)
  | collect extra => exact .of_moment (.collect extra) (Moment.upholds_collect htidy)
  | @scope body hbody ih =>
      let opened := (openScope.perform w).2
      have hunfold : ((Action.scope body).perform w).2 =
          ((closeScope w.pools.push.1 (body.perform opened).1).perform
            (body.perform opened).2).2 := rfl
      rw [hunfold] at hfits ⊢
      have hafter : (body.perform opened).2.Fits := (advances_closeScope _ _ _).fits hfits
      have hevolves := openScope_spec hcoherent ((hbody.advances opened).fits hafter)
      have htidy' := (advances_openScope w).tidy htidy
      have hwithin' := hwithin.evolve hevolves
      have hleads := hbody.leadsTo hevolves.coherent htidy' hwithin' hafter
      exact trans_of World.Progresses (.of_ages .openScope (.of_eq rfl rfl))
        (trans_of World.Progresses (ih hevolves.coherent htidy' hwithin' hafter)
          (progresses_closeScope hleads.evolves.coherent _ _))

theorem progresses_forM_share (l : List Handle) : (l.forM share).Keeps World.Progresses :=
  keeps_forM fun x w => .of_ages (.share x) (ages_share x w)

theorem progresses_shallowCopy (hcoherent : w.Coherent) (htidy : w.Tidy) (x : Handle)
    (hfits : ((shallowCopy x).perform w).2.Fits) :
    w.Progresses ((shallowCopy x).perform w).2 := by
  have hmoves : ∀ (o : Object) (copy : Handle), Keeps World.Moves (do
      o.duplicate.ownedRefs.forM share
      return copy : Action Handle) := fun _ copy =>
    keeps_bind (keeps_forM moves_share) fun _ => keeps_pure copy
  unfold shallowCopy at hfits ⊢
  rw [perform_query_bind] at hfits ⊢
  split at hfits
  · next o _ =>
      refine progresses_bind (fun copy => (hmoves o copy).imp fun _ _ => World.Moves.toAdvances)
        (progresses_allocate hcoherent htidy rfl) (fun copy w' _ _ => ?_) hfits
      exact keeps_bind (progresses_forM_share _) (fun _ => keeps_pure copy) w'
  · exact refl_of World.Progresses w

theorem progresses_subclass (hcoherent : w.Coherent) (parent : Handle) (name : String)
    (newAttrs : List Symbol) (newClasses : Option (List Handle))
    (hfits : ((subclass parent name newAttrs newClasses).perform w).2.Fits) :
    w.Progresses ((subclass parent name newAttrs newClasses).perform w).2 := by
  have hregister : ∀ c, Keeps World.Progresses (do
      modify fun w : World => { w with classes := w.classes.push c }
      return c : Action Handle) := fun c =>
    keeps_bind (keeps_modify fun w => .of_ages (.aside rfl rfl rfl) (.of_eq rfl rfl)) fun _ =>
      keeps_pure c
  have hmoves : ∀ c, Keeps World.Moves (do
      modify fun w : World => { w with classes := w.classes.push c }
      return c : Action Handle) := fun c =>
    keeps_bind (keeps_modify fun _ => .of_eq rfl rfl rfl) fun _ => keeps_pure c
  unfold subclass at hfits ⊢
  rw [perform_query_bind] at hfits ⊢
  split at hfits
  · exact progresses_bind (fun c => (hmoves c).imp fun _ _ => World.Moves.toAdvances)
      (fun hfits' => progresses_allocatePinned hcoherent rfl hfits' rfl)
      (fun c w' _ _ => hregister c w') hfits
  · exact refl_of World.Progresses w

end Action

/-- Respectful operations pass objects on at most, moment by moment. -/
theorem Operation.progresses {α : Type} {w : World} (hcoherent : w.Coherent) (htidy : w.Tidy)
    (hequipped : w.Equipped) (op : Operation α) (hrespects : op.Respects w)
    (hfits : (op.perform w).2.Fits) : w.Progresses (op.perform w).2 := by
  have hcomposite : ∀ {β : Type} (op : Operation β), op.Within w.policy →
      (op.perform w).2.Fits → w.Progresses (op.perform w).2 :=
    fun op hwithin hfits => (op.composite_action hequipped.standard w.generous_policy
      hwithin).progresses hcoherent htidy w.policy_within hfits
  cases op with
  | allocate o => exact hcomposite _ ⟨⟨hrespects.1, hrespects.2.1⟩, hrespects.2.2⟩ hfits
  | cell c head next => exact hcomposite _ ⟨hrespects, rfl⟩ hfits
  | shallowCopy x => exact Action.progresses_shallowCopy hcoherent htidy x hfits
  | subclass parent name newAttrs newClasses =>
      exact Action.progresses_subclass hcoherent parent name newAttrs newClasses hfits
  | openScope => exact .of_ages .openScope (.of_eq rfl rfl)
  | closeScope id result => exact Action.progresses_closeScope hcoherent id result
  | releasePool id => exact .of_ages (.releasePool id) (Action.ages_releasePool hcoherent id)
  | addToPool x id => exact hrespects.elim
  | removeFromPool x id => exact hrespects.elim
  | addRoot x => exact .of_ages (.aside rfl rfl rfl) (.of_eq rfl rfl)
  | removeRoot x => exact .of_ages (.aside rfl rfl rfl) (.of_eq rfl rfl)
  | _ => exact hcomposite _ hrespects hfits

end ObjectSystem

/-
# How many objects live at once

An allocation looks at the limit first. When it is reached it collects, and gives up if the
world is full nevertheless. Making a class, and the object of a symbol that has none yet, does
not look: what is never freed is put in whether there is room or not. So no run leaves more
objects alive than the limit says and such steps in full worlds come to.

What an operation may do to the number of objects is one of two things: it stays within the
limit, `World.Bounds`, or it makes one object that is never freed, `World.Swells`.
-/

import ObjectSystem.Proofs.Bootstrap

namespace ObjectSystem

namespace Arena

variable {α : Type} {S : Handle → Object → Object → Prop} {a a' : Arena Object}

theorem size_insertWith_le (a : Arena α) (value : Handle → α) :
    (a.insertWith value).2.size ≤ a.size + 1 := by
  have hinserted := a.inserted_insertWith value
  have hremoved := a.removed_insertWith value
  unfold size
  omega

theorem TrimsBy.size_le (htrims : a.TrimsBy S a') : a'.size ≤ a.size := by
  have hinserted := htrims.inserted_eq
  have hremoved := htrims.removed_le
  unfold size
  omega

end Arena

namespace World

variable {w w' w'' : World} {m n : Nat}

/-- The settings stay, and at most so many objects have come to live. -/
structure Swells (n : Nat) (w w' : World) : Prop where
  settings_eq : w'.settings = w.settings
  population_le : w'.population ≤ w.population + n

theorem Swells.trans (hfirst : w.Swells m w') (hsecond : w'.Swells n w'') :
    w.Swells (m + n) w'' where
  settings_eq := hsecond.settings_eq.trans hfirst.settings_eq
  population_le := by
    have h := hfirst.population_le
    have h' := hsecond.population_le
    omega

theorem Swells.mono (hswells : w.Swells m w') (hle : m ≤ n) : w.Swells n w' :=
  ⟨hswells.settings_eq, hswells.population_le.trans (Nat.add_le_add_left hle _)⟩

instance : IsPreorder World (Swells 0) where
  refl _ := ⟨rfl, Nat.le_refl _⟩
  trans _ _ _ hfirst hsecond := hfirst.trans hsecond

theorem TrimsBy.swells {S : Handle → Object → Object → Prop} (htrims : w.TrimsBy S w') :
    w.Swells 0 w' :=
  ⟨htrims.settings_eq, htrims.objects.size_le⟩

theorem swells_insertWith (w : World) (value : Handle → Object) :
    w.Swells 1 { w with objects := (w.objects.insertWith value).2 } :=
  ⟨rfl, w.objects.size_insertWith_le value⟩

theorem swells_admitObject (w : World) (o : Object) : w.Swells 1 (w.admitObject o).2 :=
  ⟨rfl, w.objects.size_insertWith_le fun _ => o.setOwnership (.ofPool w.pools.current)⟩

/-- The settings are the same. -/
def Continues (w w' : World) : Prop :=
  w'.settings = w.settings

instance : IsPreorder World Continues where
  refl _ := rfl
  trans _ _ _ hfirst hsecond := hsecond.trans hfirst

/-- The settings stay, and what has come to live had room. -/
structure Bounds (w w' : World) : Prop where
  settings_eq : w'.settings = w.settings
  population_le : w'.population ≤ max w.population w.settings.objectLimit

instance : IsPreorder World Bounds where
  refl _ := ⟨rfl, Nat.le_max_left _ _⟩
  trans _ _ _ hfirst hsecond := by
    refine ⟨hsecond.settings_eq.trans hfirst.settings_eq, ?_⟩
    have h := hfirst.population_le
    have h' := hsecond.population_le
    rw [hfirst.settings_eq] at h'
    omega

theorem Swells.bounds (hswells : w.Swells 0 w') : w.Bounds w' :=
  ⟨hswells.settings_eq, hswells.population_le.trans (Nat.le_max_left _ _)⟩

/-- One more object has room in a world that is not full. -/
theorem Swells.bounds_of_room (hswells : w.Swells 1 w') (hroom : w.isFull = false) :
    w.Bounds w' := by
  have hlt : w.population < w.settings.objectLimit :=
    Nat.lt_of_not_le (decide_eq_false_iff_not.1 hroom)
  exact ⟨hswells.settings_eq, hswells.population_le.trans (hlt.trans_le (Nat.le_max_right _ _))⟩

end World

namespace Action

open World

variable {π : Policy} {α : Type} {w : World} {action : Action α} {m n : Nat}

theorem keeps_allocate {R : World → World → Prop} [IsPreorder World R] {o : Object}
    (hcollect : (collect []).Keeps R)
    (hinsert : ∀ w : World, w.isFull = false → R w (w.admitObject o).2) :
    (allocate o).Keeps R := by
  intro w
  obtain ⟨w', hw', hallocate⟩ := perform_allocate o w
  have hfirst : R w w' := by
    rcases hw' with rfl | rfl
    · exact refl_of R w'
    · exact hcollect w
  rcases hallocate with ⟨limit, hallocate⟩ | ⟨hroom, hallocate⟩
  · rw [hallocate]
    exact hfirst
  · rw [hallocate]
    exact trans_of R hfirst (hinsert w' hroom)

theorem swells_bind {β : Type} {f : α → Action β} (haction : action.Keeps (World.Swells m))
    (hf : ∀ a, (f a).Keeps (World.Swells n)) : (action >>= f).Keeps (World.Swells (m + n)) := by
  intro w
  have hfirst := haction w
  rw [perform_bind]
  split
  · next a w' heq =>
      rw [heq] at hfirst
      exact hfirst.trans (hf a w')
  · next e w' heq =>
      rw [heq] at hfirst
      exact hfirst.mono (Nat.le_add_right m n)

theorem swells_of_trims (haction : action.Keeps World.Trims) : action.Keeps (World.Swells 0) :=
  haction.imp fun _ _ htrims => htrims.swells

theorem swells_modifyDescriptor (w : World) (c : Handle) (change : Class → Class) :
    w.Swells 0 (w.modifyDescriptor c change) :=
  ⟨rfl, Nat.le_refl _⟩

theorem swells_allocatePinned (o : Object) : (allocatePinned o).Keeps (World.Swells 1) :=
  swells_bind (n := 0) (keeps_modifyGet fun w => w.swells_insertWith fun _ => o) fun x =>
    swells_of_trims (keeps_bind (trims_pin x) fun _ => keeps_pure x)

theorem swells_registerClass (d : Class) : (registerClass d).Keeps (World.Swells 1) :=
  swells_bind (n := 0) (swells_allocatePinned _) fun c =>
    keeps_bind (keeps_modify fun _ => ⟨rfl, Nat.le_refl _⟩) fun _ => keeps_pure c

theorem bounds_of_trims (haction : action.Keeps World.Trims) : action.Keeps World.Bounds :=
  (swells_of_trims haction).imp fun _ _ hswells => hswells.bounds

theorem bounds_allocate (o : Object) : (allocate o).Keeps World.Bounds :=
  keeps_allocate (bounds_of_trims (trims_collect []))
    fun w hroom => (w.swells_admitObject o).bounds_of_room hroom

theorem Routine.continues (hroutine : Routine π action) : action.Keeps World.Continues :=
  hroutine.keeps (fun _ _ htrims => htrims.settings_eq) (fun _ _ _ => rfl)
    (fun _ _ _ _ _ _ _ => rfl)
    (fun _ _ _ _ _ _ => (bounds_allocate _).imp fun _ _ hbounds => hbounds.settings_eq)
    fun _ _ _ _ _ _ => (swells_allocatePinned _).imp fun _ _ hswells => hswells.settings_eq

/-- A routine that makes nothing that is never freed stays within the limit. -/
theorem Routine.bounds (hroutine : Routine π action) (hlasts : ¬ π.lasts) :
    action.Keeps World.Bounds :=
  hroutine.keeps (fun _ _ htrims => htrims.swells.bounds)
    (fun w c _ => (swells_modifyDescriptor w c _).bounds)
    (fun w c _ _ _ _ _ => (swells_modifyDescriptor w c _).bounds)
    (fun _ _ _ _ _ _ => bounds_allocate _) fun h => absurd h hlasts

theorem bounds_shallowCopy (x : Handle) : (shallowCopy x).Keeps World.Bounds :=
  keeps_bind (keeps_query _) fun _ => keeps_bind (bounds_allocate _) fun _ =>
    keeps_bind (keeps_forM fun y => bounds_of_trims (trims_share y)) fun _ => keeps_pure _

/-- A class is made only if a descriptor can be derived. -/
theorem swells_subclass (parent : Handle) (name : String) (newAttrs : List Symbol)
    (newClasses : Option (List Handle)) (w : World) :
    w.Swells 0 ((subclass parent name newAttrs newClasses).perform w).2 ∨
      (w.descriptor parent >>= fun d =>
        d.derive parent name newAttrs newClasses Builtin.objectClass w.symbols).isOk = true ∧
      w.Swells 1 ((subclass parent name newAttrs newClasses).perform w).2 := by
  unfold subclass
  rw [perform_query_bind]
  split
  · next d hd => exact Or.inr ⟨congrArg Except.isOk hd, swells_registerClass d w⟩
  · exact Or.inl ⟨rfl, Nat.le_refl _⟩

/-- Make the object of a symbol that has none. -/
def represent (s : Symbol) (attrCount : Nat) : Action Handle := do
  let x ← allocatePinned (.new Builtin.symbolClass attrCount (.symbol s) 0 .shared)
  modify fun w => { w with symbolObjects := (s, x) :: w.symbolObjects }
  return x

/-- A symbol that has an object is not given another. -/
theorem perform_install (name : String) (w : World) :
    (∃ x, w.symbolObjects.lookup (w.intern name).1 = some x ∧
      (install name).perform w = (.ok x, (w.intern name).2)) ∨
    w.symbolObjects.lookup (w.intern name).1 = none ∧
      ((∃ e, (w.intern name).2.descriptor Builtin.symbolClass = .error e ∧
          (install name).perform w = (.error e, (w.intern name).2)) ∨
        ∃ attrCount, (install name).perform w =
          (represent (w.intern name).1 attrCount).perform (w.intern name).2) := by
  have hintern : (intern name).perform w = (.ok (w.intern name).1, (w.intern name).2) := rfl
  have hsymbols : (w.intern name).2.symbolObjects = w.symbolObjects := rfl
  unfold install
  rw [perform_bind_ok hintern, perform_bind, perform_get]
  simp only [hsymbols]
  cases w.symbolObjects.lookup (w.intern name).1 with
  | some x => exact Or.inl ⟨x, rfl, rfl⟩
  | none =>
      refine Or.inr ⟨rfl, ?_⟩
      rw [perform_query_bind]
      split
      · next d _ => exact Or.inr ⟨d.attrCount, rfl⟩
      · next e he => exact Or.inl ⟨e, he, rfl⟩

theorem swells_install (name : String) (w : World) :
    w.Swells 0 ((install name).perform w).2 ∨
      w.symbolObjects.lookup (w.intern name).1 = none ∧
        w.Swells 1 ((install name).perform w).2 := by
  obtain ⟨x, _, hperform⟩ | ⟨hnone, ⟨e, _, hperform⟩ | ⟨attrCount, hperform⟩⟩ :=
    perform_install name w
  · rw [hperform]
    exact Or.inl ⟨rfl, Nat.le_refl _⟩
  · rw [hperform]
    exact Or.inr ⟨hnone, rfl, Nat.le_succ _⟩
  · have hrepresent : (represent (w.intern name).1 attrCount).Keeps (World.Swells 1) :=
      swells_bind (n := 0) (swells_allocatePinned _) fun x =>
        keeps_bind (keeps_modify fun _ => ⟨rfl, Nat.le_refl _⟩) fun _ => keeps_pure x
    rw [hperform]
    have hswells := hrepresent (w.intern name).2
    exact Or.inr ⟨hnone, hswells.settings_eq, hswells.population_le⟩

end Action

namespace Operation

open World

variable {α : Type} {w : World}

/-- The operation makes an object that is never freed, without a look at the limit: a class, or
the object of a symbol that has none. -/
def outlasts (w : World) : {α : Type} → Operation α → Bool
  | _, subclass parent name newAttrs newClasses =>
      (w.descriptor parent >>= fun d =>
        d.derive parent name newAttrs newClasses Builtin.objectClass w.symbols).isOk
  | _, install name => (w.symbolObjects.lookup (w.intern name).1).isNone
  | _, _ => false

/-- The policy of operations that make nothing that is never freed. -/
def passing : Policy where
  admits _ _ := True
  declares _ := True
  lasts := False

theorem standard_passing : passing.Standard :=
  fun _ _ _ _ _ _ => trivial

/-- An operation stays within the limit, or makes one object that is never freed. -/
theorem bounds_or_swells (op : Operation α) (w : World) :
    w.Bounds (op.perform w).2 ∨ op.outlasts w = true ∧ w.Swells 1 (op.perform w).2 := by
  have htrims : ∀ {β : Type} {m : Action β} {P : Prop}, m.Keeps World.Trims →
      w.Bounds (m.perform w).2 ∨ P :=
    fun h => Or.inl (Action.bounds_of_trims h w)
  have hroutine : ∀ {β : Type} (op : Operation β) {P : Prop}, op.Within passing → ¬ op.IsRaw →
      op.Licensed passing → w.Bounds (op.perform w).2 ∨ P :=
    fun op _ hwithin hraw hlicensed => Or.inl
      ((op.routine_action standard_passing hwithin hraw hlicensed).bounds id w)
  cases op with
  | allocate => exact Or.inl (Action.bounds_allocate _ w)
  | shallowCopy x => exact Or.inl (Action.bounds_shallowCopy x w)
  | install name =>
      rcases Action.swells_install name w with hswells | h
      · exact Or.inl hswells.bounds
      · exact Or.inr ⟨Option.isNone_iff_eq_none.2 h.1, h.2⟩
  | subclass parent name newAttrs newClasses =>
      rcases Action.swells_subclass parent name newAttrs newClasses w with hswells | h
      · exact Or.inl hswells.bounds
      · exact Or.inr h
  | openScope => exact htrims Action.trims_openScope
  | closeScope id' result => exact htrims (Action.trims_closeScope id' result)
  | releasePool id' => exact htrims (Action.trims_releasePool id')
  | addToPool x id' => exact htrims (Action.trims_addToPool x id')
  | removeFromPool x id' => exact htrims (Action.trims_removeFromPool x id')
  | addRoot x => exact htrims (Action.keeps_modify fun _ => .of_eq rfl rfl rfl)
  | removeRoot x => exact htrims (Action.keeps_modifyGet fun _ => .of_eq rfl rfl rfl)
  | set => exact hroutine _ trivial id ⟨fun _ => trivial, fun _ => trivial, fun _ => trivial⟩
  | addSignature => exact hroutine _ (fun _ _ => trivial) id trivial
  | defineMethod => exact hroutine _ (fun _ _ => trivial) id trivial
  | _ => exact hroutine _ trivial id trivial

/-- By how many objects an operation may pass the limit. -/
def excess (op : Operation α) (w : World) : Nat :=
  if w.isFull && op.outlasts w then 1 else 0

theorem excess_eq_zero {op : Operation α} (hop : op.outlasts w = false) : op.excess w = 0 := by
  simp [excess, hop]

theorem settings_perform (op : Operation α) (w : World) :
    (op.perform w).2.settings = w.settings := by
  rcases op.bounds_or_swells w with h | ⟨_, h⟩
  · exact h.settings_eq
  · exact h.settings_eq

theorem population_perform_le (op : Operation α) (w : World) :
    (op.perform w).2.population ≤ max w.population w.settings.objectLimit + op.excess w := by
  rcases op.bounds_or_swells w with h | ⟨hop, h⟩
  · exact h.population_le.trans (Nat.le_add_right _ _)
  · cases hfull : w.isFull with
    | false => exact (h.bounds_of_room hfull).population_le.trans (Nat.le_add_right _ _)
    | true =>
        rw [excess, hfull, hop]
        exact h.population_le.trans (Nat.add_le_add_right (Nat.le_max_left _ _) 1)

end Operation

namespace World

variable {settings : Settings} {w : World} {n : Nat}

/-- There is at most one object for each cell. -/
theorem Founded.population_le (hfounded : w.Founded n) (hordered : w.Ordered) :
    w.population ≤ n := by
  have hcounted := hordered.counted
  have hoccupied : w.objects.occupied ≤ w.objects.cells.size := Array.countP_le_size
  have hsize := hfounded.size_eq
  unfold Arena.Counted at hcounted
  unfold population Arena.size
  omega

/-- There is no world with settings that are at fault. -/
theorem fault?_eq_none (hcreate : create settings = .ok w) : settings.fault? = none := by
  unfold create at hcreate
  split at hcreate
  · cases hcreate
  · assumption

theorem settings_makeClasses
    (hclasses : Action.makeClasses.perform (empty settings) = (.ok (), w)) :
    w.settings = settings := by
  have hkeeps : Action.makeClasses.Keeps Continues :=
    Action.keeps_makeClasses (fun _ _ _ => rfl) (fun _ _ _ => rfl)
      (fun c => (Action.swells_of_trims (Action.trims_pin c)).imp fun _ _ h => h.settings_eq)
      fun _ _ => rfl
  have h := hkeeps (empty settings)
  rwa [hclasses] at h

/-- A new world has a few dozen objects at most, and the limit may not be lower than 128. -/
theorem population_create_le (hcreate : create settings = .ok w) :
    w.settings = settings ∧ w.population ≤ settings.objectLimit := by
  have hlimit : 128 ≤ settings.objectLimit := by
    have hfault := fault?_eq_none hcreate
    grind [Settings.fault?]
  obtain ⟨hcapacity, w', hclasses, hobjects⟩ := exists_of_create hcreate
  obtain ⟨hprimed, _⟩ := Action.primed_makeClasses (founded_empty hcapacity)
    (ordered_empty settings) rfl hclasses
  have hcontinues := settings_makeClasses hclasses
  unfold Action.makeObjects at hobjects
  obtain ⟨_, w₁, hnull, hobjects⟩ := Action.perform_bind_eq_ok_iff.1 hobjects
  obtain ⟨_, w₂, hsymbol, hfurnish⟩ := Action.perform_bind_eq_ok_iff.1 hobjects
  have hfirst := Action.swells_allocatePinned (.new Builtin.nullClass 0 .none 0 .shared) w'
  have hsecond := Action.swells_allocatePinned
    (.new Builtin.symbolClass 0 (.symbol Symbol.empty) 0 .shared) w₁
  rw [hnull] at hfirst
  rw [hsymbol] at hsecond
  have hboth := hfirst.trans hsecond
  have hrest := (Action.routine_furnish Operation.standard_passing trivial).bounds id w₂
  rw [hfurnish] at hrest
  have hsettings := hboth.settings_eq.trans hcontinues
  have hpopulation : w₂.population ≤ 20 + 2 :=
    hboth.population_le.trans
      (Nat.add_le_add_right (hprimed.founded.population_le hprimed.ordered) 2)
  refine ⟨hrest.settings_eq.trans hsettings, hrest.population_le.trans ?_⟩
  rw [hsettings]
  omega

/-- The worlds that operations lead to from a new one, by how many of them made an object that
is never freed in a world that was full. -/
inductive Crowded (settings : Settings) : Nat → World → Prop where
  | create {w : World} (hcreate : World.create settings = .ok w) : Crowded settings 0 w
  | step {n : Nat} {w : World} (hcrowded : Crowded settings n w) {α : Type} (op : Operation α) :
      Crowded settings (n + op.excess w) (op.perform w).2

theorem Crowded.reachable (hcrowded : Crowded settings n w) : Reachable settings w := by
  induction hcrowded with
  | create hcreate => exact .create hcreate
  | step _ op ih => exact ih.step op

theorem Reachable.crowded (hreachable : Reachable settings w) : ∃ n, Crowded settings n w := by
  induction hreachable with
  | create hcreate => exact ⟨0, .create hcreate⟩
  | step _ op ih =>
      obtain ⟨n, hcrowded⟩ := ih
      exact ⟨_, hcrowded.step op⟩

theorem Crowded.population_le (hcrowded : Crowded settings n w) :
    w.settings = settings ∧ w.population ≤ settings.objectLimit + n := by
  induction hcrowded with
  | create hcreate => exact population_create_le hcreate
  | @step n w hcrowded _ op ih =>
      obtain ⟨hsettings, hpopulation⟩ := ih
      refine ⟨(op.settings_perform w).trans hsettings, ?_⟩
      have hstep := op.population_perform_le w
      rw [hsettings] at hstep
      omega

/-- The settings stay those that a world was created with, whatever was done to it. -/
theorem Reachable.settings_eq (hreachable : Reachable settings w) : w.settings = settings := by
  obtain ⟨_, hcrowded⟩ := hreachable.crowded
  exact hcrowded.population_le.1

/-- In every world that operations lead to, the settings are those it was created with, and
no more objects live than the limit and the steps of the run that made a class, or the object
of a symbol, when the world was full already. If there are no such steps the limit itself is
kept. -/
theorem Reachable.population_bounded (hreachable : Reachable settings w) :
    w.settings = settings ∧ (∃ n, Crowded settings n w) ∧
      ∀ n, Crowded settings n w → w.population ≤ settings.objectLimit + n := by
  obtain ⟨n, hcrowded⟩ := hreachable.crowded
  exact ⟨hcrowded.population_le.1, ⟨n, hcrowded⟩, fun _ h => h.population_le.2⟩

/-- The lowest limit. -/
def narrow : Settings where
  objectLimit := 128

theorem create_narrow : create narrow = .ok (created narrow) :=
  create_eq_created (by decide +kernel)

/-- The world with the lowest limit after some vectors have been made. -/
def crowd : Nat → World
  | 0 => created narrow
  | n + 1 => ((Operation.realVector 1).perform (crowd n)).2

theorem crowded_crowd (n : Nat) : Crowded narrow 0 (crowd n) := by
  induction n with
  | zero => exact .create create_narrow
  | succ n ih =>
      have hstep := ih.step (.realVector 1)
      rwa [Operation.excess_eq_zero rfl] at hstep

/-- In a world full of vectors a symbol gets its object nevertheless. -/
theorem Reachable.population_bounded_symbol :
    ((crowd 103).population = 128 ∧
      Reachable narrow ((Operation.install "x").perform (crowd 103)).2) ∧
    Crowded narrow 1 ((Operation.install "x").perform (crowd 103)).2 ∧
    ((Operation.install "x").perform (crowd 103)).2.population = 129 ∧
    ((Operation.install "x").perform (crowd 103)).2.population ≤
      narrow.objectLimit + 1 := by
  have hfull : (crowd 103).population = 128 ∧
      (Operation.install "x").excess (crowd 103) = 1 ∧
      ((Operation.install "x").perform (crowd 103)).2.population = 129 := by
    decide +kernel
  obtain ⟨hbefore, hexcess, hafter⟩ := hfull
  have hcrowded := (crowded_crowd 103).step (.install "x")
  rw [hexcess] at hcrowded
  exact ⟨⟨hbefore, hcrowded.reachable⟩, hcrowded, hafter,
    (Reachable.population_bounded hcrowded.reachable).2.2 1 hcrowded⟩

end World

end ObjectSystem

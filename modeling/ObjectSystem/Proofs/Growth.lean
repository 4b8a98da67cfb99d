/-
# How the hierarchy grows

Each step that operations are made of leads from an ordered world to an ordered world that
extends it, whether it succeeds or fails. Three steps do more than trim the world: an object
is put in, a class is registered below classes that are there, and a class gets a superclass
after the walk through the hierarchy has found no way back. Routines are put together from
these steps, so they develop ordered worlds too.

New objects must belong to registered classes. Besides, only the number of cells matters: a
handle would name two objects if there were more cells than numbers.
-/

import ObjectSystem.Proofs.Walk

namespace ObjectSystem

open Relation

/-- All classes that a policy allows are registered. -/
structure Policy.Names (π : Policy) (w : World) : Prop where
  admits : ∀ c payload, π.admits c payload → c ∈ w.classes
  declares : ∀ c, π.declares c → c ∈ w.classes

theorem Policy.Names.extend {π : Policy} {w w' : World} (hnames : π.Names w)
    (hextends : w.Extends w') : π.Names w' where
  admits c payload hadmits := hextends.classes c (hnames.admits c payload hadmits)
  declares c hdeclares := hextends.classes c (hnames.declares c hdeclares)

namespace World

variable {w w' w'' : World} {c x : Handle} {o : Object} {odd odd' : Handle → Prop}
  {S : Handle → Object → Object → Prop} [Object.Leeway S]

/-- Only live objects can be odd. -/
theorem Shapely.mono (hshapely : w.Shapely odd)
    (hodd : ∀ x, w.objects.Live x → odd x → odd' x) : w.Shapely odd' :=
  fun x o ho => ⟨(hshapely x o ho).1, fun hnot =>
    (hshapely x o ho).2 fun h => hnot (hodd x ⟨o, ho⟩ h)⟩

/-- An object of a registered class with the right number of attributes may be put in. -/
theorem Admits.develops (hadmits : w.Admits w' x o) (hordered : w.Ordered)
    (hclass : o.classRef ∈ w.classes)
    (hshape : ∀ d, w.Describes o.classRef d → o.attrs.size = d.attrCount) : w.Develops w' :=
  ⟨hadmits.extends hordered, fun _ hshapely =>
    hadmits.shapely hordered hclass (fun _ => hshape) hshapely⟩

theorem Ordered.occupied_pos (hordered : w.Ordered) (hc : c ∈ w.classes) :
    0 < w.objects.occupied := by
  obtain ⟨d, ⟨o, ho, _⟩, _⟩ := hordered.described c hc
  exact (Nat.zero_le _).trans_lt (Arena.occupied_remove_lt ho)

/-- The handle of a new object was not live before, even if a collection came first: a
collection does not empty so many cells that one of them comes back to its generation. -/
theorem Ordered.stale_of_admits (hordered : w.Ordered) (hc : c ∈ w.classes)
    (htrims : w.Trims w') (hturns : w.objects.Turns w'.objects) (hadmits : w'.Admits w'' x o)
    (hturns' : w'.objects.Turns w''.objects) (hremoved : w''.objects.removed = w'.objects.removed)
    (hcells : w'.objects.cells.size ≤ 2 ^ 32) : ¬ w.objects.Live x := by
  rintro ⟨p, hp⟩
  have hordered' := (hordered.trim htrims).ordered
  have hpos := hordered'.occupied_pos (htrims.classes_eq ▸ hc)
  have hcounted' := hordered'.counted
  have hinserted := htrims.objects.inserted_eq
  rw [htrims.objects.cells_eq] at hcells
  unfold Arena.Counted at hcounted'
  obtain ⟨q, hq⟩ := hordered.counted.get?_between hcells hturns hturns' hp hadmits.puts.self
    (by omega)
  cases hadmits.new.symm.trans hq

/-- At most one object has been put in, and apart from that the world was trimmed. -/
def AddsBy (S : Handle → Object → Object → Prop) (w w' : World) (o : Object) : Prop :=
  w.TrimsBy S w' ∨ ∃ x own w₁ w₂, w.TrimsBy S w₁ ∧ w₁.Admits w₂ x (o.setOwnership own) ∧
    w₂.TrimsBy S w' ∧ ¬ w.objects.Live x

abbrev Adds (w w' : World) (o : Object) : Prop :=
  w.AddsBy (fun _ => Object.Stays) w' o

theorem AddsBy.trim (hadds : w.AddsBy S w' o) (htrims : w'.TrimsBy S w'') : w.AddsBy S w'' o := by
  rcases hadds with htrims' | ⟨x, own, w₁, w₂, hbefore, hadmits, hafter, hnew⟩
  · exact Or.inl (trans_of (TrimsBy S) htrims' htrims)
  · exact Or.inr ⟨x, own, w₁, w₂, hbefore, hadmits, trans_of (TrimsBy S) hafter htrims, hnew⟩

theorem Adds.extends (hadds : w.Adds w' o) (hordered : w.Ordered) : w.Extends w' := by
  rcases hadds with htrims | ⟨x, own, w₁, w₂, hbefore, hadmits, hafter, hnew⟩
  · exact (hordered.trim htrims).toExtends
  · have hfirst := (hordered.trim hbefore).toExtends
    have hsecond := hadmits.extends hfirst.ordered
    exact hfirst.trans (hsecond.trans (hsecond.ordered.trim hafter).toExtends)

/-- The new object is odd only if it may be odd and is not made with the right number of
attributes. -/
theorem Adds.shapely (hadds : w.Adds w' o) (hordered : w.Ordered) (hclass : o.classRef ∈ w.classes)
    (hshapely : w.Shapely odd) (hodd : ∀ x, w'.objects.Live x → odd x → odd' x)
    (hnew : (∀ x, w'.objects.Live x → ¬ w.objects.Live x → odd' x) ∨
      ∀ d, w.Describes o.classRef d → o.attrs.size = d.attrCount) : w'.Shapely odd' := by
  rcases hadds with htrims | ⟨x, own, w₁, w₂, hbefore, hadmits, hafter, hstale⟩
  · exact ((hordered.trim htrims).shapely odd hshapely).mono hodd
  · have hfirst := hordered.trim hbefore
    have hsecond := hadmits.extends hfirst.ordered
    have hshapely₁ := hfirst.shapely odd hshapely
    have hclass₁ := hfirst.classes _ hclass
    rcases hnew with hnew | hshape
    · have hshapely₂ : w₂.Shapely fun y => odd y ∨ y = x :=
        hadmits.shapely hfirst.ordered hclass₁ (fun h => absurd (Or.inr rfl) h)
          (hshapely₁.mono fun _ _ => Or.inl)
      refine ((hsecond.ordered.trim hafter).shapely _ hshapely₂).mono fun y hy h => ?_
      rcases h with h | rfl
      · exact hodd y hy h
      · exact hnew y hy hstale
    · have hshapely₂ : w₂.Shapely odd := by
        refine hadmits.shapely hfirst.ordered hclass₁ (fun _ d' hd' => ?_) hshapely₁
        obtain ⟨d, hd⟩ := hordered.described _ hclass
        obtain ⟨d'', hd'', hstays⟩ := hd.describes.trim hbefore
        cases hd'.unique hd''
        rw [hstays.attrCount_eq]
        exact hshape d hd.describes
      exact ((hsecond.ordered.trim hafter).shapely _ hshapely₂).mono hodd

end World

namespace Action

open World

variable {α β : Type} {w w' : World} {c s x : Handle} {o : Object} {d : Class}
  {S : Handle → Object → Object → Prop} [Object.Leeway S]

/-- What follows a step does not give cells up. -/
theorem cells_le_bind {m : Action α} {f : α → Action β} (hf : ∀ a, (f a).Keeps World.Advances)
    (w : World) :
    (m.perform w).2.objects.cells.size ≤ ((m >>= f).perform w).2.objects.cells.size := by
  rw [perform_bind]
  cases m.perform w with
  | mk result w' =>
      cases result with
      | error e => exact Nat.le_refl _
      | ok a => exact (hf a w').cells_le

/-! ## New objects -/

/-- What no scope answers for is pinned without a look at the scopes. -/
theorem perform_pin_of_shared (ho : w.objects.get? x = some o)
    (hown : o.header.ownership = .shared) :
    ∃ pools, (pin x).perform w = (.ok (), { w with pools := pools }.modifyObject x fun o =>
      { o with header := .permanent }) := by
  unfold pin
  rw [perform_query_bind, World.ownership_eq_ok ho, hown]
  simp only [Ownership.pool?, perform_modify]
  split
  · exact ⟨_, rfl⟩
  · exact ⟨_, rfl⟩

/-- A shared object may be put into the arena and pinned. It may know its own handle. -/
theorem admits_pin_inserted (hordered : w.Ordered) (value : Handle → Object)
    (hcells : (w.objects.insertWith value).2.cells.size ≤ 2 ^ 32)
    (hown : ∀ x, (value x).header.ownership = .shared) :
    ∃ w', (pin (w.objects.insertWith value).1).perform
        { w with objects := (w.objects.insertWith value).2 } = (.ok (), w') ∧
      w.Admits w' (w.objects.insertWith value).1
        { value (w.objects.insertWith value).1 with header := .permanent } := by
  have hadmits := hordered.admits_insertWith value hcells
  obtain ⟨pools, hpin⟩ := perform_pin_of_shared hadmits.puts.self (hown _)
  refine ⟨_, hpin, hadmits.new, fun y => ?_, hadmits.tight.modify _ _,
    hadmits.counted.modify _ _, hadmits.inserted_eq, rfl⟩
  rw [World.modifyObject, Arena.puts_modify hadmits.puts.self y, hadmits.puts y]
  split <;> rfl

theorem admits_allocatePinned (hordered : w.Ordered)
    (hcells : ((allocatePinned o).perform w).2.objects.cells.size ≤ 2 ^ 32)
    (hown : o.header.ownership = .shared) :
    ∃ x w', (allocatePinned o).perform w = (.ok x, w') ∧
      w.Admits w' x { o with header := .permanent } := by
  have hfirst : (allocatePinned o).perform w = (do
      pin (w.objects.insert o).1
      return (w.objects.insert o).1 : Action Handle).perform
        { w with objects := (w.objects.insert o).2 } := rfl
  have hrest : Keeps World.Trims (do
      pin (w.objects.insert o).1
      return (w.objects.insert o).1 : Action Handle) :=
    keeps_bind (trims_pin _) fun _ => keeps_pure _
  rw [hfirst] at hcells ⊢
  rw [(hrest _).objects.cells_eq] at hcells
  obtain ⟨w', hpin, hadmits⟩ := admits_pin_inserted hordered (fun _ => o) hcells fun _ => hown
  exact ⟨_, w', perform_bind_ok hpin, hadmits⟩

/-- An allocation may run a collection first. Then it gives up or puts an object in, under a
handle that was not live before. -/
theorem admits_allocate (hordered : w.Ordered) (hc : c ∈ w.classes) (o : Object)
    (hcells : ((allocate o).perform w).2.objects.cells.size ≤ 2 ^ 32) :
    ∃ w₁, (w₁ = w ∨ w₁ = (w.collect []).2) ∧
      ((∃ limit, (allocate o).perform w = (.error (.outOfMemory limit), w₁)) ∨
        ∃ x own w', (allocate o).perform w = (.ok x, w') ∧ w₁.Admits w' x (o.setOwnership own) ∧
          ¬ w.objects.Live x) := by
  obtain ⟨w₁, hw₁, hallocate⟩ := perform_allocate o w
  refine ⟨w₁, hw₁, ?_⟩
  obtain ⟨htrims, hturns⟩ : w.Trims w₁ ∧ w.objects.Turns w₁.objects := by
    rcases hw₁ with rfl | rfl
    · exact ⟨refl_of World.Trims w₁, .refl _⟩
    · exact ⟨w.trims_collect [], (w.moves_collect []).turns⟩
  rcases hallocate with ⟨limit, hallocate⟩ | ⟨_, hallocate⟩
  · exact Or.inl ⟨limit, hallocate⟩
  · rw [hallocate] at hcells
    let value : Handle → Object := fun _ => o.setOwnership (.ofPool w₁.pools.current)
    have hinserted := (hordered.trim htrims).ordered.admits_insertWith value hcells
    have hadmits : w₁.Admits (w₁.admitObject o).2 (w₁.admitObject o).1
        (o.setOwnership (.ofPool w₁.pools.current)) :=
      ⟨hinserted.new, hinserted.puts, hinserted.tight, hinserted.counted, hinserted.inserted_eq,
        rfl⟩
    refine Or.inr ⟨_, _, _, hallocate, hadmits, ?_⟩
    exact hordered.stale_of_admits hc htrims hturns hadmits
      (w₁.objects.turns_insertWith value) (w₁.objects.removed_insertWith value)
      ((w₁.objects.size_cells_le_insertWith value).trans hcells)

/-- An allocation puts an object in or gives up. -/
theorem adds_allocate (hordered : w.Ordered) (hc : c ∈ w.classes) (o : Object)
    (hcells : ((allocate o).perform w).2.objects.cells.size ≤ 2 ^ 32) :
    w.AddsBy S ((allocate o).perform w).2 o := by
  obtain ⟨w₁, hw₁, hallocate⟩ := admits_allocate hordered hc o hcells
  have htrims : w.TrimsBy S w₁ := by
    rcases hw₁ with rfl | rfl
    · exact refl_of (TrimsBy S) w₁
    · exact w.trims_collect []
  rcases hallocate with ⟨limit, hallocate⟩ | ⟨x, own, w', hallocate, hadmits, hstale⟩
  · rw [hallocate]
    exact Or.inl htrims
  · rw [hallocate]
    exact Or.inr ⟨x, own, w₁, w', htrims, hadmits, refl_of (TrimsBy S) w', hstale⟩

theorem adds_shallowCopy (hordered : w.Ordered) (hc : c ∈ w.classes)
    (ho : w.objects.get? x = some o)
    (hcells : ((shallowCopy x).perform w).2.objects.cells.size ≤ 2 ^ 32) :
    w.AddsBy S ((shallowCopy x).perform w).2 o.duplicate := by
  have hrest : ∀ copy, Keeps (TrimsBy S) (do
      o.duplicate.ownedRefs.forM share
      return copy : Action Handle) := fun copy =>
    keeps_bind (keeps_forM trims_share) fun _ => keeps_pure copy
  rw [perform_shallowCopy ho, perform_bind] at hcells ⊢
  have hadds := adds_allocate (S := S) hordered hc o.duplicate
  cases hallocate : (allocate o.duplicate).perform w with
  | mk result w' =>
      rw [hallocate] at hcells hadds
      cases result with
      | error e => exact hadds hcells
      | ok copy =>
          have htrims := hrest copy w'
          exact (hadds (by rw [← htrims.objects.cells_eq]; exact hcells)).trim htrims

theorem develops_allocateOf {payload : Payload} {length : Nat} (hordered : w.Ordered)
    (hc : c ∈ w.classes)
    (hcells : ((allocateOf c payload length).perform w).2.objects.cells.size ≤ 2 ^ 32) :
    w.Develops ((allocateOf c payload length).perform w).2 := by
  obtain ⟨d, hd⟩ := hordered.described c hc
  unfold allocateOf at hcells ⊢
  rw [perform_query_bind, hd.describes.descriptor_eq] at hcells ⊢
  have hadds : w.Adds _ _ :=
    adds_allocate hordered hc (.new c d.attrCount payload length .shared) hcells
  refine ⟨hadds.extends hordered, fun odd hshapely => ?_⟩
  refine hadds.shapely hordered hc hshapely (fun _ _ hodd => hodd) (Or.inr fun d' hd' => ?_)
  cases hd'.unique hd.describes
  exact Array.size_replicate

theorem develops_allocatePinnedOf {payload : Payload} {length : Nat} (hordered : w.Ordered)
    (hc : c ∈ w.classes)
    (hcells : ((do
      let d ← query (·.descriptor c)
      allocatePinned (.new c d.attrCount payload length .shared) : Action Handle).perform
        w).2.objects.cells.size ≤ 2 ^ 32) :
    w.Develops ((do
      let d ← query (·.descriptor c)
      allocatePinned (.new c d.attrCount payload length .shared) : Action Handle).perform w).2 := by
  obtain ⟨d, hd⟩ := hordered.described c hc
  rw [perform_query_bind, hd.describes.descriptor_eq] at hcells ⊢
  obtain ⟨x, w', hperform, hadmits⟩ := admits_allocatePinned hordered hcells rfl
  simp only [hperform]
  refine hadmits.develops hordered hc fun d' hd' => ?_
  cases hd'.unique hd.describes
  exact Array.size_replicate

/-! ## Classes -/

/-- The walk through the hierarchy tells whether a link would close a circle. -/
theorem addSuperclass_spec (hordered : w.Ordered) (hs : s ∈ w.classes) (hd : w.Describes c d) :
    (ReflTransGen w.Above s c → ∃ above, w.Describes s above ∧
      (addSuperclass c s).perform w = (.error (.cyclicHierarchy d.name above.name), w)) ∧
    (¬ ReflTransGen w.Above s c →
      (addSuperclass c s).perform w = (.ok (), w.modifyDescriptor c (·.addSuperclass s))) := by
  obtain ⟨above, habove⟩ := hordered.described s hs
  obtain ⟨below, hbelow, hiff⟩ := hordered.isAssignableClass_eq hs c
  unfold addSuperclass
  simp only [perform_query_bind, habove.describes.descriptor_eq, hbelow]
  constructor
  · intro hreach
    rw [if_pos (hiff.2 hreach)]
    refine ⟨above, habove.describes, ?_⟩
    simp only [perform_query_bind, habove.describes.descriptor_eq, hd.descriptor_eq]
    rfl
  · intro hnone
    rw [if_neg fun h => hnone (hiff.1 h)]
    simp only [perform_query_bind, hd.descriptor_eq, perform_modify]

theorem develops_addSuperclass (hordered : w.Ordered) (hs : s ∈ w.classes) :
    w.Develops ((addSuperclass c s).perform w).2 := by
  obtain ⟨back, hback, hiff⟩ := hordered.isAssignableClass_eq hs c
  rcases addSuperclass_cases c s w with ⟨_, hfails⟩ | ⟨hnone, hlinks⟩
  · rw [hfails]
    exact .refl hordered
  · rw [hlinks]
    cases hback.symm.trans hnone
    exact hordered.addSuperclass hs fun hreach => absurd (hiff.2 hreach) (by simp)

theorem develops_classAttrIndex {s : Symbol} (hordered : w.Ordered) (hs : s.isReserved = false) :
    w.Develops ((classAttrIndex c s).perform w).2 := by
  rcases classAttrIndex_cases c s w with
    ⟨_, hsame⟩ | ⟨d, hdescriptor, ⟨_, _, hsame⟩ | ⟨hslot, hadds⟩⟩
  · rw [hsame]
    exact .refl hordered
  · rw [hsame]
    exact .refl hordered
  · rw [hadds]
    refine hordered.addClassAttr hs fun d' hd' => ?_
    cases hd'.descriptor_eq.symm.trans hdescriptor
    exact hslot

/-- A class is put in as a pinned object. -/
theorem admits_registerClass (hordered : w.Ordered)
    (hcells : ((registerClass d).perform w).2.objects.cells.size ≤ 2 ^ 32) :
    ∃ c w', (registerClass d).perform w = (.ok c, w'.register c) ∧
      w.Admits w' c { Object.new Builtin.classClass 0 (.descriptor d) 0 .shared with
        header := .permanent } := by
  have hrest : ∀ c, Keeps World.Advances (do
      modify fun w : World => { w with classes := w.classes.push c }
      return c : Action Handle) := fun c =>
    keeps_bind (keeps_modify fun _ => .of_eq rfl rfl) fun _ => keeps_pure c
  have hfirst := (cells_le_bind hrest w).trans hcells
  obtain ⟨c, w', hperform, hadmits⟩ := admits_allocatePinned hordered hfirst rfl
  exact ⟨c, w', perform_bind_ok hperform, hadmits⟩

/-- A subclass is put into the world and registered if a descriptor can be derived for it, and
otherwise nothing happens. -/
theorem subclass_cases {parent : Handle} {name : String} {newAttrs : List Symbol}
    {newClasses : Option (List Handle)} (hordered : w.Ordered)
    (hcells : ((subclass parent name newAttrs newClasses).perform w).2.objects.cells.size ≤
      2 ^ 32) :
    (∃ e, (subclass parent name newAttrs newClasses).perform w = (.error e, w)) ∨
      ∃ above d c w', w.descriptor parent = .ok above ∧
        above.derive parent name newAttrs newClasses Builtin.objectClass w.symbols = .ok d ∧
        (subclass parent name newAttrs newClasses).perform w = (.ok c, w'.register c) ∧
        w.Admits w' c { Object.new Builtin.classClass 0 (.descriptor d) 0 .shared with
          header := .permanent } := by
  unfold subclass at hcells ⊢
  rw [perform_query_bind] at hcells ⊢
  cases habove : w.descriptor parent with
  | error e => exact Or.inl ⟨e, rfl⟩
  | ok above =>
      simp only [habove, bind, Except.bind] at hcells ⊢
      cases hderive : above.derive parent name newAttrs newClasses Builtin.objectClass
          w.symbols with
      | error e => exact Or.inl ⟨e, rfl⟩
      | ok d =>
          simp only [hderive] at hcells ⊢
          obtain ⟨c, w', hperform, hadmits⟩ := admits_registerClass hordered hcells
          exact Or.inr ⟨above, d, c, w', rfl, hderive, hperform, hadmits⟩

/-- A class below registered ones extends the world once it is registered. -/
theorem registered_extends (hordered : w.Ordered)
    (hadmits : w.Admits w' c { Object.new Builtin.classClass 0 (.descriptor d) 0 .shared with
      header := .permanent })
    (hlaid : d.Laid) (hnodup : d.supers.toList.Nodup) (hmem : ∀ s ∈ d.supers.toList, s ∈ w.classes)
    (hsupers : w.Rooted → d.supers.toList ≠ []) :
    c ∉ w.classes ∧ (w'.register c).classes = w.classes.push c ∧ (w'.register c).Describes c d ∧
      w.Extends (w'.register c) ∧
      (w.Bare Builtin.classClass → ∀ odd, w.Shapely odd → (w'.register c).Shapely odd) := by
  obtain ⟨hnew, hdescribes, hextends⟩ :=
    hadmits.register hordered rfl rfl hlaid hnodup hmem hsupers
  refine ⟨hnew, ?_, hdescribes, hextends, fun hbare odd hshapely => ?_⟩
  · rw [World.register, hadmits.classes_eq]
  · have hshapely' := hadmits.shapely hordered hbare.registered (fun _ d hd => by
      rw [hbare.attrCount_eq d hd]
      rfl) hshapely
    exact fun x o ho => ⟨Array.mem_push.2 (Or.inl (hshapely' x o ho).1), (hshapely' x o ho).2⟩

/-- A class below registered ones may be registered. -/
theorem registerClass_extends (hordered : w.Ordered)
    (hcells : ((registerClass d).perform w).2.objects.cells.size ≤ 2 ^ 32) (hlaid : d.Laid)
    (hnodup : d.supers.toList.Nodup) (hmem : ∀ s ∈ d.supers.toList, s ∈ w.classes)
    (hsupers : w.Rooted → d.supers.toList ≠ []) :
    ∃ c w', (registerClass d).perform w = (.ok c, w') ∧ c ∉ w.classes ∧
      w'.classes = w.classes.push c ∧ w'.Describes c d ∧ w.Extends w' ∧
      (w.Bare Builtin.classClass → ∀ odd, w.Shapely odd → w'.Shapely odd) := by
  obtain ⟨c, w', hperform, hadmits⟩ := admits_registerClass hordered hcells
  exact ⟨c, w'.register c, hperform,
    registered_extends hordered hadmits hlaid hnodup hmem hsupers⟩

/-- A subclass is registered below its parent and extends it. -/
theorem subclass_extends {parent : Handle} {name : String} {newAttrs : List Symbol}
    {newClasses : Option (List Handle)} (hordered : w.Ordered) (hparent : parent ∈ w.classes)
    (hcells : ((subclass parent name newAttrs newClasses).perform w).2.objects.cells.size ≤
      2 ^ 32) :
    (∃ e, (subclass parent name newAttrs newClasses).perform w = (.error e, w)) ∨
      ∃ c w' above d, (subclass parent name newAttrs newClasses).perform w = (.ok c, w') ∧
        c ∉ w.classes ∧ w'.classes = w.classes.push c ∧ w.Describes parent above ∧
        w'.Describes c d ∧ above.Extends d newAttrs ∧ w.Extends w' ∧
        (w.Bare Builtin.classClass → ∀ odd, w.Shapely odd → w'.Shapely odd) := by
  refine (subclass_cases hordered hcells).imp_right ?_
  rintro ⟨above, d, c, w', habove, hderive, hperform, hadmits⟩
  obtain ⟨above', habove'⟩ := hordered.described parent hparent
  cases habove'.describes.descriptor_eq.symm.trans habove
  obtain ⟨inst, own, hlaid⟩ := habove'.laid
  obtain ⟨hlaid', hsupers⟩ := hlaid.derive hderive
  obtain ⟨hnew, hclasses, hd, hextends, hshapely⟩ :=
    registered_extends hordered hadmits ⟨_, _, hlaid'⟩ (by simp [hsupers])
      (by simpa [hsupers] using hparent) (by simp [hsupers])
  exact ⟨c, w'.register c, above, d, hperform, hnew, hclasses, habove'.describes, hd,
    hlaid.extends hlaid', hextends, hshapely⟩

/-! ## Routines -/

/-- Routines that name registered classes develop ordered worlds. -/
theorem Routine.develops {π : Policy} {action : Action α} (hroutine : Routine π action)
    (hordered : w.Ordered) (hnames : π.Names w)
    (hcells : (action.perform w).2.objects.cells.size ≤ 2 ^ 32) :
    w.Develops (action.perform w).2 := by
  induction hroutine generalizing w with
  | pure | throw | query => exact .refl hordered
  | @bind _ _ m f hm hf ihm ihf =>
      have hfirst := ihm hordered hnames
        ((cells_le_bind (fun a => (hf a).advances) w).trans hcells)
      rw [perform_bind] at hcells ⊢
      cases hperform : m.perform w with
      | mk result w' =>
          rw [hperform] at hcells hfirst
          cases result with
          | error e => exact hfirst
          | ok a =>
              exact hfirst.trans
                (ihf a hfirst.ordered (hnames.extend hfirst.toExtends) hcells)
  | aside hf =>
      exact hordered.trim (.of_eq (hf w).objects_eq (hf w).classes_eq (hf w).settings_eq)
  | amend _ hstays => exact hordered.trim (World.trims_modifyObject w _ hstays)
  | set s value => exact hordered.trim (trims_set (fun o => o.stays_storeIn s value) w)
  | assign _ env name value =>
      exact hordered.trim (trims_assign (fun o => o.stays_addName name)
        (fun index o => o.stays_storeIn (.binding env index) (some value)) w)
  | setAttr x s value =>
      exact hordered.trim (trims_setAttr (fun index o => o.stays_storeIn (.attr x index) value) w)
  | allocateOf hadmits length =>
      exact develops_allocateOf hordered (hnames.admits _ _ hadmits) hcells
  | allocatePinnedOf _ hadmits length =>
      exact develops_allocatePinnedOf hordered (hnames.admits _ _ hadmits) hcells
  | addSuperclass c hdeclares => exact develops_addSuperclass hordered (hnames.declares _ hdeclares)
  | classAttrIndex c hs => exact develops_classAttrIndex hordered hs
  | pin x => exact hordered.trim (trims_pin x w)
  | collect extra => exact hordered.trim (trims_collect extra w)
  | @scope body hbody ih =>
      let opened := (openScope.perform w).2
      have hunfold : ((Action.scope body).perform w).2 =
          ((closeScope w.pools.push.1 (body.perform opened).1).perform
            (body.perform opened).2).2 := rfl
      rw [hunfold] at hcells ⊢
      have hclose : World.Trims _ _ :=
        trims_closeScope w.pools.push.1 (body.perform opened).1 (body.perform opened).2
      rw [hclose.objects.cells_eq] at hcells
      have hopen := hordered.trim (trims_openScope w)
      have hinside := ih hopen.ordered (hnames.extend hopen.toExtends) hcells
      exact hopen.trans (hinside.trans (hinside.ordered.trim hclose))

end Action

end ObjectSystem

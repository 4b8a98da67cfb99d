/-
# New worlds are coherent

A new world is filled cell by cell, so the classes get the handles that `Builtin`
gives them. Each class names only classes that were registered before it, or itself.
Once the classes are there, the other built-in objects are made by composite actions.
-/

import ObjectSystem.Proofs.Operation
import ObjectSystem.World.Genesis

namespace ObjectSystem

/-- What follows a step that succeeds starts from its result. -/
theorem exists_of_bind_eq_ok {α β : Type} {m : Except Error α} {f : α → Except Error β} {b : β}
    (hbind : m >>= f = .ok b) : ∃ a, m = .ok a ∧ f a = .ok b := by
  cases m with
  | error e => cases hbind
  | ok a => exact ⟨a, rfl, hbind⟩

namespace Class

variable {className : String} {symbols : SymbolTable} {layout layout' : Array AttrSlot × Nat}
  {s : Symbol}

theorem eq_of_addAttr (hadd : addAttr className symbols layout s = .ok layout') :
    layout' = (layout.1.setIfInBounds s.index.toNat (.inInstance (UInt32.ofNat (layout.2 + 1))),
      layout.2 + 1) := by
  unfold addAttr at hadd
  simp only at hadd
  split at hadd
  · cases hadd
  · split at hadd
    · cases hadd
    · exact (Except.ok.inj hadd).symm

theorem place_eq_of_set {slots : Array AttrSlot} {i : Nat} {place place' : UInt32}
    (hget : (slots.setIfInBounds i (.inInstance place))[i]?.getD .unmapped = .inInstance place') :
    place' = place := by
  rw [Array.getElem?_setIfInBounds_self] at hget
  split at hget
  · cases hget
    rfl
  · cases hget

/-- What a subclass consists of. -/
theorem exists_of_derive {parent d : Class} {parentHandle defaultClass : Handle} {name : String}
    {newAttrs : List Symbol} {newClasses : Option (List Handle)}
    (hderive : parent.derive parentHandle name newAttrs newClasses defaultClass symbols = .ok d) :
    ∃ (layout : Array AttrSlot × Nat) (declared : List Handle),
      newAttrs.foldlM (addAttr name symbols) (widen (parent.slots.map AttrSlot.inherited)
        (newAttrs.foldl (fun n s => max n (s.index.toNat + 1)) 0), parent.attrCount) =
          .ok layout ∧
      declared.length = newAttrs.length ∧
      d = { name := name, attrCount := layout.2, supers := .push .empty parentHandle,
            slots := layout.1, attrClasses := parent.attrClasses ++ declared.toArray,
            classAttrs := #[], typeTag := parent.typeTag, behavior := parent.behavior } := by
  unfold derive at hderive
  cases newClasses with
  | none =>
      obtain ⟨layout, hlayout, hd⟩ := exists_of_bind_eq_ok hderive
      exact ⟨layout, _, hlayout, List.length_replicate, (Except.ok.inj hd).symm⟩
  | some declared =>
      by_cases hlength : declared.length = newAttrs.length
      · simp only [ne_eq, hlength, not_true_eq_false, if_false] at hderive
        obtain ⟨layout, hlayout, hd⟩ := exists_of_bind_eq_ok hderive
        exact ⟨layout, declared, hlayout, hlength, (Except.ok.inj hd).symm⟩
      · simp only [ne_eq, hlength, not_false_eq_true, if_true] at hderive
        cases hderive

/-- New attributes get places one after another, so the two parts of a linked list get
different ones. -/
theorem pairs_derive {parent d : Class} {parentHandle defaultClass : Handle} {name : String}
    (hderive : parent.derive parentHandle name [Symbol.next, Symbol.head, Symbol.tag] none
      defaultClass symbols = .ok d) : d.Pairs := by
  obtain ⟨layout, _, hlayout, _, rfl⟩ := exists_of_derive hderive
  rw [List.foldlM_cons] at hlayout
  obtain ⟨first, hfirst, hlayout⟩ := exists_of_bind_eq_ok hlayout
  rw [List.foldlM_cons] at hlayout
  obtain ⟨second, hsecond, hlayout⟩ := exists_of_bind_eq_ok hlayout
  rw [List.foldlM_cons] at hlayout
  obtain ⟨third, hthird, hlayout⟩ := exists_of_bind_eq_ok hlayout
  cases hlayout
  have hfirst := eq_of_addAttr hfirst
  have hslots : layout.1 = ((first.1.setIfInBounds Symbol.head.index.toNat
      (.inInstance (UInt32.ofNat (first.2 + 1)))).setIfInBounds Symbol.tag.index.toNat
      (.inInstance (UInt32.ofNat (first.2 + 1 + 1)))) := by
    rw [eq_of_addAttr hthird, eq_of_addAttr hsecond]
  intro place hhead hnext
  rw [slot, hslots, Array.getElem?_setIfInBounds_ne (by decide)] at hhead hnext
  rw [Array.getElem?_setIfInBounds_ne (by decide), hfirst] at hnext
  have hheadPlace := place_eq_of_set hhead
  have hnextPlace := place_eq_of_set hnext
  rw [hheadPlace, hfirst] at hnextPlace
  have hmod := congrArg UInt32.toNat hnextPlace
  simp only [UInt32.toNat_ofNat'] at hmod
  omega

end Class

namespace World

/-- Nothing was put into the arena or taken out of it, and no class was registered. -/
structure Settles (w w' : World) : Prop where
  size_eq : w'.objects.cells.size = w.objects.cells.size
  vacated_eq : w'.objects.vacated = w.objects.vacated
  opened_eq : w'.pools.opened = w.pools.opened
  classes_eq : w'.classes = w.classes

instance : IsPreorder World Settles where
  refl _ := ⟨rfl, rfl, rfl, rfl⟩
  trans _ _ _ hfirst hsecond := ⟨hsecond.size_eq.trans hfirst.size_eq,
    hsecond.vacated_eq.trans hfirst.vacated_eq, hsecond.opened_eq.trans hfirst.opened_eq,
    hsecond.classes_eq.trans hfirst.classes_eq⟩

theorem settles_modifyObject (w : World) (x : Handle) (change : Object → Object) :
    w.Settles (w.modifyObject x change) :=
  ⟨Arena.size_cells_modify _ x change, rfl, rfl, rfl⟩

/-- The first cells of the arena are filled and no others are there, no scope was ever
opened, and the objects are the classes. -/
structure Founded (w : World) (k : Nat) : Prop where
  coherent : w.Coherent
  tidy : w.Tidy
  size_eq : w.objects.cells.size = k
  vacated_eq : w.objects.vacated = []
  opened_eq : w.pools.opened = 0
  classes_eq : w.classes.toList = (List.range k).map Builtin.nth

variable {w w' : World} {k : Nat}

theorem Founded.mem_classes_iff (hfounded : w.Founded k) {c : Handle} :
    c ∈ w.classes ↔ c ∈ (List.range k).map Builtin.nth := by
  rw [← Array.mem_toList_iff, hfounded.classes_eq]

theorem Founded.settle (hfounded : w.Founded k) (hcoherent : w'.Coherent) (htidy : w'.Tidy)
    (hsettles : w.Settles w') : w'.Founded k where
  coherent := hcoherent
  tidy := htidy
  size_eq := hsettles.size_eq.trans hfounded.size_eq
  vacated_eq := hsettles.vacated_eq.trans hfounded.vacated_eq
  opened_eq := hsettles.opened_eq.trans hfounded.opened_eq
  classes_eq := by rw [hsettles.classes_eq, hfounded.classes_eq]

theorem Founded.fits (hfounded : w.Founded k) (hk : k < 2 ^ 32) : w.Fits where
  cells_le := by rw [hfounded.size_eq]; exact Nat.le_of_lt hk
  opened_lt := by rw [hfounded.opened_eq]; decide

/-- A class gives its instances at most the places that it was planned with. -/
def Follows (w : World) (plan : ClassPlan) (c : Handle) : Prop :=
  ∃ (parent d : Class) (symbols : SymbolTable),
    parent.derive plan.parent plan.name plan.attrs none Builtin.objectClass symbols = .ok d ∧
      w.PlacesWithin c d

theorem Follows.evolve {plan : ClassPlan} {c : Handle} (hfollows : w.Follows plan c)
    (hevolves : w.Evolves w') : w'.Follows plan c := by
  obtain ⟨parent, d, symbols, hderive, hplaces⟩ := hfollows
  exact ⟨parent, d, symbols, hderive, hplaces.evolve hevolves⟩

theorem tidy_empty (settings : Settings) : (empty settings).Tidy :=
  ⟨Arena.all_empty, Arena.addressed_empty, Pool.valid_new _ _⟩

/-- A world without objects is in order. -/
theorem founded_empty {settings : Settings} (hcapacity : 0 < settings.poolCapacity) :
    (empty settings).Founded 0 where
  coherent := by
    refine ⟨Arena.tight_empty, PoolStack.valid_new hcapacity, ?_, ?_⟩
    · have hknown : (· ∈ (empty settings).classes) = fun _ => False := by
        funext c
        simp [empty]
      rw [hknown]
      exact Linked.empty
    · show Registered {} (PoolStack.new settings.poolCapacity).entries
      rw [PoolStack.entries_new]
      exact Registered.empty
  tidy := tidy_empty settings
  size_eq := rfl
  vacated_eq := rfl
  opened_eq := rfl
  classes_eq := rfl

end World

namespace Action

open World

variable {w w' : World} {k : Nat}

theorem settles_modifyObject (x : Handle) (change : Object → Object) :
    Keeps World.Settles (modify (·.modifyObject x change)) :=
  keeps_modify fun w => w.settles_modifyObject x change

theorem settles_removeFromPool (x : Handle) (id : PoolId) :
    (removeFromPool x id).Keeps World.Settles :=
  keeps_removeFromPool fun _ _ _ _ _ => ⟨rfl, rfl, PoolStack.opened_modify _ _ _, rfl⟩

theorem settles_pin (x : Handle) : (pin x).Keeps World.Settles :=
  keeps_pin (settles_removeFromPool x)
    (fun _ => ⟨rfl, rfl, PoolStack.opened_modify _ _ _, rfl⟩)
    (settles_modifyObject x _)

theorem settles_addSuperclass (c superclass : Handle) :
    (addSuperclass c superclass).Keeps World.Settles :=
  keeps_addSuperclass fun w => w.settles_modifyObject c _

theorem settles_setBehavior (c : Handle) (behavior : Behavior) :
    (setBehavior c behavior).Keeps World.Settles :=
  keeps_setBehavior (fun w c _ => w.settles_modifyObject c _) c behavior

theorem settles_setTypeTag (c : Handle) (tag : UInt8) :
    (setTypeTag c tag).Keeps World.Settles :=
  keeps_setTypeTag (fun w c _ => w.settles_modifyObject c _) c tag

theorem settles_setAttrClass (c : Handle) (s : Symbol) (attrClass : Handle) :
    (setAttrClass c s attrClass).Keeps World.Settles :=
  keeps_setAttrClass (fun w c _ => w.settles_modifyObject c _) c s attrClass

/-- The built-in classes are put in, pinned, registered and amended. -/
theorem keeps_makeClasses {R : World → World → Prop} [IsPreorder World R]
    (hamend : ∀ (w : World) (c : Handle) (change : Class → Class),
      R w (w.modifyDescriptor c change))
    (hput : ∀ (w : World) (classRef : Handle → Handle) (d : Class), R w { w with
      objects := (w.objects.insertWith fun c => .new (classRef c) 0 (.descriptor d) 0 .shared).2 })
    (hpin : ∀ c, (pin c).Keeps R)
    (hlist : ∀ (w : World) (c : Handle), R w { w with classes := w.classes.push c }) :
    makeClasses.Keeps R := by
  have hfirst : makeClassClass.Keeps R :=
    keeps_bind (keeps_modifyGet fun w => hput w (fun c => c) _) fun c =>
      keeps_bind (hpin c) fun _ => keeps_modify fun w => hlist w c
  have hregister : ∀ d : Class, (registerClass d).Keeps R := fun d =>
    keeps_bind (keeps_bind (keeps_modifyGet fun w => hput w (fun _ => Builtin.classClass) d)
      fun c => keeps_bind (hpin c) fun _ => keeps_pure c)
      fun c => keeps_bind (keeps_modify fun w => hlist w c) fun _ => keeps_pure c
  have hsubclass : ∀ plan : ClassPlan,
      (subclass plan.parent plan.name plan.attrs none).Keeps R := by
    intro plan w
    unfold subclass
    rw [perform_query_bind]
    split
    · next d _ => exact hregister d w
    · exact refl_of R w
  have hmake : ∀ plan, (makeClass plan).Keeps R := fun plan =>
    keeps_bind (hsubclass plan) fun _ =>
      keeps_forM fun e => keeps_setAttrClass hamend e.1 e.2.1 e.2.2
  have hlink : ∀ superclass, (addSuperclass Builtin.classClass superclass).Keeps R :=
    fun superclass => keeps_addSuperclass fun w => hamend w _ _
  exact keeps_bind hfirst fun _ => keeps_bind (hregister _)
    fun objectClass => keeps_bind (hlink objectClass) fun _ => keeps_bind (keeps_forM hmake)
      fun _ => keeps_bind (keeps_forM fun e => keeps_setBehavior hamend e.1 e.2) fun _ =>
        keeps_forM fun e => keeps_setTypeTag hamend e.1 e.2

end Action

namespace World

variable {w : World} {k : Nat}

/-- A pinned object fills the next cell. -/
theorem Founded.allocatePinned (hfounded : w.Founded k) (value : Handle → Object)
    (hk : k + 1 < 2 ^ 32) (hown : ∀ x, (value x).header.ownership = .shared) :
    (w.objects.insertWith value).1 = Builtin.nth k ∧
      ∃ w', (Action.pin (Builtin.nth k)).perform
        { w with objects := (w.objects.insertWith value).2 } = (.ok (), w') ∧
        Action.PutsPinned w w' (Builtin.nth k) (value (Builtin.nth k)) ∧
        w'.objects.cells.size = k + 1 ∧ w'.objects.vacated = [] ∧ w'.pools.opened = 0 := by
  have hinsert := Arena.insertWith_of_full hfounded.vacated_eq
    (by rw [hfounded.size_eq]; omega) value
  have hhandle : (w.objects.insertWith value).1 = Builtin.nth k := by
    rw [hinsert, hfounded.size_eq]
    rfl
  have hsettles := Action.settles_pin (Builtin.nth k)
    { w with objects := (w.objects.insertWith value).2 }
  have hsize : ((Action.pin (Builtin.nth k)).perform
      { w with objects := (w.objects.insertWith value).2 }).2.objects.cells.size = k + 1 := by
    rw [hsettles.size_eq]
    simp [hinsert, hfounded.size_eq]
  have hopened := hsettles.opened_eq.trans hfounded.opened_eq
  have hfits : ((Action.pin (w.objects.insertWith value).1).perform
      { w with objects := (w.objects.insertWith value).2 }).2.Fits := by
    rw [hhandle]
    exact ⟨by rw [hsize]; omega, by rw [hopened]; decide⟩
  obtain ⟨w', hperform, hputs⟩ := Action.pin_inserted_spec hfounded.coherent hfits hown
  rw [hhandle] at hperform hputs
  rw [hperform] at hsize hopened hsettles
  refine ⟨hhandle, w', hperform, hputs, hsize, ?_, hopened⟩
  rw [hsettles.vacated_eq]
  simp [hinsert]

theorem map_nth_succ (k : Nat) :
    (List.range (k + 1)).map Builtin.nth = (List.range k).map Builtin.nth ++ [Builtin.nth k] := by
  rw [List.range_succ, List.map_append, List.map_singleton]

/-- A class that names classes before it, and may belong to itself, is the next one. -/
theorem Founded.register (hfounded : w.Founded k) (classRef : Handle → Handle) {d : Class}
    (hk : k + 1 < 2 ^ 32)
    (hclassRef : classRef (Builtin.nth k) ∈ (List.range (k + 1)).map Builtin.nth)
    (hnamed : ∀ r ∈ d.named, r ∈ (List.range k).map Builtin.nth) (hvalues : d.classAttrs = #[]) :
    let inserted := w.objects.insertWith fun c => .new (classRef c) 0 (.descriptor d) 0 .shared
    inserted.1 = Builtin.nth k ∧
      ∃ w', (Action.pin (Builtin.nth k)).perform { w with objects := inserted.2 } = (.ok (), w') ∧
        w.Evolves { w' with classes := w'.classes.push (Builtin.nth k) } ∧
        w'.PlacesWithin (Builtin.nth k) d ∧
        ({ w' with classes := w'.classes.push (Builtin.nth k) }.Tidy →
          { w' with classes := w'.classes.push (Builtin.nth k) }.Founded (k + 1)) := by
  obtain ⟨hhandle, w', hperform, hputs, hsize, hvacated, hopened⟩ :=
    hfounded.allocatePinned (fun c => .new (classRef c) 0 (.descriptor d) 0 .shared) hk
      fun _ => rfl
  have hnext : ∀ r, r ∈ (List.range (k + 1)).map Builtin.nth ↔
      r ∈ w.classes ∨ r = Builtin.nth k := by
    intro r
    rw [map_nth_succ, List.mem_append, List.mem_singleton, hfounded.mem_classes_iff]
  have hevolves := hputs.evolves_class hfounded.coherent ⟨d, rfl⟩ (fun r hr => by
    rcases List.mem_cons.1 hr with rfl | hr
    · exact (hnext _).1 hclassRef
    · exact Or.inl (hfounded.mem_classes_iff.2 (hnamed r hr))) (Object.unheld_class hvalues)
  refine ⟨hhandle, w', hperform, hevolves, ⟨_, hputs.puts.self, rfl, fun d' hd' => ?_⟩,
    fun htidy => ⟨hevolves.coherent, htidy, hsize, hvacated, hopened, ?_⟩⟩
  · cases hd'
    exact fun _ _ hplace => hplace
  · rw [hputs.classes_eq, Array.toList_push, hfounded.classes_eq, map_nth_succ]

end World

namespace Action

open World

variable {w w' : World} {k : Nat}

/-- The class of classes comes first. -/
theorem founded_makeClassClass (hfounded : w.Founded 0) :
    ∃ w', makeClassClass.perform w = (.ok (), w') ∧ w'.Founded 1 := by
  have hmoves : makeClassClass.Keeps World.Moves :=
    keeps_bind (keeps_modifyGet fun w => w.moves_insertWith _ fun _ => rfl) fun c =>
      keeps_bind (moves_pin c) fun _ => keeps_modify fun _ => .of_eq rfl rfl rfl
  obtain ⟨hhandle, w', hpin, _, _, hregister⟩ :=
    hfounded.register (fun c => c) (d := .root "class" .noCopy) (by decide) (by decide)
      (by decide) rfl
  have hperform : makeClassClass.perform w =
      (.ok (), { w' with classes := w'.classes.push (Builtin.nth 0) }) := by
    unfold makeClassClass
    rw [perform_bind, perform_modifyGet]
    simp only [hhandle]
    rw [perform_bind_ok hpin, perform_modify]
  have htidy := (hmoves w).tidy hfounded.tidy
  rw [hperform] at htidy
  exact ⟨_, hperform, hregister htidy⟩

theorem founded_registerClass {d : Class} (hfounded : w.Founded k)
    (hk : k + 1 < 2 ^ 32) (hnamed : ∀ r ∈ d.named, r ∈ (List.range k).map Builtin.nth)
    (hvalues : d.classAttrs = #[]) :
    ∃ w', (registerClass d).perform w = (.ok (Builtin.nth k), w') ∧ w'.Founded (k + 1) ∧
      w.Evolves w' ∧ w'.PlacesWithin (Builtin.nth k) d := by
  have hfirst : Builtin.classClass ∈ (List.range (k + 1)).map Builtin.nth :=
    List.mem_map_of_mem (List.mem_range.2 (Nat.succ_pos k))
  obtain ⟨hhandle, w', hpin, hevolves, hplaces, hregister⟩ :=
    hfounded.register (fun _ => Builtin.classClass) hk hfirst hnamed hvalues
  have hperform : (registerClass d).perform w =
      (.ok (Builtin.nth k), { w' with classes := w'.classes.push (Builtin.nth k) }) := by
    unfold registerClass allocatePinned
    rw [perform_bind, perform_bind, perform_modifyGet]
    simp only [Arena.insert] at hhandle ⊢
    simp only [hhandle]
    rw [perform_bind_ok hpin]
    rfl
  have htidy := (moves_registerClass d w).tidy hfounded.tidy
  rw [hperform] at htidy
  exact ⟨_, hperform, hregister htidy, hevolves, hplaces⟩

/-- Founded worlds may be amended. -/
theorem founded_amend {α : Type} {action : Action α} (hfounded : w.Founded k) (hk : k < 2 ^ 32)
    (hroutine : Routine w.policy action) (hsettles : action.Keeps World.Settles) :
    (action.perform w).2.Founded k ∧ w.Evolves (action.perform w).2 := by
  have hfits : (action.perform w).2.Fits :=
    ⟨by rw [(hsettles w).size_eq]; exact (hfounded.fits hk).cells_le,
      by rw [(hsettles w).opened_eq]; exact (hfounded.fits hk).opened_lt⟩
  have hleads := hroutine.leadsTo hfounded.coherent hfounded.tidy w.policy_within hfits
  exact ⟨hfounded.settle hleads.evolves.coherent ((hroutine.advances w).tidy hfounded.tidy)
    (hsettles w), hleads.evolves⟩

theorem founded_subclass {plan : ClassPlan} {c : Handle} (hfounded : w.Founded k)
    (hk : k + 1 < 2 ^ 32) (htwo : 2 ≤ k)
    (hparent : plan.parent ∈ (List.range k).map Builtin.nth)
    (hsubclass : (subclass plan.parent plan.name plan.attrs none).perform w = (.ok c, w')) :
    w'.Founded (k + 1) ∧ w.Evolves w' ∧ w'.Follows plan (Builtin.nth k) := by
  have hobject : Builtin.objectClass ∈ w.classes :=
    hfounded.mem_classes_iff.2 (List.mem_map_of_mem (List.mem_range.2 htwo))
  have hanswers := answers_derived none plan.attrs plan.name hfounded.coherent hobject
    (hfounded.mem_classes_iff.2 hparent) (by simp)
  unfold subclass at hsubclass
  rw [perform_query_bind] at hsubclass
  split at hsubclass
  · next d hd =>
      obtain ⟨hvalues, hnamed⟩ := hanswers.ok hd
      obtain ⟨w'', hperform, hfounded', hevolves, hplaces⟩ := founded_registerClass hfounded hk
        (fun r hr => hfounded.mem_classes_iff.1 (hnamed r hr)) hvalues
      cases hperform.symm.trans hsubclass
      obtain ⟨parent, hderive⟩ : ∃ parent : Class, parent.derive plan.parent plan.name plan.attrs
          none Builtin.objectClass w.symbols = .ok d := by
        cases hdescriptor : w.descriptor plan.parent with
        | error e =>
            rw [hdescriptor] at hd
            cases hd
        | ok parent =>
            rw [hdescriptor] at hd
            exact ⟨parent, hd⟩
      exact ⟨hfounded', hevolves, parent, d, w.symbols, hderive, hplaces⟩
  · cases hsubclass

/-- A class is made once its parent is there, and declares classes that are there by
then. -/
theorem founded_makeClass {plan : ClassPlan} (hfounded : w.Founded k) (hk : k + 1 < 2 ^ 32)
    (htwo : 2 ≤ k) (hparent : plan.parent ∈ (List.range k).map Builtin.nth)
    (hdeclared : ∀ e ∈ plan.declared, e.2.2 ∈ (List.range (k + 1)).map Builtin.nth)
    (hmake : (makeClass plan).perform w = (.ok (), w')) :
    w'.Founded (k + 1) ∧ w.Evolves w' ∧ w'.Follows plan (Builtin.nth k) := by
  unfold makeClass at hmake
  obtain ⟨c, w'', hsubclass, hdeclare⟩ := perform_bind_eq_ok_iff.1 hmake
  obtain ⟨hfounded', hevolves, hfollows⟩ := founded_subclass hfounded hk htwo hparent hsubclass
  obtain ⟨hfounded'', hevolves'⟩ := founded_amend hfounded' hk
    (routine_forM (l := plan.declared) fun e he => routine_setAttrClass trivial e.1 e.2.1
      (hfounded'.mem_classes_iff.2 (hdeclared e he)))
    (keeps_forM fun e => settles_setAttrClass e.1 e.2.1 e.2.2)
  rw [hdeclare] at hfounded'' hevolves'
  exact ⟨hfounded'', hevolves.trans hevolves', hfollows.evolve hevolves'⟩

/-- Classes may be made in an order in which each names classes before it. -/
theorem founded_forM_makeClass {plans : List ClassPlan} (hfounded : w.Founded k)
    (hk : k + plans.length < 2 ^ 32) (htwo : 2 ≤ k)
    (horder : ∀ p ∈ plans.zipIdx k, p.1.parent ∈ (List.range p.2).map Builtin.nth ∧
      ∀ e ∈ p.1.declared, e.2.2 ∈ (List.range (p.2 + 1)).map Builtin.nth)
    (hmake : (plans.forM makeClass).perform w = (.ok ⟨⟩, w')) :
    w'.Founded (k + plans.length) ∧ w.Evolves w' ∧
      ∀ p ∈ plans.zipIdx k, w'.Follows p.1 (Builtin.nth p.2) := by
  induction plans generalizing k w with
  | nil =>
      cases hmake
      exact ⟨hfounded, .refl hfounded.coherent, by simp⟩
  | cons plan plans ih =>
      rw [List.zipIdx_cons] at horder ⊢
      rw [List.length_cons] at hk ⊢
      obtain ⟨hparent, hdeclared⟩ := horder _ List.mem_cons_self
      obtain ⟨_, w'', hfirst, hrest⟩ := perform_bind_eq_ok_iff.1 hmake
      obtain ⟨hfounded', hevolves, hfollows⟩ :=
        founded_makeClass hfounded (by omega) htwo hparent hdeclared hfirst
      obtain ⟨hall, hevolves', hfollow⟩ := ih hfounded' (by omega) (by omega)
        (fun p hp => horder p (List.mem_cons_of_mem _ hp)) hrest
      rw [Nat.add_assoc, Nat.add_comm 1] at hall
      refine ⟨hall, hevolves.trans hevolves', fun p hp => ?_⟩
      rcases List.mem_cons.1 hp with rfl | hp
      · exact hfollows.evolve hevolves'
      · exact hfollow p hp

/-- After the classes have been made, they are what the world consists of. -/
theorem founded_makeClasses (hfounded : w.Founded 0)
    (hmake : makeClasses.perform w = (.ok (), w')) :
    w'.Founded 20 ∧ ∃ d : Class, d.Pairs ∧ w'.PlacesWithin Builtin.pairlistClass d := by
  unfold makeClasses at hmake
  obtain ⟨_, w₁, hclassClass, hmake⟩ := perform_bind_eq_ok_iff.1 hmake
  obtain ⟨c, w₂, hobjectClass, hmake⟩ := perform_bind_eq_ok_iff.1 hmake
  obtain ⟨_, w₃, habove, hmake⟩ := perform_bind_eq_ok_iff.1 hmake
  obtain ⟨_, w₄, hplans, hmake⟩ := perform_bind_eq_ok_iff.1 hmake
  obtain ⟨_, w₅, hbehaviors, htags⟩ := perform_bind_eq_ok_iff.1 hmake
  obtain ⟨_, hperform, hone⟩ := founded_makeClassClass hfounded
  cases hperform.symm.trans hclassClass
  obtain ⟨_, hperform, htwo, _⟩ := founded_registerClass (d := .root "object" .default) hone
    (by decide) (by decide) rfl
  cases hperform.symm.trans hobjectClass
  obtain ⟨hthree, _⟩ := founded_amend htwo (by decide)
    (.addSuperclass Builtin.classClass (htwo.mem_classes_iff.2 (by decide)))
    (settles_addSuperclass Builtin.classClass (Builtin.nth 1))
  rw [habove] at hthree
  obtain ⟨hfour, _, hfollow⟩ :=
    founded_forM_makeClass hthree (by decide) (by decide) (by decide) hplans
  obtain ⟨hfive, hevolves⟩ := founded_amend hfour (by decide)
    (routine_forM (l := ClassPlan.behaviors) fun e _ => routine_setBehavior e.1 e.2)
    (keeps_forM fun e => settles_setBehavior e.1 e.2)
  rw [hbehaviors] at hfive hevolves
  obtain ⟨hsix, hevolves'⟩ := founded_amend hfive (by decide)
    (routine_forM (l := ClassPlan.typeTags) fun e _ => routine_setTypeTag e.1 e.2)
    (keeps_forM fun e => settles_setTypeTag e.1 e.2)
  rw [htags] at hsix hevolves'
  have hpairlist : ∃ p ∈ ClassPlan.builtin.zipIdx 2, p.2 = 13 ∧
      p.1.attrs = [Symbol.next, Symbol.head, Symbol.tag] := by decide
  obtain ⟨p, hp, hplace, hattrs⟩ := hpairlist
  obtain ⟨parent, d, symbols, hderive, hplaces⟩ := hfollow p hp
  rw [hattrs] at hderive
  rw [hplace] at hplaces
  exact ⟨hsix, d, Class.pairs_derive hderive,
    (hplaces.evolve hevolves).evolve hevolves'⟩

/-- The global environment is made by a routine, and the assignment function in it. -/
theorem routine_globalEnv {π : Policy} (hstandard : π.Standard) (hassigns : π.assigns) :
    Routine π (do
      let globalEnv ← newEnvironment none
      pin globalEnv
      let arrow ← newSpecial .assign
      let _ ← assign globalEnv Symbol.arrow arrow) :=
  .bind (routine_newEnvironment hstandard none) fun globalEnv => .bind (.pin globalEnv) fun _ =>
    .bind (routine_newSpecial hstandard _) fun arrow =>
      .bind (.assign hassigns globalEnv Symbol.arrow arrow) fun _ => .pure _

/-- What follows the symbol for a missing argument is made by a routine. -/
theorem routine_furnish {π : Policy} (hstandard : π.Standard) (hassigns : π.assigns) : Routine π (do
    pin (← newText "NA")
    let globalEnv ← newEnvironment none
    pin globalEnv
    let arrow ← newSpecial .assign
    let _ ← assign globalEnv Symbol.arrow arrow) :=
  .bind (routine_newText hstandard "NA") fun missing => .bind (.pin missing) fun _ =>
    routine_globalEnv hstandard hassigns

/-- What follows the null object is composite. -/
theorem composite_furnish {π : Policy} (hstandard : π.Standard) (hassigns : π.assigns) :
    Composite π (do
    let _ ← allocatePinned (.new Builtin.symbolClass 0 (.symbol Symbol.empty) 0 .shared)
    pin (← newText "NA")
    let globalEnv ← newEnvironment none
    pin globalEnv
    let arrow ← newSpecial .assign
    let _ ← assign globalEnv Symbol.arrow arrow) :=
  .bind (.allocatePinned (hstandard _ (by decide) _ rfl (by nofun) id) 0 0) fun _ =>
    (routine_furnish hstandard hassigns).composite

theorem composite_makeObjects {π : Policy} (hstandard : π.Standard) (hassigns : π.assigns) :
    Composite π makeObjects :=
  .bind (.allocatePinned (hstandard _ (by decide) _ rfl (by nofun) id) 0 0) fun _ =>
    composite_furnish hstandard hassigns

/-- The built-in objects may be made once the classes are there, and the null object gets
the handle that is reserved for it. -/
theorem evolves_makeObjects (hfounded : w.Founded 20)
    (hmake : makeObjects.perform w = (.ok (), w')) (hfits : w'.Fits) :
    w.Evolves w' ∧ ∃ o, w'.objects.get? Builtin.null = some o ∧ o.header.pinned = true := by
  have hclass : ∀ c ∈ Builtin.classes, c ∈ w.classes := fun c hc => hfounded.mem_classes_iff.2 hc
  have hstandard : w.policy.Standard := fun c hc _ hpayload _ _ =>
    ⟨hclass c hc, hpayload⟩
  obtain ⟨hhandle, w'', hpin, hputs, _⟩ := hfounded.allocatePinned
    (fun _ => .new Builtin.nullClass 0 .none 0 .shared) (by decide) fun _ => rfl
  have hfirst : (allocatePinned (.new Builtin.nullClass 0 .none 0 .shared)).perform w =
      (.ok Builtin.null, w'') := by
    unfold allocatePinned
    rw [perform_bind, perform_modifyGet]
    simp only [Arena.insert] at hhandle ⊢
    simp only [hhandle]
    rw [perform_bind_ok hpin]
    rfl
  have hevolves := hputs.evolves hfounded.coherent
    (Object.fresh_new (hclass _ (by decide)) rfl)
  have htidy := (moves_allocatePinned (o := .new Builtin.nullClass 0 .none 0 .shared) rfl w).tidy
    hfounded.tidy
  rw [hfirst] at htidy
  unfold makeObjects at hmake
  rw [perform_bind_ok hfirst] at hmake
  have hleads := (composite_furnish hstandard trivial).leadsTo hevolves.coherent htidy
    (w.policy_within.evolve hevolves) (by rw [hmake]; exact hfits)
  rw [hmake] at hleads
  obtain ⟨o, ho, hlasts⟩ := hleads.evolves.pinned _ _ hputs.puts.self rfl
  exact ⟨hevolves.trans hleads.evolves, o, ho, hlasts.pinned⟩

end Action

namespace World

variable {w : World} {settings : Settings}

theorem exists_of_create (hcreate : create settings = .ok w) :
    0 < settings.poolCapacity ∧ ∃ w', Action.makeClasses.perform (empty settings) = (.ok (), w') ∧
      Action.makeObjects.perform w' = (.ok (), w) := by
  unfold create at hcreate
  split at hcreate
  · cases hcreate
  · next hfault =>
      refine ⟨Nat.pos_of_ne_zero fun hzero => ?_, ?_⟩
      · simp [Settings.fault?, hzero] at hfault
      · split at hcreate
        · next hperform =>
            cases hcreate
            obtain ⟨_, w', hclasses, hobjects⟩ := Action.perform_bind_eq_ok_iff.1 hperform
            exact ⟨w', hclasses, hobjects⟩
        · cases hcreate

namespace Steps

open ObjectSystem.Action

variable {R : World → World → Prop} [IsPreorder World R] (hsteps : Steps R)

include hsteps

/-- A new world is made in steps, too. -/
theorem create (hcreate : World.create settings = .ok w) : R (empty settings) w := by
  obtain ⟨_, w', hclasses, hobjects⟩ := exists_of_create hcreate
  have hmakeClasses : Action.makeClasses.Keeps R :=
    keeps_makeClasses (fun w c _ => hsteps.change w c (fun _ => id) fun _ => id)
      (fun w _ _ => hsteps.put w _ fun _ => rfl) hsteps.pin
      fun _ _ => hsteps.same rfl rfl (.refl _) rfl
  have hfirst := hmakeClasses (empty settings)
  have hrest := (composite_makeObjects (Policy.standard_lastingIf False) trivial).keepsBy hsteps
    False.elim w'
  rw [hclasses] at hfirst
  rw [hobjects] at hrest
  exact trans_of R hfirst hrest

end Steps

/-- A new world is tidy. -/
theorem tidy_create (hcreate : create settings = .ok w) : w.Tidy :=
  (steps_advances.create hcreate).tidy (tidy_empty settings)

/-- The parts of a new world agree, and it has the built-in classes. -/
theorem coherent_create (hcreate : create settings = .ok w) (hfits : w.Fits) :
    w.Coherent ∧ w.Equipped := by
  obtain ⟨hcapacity, w', hclasses, hobjects⟩ := exists_of_create hcreate
  obtain ⟨hfounded, d, hpairs, hplaces⟩ :=
    Action.founded_makeClasses (founded_empty hcapacity) hclasses
  obtain ⟨hevolves, hnull⟩ := Action.evolves_makeObjects hfounded hobjects hfits
  exact ⟨hevolves.coherent, fun c hc => hevolves.classes c (hfounded.mem_classes_iff.2 hc), hnull,
    d, hpairs, hplaces.evolve hevolves⟩

end World

end ObjectSystem

/-
# New classes in coherent worlds

A class may be registered if the classes that it names are registered. What a
subclass names is its parent, what the parent declares for its attributes and what
is declared for the new ones.
-/

import ObjectSystem.Proofs.Composite
import ObjectSystem.World.Classes

namespace ObjectSystem

/-- The classes that a descriptor names. -/
def Class.named (c : Class) : List Handle :=
  c.supers.toList ++ c.attrClasses.toList

namespace World

variable {w : World} {given : List Handle}

theorem answers_addAttr (className : String) (symbols : SymbolTable)
    (layout : Array AttrSlot × Nat) (s : Symbol) :
    w.Answers given (Class.addAttr className symbols layout s) fun _ => True := by
  unfold Class.addAttr
  simp only
  split
  · trivial
  · split <;> trivial

/-- A subclass holds no values yet, and names what it was given and what its parent
declares. -/
theorem answers_derive (parent : Class) (parentHandle : Handle) (name : String)
    (newAttrs : List Symbol) (newClasses : Option (List Handle)) (defaultClass : Handle)
    (symbols : SymbolTable) :
    w.Answers given
      (parent.derive parentHandle name newAttrs newClasses defaultClass symbols) fun d =>
      d.classAttrs = #[] ∧ ∀ r ∈ d.named, r = parentHandle ∨ r ∈ parent.attrClasses.toList ∨
        r ∈ newClasses.getD (List.replicate newAttrs.length defaultClass) := by
  have hlayout : ∀ (l : List Symbol) (layout : Array AttrSlot × Nat),
      w.Answers given (l.foldlM (Class.addAttr name symbols) layout) fun _ => True := by
    intro l
    induction l with
    | nil => exact fun _ => answers_pure trivial
    | cons s l ih =>
        intro layout
        rw [List.foldlM_cons]
        exact answers_bind (answers_addAttr name symbols layout s) fun layout _ => ih layout
  unfold Class.derive
  cases newClasses with
  | none =>
      refine answers_bind (hlayout _ _) fun layout _ => answers_pure ⟨rfl, fun r hr => ?_⟩
      simpa [Class.named] using hr
  | some classes =>
      simp only
      split
      · trivial
      · refine answers_bind (hlayout _ _) fun layout _ => answers_pure ⟨rfl, fun r hr => ?_⟩
        simpa [Class.named] using hr

/-- A subclass of a registered class with registered classes names registered classes. -/
theorem answers_derived {parent : Handle} (newClasses : Option (List Handle))
    (newAttrs : List Symbol) (name : String) (hcoherent : w.Coherent)
    (hobjectClass : Builtin.objectClass ∈ w.classes) (hparent : parent ∈ w.classes)
    (hclasses : ∀ l, newClasses = some l → ∀ c ∈ l, c ∈ w.classes) :
    w.Answers [parent] (do
      (← w.descriptor parent).derive parent name newAttrs newClasses Builtin.objectClass
        w.symbols) fun d => d.classAttrs = #[] ∧ ∀ r ∈ d.named, r ∈ w.classes := by
  refine answers_bind (w.answers_descriptor parent) fun d ⟨o, ho, hpayload⟩ => ?_
  refine (answers_derive d parent name newAttrs newClasses _ w.symbols).imp
    fun d' ⟨hvalues, hnamed⟩ => ⟨hvalues, fun r hr => ?_⟩
  rcases hnamed r hr with rfl | hr | hr
  · exact hparent
  · exact mem_classes_of_attrClasses hcoherent ho hpayload hr
  · cases newClasses with
    | none => exact (List.eq_of_mem_replicate hr) ▸ hobjectClass
    | some l => exact hclasses l rfl r hr

end World

/-- A class without values holds nothing. -/
theorem Object.unheld_class {c : Handle} {own : Ownership} {d : Class}
    (hvalues : d.classAttrs = #[]) (s : Slot) (y : Handle) :
    s.peek? (.new c 0 (.descriptor d) 0 own) ≠ some (some y) := by
  cases s with
  | attr z index => cases index <;> simp [Slot.peek?, Object.new]
  | classAttr z index => simp [Slot.peek?, Object.new, hvalues]
  | element | binding | signature => simp [Slot.peek?, Object.new]

namespace Action

open World

variable {w : World} {d : Class} {parent c : Handle} {name : String} {newAttrs : List Symbol}
  {newClasses : Option (List Handle)}

theorem moves_registerClass (d : Class) : (registerClass d).Keeps World.Moves :=
  keeps_bind (moves_allocatePinned rfl) fun c =>
    keeps_bind (keeps_modify fun _ => .of_eq rfl rfl rfl) fun _ => keeps_pure c

theorem moves_subclass (parent : Handle) (name : String) (newAttrs : List Symbol)
    (newClasses : Option (List Handle)) :
    (subclass parent name newAttrs newClasses).Keeps World.Moves :=
  keeps_bind (keeps_query _) fun d => moves_registerClass d

/-- A class without values that names registered classes may be registered. -/
theorem registerClass_spec (hcoherent : w.Coherent)
    (hfits : ((registerClass d).perform w).2.Fits) (hclassClass : Builtin.classClass ∈ w.classes)
    (hnamed : ∀ r ∈ d.named, r ∈ w.classes) (hvalues : d.classAttrs = #[]) :
    ∃ c w', (registerClass d).perform w = (.ok c, w') ∧ w.Evolves w' ∧
      w'.classes = w.classes.push c := by
  have hrest : ∀ c, Keeps World.Moves (do
      modify fun w : World => { w with classes := w.classes.push c }
      return c : Action Handle) := fun c =>
    keeps_bind (keeps_modify fun _ => .of_eq rfl rfl rfl) fun _ => keeps_pure c
  have hfits' : ((allocatePinned (.new Builtin.classClass 0 (.descriptor d) 0
      .shared)).perform w).2.Fits := by
    unfold registerClass at hfits
    rw [perform_bind] at hfits
    cases hperform : (allocatePinned (.new Builtin.classClass 0 (.descriptor d) 0
        .shared)).perform w with
    | mk result w' =>
        rw [hperform] at hfits
        cases result with
        | error e => exact hfits
        | ok c => exact (hrest c w').fits hfits
  obtain ⟨w', hperform, hputs⟩ := allocatePinned_spec hcoherent hfits' rfl
  refine ⟨_, _, perform_bind_ok hperform, ?_, ?_⟩
  · refine hputs.evolves_class hcoherent ⟨d, rfl⟩ (fun r hr => Or.inl ?_)
      (Object.unheld_class hvalues)
    rcases List.mem_cons.1 hr with rfl | hr
    · exact hclassClass
    · exact hnamed r hr
  · rw [← hputs.classes_eq]

/-- A subclass may be made of a registered class with registered classes. -/
theorem subclass_leadsTo (hcoherent : w.Coherent)
    (hfits : ((subclass parent name newAttrs newClasses).perform w).2.Fits)
    (hclassClass : Builtin.classClass ∈ w.classes) (hobjectClass : Builtin.objectClass ∈ w.classes)
    (hparent : parent ∈ w.classes)
    (hclasses : ∀ l, newClasses = some l → ∀ c ∈ l, c ∈ w.classes) :
    LeadsTo w ((subclass parent name newAttrs newClasses).perform w).1
      ((subclass parent name newAttrs newClasses).perform w).2 := by
  have hanswers := answers_derived newClasses newAttrs name hcoherent hobjectClass hparent hclasses
  have hmoves := moves_subclass parent name newAttrs newClasses w
  unfold subclass at hfits hmoves ⊢
  rw [perform_query_bind] at hfits hmoves ⊢
  split at hfits
  · next d hd =>
      obtain ⟨hvalues, hnamed⟩ := hanswers.ok hd
      simp only [hd] at hmoves ⊢
      obtain ⟨c, w', hperform, hevolves, _⟩ :=
        registerClass_spec hcoherent hfits hclassClass hnamed hvalues
      rw [hperform] at hmoves ⊢
      exact .of_moves hevolves hmoves fun _ _ heq => by cases heq
  · next e he =>
      simp only [he] at hmoves ⊢
      exact .of_moves (.refl hcoherent) hmoves fun x id heq =>
        (hanswers.error he).ne_poolCorruption x id (Except.error.inj heq)

end Action

end ObjectSystem

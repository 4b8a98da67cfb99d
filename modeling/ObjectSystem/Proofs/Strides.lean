/-
# Where the descriptors of a world come from

The steps of `World.Steps` change an object in any way. What an operation really does to an
object is little: it trims it, gives a class a superclass or a slot for a value, or puts a new
object in. If the new object is a class, its descriptor was handed in by the user, copied from
a class that is there, or derived from one. `World.Strides` collects what can happen with this
in mind, for relations that look at what objects are.
-/

import ObjectSystem.Proofs.Population
import ObjectSystem.Proofs.Ways

namespace ObjectSystem

/-- Descriptors of some kind, of which the derived ones are too. -/
def Class.Heritable (known : Class → Prop) : Prop :=
  ∀ (parent d : Class) (handle : Handle) (name : String) (newAttrs : List Symbol)
    (newClasses : Option (List Handle)) (defaultClass : Handle) (symbols : SymbolTable),
    known parent →
      parent.derive handle name newAttrs newClasses defaultClass symbols = .ok d → known d

/-- The policy of operations that put in classes with descriptors of some kind only. -/
def Policy.handing (known : Class → Prop) : Policy where
  admits _ payload := ∀ d, payload = .descriptor d → known d
  declares _ := True

theorem Policy.standard_handing (known : Class → Prop) : (Policy.handing known).Standard := by
  rintro c _ payload _ _ hclass d rfl
  exact absurd trivial hclass

theorem Policy.generous_handing (known : Class → Prop) : (Policy.handing known).Generous :=
  ⟨trivial, trivial, trivial, trivial, trivial, trivial⟩

namespace World

/-- Every class of a world has a descriptor of some kind. -/
def Describing (w : World) (known : Class → Prop) : Prop :=
  ∀ c d, w.descriptor c = .ok d → known d

theorem describing_iff {w : World} {known : Class → Prop} : w.Describing known ↔
    ∀ x o d, w.objects.get? x = some o → o.payload = .descriptor d → known d := by
  simp only [Describing, descriptor_eq_ok_iff, payload?_eq_some_iff]
  exact ⟨fun h x o d ho hd => h x d ⟨o, ho, hd⟩, fun h x d ⟨o, ho, hd⟩ => h x o d ho hd⟩

/-- Everything that can happen to a world keeps a relation, if classes are put in with
descriptors of some kind only. -/
structure Strides (known : Class → Prop) (R : World → World → Prop) : Prop where
  trim : ∀ {w w' : World}, w.Trims w' → R w w'
  link : ∀ (w : World) (c superclass : Handle),
    R w (w.modifyDescriptor c (·.addSuperclass superclass))
  /-- A class gets a slot for a value under a symbol that is free. -/
  widen : ∀ (w : World) (c : Handle) (d : Class) (s : Symbol), s.isReserved = false →
    w.descriptor c = .ok d → d.slot s = .unmapped → R w (w.modifyDescriptor c (·.addClassAttr s))
  put : ∀ (w : World) (value : Handle → Object),
    (∀ x d, (value x).payload = .descriptor d → known d) →
      R w { w with objects := (w.objects.insertWith value).2 }
  register : ∀ (w : World) (c : Handle), R w { w with classes := w.classes.push c }

namespace Strides

open ObjectSystem.Action

variable {known : Class → Prop} {R : World → World → Prop} {w : World} {o : Object} {α : Type}
  (hstrides : Strides known R)

include hstrides

theorem of_trims {action : Action α} (haction : action.Keeps Trims) : action.Keeps R :=
  haction.imp fun _ _ => hstrides.trim

variable [IsPreorder World R]

theorem allocate (ho : ∀ d, o.payload = .descriptor d → known d) :
    (Action.allocate o).Keeps R := by
  refine keeps_allocate (hstrides.of_trims (Action.trims_collect [])) fun w _ => ?_
  have hpooled : R { w with objects := (w.admitObject o).2.objects } (w.admitObject o).2 :=
    hstrides.trim (.of_eq rfl rfl rfl)
  exact trans_of R (hstrides.put w (fun _ => o.setOwnership (.ofPool w.pools.current))
    fun _ => ho) hpooled

theorem allocatePinned (ho : ∀ d, o.payload = .descriptor d → known d) :
    (Action.allocatePinned o).Keeps R :=
  keeps_bind (keeps_modifyGet fun w => hstrides.put w (fun _ => o) fun _ => ho) fun x =>
    keeps_bind (hstrides.of_trims (trims_pin x)) fun _ => keeps_pure x

theorem routine {action : Action α} (hroutine : Routine (.handing known) action) :
    action.Keeps R :=
  hroutine.keeps (fun _ _ => hstrides.trim) hstrides.link hstrides.widen
    (fun _ _ hadmits _ _ _ => hstrides.allocate hadmits)
    fun _ _ _ hadmits _ _ => hstrides.allocatePinned hadmits

theorem registerClass {d : Class} (hd : known d) : (Action.registerClass d).Keeps R := by
  have hpayload : ∀ d', Payload.descriptor d = .descriptor d' → known d' := by
    rintro d' ⟨⟩
    exact hd
  exact keeps_bind (hstrides.allocatePinned hpayload) fun c =>
    keeps_bind (keeps_modify fun w => hstrides.register w c) fun _ => keeps_pure c

theorem shallowCopy (hknown : w.Describing known) (x : Handle) :
    R w ((Action.shallowCopy x).perform w).2 := by
  unfold Action.shallowCopy
  rw [perform_query_bind]
  unfold World.object
  cases ho : w.objects.get? x with
  | none => exact refl_of R w
  | some o =>
      have hkeeps : Action.Keeps R (do
          let copy ← Action.allocate o.duplicate
          o.duplicate.ownedRefs.forM share
          return copy) :=
        keeps_bind (hstrides.allocate fun d hd => describing_iff.1 hknown x o d ho hd) fun copy =>
          keeps_bind (keeps_forM fun y => hstrides.of_trims (trims_share y)) fun _ =>
            keeps_pure copy
      exact hkeeps w

theorem subclass (hknown : w.Describing known) (hheritable : Class.Heritable known)
    (parent : Handle) (name : String) (newAttrs : List Symbol)
    (newClasses : Option (List Handle)) :
    R w ((Action.subclass parent name newAttrs newClasses).perform w).2 := by
  unfold Action.subclass
  rw [perform_query_bind]
  split
  · next d hd =>
      obtain ⟨above, habove, hderive⟩ := exists_of_bind_eq_ok hd
      have hd := hheritable _ _ _ _ _ _ _ _ (hknown parent above habove) hderive
      exact hstrides.registerClass hd w
  · exact refl_of R w

/-- What comes after the built-in classes. -/
theorem makeObjects : Action.makeObjects.Keeps R :=
  keeps_bind (hstrides.allocatePinned nofun) fun _ =>
    keeps_bind (hstrides.allocatePinned nofun) fun _ =>
      hstrides.routine (routine_furnish (Policy.standard_handing known) trivial)

end Strides

end World

namespace Operation

open World

variable {α : Type} {w : World} {known : Class → Prop} {R : World → World → Prop}

/-- The operation is given the descriptor of a class to put in. -/
def Hands (d : Class) : {α : Type} → Operation α → Prop
  | _, allocate o => o.payload = .descriptor d
  | _, allocateOf _ payload _ => payload = .descriptor d
  | _, _ => False

/-- Whatever the operation and however it is misused, it keeps what strides keep, if the
descriptors that it is handed are of a kind with those that are there. -/
theorem strides [IsPreorder World R] (hstrides : Strides known R) (op : Operation α)
    (hhands : ∀ d, op.Hands d → known d) (hknown : w.Describing known)
    (hheritable : Class.Heritable known) : R w (op.perform w).2 := by
  have htrims : ∀ {β : Type} {m : Action β}, m.Keeps Trims → R w (m.perform w).2 :=
    fun h => hstrides.of_trims h w
  have hroutine : ∀ {β : Type} (op : Operation β), op.Within (.handing known) → ¬ op.IsRaw →
      R w (op.perform w).2 := fun op hwithin hraw =>
    hstrides.routine (op.routine_action (Policy.standard_handing known) hwithin hraw
      (licensed (Policy.generous_handing known) op)) w
  cases op with
  | allocate o => exact hstrides.allocate hhands w
  | allocateOf => exact hroutine _ hhands id
  | cell => exact hroutine _ nofun id
  | shallowCopy x => exact hstrides.shallowCopy hknown x
  | subclass parent name newAttrs newClasses =>
      exact hstrides.subclass hknown hheritable parent name newAttrs newClasses
  | openScope => exact htrims Action.trims_openScope
  | closeScope id result => exact htrims (Action.trims_closeScope id result)
  | releasePool id => exact htrims (Action.trims_releasePool id)
  | addToPool x id => exact htrims (Action.trims_addToPool x id)
  | removeFromPool x id => exact htrims (Action.trims_removeFromPool x id)
  | addRoot x => exact htrims (Action.keeps_modify fun _ => .of_eq rfl rfl rfl)
  | removeRoot x => exact htrims (Action.keeps_modifyGet fun _ => .of_eq rfl rfl rfl)
  | addSignature => exact hroutine _ (fun _ _ => trivial) id
  | defineMethod => exact hroutine _ (fun _ _ => trivial) id
  | _ => exact hroutine _ trivial id

end Operation

end ObjectSystem

/-
# What happens to bindings

As far as environments go, a run takes steps of three kinds. In a step at rest, what is there
before and afterwards has the same class, as many attributes and the same bindings. An assignment
changes the frame of its own environment as `Frame.bind` says, and no other frame. And a value may
be written straight into the slot of a binding.

Whatever respectful operations do, evaluations included, they take such steps. A handle that names
an environment before and afterwards has named it all along, unless so many objects were freed in
between that cells may have come back to their generations.
-/

import ObjectSystem.Proofs.Atomicity
import ObjectSystem.Proofs.Frame
import ObjectSystem.Proofs.Population
import ObjectSystem.Proofs.Soundness

namespace ObjectSystem

open Relation

namespace Object

variable {o o' o'' : Object}

/-- The object has the same class, as many attributes and the same bindings, if it has any. -/
structure Idles (o o' : Object) : Prop where
  classRef_eq : o'.classRef = o.classRef
  attrs_size : o'.attrs.size = o.attrs.size
  frame : o.SameFrame o'

theorem Idles.refl (o : Object) : o.Idles o :=
  ⟨rfl, rfl, sameFrame_of_payload_eq rfl⟩

theorem Idles.trans (hfirst : o.Idles o') (hsecond : o'.Idles o'') : o.Idles o'' where
  classRef_eq := hsecond.classRef_eq.trans hfirst.classRef_eq
  attrs_size := hsecond.attrs_size.trans hfirst.attrs_size
  frame := hfirst.frame.trans hsecond.frame

/-- What an object keeps while a world is trimmed, and no binding is written. -/
structure Rests (o o' : Object) : Prop extends Stays o o' where
  frame : o.SameFrame o'

theorem Rests.idles (hrests : o.Rests o') : o.Idles o' :=
  ⟨hrests.classRef_eq, hrests.attrs_size, hrests.frame⟩

instance : Leeway fun _ => Rests where
  stays h := h.toStays
  trans hfirst hsecond :=
    ⟨hfirst.toStays.trans hsecond.toStays, hfirst.frame.trans hsecond.frame⟩
  setHeader _ o h hpinned := ⟨o.stays_setHeader h hpinned, sameFrame_of_payload_eq rfl⟩

theorem rests_storeIn {s : Slot} (hs : ¬ s.IsBinding) (value : Option Handle) (o : Object) :
    o.Rests (s.storeIn value o) := by
  refine ⟨o.stays_storeIn s value, ?_⟩
  cases s with
  | attr x index => cases index <;> exact sameFrame_of_payload_eq rfl
  | binding => exact absurd trivial hs
  | element x index =>
      cases hpayload : o.payload with
      | elements values =>
          simp only [Slot.storeIn, hpayload]
          exact sameFrame_of_payload (fun _ h => by cases hpayload.symm.trans h)
            fun _ h => by cases h
      | _ => exact sameFrame_of_payload_eq (by simp only [Slot.storeIn, hpayload])
  | classAttr x index =>
      cases hpayload : o.payload with
      | descriptor d =>
          simp only [Slot.storeIn, hpayload]
          exact sameFrame_of_payload (fun _ h => by cases hpayload.symm.trans h)
            fun _ h => by cases h
      | _ => exact sameFrame_of_payload_eq (by simp only [Slot.storeIn, hpayload])
  | signature x index =>
      cases hpayload : o.payload with
      | method l =>
          simp only [Slot.storeIn, hpayload]
          exact sameFrame_of_payload (fun _ h => by cases hpayload.symm.trans h)
            fun _ h => by cases h
      | _ => exact sameFrame_of_payload_eq (by simp only [Slot.storeIn, hpayload])

/-- Storing a binding changes the frame at its index. -/
theorem payload_storeIn_binding {f : Frame} (hpayload : o.payload = .environment f) (env : Handle)
    (index : Nat) (value : Option Handle) :
    ((Slot.binding env index).storeIn value o).payload =
      .environment (f.setValue index value) := by
  simp [Slot.storeIn, hpayload, Frame.setValue]

end Object

namespace World

variable {w w' w'' w₁ w₂ : World} {o : Object} {env x : Handle} {name : Symbol} {value : Handle}
  {index : Nat}

/-- What is there before and afterwards has the same class, as many attributes and the same
bindings. -/
def Idles (w w' : World) : Prop :=
  ∀ x o o', w.objects.get? x = some o → w'.objects.get? x = some o' → o.Idles o'

theorem idles_of_objects_eq (hobjects : w'.objects = w.objects) : w.Idles w' := by
  intro x o o' ho ho'
  rw [hobjects] at ho'
  cases ho.symm.trans ho'
  exact .refl o

theorem TrimsBy.idles (htrims : w.TrimsBy (fun _ => Object.Rests) w') : w.Idles w' := by
  intro x o o' ho ho'
  obtain ⟨p, hp, hrests⟩ := htrims.objects.back x o' ho'
  cases hp.symm.trans ho
  exact hrests.idles

theorem AddsBy.idles (hadds : w.AddsBy (fun _ => Object.Rests) w' o) : w.Idles w' := by
  rcases hadds with htrims | ⟨y, own, w₁, w₂, hbefore, hadmits, hafter, hnew⟩
  · exact htrims.idles
  · intro x p p' hp hp'
    have hx : x ≠ y := by
      rintro rfl
      exact hnew ⟨p, hp⟩
    obtain ⟨p₂, hp₂, hsecond⟩ := hafter.objects.back x p' hp'
    rw [hadmits.puts.other hx] at hp₂
    exact (hbefore.idles x p p₂ hp hp₂).trans hsecond.idles

theorem idles_modifyObject {change : Object → Object} (w : World) (y : Handle)
    (hchange : ∀ o : Object, o.Idles (change o)) : w.Idles (w.modifyObject y change) := by
  intro x o o' ho ho'
  rw [modifyObject, Arena.get?_modify, ho] at ho'
  split at ho'
  · cases ho'
    exact hchange o
  · cases ho'
    exact .refl o

theorem idles_modifyDescriptor (w : World) (c : Handle) (change : Class → Class) :
    w.Idles (w.modifyDescriptor c change) :=
  w.idles_modifyObject c fun o => ⟨rfl, rfl, o.sameFrame_changeDescriptor change⟩

/-- What is there before and afterwards has the same class and as many attributes, and the same
bindings, but for those of one environment, whose frame has changed in one way. -/
structure Reframes (w w' : World) (env : Handle) (change : Frame → Frame) : Prop where
  same : ∀ x o o', w.objects.get? x = some o → w'.objects.get? x = some o' →
    o'.classRef = o.classRef ∧ o'.attrs.size = o.attrs.size ∧ (x ≠ env → o.SameFrame o')
  changed : ∀ o o' f, w.objects.get? env = some o → w'.objects.get? env = some o' →
    o.payload = .environment f → o'.payload = .environment (change f)

theorem reframes_modifyFrame (w : World) (env : Handle) (change : Frame → Frame) :
    w.Reframes (w.modifyFrame env change) env change where
  same x o o' ho ho' := by
    rw [modifyFrame, modifyPayload, modifyObject, Arena.get?_modify, ho] at ho'
    split at ho'
    · next hx =>
        cases ho'
        exact ⟨rfl, rfl, absurd hx⟩
    · cases ho'
      exact ⟨rfl, rfl, fun _ => Object.sameFrame_of_payload_eq rfl⟩
  changed o o' f ho ho' hf := by
    rw [modifyFrame, modifyPayload, modifyObject, Arena.get?_modify, if_pos rfl, ho] at ho'
    cases ho'
    simp only [hf]

theorem live_modifyFrame {change : Frame → Frame} (ho : w.objects.get? x = some o) :
    (w.modifyFrame env change).objects.Live x := by
  rw [Arena.Live, modifyFrame, modifyPayload, modifyObject, Arena.get?_modify, ho]
  split <;> exact ⟨_, rfl⟩

/-- What is said about a new name for which an environment has no room. -/
def fullNotice (w : World) (env : Handle) (capacity : Nat) (name : Symbol) : String :=
  let name := w.symbols.display name
  s!"environment {env.label} is full ({capacity} bindings), '{name}' not assigned"

/-- Two changes of one frame are a change, if nothing was freed by the first. -/
theorem Reframes.trans {change change' : Frame → Frame} (hfirst : w.Reframes w₁ env change)
    (hkept : ∀ x, w.objects.Live x → w₁.objects.Live x) (hsecond : w₁.Reframes w' env change') :
    w.Reframes w' env (change' ∘ change) where
  same x o o' ho ho' := by
    obtain ⟨p, hp⟩ := hkept x ⟨o, ho⟩
    obtain ⟨hclass, hattrs, hframe⟩ := hfirst.same x o p ho hp
    obtain ⟨hclass', hattrs', hframe'⟩ := hsecond.same x p o' hp ho'
    exact ⟨hclass'.trans hclass, hattrs'.trans hattrs, fun hx => (hframe hx).trans (hframe' hx)⟩
  changed o o' f ho ho' hf := by
    obtain ⟨p, hp⟩ := hkept env ⟨o, ho⟩
    exact hsecond.changed p o' _ hp ho' (hfirst.changed o p f ho hp hf)

/-- What matters of a change is what it makes of the frame that is there. -/
theorem Reframes.of_frame {change change' : Frame → Frame} {f : Frame}
    (hreframes : w.Reframes w' env change) (hframe : w.frame env = .ok f)
    (hsame : change f = change' f) : w.Reframes w' env change' where
  same := hreframes.same
  changed o o' g ho ho' hg := by
    obtain ⟨q, hq, hf⟩ := frame_eq_ok_iff.1 hframe
    cases hq.symm.trans ho
    cases hf.symm.trans hg
    rw [hreframes.changed o o' f ho ho' hg, hsame]

end World

namespace Action

open World

variable {α : Type} {π : Policy} {w w' : World} {env value : Handle} {name : Symbol} {index : Nat}
  {content : Option Handle} {action : Action α}

/-- Exchanging the value of a name changes one frame at one index. -/
theorem exchange_reframes {old : Option Handle}
    (hexchange : (exchange (.binding env index) old content).perform w = (.ok (), w')) :
    w.Reframes w' env (·.setValue index content) := by
  obtain ⟨_, w₁, hclaim, hrest⟩ := perform_bind_eq_ok_iff.1 hexchange
  obtain ⟨_, w₂, hstore, hrest⟩ := perform_bind_eq_ok_iff.1 hrest
  have hfirst : w.Idles w₁ := by
    have htrims : w.TrimsBy (fun _ => Object.Rests) _ :=
      keeps_optionForM (a := content) trims_claim w
    rw [hclaim] at htrims
    exact htrims.idles
  have hlast : w₂.TrimsBy (fun _ => Object.Rests) w' := by
    have htrims : w₂.TrimsBy (fun _ => Object.Rests) _ := keeps_optionForM (a := old) trims_letGo w₂
    rw [hrest] at htrims
    exact htrims
  have hstored : w₂ = w₁.store (.binding env index) content := by
    cases hstore
    rfl
  subst hstored
  have hback : ∀ x o o', w.objects.get? x = some o → w'.objects.get? x = some o' →
      ∃ p q, o.Idles p ∧ q = (if x = env then (Slot.binding env index).storeIn content p else p) ∧
        q.Idles o' := by
    intro x o o' ho ho'
    obtain ⟨q, hq, hrests⟩ := hlast.objects.back x o' ho'
    simp only [World.store, World.modifyObject, Arena.get?_modify, Slot.owner] at hq
    by_cases hx : x = env
    · rw [if_pos hx] at hq
      obtain ⟨p, hp, rfl⟩ := Option.map_eq_some_iff.1 hq
      exact ⟨p, _, hfirst x o p ho hp, by rw [if_pos hx], hrests.idles⟩
    · rw [if_neg hx] at hq
      exact ⟨q, q, hfirst x o q ho hq, by rw [if_neg hx], hrests.idles⟩
  refine ⟨fun x o o' ho ho' => ?_, fun o o' f ho ho' hf => ?_⟩
  · obtain ⟨p, q, hbefore, rfl, hafter⟩ := hback x o o' ho ho'
    split at hafter
    · next hx =>
        have hstays := p.stays_storeIn (.binding env index) content
        exact ⟨hafter.classRef_eq.trans (hstays.classRef_eq.trans hbefore.classRef_eq),
          hafter.attrs_size.trans (hstays.attrs_size.trans hbefore.attrs_size), absurd hx⟩
    · have hidles := hbefore.trans hafter
      exact ⟨hidles.classRef_eq, hidles.attrs_size, fun _ => hidles.frame⟩
  · obtain ⟨p, q, hbefore, rfl, hafter⟩ := hback env o o' ho ho'
    rw [if_pos rfl] at hafter
    exact (hafter.frame _).2
      (Object.payload_storeIn_binding ((hbefore.frame f).2 hf) env index content)

/-- Writing the value of a name changes one frame at one index. -/
theorem set_reframes (hset : (set (.binding env index) content).perform w = (.ok (), w')) :
    w.Reframes w' env (·.setValue index content) := by
  rcases set_spec w (.binding env index) content with ⟨e, hrefused, _⟩ | ⟨o, old, ho, hs, hcases⟩
  · cases hrefused.symm.trans hset
  · rcases hcases with ⟨rfl, hsame⟩ | ⟨_, _, hexchange⟩
    · cases hsame.symm.trans hset
      refine ⟨fun x p p' hp hp' => ?_, fun p p' f hp hp' hf => ?_⟩
      · cases hp.symm.trans hp'
        exact ⟨rfl, rfl, fun _ => Object.sameFrame_of_payload_eq rfl⟩
      · cases hp.symm.trans hp'
        cases ho.symm.trans hp
        simp only [Slot.peek?, hf] at hs
        rw [hf, Frame.setValue_eq_self hs]
    · exact exchange_reframes (hexchange.symm.trans hset)

/-- An assignment that succeeds binds the name in a frame that has it or has room for it;
one that does not leaves a warning that the frame is full. -/
theorem assign_outcome {bound : Bool}
    (hassign : (assign env name value).perform w = (.ok bound, w')) :
    ∃ f, w.frame env = .ok f ∧
      (bound = true ∧ (f.find? name ≠ none ∨ f.isFull = false) ∧
          w.Reframes w' env (·.bind name value) ∨
        bound = false ∧ f.find? name = none ∧ f.isFull = true ∧
          w' = w.warn (w.fullNotice env f.capacity name)) := by
  unfold assign at hassign
  rw [perform_query_bind] at hassign
  cases hvalue : w.object value with
  | error e =>
      rw [hvalue] at hassign
      cases hassign
  | ok p =>
      simp only [hvalue] at hassign
      rcases bindingIndex_cases env name w with ⟨e, _, hindex⟩ |
        ⟨f, hframe, ⟨index, hfind, hindex⟩ | ⟨hfind, ⟨hfull, hindex⟩ | ⟨hfull, hindex⟩⟩⟩
      · rw [perform_bind_error hindex] at hassign
        cases hassign
      · rw [perform_bind_ok hindex] at hassign
        obtain ⟨_, w₁, hset, hpure⟩ := perform_bind_eq_ok_iff.1 hassign
        cases hpure
        exact ⟨f, hframe, Or.inl ⟨rfl, Or.inl (by simp [hfind]),
          (set_reframes hset).of_frame hframe (by rw [Frame.bind, hfind])⟩⟩
      · rw [perform_bind_ok hindex] at hassign
        simp only at hassign
        rw [perform_query_bind, hframe] at hassign
        cases hassign
        exact ⟨f, hframe, Or.inr ⟨rfl, hfind, hfull, rfl⟩⟩
      · rw [perform_bind_ok hindex] at hassign
        obtain ⟨_, w₁, hset, hpure⟩ := perform_bind_eq_ok_iff.1 hassign
        cases hpure
        have hreframes := (w.reframes_modifyFrame env (·.addName name)).trans
          (fun x hx => hx.elim fun o ho => live_modifyFrame ho) (set_reframes hset)
        exact ⟨f, hframe, Or.inl ⟨rfl, Or.inr hfull,
          hreframes.of_frame hframe (by rw [Frame.bind, hfind]; rfl)⟩⟩

/-- A slot that is there takes any value but a stale one. -/
theorem exists_set {s : Slot} {o : Object} {old : Option Handle} (hcoherent : w.Coherent)
    (ho : w.objects.get? s.owner = some o) (hs : s.peek? o = some old)
    (hlive : ∀ x, content = some x → w.objects.Live x) :
    ∃ w', (set s content).perform w = (.ok (), w') := by
  rw [perform_set (Slot.isWritable_of_peek? hs), perform_query_bind, read_eq_ok_of_peek? ho hs]
  by_cases hne : old = content
  · exact ⟨w, by simp [hne]⟩
  · obtain ⟨w', _, _, hexchange, _⟩ := exchange_spec hcoherent ho hs hne hlive
    exact ⟨_, by simpa [hne] using hexchange⟩

/-- A live value is given to a name that the environment has or has room for. -/
theorem assign_succeeds {f : Frame} (hcoherent : w.Coherent) (hframe : w.frame env = .ok f)
    (hlive : w.objects.Live value) (hroom : f.find? name ≠ none ∨ f.isFull = false) :
    ∃ w', (assign env name value).perform w = (.ok true, w') := by
  obtain ⟨p, hp⟩ := hlive
  obtain ⟨o, ho, hpayload⟩ := frame_eq_ok_iff.1 hframe
  unfold assign
  rw [perform_query_bind, object_eq_ok hp]
  simp only
  rcases bindingIndex_cases env name w with ⟨e, hfails, _⟩ |
    ⟨g, hg, ⟨index, hfind, hindex⟩ | ⟨hfind, ⟨hfull, _⟩ | ⟨_, hindex⟩⟩⟩
  · cases hframe.symm.trans hfails
  · cases hframe.symm.trans hg
    obtain ⟨hlt, _⟩ := Array.findIdx?_eq_some_iff_getElem.1 hfind
    have hs : (Slot.binding env index).peek? o = some f.bindings[index].2 := by
      simp [Slot.peek?, hpayload, hlt]
    have hset : ∃ w', (set (.binding env index) (some value)).perform w = (.ok (), w') :=
      exists_set hcoherent ho hs fun x hx => Option.some.inj hx ▸ ⟨p, hp⟩
    obtain ⟨w', hset⟩ := hset
    rw [perform_bind_ok hindex]
    exact ⟨w', perform_bind_ok hset⟩
  · cases hframe.symm.trans hg
    simp [hfind, hfull] at hroom
  · cases hframe.symm.trans hg
    obtain ⟨w', hset⟩ := exists_set_addName hcoherent hframe ⟨p, hp⟩ name
    rw [perform_bind_ok hindex]
    exact ⟨w', perform_bind_ok hset⟩

/-- A new name is not taken by a full environment. -/
theorem assign_refused {f : Frame} (hframe : w.frame env = .ok f) (hlive : w.objects.Live value)
    (hfind : f.find? name = none) (hfull : f.isFull = true) :
    (assign env name value).perform w =
      (.ok false, w.warn (w.fullNotice env f.capacity name)) := by
  obtain ⟨p, hp⟩ := hlive
  unfold assign
  rw [perform_query_bind, object_eq_ok hp]
  simp only
  rcases bindingIndex_cases env name w with ⟨e, hfails, _⟩ |
    ⟨g, hg, ⟨index, hfound, _⟩ | ⟨_, ⟨_, hindex⟩ | ⟨hroom, _⟩⟩⟩
  · cases hframe.symm.trans hfails
  · cases hframe.symm.trans hg
    cases hfind.symm.trans hfound
  · rw [perform_bind_ok hindex]
    simp only
    rw [perform_query_bind, hframe]
    rfl
  · cases hframe.symm.trans hg
    cases hfull.symm.trans hroom

end Action

/-! ## Steps -/

/-- What is done to the bindings of an environment. -/
inductive Deed where
  /-- A name is given a value by assigning. -/
  | assign (env : Handle) (name : Symbol) (value : Handle)
  /-- The value at an index is written. -/
  | write (env : Handle) (index : Nat) (value : Option Handle)

namespace Deed

def IsAssign : Deed → Prop
  | assign _ _ _ => True
  | write _ _ _ => False

/-- A policy allows the deed. -/
def Licensed (π : Policy) : Deed → Prop
  | assign _ _ _ => π.assigns
  | write _ _ _ => π.binds

/-- What an assignment with this result has done. -/
def ofAssign (env : Handle) (name : Symbol) (value : Handle) : Except Error Bool → List Deed
  | .ok true => [assign env name value]
  | _ => []

/-- What writing a slot with this result has done to bindings. -/
def ofSet : Slot → Option Handle → Except Error Unit → List Deed
  | .binding env index, value, .ok () => [write env index value]
  | _, _, _ => []

theorem licensed_ofAssign {π : Policy} (hassigns : π.assigns) (env : Handle) (name : Symbol)
    (value : Handle) (result : Except Error Bool) :
    ∀ d ∈ ofAssign env name value result, d.Licensed π := by
  unfold ofAssign
  split
  · intro d hd
    cases List.mem_singleton.1 hd
    exact hassigns
  · nofun

theorem licensed_ofSet {π : Policy} {s : Slot} (hbinds : s.IsBinding → π.binds)
    (value : Option Handle) (result : Except Error Unit) :
    ∀ d ∈ ofSet s value result, d.Licensed π := by
  unfold ofSet
  split
  · intro d hd
    cases List.mem_singleton.1 hd
    exact hbinds trivial
  · nofun

theorem ofSet_of_not {s : Slot} (hs : ¬ s.IsBinding) (value : Option Handle)
    (result : Except Error Unit) : ofSet s value result = [] := by
  cases s with
  | binding => exact absurd trivial hs
  | _ => rfl

end Deed

namespace World

variable {w w' w'' w₁ w₂ : World} {env : Handle} {name : Symbol} {value : Handle}
  {P Q : World → Prop} {deeds news : List Deed}

/-- A step of a run, and what it does to the bindings of an environment, if it does anything. -/
inductive Beat (w : World) : Option Deed → World → Prop where
  | rest {w' : World} (hadvances : w.Advances w') (hcontinues : w.Continues w')
      (hidles : w.Idles w') : Beat w none w'
  | assign {w' : World} {env : Handle} {name : Symbol} {value : Handle}
      (hassign : (Action.assign env name value).perform w = (.ok true, w')) :
      Beat w (some (.assign env name value)) w'
  | write {w' : World} {env : Handle} {index : Nat} {value : Option Handle}
      (hset : (Action.set (.binding env index) value).perform w = (.ok (), w')) :
      Beat w (some (.write env index value)) w'

/-- Steps lead from one world to another, each of them to a world with a property. The last of
what they have done to bindings is in front. -/
inductive Beats (P : World → Prop) (w : World) : List Deed → World → Prop where
  | refl : Beats P w [] w
  | tail {deeds : List Deed} {w' w'' : World} {deed : Option Deed} (hbeats : Beats P w deeds w')
      (hbeat : w'.Beat deed w'') (hholds : P w'') : Beats P w (deed.toList ++ deeds) w''

theorem Beats.single {deed : Option Deed} (hbeat : w.Beat deed w') (hholds : P w') :
    w.Beats P deed.toList w' := by
  simpa using Beats.refl.tail hbeat hholds

theorem Beats.imp (hbeats : w.Beats P deeds w') (himp : ∀ v, P v → Q v) : w.Beats Q deeds w' := by
  induction hbeats with
  | refl => exact .refl
  | tail _ hbeat hholds ih => exact ih.tail hbeat (himp _ hholds)

/-- What holds at first and after each step holds at the end. -/
theorem Beats.holds (hbeats : w.Beats P deeds w') (hholds : P w) : P w' := by
  cases hbeats with
  | refl => exact hholds
  | tail _ _ hholds' => exact hholds'

theorem Beats.trans (hfirst : w.Beats P deeds w') (hsecond : w'.Beats P news w'') :
    w.Beats P (news ++ deeds) w'' := by
  induction hsecond with
  | refl => exact hfirst
  | tail _ hbeat hholds ih =>
      rw [List.append_assoc]
      exact ih.tail hbeat hholds

theorem Beat.advances {deed : Option Deed} (hbeat : w.Beat deed w') : w.Advances w' := by
  cases hbeat with
  | rest hadvances _ _ => exact hadvances
  | @assign _ env name value hassign =>
      exact (Action.composite_assign (π := .anything) env name value).advances.of_perform hassign
  | @write _ env index value hset =>
      exact (Action.Composite.set (π := .anything) (.binding env index) value).advances.of_perform
        hset

theorem Beats.advances (hbeats : w.Beats P deeds w') : w.Advances w' := by
  induction hbeats with
  | refl => exact refl_of Advances w
  | tail _ hbeat _ ih => exact trans_of Advances ih hbeat.advances

/-- Steps change no settings. -/
theorem Beat.settings_eq {deed : Option Deed} (hbeat : w.Beat deed w') :
    w'.settings = w.settings := by
  cases hbeat with
  | rest _ hcontinues _ => exact hcontinues
  | assign hassign =>
      exact (Action.Routine.assign (π := .anything) trivial _ _ _).continues.of_perform hassign
  | write hset =>
      exact (Action.Routine.set (π := .anything) _ _ (fun _ => trivial) (fun _ => trivial)
        fun _ => trivial).continues.of_perform hset

theorem Beats.settings_eq (hbeats : w.Beats P deeds w') : w'.settings = w.settings := by
  induction hbeats with
  | refl => rfl
  | tail _ hbeat _ ih => exact hbeat.settings_eq.trans ih

theorem Beats.of_idles (hadvances : w.Advances w') (hcontinues : w.Continues w')
    (hidles : w.Idles w') (hholds : P w') : w.Beats P [] w' :=
  .single (.rest hadvances hcontinues hidles) hholds

/-- What is there at the end has been there all along, unless so many objects were freed that its
cell may have come back to its generation. -/
theorem Beats.live (hbeats : w.Beats P deeds w') (hlive : w.objects.Live env)
    (hlive' : w'.objects.Live env) (hfew : w'.objects.removed < w.objects.removed + 2 ^ 32) :
    w.Beats (·.objects.Live env) deeds w' := by
  induction hbeats with
  | refl => exact .refl
  | tail hbeats hbeat _ ih =>
      obtain ⟨o, ho⟩ := hlive
      obtain ⟨o', ho'⟩ := hlive'
      have hturns := hbeat.advances.turns
      obtain ⟨p, hp⟩ := hbeats.advances.turns.get?_between hturns ho ho' hfew
      exact (ih ⟨p, hp⟩ (hturns.removed_le.trans_lt hfew)).tail hbeat ⟨o', ho'⟩

/-- A second world after the first whose parts agree, and in which the classes have kept what they
had. What was pinned is there. -/
structure Proceeds (w w' : World) : Prop extends Extends w w' where
  coherent : w'.Coherent
  pinned : ∀ x o, w.objects.get? x = some o → o.header.pinned = true →
    ∃ o', w'.objects.get? x = some o' ∧ o'.header.pinned = true

theorem Proceeds.refl (hcoherent : w.Coherent) (hordered : w.Ordered) : w.Proceeds w :=
  ⟨.refl hordered, hcoherent, fun _ o ho hpinned => ⟨o, ho, hpinned⟩⟩

theorem Proceeds.trans (hfirst : w.Proceeds w') (hsecond : w'.Proceeds w'') : w.Proceeds w'' where
  toExtends := hfirst.toExtends.trans hsecond.toExtends
  coherent := hsecond.coherent
  pinned x o ho hpinned := by
    obtain ⟨o', ho', hpinned'⟩ := hfirst.pinned x o ho hpinned
    exact hsecond.pinned x o' ho' hpinned'

theorem Proceeds.of_evolves (hextends : w.Extends w') (hevolves : w.Evolves w') :
    w.Proceeds w' where
  toExtends := hextends
  coherent := hevolves.coherent
  pinned x o ho hpinned := by
    obtain ⟨o', ho', hlasts⟩ := hevolves.pinned x o ho hpinned
    exact ⟨o', ho', hlasts.pinned⟩

/-- One world may come after another, and if that one was in order, this one is so, and steps
that the policy allows lead to it. -/
structure Paces (π : Policy) (w w' : World) : Prop where
  advances : w.Advances w'
  beats : π.Within w → w.Coherent → w.Tidy → w.Ordered → w'.Fits →
    w.Proceeds w' ∧ ∃ deeds, (∀ d ∈ deeds, d.Licensed π) ∧ w.Beats w.Proceeds deeds w'

instance {π : Policy} : IsPreorder World (Paces π) where
  refl w := ⟨refl_of Advances w, fun _ hcoherent _ hordered _ =>
    ⟨.refl hcoherent hordered, [], nofun, .refl⟩⟩
  trans _ _ _ hfirst hsecond := by
    refine ⟨trans_of Advances hfirst.advances hsecond.advances,
      fun hwithin hcoherent htidy hordered hfits => ?_⟩
    obtain ⟨hproceeds, deeds, hlicensed, hbeats⟩ :=
      hfirst.beats hwithin hcoherent htidy hordered (hsecond.advances.fits hfits)
    obtain ⟨hproceeds', news, hlicensed', hbeats'⟩ := hsecond.beats
      (hwithin.extend hproceeds.toExtends) hproceeds.coherent (hfirst.advances.tidy htidy)
      hproceeds.ordered hfits
    refine ⟨hproceeds.trans hproceeds', _, fun d hd => ?_,
      hbeats.trans (hbeats'.imp fun _ => hproceeds.trans)⟩
    exact (List.mem_append.1 hd).elim (hlicensed' d) (hlicensed d)

end World

namespace Action

open World

variable {α : Type} {π : Policy} {w : World} {action : Action α} {P : World → Prop}

theorem paces_of_trims (hadvances : action.Keeps Advances)
    (htrims : action.Keeps (TrimsBy fun _ => Object.Rests))
    (hcoherent : ∀ w, w.Coherent → (action.perform w).2.Fits → (action.perform w).2.Coherent) :
    action.Keeps (Paces π) := by
  refine fun w => ⟨hadvances w, fun _ hcoherent' _ hordered hfits => ?_⟩
  have hproceeds : w.Proceeds (action.perform w).2 := by
    refine ⟨(hordered.trim (htrims w).trims).toExtends, hcoherent w hcoherent' hfits,
      fun x o ho hpinned => ?_⟩
    obtain ⟨o', ho', hrests⟩ := (htrims w).objects.get? ho hpinned
    exact ⟨o', ho', hrests.pinned hpinned⟩
  exact ⟨hproceeds, [], nofun,
    .of_idles (hadvances w) (htrims w).settings_eq (htrims w).idles hproceeds⟩

/-- A routine paces if what it has done to bindings is known. -/
theorem Routine.paces_of_beats (hroutine : Routine π action)
    (hbeats : ∀ w, π.Within w → w.Coherent → w.Ordered →
      (action.perform w).2.objects.cells.size ≤ 2 ^ 32 → w.Proceeds (action.perform w).2 →
        ∃ deeds, (∀ d ∈ deeds, d.Licensed π) ∧ w.Beats w.Proceeds deeds (action.perform w).2) :
    action.Keeps (Paces π) := by
  refine fun w => ⟨hroutine.advances w, fun hwithin hcoherent htidy hordered hfits => ?_⟩
  have hproceeds : w.Proceeds (action.perform w).2 :=
    .of_evolves (hroutine.develops hordered hwithin.names hfits.cells_le).toExtends
      (hroutine.leadsTo hcoherent htidy hwithin hfits).evolves
  exact ⟨hproceeds, hbeats w hwithin hcoherent hordered hfits.cells_le hproceeds⟩

/-- A routine that idles is a step at rest. -/
theorem Routine.paces_of_idles (hroutine : Routine π action)
    (hidles : ∀ w, π.Within w → w.Ordered → (action.perform w).2.objects.cells.size ≤ 2 ^ 32 →
      w.Idles (action.perform w).2) : action.Keeps (Paces π) :=
  hroutine.paces_of_beats fun w hwithin _ hordered hcells hproceeds =>
    ⟨[], nofun, .of_idles (hroutine.advances w) (hroutine.continues w)
      (hidles w hwithin hordered hcells) hproceeds⟩

theorem Routine.paces_of_trims (hroutine : Routine π action)
    (htrims : action.Keeps (TrimsBy fun _ => Object.Rests)) : action.Keeps (Paces π) :=
  hroutine.paces_of_idles fun w _ _ _ => (htrims w).idles

theorem idles_allocateOf {c : Handle} {payload : Payload} {length : Nat} (hordered : w.Ordered)
    (hc : c ∈ w.classes)
    (hcells : ((allocateOf c payload length).perform w).2.objects.cells.size ≤ 2 ^ 32) :
    w.Idles ((allocateOf c payload length).perform w).2 := by
  obtain ⟨d, hd⟩ := hordered.described c hc
  unfold allocateOf at hcells ⊢
  rw [perform_query_bind, hd.describes.descriptor_eq] at hcells ⊢
  exact (adds_allocate hordered hc _ hcells).idles

theorem idles_addSuperclass (w : World) (c s : Handle) :
    w.Idles ((addSuperclass c s).perform w).2 := by
  rcases addSuperclass_cases c s w with ⟨_, hfails⟩ | ⟨_, hlinks⟩
  · rw [hfails]
    exact idles_of_objects_eq rfl
  · rw [hlinks]
    exact w.idles_modifyDescriptor c _

theorem idles_classAttrIndex (w : World) (c : Handle) (s : Symbol) :
    w.Idles ((classAttrIndex c s).perform w).2 := by
  rcases classAttrIndex_cases c s w with ⟨_, hsame⟩ | ⟨_, _, ⟨_, _, hsame⟩ | ⟨_, hadds⟩⟩
  · rw [hsame]
    exact idles_of_objects_eq rfl
  · rw [hsame]
    exact idles_of_objects_eq rfl
  · rw [hadds]
    exact w.idles_modifyDescriptor c _

theorem idles_subclass {parent : Handle} {name : String} {newAttrs : List Symbol}
    {newClasses : Option (List Handle)} (hordered : w.Ordered)
    (hcells : ((subclass parent name newAttrs newClasses).perform w).2.objects.cells.size ≤
      2 ^ 32) :
    w.Idles ((subclass parent name newAttrs newClasses).perform w).2 := by
  rcases subclass_cases hordered hcells with ⟨_, hfails⟩ | ⟨_, d, c, w', _, _, hperform, hadmits⟩
  · rw [hfails]
    exact idles_of_objects_eq rfl
  · rw [hperform]
    exact hadmits.adds.idles

/-- An assignment is one step, whatever comes of it. -/
theorem beats_assign (hcoherent : w.Coherent) (env : Handle) (name : Symbol) (value : Handle)
    (hholds : P ((assign env name value).perform w).2) :
    w.Beats P (Deed.ofAssign env name value ((assign env name value).perform w).1)
      ((assign env name value).perform w).2 := by
  have hadvances := (composite_assign (π := .anything) env name value).advances w
  cases hassign : (assign env name value).perform w with
  | mk result w' =>
      rw [hassign] at hholds hadvances
      cases result with
      | error e =>
          obtain ⟨rfl, _⟩ := atomic_assign hcoherent env name value e w' hassign
          exact .refl
      | ok bound =>
          obtain ⟨f, _, ⟨rfl, _, _⟩ | ⟨rfl, _, _, hwarn⟩⟩ := assign_outcome hassign
          · exact .single (.assign hassign) hholds
          · exact .of_idles hadvances (by rw [hwarn]; rfl)
              (idles_of_objects_eq (by rw [hwarn]; rfl)) hholds

/-- Writing a slot is one step, whatever comes of it. -/
theorem beats_set (hcoherent : w.Coherent) (s : Slot) (value : Option Handle)
    (hholds : P ((set s value).perform w).2) :
    w.Beats P (Deed.ofSet s value ((set s value).perform w).1) ((set s value).perform w).2 := by
  have hadvances := (Composite.set (π := .anything) s value).advances w
  by_cases hs : s.IsBinding
  · cases s with
    | binding env index =>
        cases hset : (set (.binding env index) value).perform w with
        | mk result w' =>
            rw [hset] at hholds
            cases result with
            | error e =>
                obtain ⟨rfl, _⟩ := atomic_set hcoherent _ value e w' hset
                exact .refl
            | ok _ => exact .single (.write hset) hholds
    | attr | element | classAttr | signature => exact hs.elim
  · rw [Deed.ofSet_of_not hs]
    have htrims : w.TrimsBy (fun _ => Object.Rests) ((set s value).perform w).2 :=
      trims_set (Object.rests_storeIn hs value) w
    exact .of_idles hadvances htrims.settings_eq htrims.idles hholds

/-- Routines take such steps. -/
theorem Routine.paces (hroutine : Routine π action) : action.Keeps (Paces π) := by
  induction hroutine with
  | pure a => exact keeps_pure a
  | throw e => exact keeps_throw e
  | query => exact keeps_query _
  | bind _ _ ihm ihf => exact keeps_bind ihm ihf
  | aside hf hnotes =>
      exact (Routine.aside hf hnotes).paces_of_trims (keeps_modifyGet fun w =>
        .of_eq (hf w).objects_eq (hf w).classes_eq (hf w).settings_eq)
  | @amend x change hchange hstays hsame habstains hframe =>
      exact (Routine.amend hchange hstays hsame habstains hframe).paces_of_idles fun w _ _ _ =>
        w.idles_modifyObject x fun o => ⟨(hstays o).classRef_eq, (hstays o).attrs_size, hframe o⟩
  | set s value hpokes hdefines hbinds =>
      exact (Routine.set s value hpokes hdefines hbinds).paces_of_beats
        fun w _ hcoherent _ _ hproceeds =>
          ⟨_, Deed.licensed_ofSet hbinds value _, beats_set hcoherent s value hproceeds⟩
  | assign hassigns env name value =>
      exact (Routine.assign hassigns env name value).paces_of_beats
        fun w _ hcoherent _ _ hproceeds =>
          ⟨_, Deed.licensed_ofAssign hassigns env name value _,
            beats_assign hcoherent env name value hproceeds⟩
  | setAttr x s value =>
      exact (Routine.setAttr x s value).paces_of_trims
        (trims_setAttr fun index => Object.rests_storeIn (s := .attr x index) id value)
  | allocateOf hadmits length =>
      exact (Routine.allocateOf hadmits length).paces_of_idles fun w hwithin hordered hcells =>
        idles_allocateOf hordered (hwithin.admits _ _ hadmits).1 hcells
  | @allocatePinnedOf c payload hlasts hadmits length =>
      refine (Routine.allocatePinnedOf hlasts hadmits length).paces_of_idles
        fun w hwithin hordered hcells => ?_
      obtain ⟨d, hd⟩ := hordered.described c (hwithin.admits _ _ hadmits).1
      rw [perform_query_bind, hd.describes.descriptor_eq] at hcells ⊢
      obtain ⟨x, w', hperform, hputs⟩ := admits_allocatePinned hordered hcells rfl
      simp only [hperform]
      exact hputs.adds.idles
  | addSuperclass c hdeclares =>
      exact (Routine.addSuperclass c hdeclares).paces_of_idles fun w _ _ _ =>
        idles_addSuperclass w c _
  | classAttrIndex c hs =>
      exact (Routine.classAttrIndex c hs).paces_of_idles fun w _ _ _ =>
        idles_classAttrIndex w c _
  | pin x => exact (Routine.pin x).paces_of_trims (trims_pin x)
  | collect extra => exact (Routine.collect extra).paces_of_trims (trims_collect extra)
  | scope _ ih =>
      refine keeps_bind (Action.paces_of_trims advances_openScope trims_openScope
        fun w hcoherent hfits => (openScope_spec hcoherent hfits).coherent) fun id =>
          keeps_bind (keeps_outcome ih) fun result => ?_
      exact Action.paces_of_trims (advances_closeScope id result) (trims_closeScope id result)
        fun w hcoherent _ => (evolves_closeScope hcoherent id result).coherent

end Action

namespace World

/-- What respectful operations may put into a world if they write no bindings but by assigning,
and assign only if they may. -/
def assignPolicy (w : World) (assigns : Prop) : Policy :=
  { w.policy with binds := False, assigns := assigns }

theorem assignPolicy_within (w : World) (assigns : Prop) : (w.assignPolicy assigns).Within w :=
  ⟨w.policy_within.admits, w.policy_within.declares⟩

theorem isAssign_of_licensed {w : World} {assigns : Prop} {d : Deed}
    (hlicensed : d.Licensed (w.assignPolicy assigns)) : d.IsAssign ∧ assigns := by
  cases d with
  | assign => exact ⟨trivial, hlicensed⟩
  | write => exact hlicensed.elim

end World

namespace Operation

variable {α : Type} {w : World} {a : Annals}

/-- What an operation has done to bindings: nothing, except for an assignment and for the writing of
a slot. -/
def Notes (w : World) (deeds : List Deed) : {α : Type} → Operation α → Prop
  | _, set s value => deeds = Deed.ofSet s value ((Action.set s value).perform w).1
  | _, assign env name value =>
      deeds = Deed.ofAssign env name value ((Action.assign env name value).perform w).1
  | _, _ => deeds = []

/-- Whatever an operation does, it takes such steps. -/
theorem beats (hcoherent : w.Coherent) (htidy : w.Tidy) (hequipped : w.Equipped)
    (htallies : w.Tallies a) (op : Operation α) (hrespects : op.Respects w)
    (hfits : (op.perform w).2.Fits) :
    w.Proceeds (op.perform w).2 ∧
      ∃ deeds, op.Notes w deeds ∧ w.Beats w.Proceeds deeds (op.perform w).2 := by
  have hordered := htallies.ordered
  have hregistered := htallies.bare.registered
  have hproceeds : w.Proceeds (op.perform w).2 :=
    .of_evolves (htallies.perform op (op.namesRegistered_of_respects hrespects) hfits.cells_le).2
      (op.evolves hcoherent htidy hequipped hrespects hfits).1
  refine ⟨hproceeds, ?_⟩
  have hidles : w.Idles (op.perform w).2 → w.Beats w.Proceeds [] (op.perform w).2 := fun h =>
    .of_idles (op.advances hrespects.unmarked w) (op.settings_perform w) h hproceeds
  have htrims : op.action.Keeps (World.TrimsBy fun _ => Object.Rests) →
      w.Beats w.Proceeds [] (op.perform w).2 := fun hkeeps => hidles (hkeeps w).idles
  have hroutine : ∀ assigns : Prop, op.Within (w.assignPolicy assigns) → ¬ op.IsRaw →
      op.Licensed (w.assignPolicy assigns) → ∃ deeds, (∀ d ∈ deeds, d.IsAssign ∧ assigns) ∧
        w.Beats w.Proceeds deeds (op.perform w).2 := by
    intro assigns hwithin hraw hlicensed
    have hstandard : (w.assignPolicy assigns).Standard := hequipped.standard
    obtain ⟨_, deeds, hdeeds, hbeats⟩ :=
      ((op.routine_action hstandard hwithin hraw hlicensed).paces w).beats
        (w.assignPolicy_within assigns) hcoherent htidy hordered hfits
    exact ⟨deeds, fun d hd => World.isAssign_of_licensed (hdeeds d hd), hbeats⟩
  have hnothing : op.Within (w.assignPolicy False) → ¬ op.IsRaw →
      op.Licensed (w.assignPolicy False) → w.Beats w.Proceeds [] (op.perform w).2 := by
    intro hwithin hraw hlicensed
    obtain ⟨deeds, hdeeds, hbeats⟩ := hroutine False hwithin hraw hlicensed
    rwa [List.eq_nil_iff_forall_not_mem.2 fun d hd => (hdeeds d hd).2] at hbeats
  cases op with
  | set s value => exact ⟨_, rfl, Action.beats_set hcoherent s value hproceeds⟩
  | assign env name value =>
      exact ⟨_, rfl, Action.beats_assign hcoherent env name value hproceeds⟩
  | allocate o =>
      exact ⟨[], rfl, hidles (Action.adds_allocate hordered hregistered _ hfits.cells_le).idles⟩
  | cell c head next => exact ⟨[], rfl, hnothing ⟨hrespects, rfl⟩ id trivial⟩
  | shallowCopy x =>
      have hkeeps : w.Keeps [] x := hrespects
      obtain ⟨o, ho⟩ := hkeeps.live
      exact ⟨[], rfl,
        hidles (Action.adds_shallowCopy hordered hregistered ho hfits.cells_le).idles⟩
  | subclass => exact ⟨[], rfl, hidles (Action.idles_subclass hordered hfits.cells_le)⟩
  | openScope => exact ⟨[], rfl, htrims Action.trims_openScope⟩
  | closeScope id' result => exact ⟨[], rfl, htrims (Action.trims_closeScope id' result)⟩
  | releasePool id' => exact ⟨[], rfl, htrims (Action.trims_releasePool id')⟩
  | addToPool | removeFromPool => exact hrespects.elim
  | addRoot => exact ⟨[], rfl, htrims (Action.keeps_modify fun _ => .of_eq rfl rfl rfl)⟩
  | removeRoot => exact ⟨[], rfl, htrims (Action.keeps_modifyGet fun _ => .of_eq rfl rfl rfl)⟩
  | addSignature | defineMethod => exact ⟨[], rfl, hnothing hrespects id trivial⟩
  | _ => exact ⟨[], rfl, hnothing hrespects id trivial⟩

end Operation

end ObjectSystem

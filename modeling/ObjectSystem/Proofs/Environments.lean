/-
# The frames of environments

A new environment has an empty frame with the capacity that the settings give it. In a run in
which bindings are written only by assigning, its frame records what was assigned: every step
leaves it as it is, or assigns to the environment and is recorded in front.
-/

import ObjectSystem.Proofs.Bindings
import ObjectSystem.Proofs.Building

namespace ObjectSystem

namespace Action

open World

variable {w w' : World} {c env x : Handle} {payload : Payload} {length : Nat}
  {parent : Option Handle}

/-- What is allocated is an object with as many attributes as its class says, all of them
empty. -/
theorem allocateOf_spec (hcoherent : w.Coherent) (htidy : w.Tidy) (hordered : w.Ordered)
    (hc : c ∈ w.classes) (hpayload : payload.refs = [])
    (hallocate : (allocateOf c payload length).perform w = (.ok x, w')) (hfits : w'.Fits) :
    w'.Coherent ∧ ∃ d own, w.Describes c d ∧ w'.objects.get? x =
      some ((Object.new c d.attrCount payload length .shared).setOwnership own) := by
  have hadmits : w.policy.admits c payload := ⟨hc, hpayload⟩
  have hleads := (composite_allocateOf hadmits length).leadsTo hcoherent htidy w.policy_within
    (by rw [hallocate]; exact hfits)
  rw [hallocate] at hleads
  refine ⟨hleads.evolves.coherent, ?_⟩
  obtain ⟨d, hd⟩ := hordered.described _ hc
  unfold allocateOf at hallocate
  rw [perform_query_bind, hd.describes.descriptor_eq] at hallocate
  simp only at hallocate
  obtain ⟨_, _, ⟨_, hfull⟩ | ⟨_, own, _, hput, hadmits', _⟩⟩ := admits_allocate hordered hc
    (.new c d.attrCount payload length .shared) (by rw [hallocate]; exact hfits.cells_le)
  · cases hfull.symm.trans hallocate
  · cases hput.symm.trans hallocate
    exact ⟨d, own, hd.describes, hadmits'.puts.self⟩

/-- A new environment is an object of its class with as many attributes as the class says and an
empty frame. -/
theorem newEnvironment_spec (hcoherent : w.Coherent) (htidy : w.Tidy) (hordered : w.Ordered)
    (hc : Builtin.environmentClass ∈ w.classes)
    (hmake : (newEnvironment parent).perform w = (.ok env, w')) (hfits : w'.Fits) :
    ∃ d o, w.Describes Builtin.environmentClass d ∧ w'.objects.get? env = some o ∧
      o.classRef = Builtin.environmentClass ∧ o.attrs.size = d.attrCount ∧
        o.payload = .environment { capacity := w.settings.environmentCapacity } := by
  let f : Frame := { capacity := w.settings.environmentCapacity }
  unfold newEnvironment at hmake
  obtain ⟨_, _, hget, hrest⟩ := perform_bind_eq_ok_iff.1 hmake
  cases hget
  obtain ⟨x, w₁, hallocate, hrest⟩ := perform_bind_eq_ok_iff.1 hrest
  have hnew : w₁.Fits → w₁.Coherent ∧ ∃ d own, w.Describes Builtin.environmentClass d ∧
      w₁.objects.get? x = some ((Object.new Builtin.environmentClass d.attrCount
        (.environment f) 0 .shared).setOwnership own) :=
    allocateOf_spec hcoherent htidy hordered hc rfl hallocate
  cases parent with
  | none =>
      cases hrest
      obtain ⟨_, d, own, hd, hx⟩ := hnew hfits
      exact ⟨d, _, hd, hx, rfl, by simp [Object.setOwnership, Object.new], rfl⟩
  | some outer =>
      obtain ⟨_, w₂, hset, hpure⟩ := perform_bind_eq_ok_iff.1 hrest
      cases hpure
      have hadvances :=
        (Routine.setAttr (π := .anything) env Symbol.parent (some outer)).advances w₁
      have htrims : w₁.TrimsBy (fun _ => Object.Rests)
          ((setAttr env Symbol.parent (some outer)).perform w₁).2 :=
        trims_setAttr (fun index => Object.rests_storeIn (s := .attr env index) id (some outer)) w₁
      rw [hset] at hadvances htrims
      obtain ⟨hcoherent₁, d, own, hd, hx⟩ := hnew (hadvances.fits hfits)
      rcases setAttr_cases (v := outer) hcoherent₁ hx fun _ _ _ => peek?_new with
        ⟨e, hfails⟩ | ⟨place, _, hset', _, htakes⟩
      · cases hfails.symm.trans hset
      · cases hset'.symm.trans hset
        have hown := htakes.owner _ hx
        have hidles := htrims.idles _ _ _ hx hown
        exact ⟨d, _, hd, hown, hidles.classRef_eq,
          hidles.attrs_size.trans (by simp [Object.setOwnership, Object.new]),
          (hidles.frame f).2 rfl⟩

end Action

namespace Deed

/-- What a deed assigns in an environment, if it does. -/
def assigned? (env : Handle) : Deed → Option (Symbol × Handle)
  | assign e name value => if e = env then some (name, value) else none
  | write _ _ _ => none

/-- What was assigned in an environment. -/
def assignments (env : Handle) (deeds : List Deed) : List (Symbol × Handle) :=
  deeds.filterMap (assigned? env)

theorem assignments_append (env : Handle) (news deeds : List Deed) :
    assignments env (news ++ deeds) = assignments env news ++ assignments env deeds :=
  List.filterMap_append

theorem assignments_toList_assign (env : Handle) (name : Symbol) (value : Handle) :
    assignments env (Option.some (assign env name value)).toList = [(name, value)] := by
  simp [assignments, assigned?]

theorem assignments_toList_assign_of_ne {env other : Handle} (hne : other ≠ env) (name : Symbol)
    (value : Handle) : assignments env (Option.some (assign other name value)).toList = [] := by
  simp [assignments, assigned?, hne]

end Deed

namespace World

variable {w w' : World} {env other : Handle} {capacity : Nat} {log : List (Symbol × Handle)}
  {deeds : List Deed} {f : Frame}

/-- The environment has a frame of this capacity that records what was assigned. -/
def Framed (w : World) (env : Handle) (capacity : Nat) (log : List (Symbol × Handle)) : Prop :=
  ∃ f, w.frame env = .ok f ∧ f.capacity = capacity ∧ f.size ≤ capacity ∧ f.Records log

/-- The frame of an object that idles is the same. -/
theorem Idles.frame_eq (hidles : w.Idles w') (hframe : w.frame env = .ok f)
    (hlive : w'.objects.Live env) : w'.frame env = .ok f := by
  obtain ⟨o, ho, hpayload⟩ := frame_eq_ok_iff.1 hframe
  obtain ⟨o', ho'⟩ := hlive
  exact frame_eq_ok_iff.2 ⟨o', ho', ((hidles env o o' ho ho').frame f).2 hpayload⟩

/-- The frames of other environments are the same. -/
theorem Reframes.frame_eq {change : Frame → Frame} (hreframes : w.Reframes w' other change)
    (hne : other ≠ env) (hframe : w.frame env = .ok f) (hlive : w'.objects.Live env) :
    w'.frame env = .ok f := by
  obtain ⟨o, ho, hpayload⟩ := frame_eq_ok_iff.1 hframe
  obtain ⟨o', ho'⟩ := hlive
  exact frame_eq_ok_iff.2
    ⟨o', ho', ((hreframes.same env o o' ho ho').2.2 hne.symm f).2 hpayload⟩

theorem Reframes.frame_eq_change {change : Frame → Frame} (hreframes : w.Reframes w' env change)
    (hframe : w.frame env = .ok f) (hlive : w'.objects.Live env) :
    w'.frame env = .ok (change f) := by
  obtain ⟨o, ho, hpayload⟩ := frame_eq_ok_iff.1 hframe
  obtain ⟨o', ho'⟩ := hlive
  exact frame_eq_ok_iff.2 ⟨o', ho', hreframes.changed o o' f ho ho' hpayload⟩

/-- An assignment to one environment does not touch the frame of another. -/
theorem frame_assign_of_ne {name : Symbol} {value : Handle} (hcoherent : w.Coherent)
    (hne : other ≠ env) (hframe : w.frame env = .ok f)
    (hlive : ((Action.assign other name value).perform w).2.objects.Live env) :
    ((Action.assign other name value).perform w).2.frame env = .ok f := by
  cases hassign : (Action.assign other name value).perform w with
  | mk result w' =>
      rw [hassign] at hlive
      cases result with
      | error e =>
          obtain ⟨rfl, _⟩ := Action.atomic_assign hcoherent other name value e w' hassign
          exact hframe
      | ok bound =>
          obtain ⟨_, _, ⟨rfl, _, hreframes⟩ | ⟨rfl, _, _, hwarn⟩⟩ := Action.assign_outcome hassign
          · exact hreframes.frame_eq hne hframe hlive
          · rw [hwarn, frame_congr (show (w.warn _).objects = w.objects from rfl), hframe]

/-- A step that writes no binding but by assigning is recorded. -/
theorem Framed.beat {deed : Option Deed} (hframed : w.Framed env capacity log)
    (hbeat : w.Beat deed w') (hassigns : ∀ d ∈ deed.toList, d.IsAssign)
    (hlive : w'.objects.Live env) :
    w'.Framed env capacity (Deed.assignments env deed.toList ++ log) := by
  obtain ⟨f, hframe, hcapacity, hsize, hrecords⟩ := hframed
  cases hbeat with
  | rest _ _ hidles => exact ⟨f, hidles.frame_eq hframe hlive, hcapacity, hsize, hrecords⟩
  | @assign _ e name value hassign =>
      obtain ⟨g, hg, ⟨_, hroom, hreframes⟩ | ⟨hfalse, _⟩⟩ := Action.assign_outcome hassign
      · by_cases he : e = env
        · subst he
          cases hframe.symm.trans hg
          rw [Deed.assignments_toList_assign]
          exact ⟨f.bind name value, hreframes.frame_eq_change hframe hlive,
            (f.capacity_bind name value).trans hcapacity,
            hcapacity ▸ Frame.size_bind_le (hcapacity ▸ hsize) hroom, hrecords.bind name value⟩
        · rw [Deed.assignments_toList_assign_of_ne he]
          exact ⟨f, hreframes.frame_eq he hframe hlive, hcapacity, hsize, hrecords⟩
      · cases hfalse
  | write _ => exact absurd (hassigns _ List.mem_cons_self) id

/-- In a run that writes no binding but by assigning, the frame of an environment that is there
all along records what was assigned. -/
theorem Framed.beats (hframed : w.Framed env capacity log)
    (hbeats : w.Beats (·.objects.Live env) deeds w') (hassigns : ∀ d ∈ deeds, d.IsAssign) :
    w'.Framed env capacity (Deed.assignments env deeds ++ log) := by
  induction hbeats with
  | refl => exact hframed
  | tail _ hbeat hlive ih =>
      have hframed' := ih fun d hd => hassigns d (List.mem_append_right _ hd)
      rw [Deed.assignments_append, List.append_assoc]
      exact hframed'.beat hbeat (fun d hd => hassigns d (List.mem_append_left _ hd)) hlive

/-- An environment was made after a world in order had been there, and is there ever since. This is
what was done to bindings in the meantime. -/
structure Stems (base w : World) (env : Handle) (deeds : List Deed) : Prop where
  derived : base.Derived Builtin.environmentClass Builtin.objectClass [Symbol.parent]
  grown : base.Extends w
  made : ∃ origin parent made, base.Proceeds origin ∧ origin.Tidy ∧
    origin.settings = base.settings ∧
      (Action.newEnvironment parent).perform origin = (.ok env, made) ∧
      made.Beats (·.objects.Live env) deeds w

namespace Stems

variable {base : World} {news : List Deed}

theorem step (hstems : base.Stems w env deeds) (hextends : w.Extends w')
    (hbeats : w.Beats (·.objects.Live env) news w') : base.Stems w' env (news ++ deeds) where
  derived := hstems.derived
  grown := hstems.grown.trans hextends
  made := by
    obtain ⟨origin, parent, made, hproceeds, htidy, hsettings, hmake, hbefore⟩ := hstems.made
    exact ⟨origin, parent, made, hproceeds, htidy, hsettings, hmake, hbefore.trans hbeats⟩

/-- At first it was an object of its class as the class has always been, with an empty frame. -/
theorem exists_new (hstems : base.Stems w env deeds) (hfits : w.Fits) :
    ∃ (made : World) (o : Object) (d : Class), made.Beats (·.objects.Live env) deeds w ∧
      base.Describes Builtin.environmentClass d ∧ made.objects.get? env = some o ∧
        o.classRef = Builtin.environmentClass ∧ o.attrs.size = d.attrCount ∧
          o.payload = .environment { capacity := base.settings.environmentCapacity } := by
  obtain ⟨origin, parent, made, hproceeds, htidy, hsettings, hmake, hbeats⟩ := hstems.made
  obtain ⟨hbase, _, _, d, _, hd, _⟩ := hstems.derived
  obtain ⟨d', hd', hgrows⟩ := hproceeds.described _ hbase d hd
  obtain ⟨e, o, he, ho, hclass, hattrs, hpayload⟩ := Action.newEnvironment_spec
    hproceeds.coherent htidy hproceeds.ordered (hproceeds.classes _ hbase) hmake
      (hbeats.advances.fits hfits)
  cases he.unique hd'
  exact ⟨made, o, d, hbeats, hd, ho, hclass, hattrs.trans hgrows.attrCount_eq, hsettings ▸ hpayload⟩

/-- Its frame records what was assigned, if bindings were written only by assigning. -/
theorem framed (hstems : base.Stems w env deeds) (hfits : w.Fits)
    (hassigns : ∀ d ∈ deeds, d.IsAssign) :
    w.Framed env base.settings.environmentCapacity (Deed.assignments env deeds) := by
  obtain ⟨made, o, _, hbeats, _, ho, _, _, hpayload⟩ := hstems.exists_new hfits
  have hframed : made.Framed env base.settings.environmentCapacity [] :=
    ⟨_, frame_eq_ok_iff.2 ⟨o, ho, hpayload⟩, rfl, Nat.zero_le _, Frame.records_empty _⟩
  simpa using hframed.beats hbeats hassigns

end Stems

end World

end ObjectSystem

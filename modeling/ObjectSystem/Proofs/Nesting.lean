/-
# Environments inside one another

A name is looked up from an environment outwards, along the parents. The environments of a run stay
environments with a place for a parent, whatever is done to their bindings, and the null object is
never one. So the nearest environment that has a value for the name gives the answer, and if none
has, it depends on where the parents end: without a parent the answer is that there is none, but a
parent that is the null object is taken for an environment, and that is an error.
-/

import ObjectSystem.Proofs.Chronicle
import ObjectSystem.Proofs.Links

namespace ObjectSystem

namespace Object

variable {o o' : Object}

/-- Whether the object has a frame of bindings. -/
def isEnvironment (o : Object) : Bool :=
  match o.payload with
  | .environment _ => true
  | _ => false

theorem isEnvironment_iff : o.isEnvironment = true ↔ ∃ f, o.payload = .environment f := by
  unfold isEnvironment
  cases o.payload <;> simp

theorem SameFrame.isEnvironment_eq (hsame : o.SameFrame o') :
    o'.isEnvironment = o.isEnvironment := by
  rw [Bool.eq_iff_iff, isEnvironment_iff, isEnvironment_iff]
  exact exists_congr hsame

/-- What never changes about an object: its class, the number of its attributes, and whether it is
an environment. -/
def nature (o : Object) : Handle × Nat × Bool :=
  (o.classRef, o.attrs.size, o.isEnvironment)

theorem nature_eq (hclass : o'.classRef = o.classRef) (hattrs : o'.attrs.size = o.attrs.size)
    (henvironment : o'.isEnvironment = o.isEnvironment) : o'.nature = o.nature := by
  rw [nature, hclass, hattrs, henvironment, nature]

end Object

namespace World

variable {settings : Settings} {w w' : World} {env x : Handle} {o o' : Object} {f : Frame}
  {name : Symbol} {deeds : List Deed}

/-! ## What environments stay -/

theorem Reframes.nature_eq {change : Frame → Frame} (hreframes : w.Reframes w' env change)
    (hframe : w.frame env = .ok f) (ho : w.objects.get? x = some o)
    (ho' : w'.objects.get? x = some o') : o'.nature = o.nature := by
  obtain ⟨hclass, hattrs, hsame⟩ := hreframes.same x o o' ho ho'
  refine Object.nature_eq hclass hattrs ?_
  by_cases hx : x = env
  · subst hx
    obtain ⟨p, hp, hpayload⟩ := frame_eq_ok_iff.1 hframe
    cases hp.symm.trans ho
    rw [Object.isEnvironment_iff.2 ⟨f, hpayload⟩,
      Object.isEnvironment_iff.2 ⟨_, hreframes.changed o o' f ho ho' hpayload⟩]
  · exact (hsame hx).isEnvironment_eq

/-- Bindings are written in environments only. -/
theorem exists_frame_of_set {index : Nat} {value : Option Handle}
    (hset : (Action.set (.binding env index) value).perform w = (.ok (), w')) :
    ∃ f, w.frame env = .ok f := by
  rcases Action.set_spec w (.binding env index) value with ⟨e, hfails, _⟩ | ⟨o, old, ho, hs, _⟩
  · cases hfails.symm.trans hset
  · cases hpayload : o.payload with
    | environment f => exact ⟨f, frame_eq_ok_iff.2 ⟨o, ho, hpayload⟩⟩
    | _ => simp [Slot.peek?, hpayload] at hs

theorem Beat.nature_eq {deed : Option Deed} (hbeat : w.Beat deed w')
    (ho : w.objects.get? x = some o) (ho' : w'.objects.get? x = some o') :
    o'.nature = o.nature := by
  cases hbeat with
  | rest _ _ hidles =>
      have h := hidles x o o' ho ho'
      exact Object.nature_eq h.classRef_eq h.attrs_size h.frame.isEnvironment_eq
  | assign hassign =>
      obtain ⟨f, hframe, ⟨_, _, hreframes⟩ | ⟨hfalse, _⟩⟩ := Action.assign_outcome hassign
      · exact hreframes.nature_eq hframe ho ho'
      · cases hfalse
  | write hset =>
      obtain ⟨f, hframe⟩ := exists_frame_of_set hset
      exact (Action.set_reframes hset).nature_eq hframe ho ho'

/-- An object that is there all along keeps its nature. -/
theorem Beats.nature_eq (hbeats : w.Beats (·.objects.Live x) deeds w')
    (ho : w.objects.get? x = some o) (ho' : w'.objects.get? x = some o') :
    o'.nature = o.nature := by
  induction hbeats generalizing o' with
  | refl =>
      cases ho.symm.trans ho'
      rfl
  | tail hbeats hbeat _ ih =>
      obtain ⟨p, hp⟩ := hbeats.holds ⟨o, ho⟩
      exact (hbeat.nature_eq hp ho').trans (ih hp)

/-- An environment of a run is a well laid object of its class, and has a frame. -/
theorem Chronicle.exists_fitting (hchronicle : Chronicle settings env deeds w) (hfits : w.Fits) :
    ∃ o d place, w.objects.get? env = some o ∧ w.Fitting o d ∧
      d.slot Symbol.parent = .inInstance place ∧ ∃ f, o.payload = .environment f := by
  obtain ⟨base, _, hstems⟩ := hchronicle.stems hfits
  obtain ⟨made, p, d₀, hbeats, hd₀, hp, hclass, hattrs, hpayload⟩ := hstems.exists_new hfits
  obtain ⟨hbase, _, above, d₁, _, hd₁, hextends⟩ := hstems.derived
  cases hd₁.unique hd₀
  obtain ⟨place, hplace, _⟩ := hextends.added 0 Symbol.parent rfl
  obtain ⟨d, hd, hgrows⟩ := hstems.grown.described _ hbase d₀ hd₀
  obtain ⟨o, ho⟩ := hbeats.holds ⟨p, hp⟩
  have hnature := hbeats.nature_eq hp ho
  simp only [Object.nature, Prod.mk.injEq] at hnature
  obtain ⟨hclass', hattrs', hframe⟩ := hnature
  rw [Object.isEnvironment_iff.2 ⟨_, hpayload⟩] at hframe
  have hmem := hstems.grown.classes _ hbase
  obtain ⟨inst, own, hlaid⟩ := (hstems.grown.ordered.orders hmem hd).laid
  have hclassRef := hclass'.trans hclass
  refine ⟨o, d, place, ho, ⟨hclassRef ▸ hmem, hclassRef ▸ hd, hlaid.wellLaid, ?_⟩,
    (hgrows.inInstance_iff _ _).2 hplace, Object.isEnvironment_iff.1 hframe⟩
  rw [hattrs', hattrs, hgrows.attrCount_eq]

/-- The parent of an environment can be read, whether there is one or not. -/
theorem Chronicle.exists_parent (hchronicle : Chronicle settings env deeds w) (hfits : w.Fits) :
    ∃ outer, w.getAttr env Symbol.parent = .ok outer := by
  obtain ⟨o, d, place, ho, hfitting, hslot, _⟩ := hchronicle.exists_fitting hfits
  exact hfitting.exists_getAttr ho (by decide) hslot

theorem Chronicle.exists_lookupLocal (hchronicle : Chronicle settings env deeds w) (hfits : w.Fits)
    (name : Symbol) : ∃ value, w.lookupLocal env name = .ok value := by
  obtain ⟨o, d, place, ho, _, _, f, hpayload⟩ := hchronicle.exists_fitting hfits
  refine ⟨f.get? name, ?_⟩
  rw [lookupLocal, frame_eq_ok_iff.2 ⟨o, ho, hpayload⟩]
  rfl

/-! ## The null object -/

/-- An object is there for good, and it is no environment. -/
def Barren (w : World) (x : Handle) : Prop :=
  ∃ o, w.objects.get? x = some o ∧ o.header.pinned = true ∧ o.isEnvironment = false

theorem Barren.beats (hbarren : w.Barren x) (hproceeds : w.Proceeds w')
    (hbeats : w.Beats w.Proceeds deeds w') : w'.Barren x := by
  obtain ⟨o, ho, hpinned, hother⟩ := hbarren
  obtain ⟨o', ho', hpinned'⟩ := hproceeds.pinned x o ho hpinned
  have hlive : w.Beats (·.objects.Live x) deeds w' := hbeats.imp fun v hv => by
    obtain ⟨p, hp, _⟩ := hv.pinned x o ho hpinned
    exact ⟨p, hp⟩
  have hnature := hlive.nature_eq ho ho'
  simp only [Object.nature, Prod.mk.injEq] at hnature
  exact ⟨o', ho', hpinned', hnature.2.2.trans hother⟩

theorem Barren.lookupLocal_eq (hbarren : w.Barren x) (name : Symbol) :
    w.lookupLocal x name = .error (w.mismatch "environment" x) := by
  obtain ⟨o, ho, _, hother⟩ := hbarren
  have hframe : w.frame x = .error (w.mismatch "environment" x) := by
    rw [frame, object_eq_ok ho]
    cases hpayload : o.payload with
    | environment f =>
        rw [Object.isEnvironment_iff.2 ⟨f, hpayload⟩] at hother
        cases hother
    | _ => simp [bind, Except.bind, hpayload, throw, throwThe, MonadExceptOf.throw]
  rw [lookupLocal, hframe]
  rfl

/-- The null object of a new world is the first that is made after the classes. -/
theorem barren_null_create (hcreate : create settings = .ok w) (hfits : w.Fits) :
    w.Barren Builtin.null := by
  obtain ⟨hcapacity, w₀, hclasses, hobjects⟩ := exists_of_create hcreate
  have houtset₀ := outset_makeClasses hcapacity hclasses
  unfold Action.makeObjects at hobjects
  obtain ⟨null, w₁, hnull, hobjects⟩ := Action.perform_bind_eq_ok_iff.1 hobjects
  obtain ⟨empty, w₂, hsymbol, hfurnish⟩ := Action.perform_bind_eq_ok_iff.1 hobjects
  have hfits₂ : w₂.Fits :=
    ((Action.routine_furnish Policy.standard_anything trivial).advances.of_perform
      hfurnish).fits hfits
  have hfits₁ : w₁.Fits :=
    ((Action.Composite.allocatePinned (π := .anything) trivial 0 0).advances.of_perform
      hsymbol).fits hfits₂
  have houtset₁ := houtset₀.allocatePinned (by decide) (by decide) rfl hnull hfits₁
  have houtset₂ := houtset₁.allocatePinned (by decide) (by decide) rfl hsymbol hfits₂
  obtain ⟨rfl, hputs⟩ := houtset₀.puts_allocatePinned (by decide) hnull hfits₁
  obtain ⟨rfl, hputs'⟩ := houtset₁.puts_allocatePinned (by decide) hsymbol hfits₂
  have hbarren : w₂.Barren Builtin.null :=
    ⟨_, (hputs'.other (by decide)).trans hputs.self, rfl, rfl⟩
  obtain ⟨hproceeds, _, _, hbeats⟩ := ((Action.routine_furnish houtset₂.standard trivial).paces
    w₂).beats w₂.policy_within houtset₂.coherent houtset₂.tidy houtset₂.ordered
      (by rw [hfurnish]; exact hfits)
  rw [hfurnish] at hproceeds hbeats
  exact hbarren.beats hproceeds hbeats

/-- Whatever is done in a run, the null object does not become an environment. -/
theorem Respectful.barren_null (hrespectful : Respectful settings w) (hfits : w.Fits) :
    w.Barren Builtin.null := by
  induction hrespectful with
  | create hcreate => exact barren_null_create hcreate hfits
  | step hrespectful op hrespects ih =>
      obtain ⟨hproceeds, _, _, hbeats⟩ := hrespectful.beats op hrespects hfits
      exact (ih ((op.spends _).fits hfits)).beats hproceeds hbeats

/-! ## Looking up -/

/-- What can be read as the parent of an environment. -/
def around (w : World) (env : Handle) : Option Handle :=
  (w.getAttr env Symbol.parent).toOption.join

/-- What an environment itself gives for a name. -/
def bound (w : World) (name : Symbol) (env : Handle) : Option Handle :=
  (w.lookupLocal env name).toOption.join

/-- Environments of a run, one around the other, from an inner one to the last. There the parents
end: nothing is around it, or the null object is. -/
inductive Nested (settings : Settings) (w : World) : Option Handle → Handle → List Handle → Prop
    where
  | outermost {env : Handle} {deeds : List Deed} (hmade : Chronicle settings env deeds w)
      (haround : w.around env = none) : Nested settings w none env [env]
  | null {env : Handle} {deeds : List Deed} (hmade : Chronicle settings env deeds w)
      (haround : w.around env = some Builtin.null) :
      Nested settings w (some Builtin.null) env [env]
  | inside {ending : Option Handle} {env outer : Handle} {deeds : List Deed} {chain : List Handle}
      (hmade : Chronicle settings env deeds w) (haround : w.around env = some outer)
      (houter : Nested settings w ending outer chain) : Nested settings w ending env (env :: chain)

/-- The answer of the nearest environment that has a value, and else that of the end. -/
def nearest (w : World) (name : Symbol) (ending : Option Handle) (chain : List Handle) :
    Except Error (Option Handle) :=
  match chain.findSome? (w.bound name), ending with
  | some value, _ => .ok (some value)
  | none, none => .ok none
  | none, some x => .error (w.mismatch "environment" x)

theorem nearest_cons (w : World) (name : Symbol) (ending : Option Handle) (env : Handle)
    (chain : List Handle) : w.nearest name ending (env :: chain) =
      match w.bound name env with
      | some value => .ok (some value)
      | none => w.nearest name ending chain := by
  unfold nearest
  rw [List.findSome?_cons]
  cases w.bound name env <;> rfl

section Steps

variable {ending : Option Handle} {chain : List Handle} {n : Nat}
  (hmade : Chronicle settings env deeds w) (hfits : w.Fits)
include hmade hfits

theorem Chronicle.getAttr_eq_around : w.getAttr env Symbol.parent = .ok (w.around env) := by
  obtain ⟨outer, houter⟩ := hmade.exists_parent hfits
  rw [around, houter]
  rfl

theorem Chronicle.lookupLocal_eq_bound (name : Symbol) :
    w.lookupLocal env name = .ok (w.bound name env) := by
  obtain ⟨value, hvalue⟩ := hmade.exists_lookupLocal hfits name
  rw [bound, hvalue]
  rfl

/-- Looking up a name in an environment asks it first, and then what is around it. -/
theorem Chronicle.lookupWithin_succ (name : Symbol) (n : Nat) :
    w.lookupWithin name (n + 1) env =
      match w.bound name env, w.around env with
      | some value, _ => .ok (some value)
      | none, none => .ok none
      | none, some outer => w.lookupWithin name n outer := by
  rw [lookupWithin, hmade.lookupLocal_eq_bound hfits]
  cases w.bound name env with
  | some value => rfl
  | none =>
      simp only [bind, Except.bind, hmade.getAttr_eq_around hfits]
      cases w.around env <;> rfl

end Steps

/-- Enough steps lead to the answer. The last of them is taken at the null object, if that is where
the parents end. -/
theorem Nested.lookupWithin_eq {ending : Option Handle} {chain : List Handle} {n : Nat}
    (hnested : Nested settings w ending env chain) (hfits : w.Fits) (name : Symbol)
    (hn : chain.length < n) : w.lookupWithin name n env = w.nearest name ending chain := by
  induction hnested generalizing n with
  | @outermost env _ hmade haround =>
      obtain ⟨n, rfl⟩ := Nat.exists_eq_add_of_lt hn
      rw [hmade.lookupWithin_succ hfits, haround, nearest_cons]
      cases w.bound name env <;> rfl
  | @null env _ hmade haround =>
      obtain ⟨n, rfl⟩ := Nat.exists_eq_add_of_lt hn
      rw [hmade.lookupWithin_succ hfits, haround, nearest_cons]
      cases w.bound name env with
      | some value => rfl
      | none =>
          have hnull := hmade.respectful.barren_null hfits
          rw [List.length_singleton, Nat.add_comm]
          simp only [lookupWithin, hnull.lookupLocal_eq name]
          rfl
  | @inside ending env outer _ chain hmade haround _ ih =>
      obtain ⟨n, rfl⟩ := Nat.exists_eq_add_of_lt hn
      rw [hmade.lookupWithin_succ hfits, haround, nearest_cons]
      cases w.bound name env with
      | some value => rfl
      | none => exact ih (by simp only [List.length_cons]; omega)

theorem Nested.mem_self {ending : Option Handle} {chain : List Handle}
    (hnested : Nested settings w ending env chain) : env ∈ chain := by
  cases hnested <;> exact List.mem_cons_self

theorem Nested.exists_chronicle {ending : Option Handle} {chain : List Handle}
    (hnested : Nested settings w ending env chain) :
    ∀ e ∈ chain, ∃ deeds, Chronicle settings e deeds w := by
  induction hnested with
  | outermost hmade _ => exact fun e he => ⟨_, List.mem_singleton.1 he ▸ hmade⟩
  | null hmade _ => exact fun e he => ⟨_, List.mem_singleton.1 he ▸ hmade⟩
  | inside hmade _ _ ih =>
      intro e he
      rcases List.mem_cons.1 he with rfl | he
      · exact ⟨_, hmade⟩
      · exact ih e he

/-- Looking up a name finds the nearest environment that has a value for it, along however many
parents. If none has, the answer is that there is none, unless the parents end with the null object:
then it is an error that this is no environment. Nothing else goes wrong on the way. -/
theorem Nested.lookup_nearest {ending : Option Handle} {chain : List Handle}
    (hnested : Nested settings w ending env chain) (hfits : w.Fits) (name : Symbol) :
    (∀ e ∈ chain, w.lookupLocal e name = .ok (w.bound name e) ∧
      w.getAttr e Symbol.parent = .ok (w.around e)) ∧
    w.lookup env name = w.nearest name ending chain := by
  have hmade := hnested.exists_chronicle
  refine ⟨fun e he => ?_, ?_⟩
  · obtain ⟨deeds, hchronicle⟩ := hmade e he
    exact ⟨hchronicle.lookupLocal_eq_bound hfits name, hchronicle.getAttr_eq_around hfits⟩
  · obtain ⟨deeds, hchronicle⟩ := hmade env hnested.mem_self
    have hreachable := hchronicle.respectful.reachable
    obtain ⟨a, hclassed, _⟩ := hchronicle.respectful.exists_classed
    have htallies := hclassed.tallies hfits.cells_le
    have hstraight : w.nearest name ending chain ≠ .error .endlessWalk := by
      unfold nearest
      split
      · exact nofun
      · exact nofun
      · next x _ =>
          have hwinds := not_winds_of_not_tangled (htallies.not_tangled x)
          exact fun h => hreachable.mismatch_ne hwinds _ (Except.error.inj h)
    exact (hreachable.goes_lookup name env).eq_of_settled
      (fun n hn => hnested.lookupWithin_eq hfits name hn) hstraight (Nat.lt_succ_self _)

/-- An inner environment takes what is bound in the outer one. A name that neither binds is not
found, and this is an error, since the outer one has the null object for its parent. -/
theorem Nested.lookup_nearest_null :
    let outer := Builtin.nth 25
    let inner := Builtin.nth 26
    let w₁ := ((Operation.newEnvironment (some Builtin.null)).perform initial).2
    let w₂ := ((Operation.newEnvironment (some outer)).perform w₁).2
    let w := ((Operation.assign outer Symbol.tag Builtin.objectClass).perform w₂).2
    (Nested {} w (some Builtin.null) inner [inner, outer] ∧ w.Fits) ∧
      w.lookup inner Symbol.tag = .ok (some Builtin.objectClass) ∧
      w.lookup inner Symbol.head = .error (.typeMismatch "environment" "null") := by
  intro outer inner w₁ w₂ w
  have hmake₁ : (Action.newEnvironment (some Builtin.null)).perform initial = (.ok outer, w₁) :=
    Action.outcome_eq (by decide +kernel)
  have hmake₂ : (Action.newEnvironment (some outer)).perform w₁ = (.ok inner, w₂) :=
    Action.outcome_eq (by decide +kernel)
  have hrespectful₁ : Respectful {} w₁ :=
    respectful_initial.step (.newEnvironment (some Builtin.null)) trivial
  have hfits : w.Fits := ⟨by decide +kernel, by decide +kernel⟩
  have hlive₁ : w₁.objects.Live outer := Option.isSome_iff_exists.1 (by decide +kernel)
  have hlive₂ : ∀ x ∈ [outer, inner], w₂.objects.Live x := fun x hx =>
    Option.isSome_iff_exists.1 (by revert x; decide +kernel)
  have hlive : ∀ x ∈ [outer, inner],
      ((Operation.assign outer Symbol.tag Builtin.objectClass).perform w₂).2.objects.Live x :=
    fun x hx => Option.isSome_iff_exists.1 (by revert x; decide +kernel)
  obtain ⟨_, _, houter₂⟩ := (Chronicle.of_newEnvironment respectful_initial hmake₁).continues
    hlive₁ (.newEnvironment (some outer)) trivial ⟨by decide +kernel, by decide +kernel⟩
      (hlive₂ outer (by simp)) (by decide +kernel)
  have houter₂ : Chronicle {} outer _ w₂ := houter₂
  have hinner₂ : Chronicle {} inner [] w₂ := .of_newEnvironment hrespectful₁ hmake₂
  obtain ⟨_, _, houter⟩ := houter₂.continues (hlive₂ outer (by simp))
    (.assign outer Symbol.tag Builtin.objectClass) trivial hfits (hlive outer (by simp))
      (by decide +kernel)
  obtain ⟨_, _, hinner⟩ := hinner₂.continues (hlive₂ inner (by simp))
    (.assign outer Symbol.tag Builtin.objectClass) trivial hfits (hlive inner (by simp))
      (by decide +kernel)
  have hnested : Nested {} w (some Builtin.null) inner [inner, outer] :=
    .inside hinner (by decide +kernel) (.null houter (by decide +kernel))
  exact ⟨⟨hnested, hfits⟩,
    (hnested.lookup_nearest hfits Symbol.tag).2.trans (by decide +kernel),
    (hnested.lookup_nearest hfits Symbol.head).2.trans (by decide +kernel)⟩

end World

end ObjectSystem

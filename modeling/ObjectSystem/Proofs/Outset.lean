/-
# The global environment

The objects that a new world starts out with fill one cell after the other, so each of them has
the handle that `Builtin` knows it by. The global environment is an environment like those that
are made later, in which one name has been assigned to.
-/

import ObjectSystem.Proofs.Environments
import ObjectSystem.Proofs.Population
import ObjectSystem.Proofs.Promotion

namespace ObjectSystem

/-- What is made for good is put in and then pinned. -/
theorem Action.pin_of_allocatePinned {w w' : World} {o : Object} {x : Handle}
    (hallocate : (allocatePinned o).perform w = (.ok x, w')) :
    x = (w.objects.insert o).1 ∧
      (pin x).perform { w with objects := (w.objects.insert o).2 } = (.ok (), w') := by
  obtain ⟨_, _, hpin, hpure⟩ := perform_bind_eq_ok_iff.1
    (show (do
      pin (w.objects.insert o).1
      return (w.objects.insert o).1 : Action Handle).perform
        { w with objects := (w.objects.insert o).2 } = (.ok x, w') from hallocate)
  cases hpure
  exact ⟨rfl, hpin⟩

namespace World

variable {settings : Settings} {k : Nat} {w w' : World} {c x : Handle} {payload : Payload}
  {length : Nat}

/-- A world that is being filled: its parts agree, the built-in classes are there, and no cell
was ever emptied. -/
structure Outset (settings : Settings) (k : Nat) (w : World) : Prop where
  coherent : w.Coherent
  tidy : w.Tidy
  ordered : w.Ordered
  builtin : ∀ c ∈ Builtin.classes, c ∈ w.classes
  derived : w.Derived Builtin.environmentClass Builtin.objectClass [Symbol.parent]
  size_eq : w.objects.cells.size = k
  vacated_eq : w.objects.vacated = []
  settings_eq : w.settings = settings

namespace Outset

theorem standard (houtset : w.Outset settings k) : w.policy.Standard :=
  fun c hc _ hpayload _ _ => ⟨houtset.builtin c hc, hpayload⟩

theorem isFull_eq (houtset : w.Outset settings k) (hk : k < settings.objectLimit) :
    w.isFull = false := by
  have hcounted := houtset.ordered.counted
  have hoccupied : w.objects.occupied ≤ w.objects.cells.size := Array.countP_le_size
  rw [houtset.size_eq] at hoccupied
  unfold Arena.Counted at hcounted
  simp only [isFull, population, Arena.size, houtset.settings_eq, decide_eq_false_iff_not]
  omega

/-- The next object fills the next cell. -/
theorem insertWith (houtset : w.Outset settings k) (hk : k < 2 ^ 32) (value : Handle → Object) :
    (w.objects.insertWith value).1 = Builtin.nth k ∧
      (w.objects.insertWith value).2.cells.size = k + 1 ∧
        (w.objects.insertWith value).2.vacated = [] := by
  rw [Arena.insertWith_of_full houtset.vacated_eq (by rw [houtset.size_eq]; exact hk),
    houtset.size_eq]
  exact ⟨rfl, by simp [houtset.size_eq], rfl⟩

/-- A routine leads on if it is known how many cells are filled then. -/
theorem perform {α : Type} {action : Action α} {result : Except Error α} {n : Nat}
    (houtset : w.Outset settings k) (hroutine : Action.Routine w.policy action)
    (hperform : action.perform w = (result, w')) (hfits : w'.Fits)
    (hsize : w'.objects.cells.size = n) (hvacated : w'.objects.vacated = [])
    (hsettings : w'.settings = w.settings) : w'.Outset settings n := by
  have hleads := hroutine.leadsTo houtset.coherent houtset.tidy w.policy_within
    (by rw [hperform]; exact hfits)
  have hdevelops := hroutine.develops houtset.ordered w.policy_within.names
    (by rw [hperform]; exact hfits.cells_le)
  have hadvances := hroutine.advances w
  rw [hperform] at hleads hdevelops hadvances
  exact ⟨hleads.evolves.coherent, hadvances.tidy houtset.tidy, hdevelops.ordered,
    fun c hc => hdevelops.classes c (houtset.builtin c hc),
    houtset.derived.extend hdevelops.toExtends, hsize, hvacated,
    hsettings.trans houtset.settings_eq⟩

theorem pin (houtset : w.Outset settings k) (hpin : (Action.pin x).perform w = (.ok (), w'))
    (hfits : w'.Fits) : w'.Outset settings k := by
  have hsettles := Action.settles_pin x w
  have htrims : w.Trims ((Action.pin x).perform w).2 := Action.trims_pin x w
  rw [hpin] at hsettles htrims
  exact houtset.perform (.pin x) hpin hfits (hsettles.size_eq.trans houtset.size_eq)
    (hsettles.vacated_eq.trans houtset.vacated_eq) htrims.settings_eq

theorem allocateOf (houtset : w.Outset settings k) (hk : k < 2 ^ 32)
    (hroom : k < settings.objectLimit) (hc : c ∈ Builtin.classes) (hpayload : payload.refs = [])
    (hallocate : (Action.allocateOf c payload length).perform w = (.ok x, w'))
    (hfits : w'.Fits) : x = Builtin.nth k ∧ w'.Outset settings (k + 1) := by
  have hadmits : w.policy.admits c payload := ⟨houtset.builtin c hc, hpayload⟩
  have hlast := houtset.perform (n := k + 1) (.allocateOf hadmits length) hallocate hfits
  obtain ⟨d, hd⟩ := houtset.ordered.described c (houtset.builtin c hc)
  have hfull := houtset.isFull_eq hroom
  have hrelieved : w.relieved = w := by rw [relieved, hfull]; rfl
  unfold Action.allocateOf at hallocate
  rw [Action.perform_query_bind, hd.describes.descriptor_eq] at hallocate
  simp only [Action.perform_allocate_eq, hrelieved, hfull] at hallocate
  cases hallocate
  obtain ⟨hhandle, hsize, hvacated⟩ := houtset.insertWith hk
    fun _ => (Object.new c d.attrCount payload length .shared).setOwnership
      (.ofPool w.pools.current)
  exact ⟨hhandle, hlast hsize hvacated rfl⟩

theorem allocatePinned (houtset : w.Outset settings k) (hk : k < 2 ^ 32)
    (hc : c ∈ Builtin.classes) (hpayload : payload.refs = [])
    (hallocate : (Action.allocatePinned (.new c 0 payload length .shared)).perform w = (.ok x, w'))
    (hfits : w'.Fits) : w'.Outset settings (k + 1) := by
  have hadmits : w.policy.admits c payload := ⟨houtset.builtin c hc, hpayload⟩
  have hcomposite : Action.Composite w.policy
      (Action.allocatePinned (.new c 0 payload length .shared)) := .allocatePinned hadmits 0 length
  have hleads := hcomposite.leadsTo houtset.coherent houtset.tidy w.policy_within
    (by rw [hallocate]; exact hfits)
  have hadvances := hcomposite.advances w
  have hswells := Action.swells_allocatePinned (.new c 0 payload length .shared) w
  rw [hallocate] at hleads hadvances hswells
  obtain ⟨_, _, hperform, hputs⟩ := Action.admits_allocatePinned houtset.ordered
    (o := .new c 0 payload length .shared) (by rw [hallocate]; exact hfits.cells_le) rfl
  cases hperform.symm.trans hallocate
  have hextends := hputs.extends houtset.ordered
  obtain ⟨_, hsize, hvacated⟩ := houtset.insertWith hk
    fun _ => .new c 0 payload length .shared
  have hsettles := (Action.settles_pin x).of_perform (Action.pin_of_allocatePinned hallocate).2
  exact ⟨hleads.evolves.coherent, hadvances.tidy houtset.tidy, hextends.ordered,
    fun c hc => hextends.classes c (houtset.builtin c hc), houtset.derived.extend hextends,
    hsettles.size_eq.trans hsize, hsettles.vacated_eq.trans hvacated,
    hswells.settings_eq.trans houtset.settings_eq⟩

/-- What is made for good fills the next cell. -/
theorem puts_allocatePinned (houtset : w.Outset settings k) (hk : k < 2 ^ 32)
    (hallocate : (Action.allocatePinned (.new c 0 payload length .shared)).perform w = (.ok x, w'))
    (hfits : w'.Fits) : x = Builtin.nth k ∧ w.objects.Puts w'.objects x
      { Object.new c 0 payload length .shared with header := .permanent } := by
  obtain ⟨y, _, hperform, hadmits⟩ := Action.admits_allocatePinned houtset.ordered
    (o := .new c 0 payload length .shared) (by rw [hallocate]; exact hfits.cells_le) rfl
  cases hperform.symm.trans hallocate
  exact ⟨(Action.pin_of_allocatePinned hallocate).1.trans (houtset.insertWith hk _).1,
    hadmits.puts⟩

theorem newEnvironment (houtset : w.Outset settings k) (hk : k < 2 ^ 32)
    (hroom : k < settings.objectLimit)
    (hmake : (Action.newEnvironment none).perform w = (.ok x, w')) (hfits : w'.Fits) :
    x = Builtin.nth k ∧ w'.Outset settings (k + 1) := by
  unfold Action.newEnvironment at hmake
  obtain ⟨_, _, hget, hrest⟩ := Action.perform_bind_eq_ok_iff.1 hmake
  cases hget
  obtain ⟨_, _, hallocate, hpure⟩ := Action.perform_bind_eq_ok_iff.1 hrest
  cases hpure
  exact houtset.allocateOf hk hroom (by decide) rfl hallocate hfits

end Outset

end World

namespace Action

open World

variable {w w' : World} {o : Object} {x : Handle}

/-- What was pinned is there for good. -/
theorem get?_pin (ho : w.objects.get? x = some o) (hpin : (pin x).perform w = (.ok (), w')) :
    w'.objects.get? x = some { o with header := .permanent } := by
  have hlast : ∀ v : World, v.objects = w.objects →
      (let v := if v.pools.collector.contains x then v
        else { v with pools := v.pools.modify PoolId.collector (·.insert x) }
      v.modifyObject x fun o => { o with header := .permanent }).objects.get? x =
        some { o with header := .permanent } := by
    intro v hv
    have hv' : v.objects.get? x = some o := by rw [hv, ho]
    simp only
    split <;> exact (Arena.puts_modify hv').self
  unfold pin at hpin
  rw [perform_query_bind, World.ownership_eq_ok ho] at hpin
  cases hpool : o.header.ownership.pool? with
  | none =>
      simp only [hpool] at hpin
      cases hpin
      exact hlast w rfl
  | some id =>
      simp only [hpool] at hpin
      obtain ⟨_, w₁, hremove, hrest⟩ := perform_bind_eq_ok_iff.1 hpin
      have hsame := objects_removeFromPool x id w
      rw [hremove] at hsame
      cases hrest
      exact hlast w₁ hsame

end Action

namespace World

variable {settings : Settings} {w w' : World}

theorem outset_makeClasses (hcapacity : 0 < settings.poolCapacity)
    (hclasses : Action.makeClasses.perform (empty settings) = (.ok (), w)) :
    w.Outset settings 20 := by
  obtain ⟨hprimed, _, _, hderived⟩ := Action.primed_makeClasses (founded_empty hcapacity)
    (ordered_empty settings) rfl hclasses
  have henvironment : ∃ p ∈ ClassPlan.builtin.zipIdx 2, Builtin.nth p.2 = Builtin.environmentClass ∧
      p.1.parent = Builtin.objectClass ∧ p.1.attrs = [Symbol.parent] := by decide
  obtain ⟨p, hp, hclass, hparent, hattrs⟩ := henvironment
  have hfounded := hprimed.founded
  exact ⟨hfounded.coherent, hfounded.tidy, hprimed.ordered,
    fun c hc => hfounded.mem_classes_iff.2 hc, hclass ▸ hparent ▸ hattrs ▸ hderived p hp,
    hfounded.size_eq, hfounded.vacated_eq, settings_makeClasses hclasses⟩

/-- What is pinned stays where it is through a routine. -/
theorem Outset.live {α : Type} {action : Action α} {result : Except Error α} {k : Nat}
    {env : Handle} {o : Object} (houtset : w.Outset settings k)
    (hroutine : Action.Routine w.policy action)
    (hperform : action.perform w = (result, w')) (hfits : w'.Fits)
    (ho : w.objects.get? env = some o) (hpinned : o.header.pinned = true) :
    ∃ o', w'.objects.get? env = some o' ∧ o'.header.pinned = true := by
  have hleads := hroutine.leadsTo houtset.coherent houtset.tidy w.policy_within
    (by rw [hperform]; exact hfits)
  rw [hperform] at hleads
  obtain ⟨o', ho', hlasts⟩ := hleads.evolves.pinned _ _ ho hpinned
  exact ⟨o', ho', hlasts.pinned⟩

/-- Nothing happens to bindings until the assignment function is bound, and the environment is there
for good. -/
theorem Outset.beats_furnish {k : Nat} {w₂ w₃ : World} {env arrow : Handle} {o : Object}
    (houtset : w.Outset settings k) (hk : k < 100) (hlimit : 128 ≤ settings.objectLimit)
    (ho : w.objects.get? env = some o) (hpin : (Action.pin env).perform w = (.ok (), w₂))
    (hspecial : (Action.newSpecial .assign).perform w₂ = (.ok arrow, w₃)) (hfits : w₃.Fits) :
    w₃.Outset settings (k + 1) ∧ w.Beats (·.objects.Live env) [] w₃ ∧
      ∃ o, w₃.objects.get? env = some o ∧ o.header.pinned = true := by
  have hadvances : w₂.Advances w₃ :=
    (Action.routine_newSpecial Policy.standard_anything .assign).advances.of_perform hspecial
  have hcontinues : w₂.Continues w₃ :=
    (Action.routine_newSpecial Policy.standard_anything .assign).continues.of_perform hspecial
  have houtset₂ := houtset.pin hpin (hadvances.fits hfits)
  have hallocate : (Action.allocateOf Builtin.specialClass (.native .assign) 0).perform w₂ =
      (.ok arrow, w₃) := hspecial
  obtain ⟨_, houtset₃⟩ := houtset₂.allocateOf (by omega) (by omega) (by decide) rfl hallocate hfits
  have ho₂ := Action.get?_pin ho hpin
  obtain ⟨o₃, ho₃, hpinned⟩ := houtset₂.live (Action.routine_newSpecial houtset₂.standard .assign)
    hspecial hfits ho₂ rfl
  have htrims : w.TrimsBy (fun _ => Object.Rests) w₂ := (Action.trims_pin env).of_perform hpin
  have hidles : w₂.Idles
      ((Action.allocateOf Builtin.specialClass (.native .assign) 0).perform w₂).2 :=
    Action.idles_allocateOf houtset₂.ordered (houtset₂.builtin Builtin.specialClass (by decide))
      (by rw [hallocate]; exact hfits.cells_le)
  rw [hallocate] at hidles
  have hpinning : w.Advances w₂ :=
    (Action.Routine.pin (π := .anything) env).advances.of_perform hpin
  have hfirst : w.Beats (·.objects.Live env) [] w₂ :=
    .of_idles hpinning htrims.settings_eq htrims.idles ⟨_, ho₂⟩
  exact ⟨houtset₃, hfirst.trans (.of_idles hadvances hcontinues hidles ⟨o₃, ho₃⟩), o₃, ho₃, hpinned⟩

/-- The environment that is made when 23 cells are filled is the global one, and one name is
assigned to in it. -/
theorem Outset.stems (houtset : w.Outset settings 23) (hlimit : 128 ≤ settings.objectLimit)
    (hroom : 0 < settings.environmentCapacity) (hfurnish : (do
      let globalEnv ← Action.newEnvironment none
      Action.pin globalEnv
      let arrow ← Action.newSpecial .assign
      let _ ← Action.assign globalEnv Symbol.arrow arrow : Action Unit).perform w = (.ok (), w'))
    (hfits : w'.Fits) :
    ∃ arrow, w.Stems w' Builtin.globalEnv [.assign Builtin.globalEnv Symbol.arrow arrow] := by
  have hgrown := (Action.routine_globalEnv houtset.standard trivial).develops houtset.ordered
    w.policy_within.names (by rw [hfurnish]; exact hfits.cells_le)
  rw [hfurnish] at hgrown
  obtain ⟨env, w₁, hmake, hrest⟩ := Action.perform_bind_eq_ok_iff.1 hfurnish
  obtain ⟨_, w₂, hpin, hrest⟩ := Action.perform_bind_eq_ok_iff.1 hrest
  obtain ⟨arrow, w₃, hspecial, hrest⟩ := Action.perform_bind_eq_ok_iff.1 hrest
  obtain ⟨bound, w₄, hassign, hpure⟩ := Action.perform_bind_eq_ok_iff.1 hrest
  cases hpure
  have hassignment : Action.Routine w₃.policy (Action.assign env Symbol.arrow arrow) :=
    .assign trivial env Symbol.arrow arrow
  have hfits₃ := (hassignment.advances.of_perform hassign).fits hfits
  have hfits₁ : w₁.Fits := by
    have hpinning := (Action.Routine.pin (π := .anything) env).advances.of_perform hpin
    have hadvances := (Action.routine_newSpecial Policy.standard_anything
      .assign).advances.of_perform hspecial
    exact hpinning.fits (hadvances.fits hfits₃)
  obtain ⟨rfl, houtset₁⟩ := houtset.newEnvironment (by decide) (by omega) hmake hfits₁
  obtain ⟨_, o, _, ho, _, _, hpayload⟩ := Action.newEnvironment_spec houtset.coherent houtset.tidy
    houtset.ordered houtset.derived.1 hmake hfits₁
  obtain ⟨houtset₃, hbeats, o₃, ho₃, hpinned⟩ :=
    houtset₁.beats_furnish (by decide) hlimit ho hpin hspecial hfits₃
  obtain ⟨o₄, ho₄, _⟩ := houtset₃.live hassignment hassign hfits ho₃ hpinned
  have hframed : w₁.Framed Builtin.globalEnv w.settings.environmentCapacity [] :=
    ⟨_, frame_eq_ok_iff.2 ⟨o, ho, hpayload⟩, rfl, Nat.zero_le _, Frame.records_empty _⟩
  obtain ⟨f, hframe, hcapacity, _, hrecords⟩ := hframed.beats hbeats (by simp)
  obtain ⟨g, hg, ⟨rfl, _⟩ | ⟨_, _, hfull, _⟩⟩ := Action.assign_outcome hassign
  · exact ⟨arrow, houtset.derived, hgrown.toExtends, w, none, w₁,
      .refl houtset.coherent houtset.ordered, houtset.tidy, rfl, hmake,
      hbeats.tail (.assign hassign) ⟨o₄, ho₄⟩⟩
  · cases hframe.symm.trans hg
    have hsize : f.size = 0 := hrecords.size_eq
    rw [houtset.settings_eq] at hcapacity
    rw [Frame.isFull, decide_eq_true_iff] at hfull
    omega

/-- In a new world the global environment is there since it was made, and one name was assigned
to in it. -/
theorem stems_create (hcreate : create settings = .ok w) (hfits : w.Fits) :
    ∃ (base : World) (arrow : Handle), base.settings = settings ∧
      base.Stems w Builtin.globalEnv [.assign Builtin.globalEnv Symbol.arrow arrow] := by
  have hlimits : 128 ≤ settings.objectLimit ∧ 0 < settings.environmentCapacity := by
    have hfault := fault?_eq_none hcreate
    grind [Settings.fault?]
  obtain ⟨hcapacity, w₀, hclasses, hobjects⟩ := exists_of_create hcreate
  have houtset₀ := outset_makeClasses hcapacity hclasses
  unfold Action.makeObjects at hobjects
  obtain ⟨_, w₁, hnull, hobjects⟩ := Action.perform_bind_eq_ok_iff.1 hobjects
  obtain ⟨_, w₂, hsymbol, hobjects⟩ := Action.perform_bind_eq_ok_iff.1 hobjects
  obtain ⟨_, w₃, htext, hobjects⟩ := Action.perform_bind_eq_ok_iff.1 hobjects
  obtain ⟨_, w₄, hpinText, hfurnish⟩ := Action.perform_bind_eq_ok_iff.1 hobjects
  have hstandard := Policy.standard_anything
  have hfits₄ : w₄.Fits :=
    ((Action.routine_globalEnv hstandard trivial).advances.of_perform hfurnish).fits hfits
  have hfits₃ : w₃.Fits :=
    ((Action.Routine.pin (π := .anything) _).advances.of_perform hpinText).fits hfits₄
  have hfits₂ : w₂.Fits :=
    ((Action.routine_newText hstandard "NA").advances.of_perform htext).fits hfits₃
  have hfits₁ : w₁.Fits :=
    ((Action.Composite.allocatePinned (π := .anything) trivial 0 0).advances.of_perform
      hsymbol).fits hfits₂
  have houtset₁ := houtset₀.allocatePinned (by decide) (by decide) rfl hnull hfits₁
  have houtset₂ := houtset₁.allocatePinned (by decide) (by decide) rfl hsymbol hfits₂
  obtain ⟨_, houtset₃⟩ := houtset₂.allocateOf (by decide) (by omega) (by decide) rfl htext hfits₃
  have houtset₄ := houtset₃.pin hpinText hfits₄
  obtain ⟨arrow, hstems⟩ := houtset₄.stems hlimits.1 hlimits.2 hfurnish hfits
  exact ⟨w₄, arrow, houtset₄.settings_eq, hstems⟩

end World

end ObjectSystem

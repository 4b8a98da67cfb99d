/-
# Environments in the course of a run

`Chronicle` follows an environment from its making through a run of respectful operations, for as
long as it is there, and says what was done to bindings in the meantime. If they were written only
by assigning, the environment is a map with room for so many names: it holds what was assigned to
each name last, in the order of the first assignments, and it takes every further assignment but one
to a new name when it is full.
-/

import ObjectSystem.Proofs.Outset

namespace ObjectSystem

namespace World

variable {α : Type} {settings : Settings} {w : World} {env : Handle} {deeds news : List Deed}

/-- Whatever a respectful operation does, it takes steps. -/
theorem Respectful.beats (hrespectful : Respectful settings w) (op : Operation α)
    (hrespects : op.Respects w) (hfits : (op.perform w).2.Fits) :
    w.Proceeds (op.perform w).2 ∧
      ∃ deeds, op.Notes w deeds ∧ w.Beats w.Proceeds deeds (op.perform w).2 := by
  have hfits' := (op.spends w).fits hfits
  obtain ⟨hcoherent, hequipped⟩ := hrespectful.coherent hfits'
  obtain ⟨a, hclassed, _⟩ := hrespectful.exists_classed
  exact op.beats hcoherent hrespectful.tidy hequipped (hclassed.tallies hfits'.cells_le)
    hrespects hfits

/-- An environment was made in a run of respectful operations and has been there ever since. This
is what was done to bindings in the meantime, the last of it in front. -/
inductive Chronicle (settings : Settings) (env : Handle) : List Deed → World → Prop where
  /-- The global environment of a new world, in which the assignment function is bound. -/
  | create {w : World} {arrow : Handle} (hcreate : World.create settings = .ok w)
      (henv : env = Builtin.globalEnv)
      (harrow : w.lookupLocal env Symbol.arrow = .ok (some arrow)) :
      Chronicle settings env [.assign env Symbol.arrow arrow] w
  /-- An environment that an operation makes, at once or among other things. -/
  | make {w origin made : World} {earlier deeds : List Deed} {parent : Option Handle}
      (hrespectful : Respectful settings w) {α : Type} (op : Operation α)
      (hrespects : op.Respects w) (hbefore : w.Beats w.Proceeds earlier origin)
      (hmake : (Action.newEnvironment parent).perform origin = (.ok env, made))
      (hafter : made.Beats (·.objects.Live env) deeds (op.perform w).2) :
      Chronicle settings env deeds (op.perform w).2
  | step {w : World} {deeds news : List Deed} (hchronicle : Chronicle settings env deeds w)
      {α : Type} (op : Operation α) (hrespects : op.Respects w) (hnotes : op.Notes w news)
      (hbeats : w.Beats (·.objects.Live env) news (op.perform w).2) :
      Chronicle settings env (news ++ deeds) (op.perform w).2

/-- The environment is a map with room for so many names, in which this was assigned, the last in
front. -/
structure Maps (w : World) (env : Handle) (capacity : Nat) (log : List (Symbol × Handle)) :
    Prop where
  /-- The names are those assigned to, each once, in the order of their first assignments. -/
  names : ∃ f, w.frame env = .ok f ∧ f.capacity = capacity ∧ f.names = Frame.assigned log ∧
    f.names.Nodup ∧ f.values.length = f.names.length ∧ f.names.length ≤ capacity
  /-- A name has the value that was assigned to it last. -/
  lookup : ∀ name, w.lookupLocal env name = .ok (log.lookup name)
  live : ∀ name value, log.lookup name = some value → w.objects.Live value
  takes : ∀ name value, w.objects.Live value →
    name ∈ Frame.assigned log ∨ (Frame.assigned log).length < capacity →
      ∃ w', (Action.assign env name value).perform w = (.ok true, w')
  /-- When it is full, nothing comes of an assignment to a new name but a warning. -/
  refuses : ∀ name value, w.objects.Live value → name ∉ Frame.assigned log →
    (Frame.assigned log).length = capacity →
      (Action.assign env name value).perform w =
        (.ok false, w.warn (w.fullNotice env capacity name))
  /-- Assignments to other environments do not touch it, unless they free it. -/
  apart : ∀ other name value, other ≠ env →
    ((Action.assign other name value).perform w).2.objects.Live env →
      ((Action.assign other name value).perform w).2.frame env = w.frame env

theorem Framed.live {capacity : Nat} {log : List (Symbol × Handle)}
    (hframed : w.Framed env capacity log) : w.objects.Live env := by
  obtain ⟨f, hframe, _⟩ := hframed
  obtain ⟨o, ho, _⟩ := frame_eq_ok_iff.1 hframe
  exact ⟨o, ho⟩

theorem Framed.lookupLocal_eq {capacity : Nat} {log : List (Symbol × Handle)}
    (hframed : w.Framed env capacity log) (name : Symbol) :
    w.lookupLocal env name = .ok (log.lookup name) := by
  obtain ⟨f, hframe, _, _, hrecords⟩ := hframed
  rw [lookupLocal, hframe, ← hrecords.get?_eq name]
  rfl

/-- What an environment gives for a name is live. -/
theorem Coherent.live_of_lookupLocal (hcoherent : w.Coherent) {name : Symbol} {value : Handle}
    (hlookup : w.lookupLocal env name = .ok (some value)) : w.objects.Live value := by
  unfold lookupLocal at hlookup
  cases hframe : w.frame env with
  | error e =>
      rw [hframe] at hlookup
      cases hlookup
  | ok f =>
      rw [hframe] at hlookup
      obtain ⟨o, ho, hpayload⟩ := frame_eq_ok_iff.1 hframe
      obtain ⟨index, _, hbinding⟩ := Option.bind_eq_some_iff.1 (Except.ok.inj hlookup)
      refine hcoherent.linked.held_live (.binding env index) value ⟨o, ho, ?_⟩
      obtain ⟨binding, hbinding, hvalue⟩ := Option.bind_eq_some_iff.1 hbinding
      simp [Slot.peek?, hpayload, hbinding, hvalue]

/-- An environment whose frame records what was assigned is a map of it. -/
theorem Framed.maps {capacity : Nat} {log : List (Symbol × Handle)}
    (hframed : w.Framed env capacity log) (hcoherent : w.Coherent) : w.Maps env capacity log := by
  have hlookup := hframed.lookupLocal_eq
  obtain ⟨f, hframe, hcapacity, hsize, hrecords⟩ := hframed
  have hlength : f.names.length = f.size := by simp [Frame.names, Frame.size]
  have hassigned := hrecords.size_eq
  refine ⟨⟨f, hframe, hcapacity, hrecords.names_eq, ?_, ?_, hlength ▸ hsize⟩, hlookup,
    fun name value hvalue => hcoherent.live_of_lookupLocal ((hlookup name).trans (by rw [hvalue])),
    fun name value hlive hroom => ?_, fun name value hlive hname hfull => ?_,
    fun other name value hne hlive => ?_⟩
  · exact hrecords.names_eq ▸ Frame.nodup_assigned log
  · simp [Frame.names, Frame.values]
  · refine Action.assign_succeeds hcoherent hframe hlive (hroom.imp (fun hname => ?_) fun hlt => ?_)
    · exact mt hrecords.find?_eq_none_iff.1 (not_not_intro hname)
    · simp only [Frame.isFull, decide_eq_false_iff_not]
      omega
  · have hfind := hrecords.find?_eq_none_iff.2 hname
    have hisFull : f.isFull = true := by
      simp only [Frame.isFull, decide_eq_true_eq]
      omega
    rw [← hcapacity]
    exact Action.assign_refused hframe hlive hfind hisFull
  · rw [hframe]
    exact frame_assign_of_ne hcoherent hne hframe hlive

namespace Chronicle

theorem respectful (hchronicle : Chronicle settings env deeds w) : Respectful settings w := by
  induction hchronicle with
  | create hcreate => exact .create hcreate
  | make hrespectful op hrespects => exact hrespectful.step op hrespects
  | step _ op hrespects _ _ ih => exact ih.step op hrespects

/-- An environment that has just been made has a chronicle. -/
theorem of_newEnvironment {w' : World} {parent : Option Handle}
    (hrespectful : Respectful settings w)
    (hmake : (Action.newEnvironment parent).perform w = (.ok env, w')) :
    Chronicle settings env [] w' := by
  have hafter : w' = ((Operation.newEnvironment parent).perform w).2 :=
    (congrArg Prod.snd hmake).symm
  subst hafter
  exact .make hrespectful (.newEnvironment parent) trivial .refl hmake .refl

/-- The environment stems from a world of the run. -/
theorem stems (hchronicle : Chronicle settings env deeds w) (hfits : w.Fits) :
    ∃ base : World, base.settings = settings ∧ base.Stems w env deeds := by
  induction hchronicle with
  | @create w arrow hcreate henv harrow =>
      subst henv
      obtain ⟨base, arrow', hsettings, hstems⟩ := stems_create hcreate hfits
      have hframed := hstems.framed hfits fun d hd => by
        cases List.mem_singleton.1 hd
        trivial
      have hlookup := (hframed.lookupLocal_eq Symbol.arrow).symm.trans harrow
      have heq : arrow' = arrow := by simpa [Deed.assignments, Deed.assigned?] using hlookup
      exact ⟨base, hsettings, heq ▸ hstems⟩
  | @make w _ _ _ _ _ hrespectful _ op hrespects hbefore hmake hafter =>
      have hfits' := (op.spends w).fits hfits
      obtain ⟨hcoherent, _⟩ := hrespectful.coherent hfits'
      obtain ⟨a, hclassed, hinitial⟩ := hrespectful.exists_classed
      have htallies := hclassed.tallies hfits'.cells_le
      have henvironment : Annals.initial.derived Builtin.environmentClass Builtin.objectClass
          [Symbol.parent] := by
        show ∃ p ∈ ClassPlan.builtin.zipIdx 2, _
        decide
      have hsettings := hrespectful.reachable.settings_eq
      exact ⟨w, hsettings, htallies.derived _ _ _ (hinitial _ _ _ henvironment),
        (hrespectful.beats op hrespects hfits).1.toExtends, _, _, _,
        hbefore.holds (.refl hcoherent htallies.ordered),
        hbefore.advances.tidy hrespectful.tidy, hbefore.settings_eq, hmake, hafter⟩
  | @step w _ _ hchronicle _ op hrespects _ hbeats ih =>
      obtain ⟨base, hsettings, hstems⟩ := ih ((op.spends w).fits hfits)
      exact ⟨base, hsettings,
        hstems.step (hchronicle.respectful.beats op hrespects hfits).1.toExtends hbeats⟩

/-- A chronicle goes on with every respectful operation that does not free the environment. -/
theorem continues (hchronicle : Chronicle settings env deeds w) (hlive : w.objects.Live env)
    (op : Operation α) (hrespects : op.Respects w) (hfits : (op.perform w).2.Fits)
    (hlive' : (op.perform w).2.objects.Live env)
    (hfew : (op.perform w).2.objects.removed < w.objects.removed + 2 ^ 32) :
    ∃ news, op.Notes w news ∧ Chronicle settings env (news ++ deeds) (op.perform w).2 := by
  obtain ⟨_, news, hnotes, hbeats⟩ := hchronicle.respectful.beats op hrespects hfits
  exact ⟨news, hnotes, hchronicle.step op hrespects hnotes (hbeats.live hlive hlive' hfew)⟩

/-- Environments have room for one name. -/
def cramped : Settings where
  environmentCapacity := 1

end Chronicle

end World

end ObjectSystem

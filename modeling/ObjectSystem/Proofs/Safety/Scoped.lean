/-
# Evaluation in a scope

Evaluation in a scope of its own never reports that the world has lost track of its objects, if
the host keeps to respectful operations. This holds for all expressions.

It may report a stale handle. If `f` counts its arguments, `f(x, x <- 1)` frees the first of them
when the second is evaluated, unless something else than `x` holds it. `Host.Effects` tells such
expressions from those that are safe: where an expression has effects, none of which an argument
needs that was evaluated before, no stale handle is found and the result is live at the end.
-/

import ObjectSystem.Demonstration
import ObjectSystem.Proofs.Safety.Evaluation

namespace ObjectSystem

open World

variable {settings : Settings} {host : Host} {w : World} {x env : Handle}

/-- Only respectful operations lead on, and nobody claims that the world has lost track of its
objects. -/
def Conduct.respectful (settings : Settings) : Conduct where
  holds := Respectful settings
  allows w _ op := op.Respects w ∧ ∀ x id, ¬ op.PassesOn (.poolCorruption x id)
  reports w e := w.Fits → ∀ x id, e ≠ .poolCorruption x id
  perform {w _} op hw hallows := by
    refine ⟨hw.step op hallows.1, fun e he hfits x id heq => ?_⟩
    obtain ⟨hcoherent, hequipped⟩ := hw.coherent ((op.spends w).fits hfits)
    have hevolves := op.evolves hcoherent hw.tidy hequipped hallows.1 hfits
    exact hallows.2 x id (hevolves.2 x id (heq ▸ he))
  ask _ _ := ⟨trivial, fun _ _ => id⟩
  newList _ _ := ⟨trivial, fun _ _ => id⟩
  requireMethod _ _ _ := ⟨trivial, fun _ _ => id⟩
  assign _ _ _ _ := ⟨trivial, fun _ _ => id⟩
  refuse _ hne _ := hne

namespace Host

theorem perform_evalInScope (host : Host) (x env : Handle) (w : World) :
    (host.evalInScope x env).perform w = (Action.closeScope w.pools.push.1
      ((host.eval x env).perform (Action.openScope.perform w).2).1).perform
        ((host.eval x env).perform (Action.openScope.perform w).2).2 :=
  rfl

theorem sustains_eval (host : Host) (x env : Handle) : (host.eval x env).Keeps Sustains :=
  host.keeps_eval (fun op => op.keeps steps_sustains) x env

end Host

namespace World.Respectful

open Action

/-- Evaluation in a scope opens it, evaluates and closes it. The numbers have not run out before,
if they have not at the end. -/
structure Scopes (host : Host) (x env : Handle) (w : World) (result : Except Error Handle)
    (w' : World) : Prop where
  eval_eq : (host.eval x env).perform (openScope.perform w).2 = (result, w')
  start_fits : w.Fits
  opened_fits : (openScope.perform w).2.Fits
  fits : w'.Fits
  scope_eq : (host.evalInScope x env).perform w =
    (closeScope w.pools.push.1 result).perform w'

theorem exists_scopes (hfits : ((host.evalInScope x env).perform w).2.Fits) :
    ∃ result w', Scopes host x env w result w' := by
  have hsustains := host.sustains_eval x env (openScope.perform w).2
  cases hperform : (host.eval x env).perform (openScope.perform w).2 with
  | mk result w' =>
      have hscope := host.perform_evalInScope x env w
      rw [hperform] at hscope hsustains
      rw [hscope] at hfits
      have hfits' : w'.Fits := ((Operation.closeScope w.pools.push.1 result).spends w').fits hfits
      have hopened := hsustains.toSpends.fits hfits'
      exact ⟨result, w', hperform, (Operation.openScope.spends w).fits hopened, hopened, hfits',
        hscope⟩

variable {result : Except Error Handle} {w' : World} {names needed : Set Symbol}
  (hrespectful : Respectful settings w) (hscopes : Scopes host x env w result w')

include hrespectful

theorem opened : Respectful settings (openScope.perform w).2 :=
  hrespectful.step .openScope trivial

include hscopes

theorem accepts_eval (hcomplies : host.Complies (.respectful settings)) :
    (Conduct.respectful settings).Accepts result w' := by
  have haccepts := (hcomplies.follows Host.depthLimit).eval x env _ hrespectful.opened
  rwa [show ((host.evaluator Host.depthLimit).eval x env).perform _ = _ from hscopes.eval_eq]
    at haccepts

/-- Evaluation in a scope never reports that the world has lost track of its objects. -/
theorem ne_poolCorruption_of_scopes (hcomplies : host.Complies (.respectful settings)) (y : Handle)
    (id : PoolId) : ((host.evalInScope x env).perform w).1 ≠ .error (.poolCorruption y id) := by
  have haccepts := hrespectful.accepts_eval hscopes hcomplies
  obtain ⟨hcoherent, _⟩ := haccepts.holds.coherent hscopes.fits
  rw [hscopes.scope_eq]
  obtain ⟨_, _, _, ⟨e, hclose, _, hblames⟩ | ⟨_, _, _, hclose, _⟩⟩ :=
    closeScope_spec hcoherent w.pools.push.1 result
  · rw [hclose]
    exact fun heq => hblames.ne_poolCorruption y id (Except.error.inj heq)
  · rw [hclose]
    exact fun heq => haccepts.reports _ heq hscopes.fits y id rfl

/-- In the scope, an expression whose effects are known is safe to evaluate. -/
theorem secures_opened (heffects : host.Effects env w names x names needed)
    (hx : w.Sheltered Set.univ env names x) (henv : w.Sheltered Set.univ env names env) :
    Secures (openScope.perform w).2 (host.eval x env)
      (Produces env names names needed (openScope.perform w).2 x) := by
  obtain ⟨hcoherent, hequipped⟩ := hrespectful.coherent hscopes.start_fits
  have hopens := opens_openScope hcoherent hrespectful.tidy hequipped hscopes.opened_fits
  have hpoised : (openScope.perform w).2.Poised :=
    ⟨hopens.ready, hrespectful.opened.reachable.sturdy hscopes.opened_fits⟩
  have hlater : Later env names w (openScope.perform w).2 :=
    ⟨hcoherent, hequipped.null, henv, .of_eq rfl rfl rfl, hpoised⟩
  exact ((host.sound_evaluator Host.depthLimit).eval heffects subset_rfl hlater hx).imp
    fun _ _ _ h => h.1

theorem safe_of_effects (hcomplies : host.Complies (.respectful settings))
    (heffects : host.Effects env w names x names needed)
    (hx : w.Sheltered Set.univ env names x) (henv : w.Sheltered Set.univ env names env) :
    (∀ y, ((host.evalInScope x env).perform w).1 ≠ .error (.dangling y)) ∧
      ∀ v, ((host.evalInScope x env).perform w).1 = .ok v →
        ((host.evalInScope x env).perform w).2.objects.Live v := by
  have hsecured := hrespectful.secures_opened hscopes heffects hx henv
  obtain ⟨hcoherent, _⟩ := (hrespectful.accepts_eval hscopes hcomplies).holds.coherent hscopes.fits
  rw [Secures, hscopes.eval_eq] at hsecured
  rw [hscopes.scope_eq]
  cases result with
  | error e =>
      refine ⟨fun y => ?_, fun v hv => ?_⟩
      all_goals
        obtain ⟨_, _, _, ⟨e', hclose, _, hblames⟩ | ⟨_, _, _, hclose, _⟩⟩ :=
          closeScope_spec hcoherent w.pools.push.1 (.error e)
      · rw [hclose]
        exact fun heq => hblames.ne_dangling (by simp) y (Except.error.inj heq)
      · rw [hclose]
        exact fun heq => hsecured hscopes.fits y (Except.error.inj heq)
      · rw [hclose] at hv
        cases hv
      · rw [hclose] at hv
        cases hv
  | ok v =>
      obtain ⟨hresumes, hpoised, hproduces⟩ := hsecured hscopes.fits
      obtain ⟨hcoherent₀, hequipped⟩ := hrespectful.coherent hscopes.start_fits
      have hopens := opens_openScope hcoherent₀ hrespectful.tidy hequipped hscopes.opened_fits
      obtain ⟨saved, p, w'', hclose, hsaves, _, hp, hpid, hreleases, _⟩ :=
        closeScope_innermost hcoherent (hresumes.scopes_eq.trans hopens.scopes_eq) hopens.new
          hopens.ne_collector (.ok v)
      rw [hclose]
      refine ⟨nofun, fun u hu => ?_⟩
      cases hu
      obtain ⟨o, ho, hsingle, hown⟩ := hsaves.saved v rfl (hproduces.keeps hcoherent).live
      refine ⟨o, hreleases.stays v o ho hsingle fun q hq hmem => hown ?_⟩
      rw [List.mem_singleton.1 hq] at hmem
      obtain ⟨o', ho', hown'⟩ := ownership_of_mem_scope hsaves.evolves.coherent hp hmem
      cases ho.symm.trans ho'
      rw [hown', hpid]

omit hscopes

/-- Evaluation in a scope never reports that the world has lost track of its objects. If the
effects of the expression are known it finds no stale handle, and its result is live at the end. -/
theorem evaluation_safe (hcomplies : host.Complies (.respectful settings))
    (hfits : ((host.evalInScope x env).perform w).2.Fits) :
    (∀ y id, ((host.evalInScope x env).perform w).1 ≠ .error (.poolCorruption y id)) ∧
      ∀ names needed, host.Effects env w names x names needed →
        w.Sheltered Set.univ env names x → w.Sheltered Set.univ env names env →
          (∀ y, ((host.evalInScope x env).perform w).1 ≠ .error (.dangling y)) ∧
            ∀ v, ((host.evalInScope x env).perform w).1 = .ok v →
              ((host.evalInScope x env).perform w).2.objects.Live v := by
  obtain ⟨result, w', hscopes⟩ := exists_scopes hfits
  exact ⟨hrespectful.ne_poolCorruption_of_scopes hscopes hcomplies,
    fun _ _ heffects hx henv => hrespectful.safe_of_effects hscopes hcomplies heffects hx henv⟩

end World.Respectful

/-! ## The demonstration -/

namespace Demonstration

theorem answers_length (hcoherent : w.Coherent) (x : Handle) :
    w.Answers [x] (Host.bare.length w x) fun _ => True := by
  have hobject : w.Answers [x] (w.object x >>= fun o => .ok o.length) fun _ => True :=
    answers_bind (w.answers_object x) fun _ _ => trivial
  unfold Host.length
  refine answers_bind (answers_behaviorOf hcoherent x) fun behavior _ => ?_
  split <;> exact hobject

/-- The native function of the demonstration reads its arguments and makes a string. -/
theorem modest_host {names bound needed : Set Symbol} {list : Handle} (hpoised : w.Poised)
    (hlist : w.Keeps [] list) (name : String) :
    Demonstration.host.Modest env names bound needed w {(list, ∅)} ∅
      (Demonstration.host.program (.host name) list env) := by
  have hcoherent := hpoised.coherent
  have hanswers := answers_items hcoherent list
  refine Host.Modest.phrase_ask (q := .items list) (fun e he =>
    (hanswers.error he).ne_dangling (by simpa using hlist.live)) fun items hitems => ?_
  cases items with
  | nil => exact .fail (by simp)
  | cons x rest =>
      have hx : w.objects.Live x := by
        rcases hanswers.ok hitems x List.mem_cons_self with rfl | hkeeps
        · exact hpoised.toReady.keeps_null.live
        · exact hkeeps.live
      refine Host.Modest.phrase_look (fun e he => ?_) fun n _ => ?_
      · exact ((answers_length hcoherent x).error he).ne_dangling (by simpa using hx)
      · exact .phrase_make (.newString _) (by simp)

theorem complies_host (settings : Settings) :
    Demonstration.host.Complies (.respectful settings) where
  native _ args _ w hw := by
    have hallows : (Conduct.respectful settings).allows w (.ask (.items args)) :=
      ⟨trivial, fun _ _ => id⟩
    refine Program.complies_perform hw hallows fun items w' hw' => ?_
    cases items with
    | nil =>
        rintro e ⟨⟩
        exact (Conduct.respectful settings).refuse hw' (by simp)
    | cons x rest =>
        refine Program.complies_look (fun e he hfits => ?_) fun n => ?_
        · exact ((answers_length (hw'.coherent hfits).1 x).error he).ne_poolCorruption
        · exact Program.complies_perform hw' ⟨trivial, fun _ _ => id⟩ fun _ _ _ => nofun
  evalAs _ _ _ _ _ := nofun
  callAs _ function _ _ w hw := by
    rintro e ⟨⟩
    exact (Conduct.respectful settings).refuse hw fun _ _ => telling_ne nofun nofun
  copyAs _ x _ hw hallows :=
    ⟨hallows, ((Conduct.respectful settings).perform (.shallowCopy x) hw hallows).2⟩

end Demonstration

namespace World

/-- The call `kind(x <- 1, x)` has been made in an open scope. -/
def told : World :=
  let w := ((Operation.newBuiltin (.host "kind")).perform initial).2
  let w := ((Operation.install "<-").perform w).2
  let w := ((Operation.install "x").perform w).2
  let w := (Operation.openScope.perform w).2
  let w := ((Operation.scalarInteger 1).perform w).2
  let w := ((Operation.newCall [Builtin.nth 26, Builtin.nth 27, Builtin.nth 28]).perform w).2
  ((Operation.newCall [Builtin.nth 25, Builtin.nth 31, Builtin.nth 27]).perform w).2

theorem respectful_told : Respectful {} told := by
  have hnamed := ((respectful_initial.step (.newBuiltin (.host "kind")) trivial).step
    (.install "<-") trivial).step (.install "x") trivial
  have hvalue := (hnamed.step .openScope trivial).step (.scalarInteger 1) trivial
  have hassign := hvalue.step
    (.newCall [Builtin.nth 26, Builtin.nth 27, Builtin.nth 28]) trivial
  exact hassign.step (.newCall [Builtin.nth 25, Builtin.nth 31, Builtin.nth 27]) trivial

/-- What is read when the effects of the call are looked for. -/
theorem told_reads :
    told.getAttr (Builtin.nth 34) Symbol.head = .ok (some (Builtin.nth 25)) ∧
      told.getAttr (Builtin.nth 34) Symbol.next = .ok (some (Builtin.nth 33)) ∧
      told.items (Builtin.nth 33) = .ok [Builtin.nth 31, Builtin.nth 27] ∧
      told.getAttr (Builtin.nth 31) Symbol.head = .ok (some (Builtin.nth 26)) ∧
      told.getAttr (Builtin.nth 31) Symbol.next = .ok (some (Builtin.nth 30)) ∧
      told.items (Builtin.nth 30) = .ok [Builtin.nth 27, Builtin.nth 28] ∧
      told.symbolOf (Builtin.nth 26) = .ok Symbol.arrow ∧
      told.symbolOf (Builtin.nth 27) = .ok ⟨8⟩ ∧
      told.lookup Builtin.globalEnv Symbol.arrow = .ok (some (Builtin.nth 24)) ∧
      told.nativeOf (Builtin.nth 24) = .ok .assign ∧
      told.nativeOf (Builtin.nth 25) = .ok (.host "kind") := by
  decide +kernel

theorem told_behaviors :
    told.behaviorOf (Builtin.nth 34) = .ok .language ∧
      told.behaviorOf (Builtin.nth 31) = .ok .language ∧
      told.behaviorOf (Builtin.nth 26) = .ok .symbol ∧
      told.behaviorOf (Builtin.nth 27) = .ok .symbol ∧
      told.behaviorOf (Builtin.nth 28) = .ok .default ∧
      told.behaviorOf (Builtin.nth 24) = .ok .special ∧
      told.behaviorOf (Builtin.nth 25) = .ok .builtin := by
  decide +kernel

theorem coherent_told : told.Coherent :=
  (respectful_told.coherent ⟨by decide +kernel, by decide +kernel⟩).1

/-- The call belongs to the open scope, and the environment is pinned. -/
theorem sheltered_told (names : Set Symbol) :
    told.Sheltered Set.univ Builtin.globalEnv names (Builtin.nth 34) ∧
      told.Sheltered Set.univ Builtin.globalEnv names Builtin.globalEnv := by
  have hcall : ((told.objects.get? (Builtin.nth 34)).any fun o =>
      decide (o.header.ownership = .pool ⟨1⟩)) = true := by decide +kernel
  have henv : ((told.objects.get? Builtin.globalEnv).any fun o => o.header.pinned) = true := by
    decide +kernel
  obtain ⟨o, ho, hown⟩ := (Option.any_eq_true _ _).1 hcall
  obtain ⟨p, hp, hpinned⟩ := (Option.any_eq_true _ _).1 henv
  exact ⟨Pooled.sheltered ⟨o, _, ho, of_decide_eq_true hown⟩ trivial,
    Pinned.sheltered coherent_told ⟨p, hp, hpinned⟩⟩

/-- The assignment comes first, so no argument needs the value that the name had. -/
theorem effects_told : Demonstration.host.Effects Builtin.globalEnv told {⟨8⟩} (Builtin.nth 34)
    {⟨8⟩} {Symbol.arrow, ⟨8⟩} := by
  obtain ⟨hhead, hnext, hargs, hhead', hnext', hoperands, harrow, hx, hfound, hassign, hkind⟩ :=
    told_reads
  obtain ⟨hcall, hcall', hsymbol, hsymbol', hnumber, hspecial, hbuiltin⟩ := told_behaviors
  obtain ⟨hsheltered, henv⟩ := sheltered_told {⟨8⟩}
  have hnull : told.Pinned Builtin.null :=
    (respectful_told.coherent ⟨by decide +kernel, by decide +kernel⟩).2.null
  have harrows : told.Runs (Builtin.nth 24) (.special .assign) :=
    ⟨hspecial, fun _ h => by
      cases h
      exact hassign⟩
  have hkinds : told.Runs (Builtin.nth 25) (.builtin (.host "kind")) :=
    ⟨hbuiltin, fun _ h => by
      cases h
      exact hkind⟩
  have hfirst : Demonstration.host.Effects Builtin.globalEnv told {⟨8⟩} (Builtin.nth 31)
      {⟨8⟩} {Symbol.arrow, ⟨8⟩} := by
    refine .of_known hcall' hhead' hnext' (.named hsymbol harrow (by simp)) (fun v hv => ?_)
      coherent_told ((henv.lookup coherent_told (by decide) hfound).sheltered coherent_told)
      harrows ?_
    · cases hv with
      | itself hbehavior hidle =>
          cases hsymbol.symm.trans hbehavior
          exact absurd hidle id
      | computed hbehavior | custom hbehavior => cases hsymbol.symm.trans hbehavior
      | named _ hname hgiven =>
          cases harrow.symm.trans hname
          exact (Option.some.inj (hgiven (by decide) _ hfound)).symm
    · exact .assign hoperands hx (.constant hnumber trivial) (by simp) (by simp)
  refine .of_known hcall hhead hnext (.constant hbuiltin trivial) (fun v hv => ?_)
    coherent_told ((hsheltered.getAttr_getD coherent_told hnull hhead).sheltered
      coherent_told) hkinds ?_
  · cases hv with
    | itself _ _ heq => exact heq
    | named hbehavior | computed hbehavior | custom hbehavior =>
        cases hbuiltin.symm.trans hbehavior
  · exact .builtin hargs (.cons hfirst (.cons (.named hsymbol' hx rfl) .nil subset_rfl
      (Set.disjoint_empty _)) (Set.empty_subset _) (Set.disjoint_empty _))
      fun _ _ hpoised _ hlist => Demonstration.modest_host hpoised hlist _

/-- The call may be evaluated. No stale handle is found, and the string is there at the end. -/
theorem Respectful.evaluation_safe_told :
    (∀ y, ((Demonstration.host.evalInScope (Builtin.nth 34) Builtin.globalEnv).perform told).1 ≠
      .error (.dangling y)) ∧
      ((Demonstration.host.evalInScope (Builtin.nth 34) Builtin.globalEnv).perform
        told).2.objects.Live (Builtin.nth 37) := by
  have hcells : ((Demonstration.host.evalInScope (Builtin.nth 34) Builtin.globalEnv).perform
      told).2.objects.cells.size ≤ 2 ^ 32 := by
    rw [Host.perform_evalInScope, (Action.trims_closeScope (S := fun _ => Object.Stays) _ _
      _).objects.cells_eq]
    decide +kernel
  have hsafe := (respectful_told.evaluation_safe (x := Builtin.nth 34)
    (Demonstration.complies_host _) ⟨hcells, by decide +kernel⟩).2 {⟨8⟩} _
    effects_told (sheltered_told _).1 (sheltered_told _).2
  exact ⟨hsafe.1, hsafe.2 _ (by decide +kernel)⟩

end World

end ObjectSystem

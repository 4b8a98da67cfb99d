/-
# What evaluation keeps

Evaluation, calls and copies are made of operations, of questions to the world and of what
host programs ask for. So they lead from worlds that are in order to worlds that are in order,
if operations do and host programs keep to the operations that are allowed, and they report only
what operations report and what is a fault of the request. What all operations keep, however they
are used, evaluation keeps for every host.

Of the requests of a host program only its operations are judged by what they do. A request
to evaluate, call or copy may come back with any result, in any world that is in order.
-/

import ObjectSystem.Proofs.Operation
import ObjectSystem.World.Evaluation

namespace ObjectSystem

open World

/-- Which worlds are in order, which operations lead from one of them to the next, and which
errors may be reported in them. Questions and what evaluation does of its own accord are
allowed, and it may be reported that a request cannot be met. -/
structure Conduct where
  holds : World → Prop
  allows : World → {α : Type} → Operation α → Prop
  reports : World → Error → Prop
  perform : ∀ {w : World} {α : Type} (op : Operation α), holds w → allows w op →
    holds (op.perform w).2 ∧ ∀ e, (op.perform w).1 = .error e → reports (op.perform w).2 e
  ask : ∀ {w : World} {α : Type} (q : Query α), holds w → allows w (.ask q)
  newList : ∀ {w : World} (items : List Handle), holds w → allows w (.newList items)
  requireMethod : ∀ {w : World} (name : String) (args : List Handle), holds w →
    allows w (.requireMethod name args)
  assign : ∀ {w : World} (env : Handle) (name : Symbol) (value : Handle), holds w →
    allows w (.assign env name value)
  refuse : ∀ {w : World} {e : Error}, holds w → (∀ x id, e ≠ .poolCorruption x id) → reports w e

/-- Every operation is allowed where a relation between worlds that all of them keep holds. -/
def Conduct.ofKeeps (R : World → World → Prop) [IsPreorder World R]
    (hkeeps : ∀ {α : Type} (op : Operation α), op.action.Keeps R) (w : World) : Conduct where
  holds w' := R w w'
  allows _ _ _ := True
  reports _ _ := True
  perform op hw _ := ⟨trans_of R hw (hkeeps op _), fun _ _ => trivial⟩
  ask _ _ := trivial
  newList _ _ := trivial
  requireMethod _ _ _ := trivial
  assign _ _ _ _ := trivial
  refuse _ _ := trivial

variable {κ : Conduct} {α β : Type}

/-- The world that an action has led to is in order, and what it reports may be reported. -/
structure Conduct.Accepts (κ : Conduct) (result : Except Error α) (w : World) : Prop where
  holds : κ.holds w
  reports : ∀ e, result = .error e → κ.reports w e

theorem Conduct.accepts_ok {a : α} {w : World} (hw : κ.holds w) : κ.Accepts (.ok a) w :=
  ⟨hw, nofun⟩

theorem Conduct.accepts_error {e : Error} {w : World} (hw : κ.holds w) (he : κ.reports w e) :
    κ.Accepts (.error e : Except Error α) w :=
  ⟨hw, fun _ heq => Except.error.inj heq ▸ he⟩

theorem Conduct.accepts_perform {w : World} (op : Operation α) (hw : κ.holds w)
    (hallows : κ.allows w op) : κ.Accepts (op.perform w).1 (op.perform w).2 :=
  have hperform := κ.perform op hw hallows
  ⟨hperform.1, hperform.2⟩

namespace Action

/-- From worlds that are in order the action leads to such worlds, and it reports only what may
be reported there. -/
def Follows (κ : Conduct) (action : Action α) : Prop :=
  ∀ w, κ.holds w → κ.Accepts (action.perform w).1 (action.perform w).2

theorem follows_pure (a : α) : Follows κ (pure a) := fun _ hw => Conduct.accepts_ok hw

theorem follows_throw {e : Error} (he : ∀ x id, e ≠ .poolCorruption x id) :
    Follows κ (throw e : Action α) :=
  fun _ hw => Conduct.accepts_error hw (κ.refuse hw he)

theorem follows_operation (op : Operation α) (hallows : ∀ w, κ.holds w → κ.allows w op) :
    Follows κ op.action :=
  fun w hw => Conduct.accepts_perform op hw (hallows w hw)

theorem follows_ask (q : Query α) : Follows κ (query q.answer) :=
  follows_operation (.ask q) fun _ => κ.ask q

theorem follows_get : Follows κ get := fun _ hw => Conduct.accepts_ok hw

theorem follows_newList (items : List Handle) : Follows κ (newList items) :=
  follows_operation (.newList items) fun _ => κ.newList items

theorem follows_requireMethod (name : String) (args : List Handle) :
    Follows κ (requireMethod name args) :=
  follows_operation (.requireMethod name args) fun _ => κ.requireMethod name args

theorem follows_assign (env : Handle) (name : Symbol) (value : Handle) :
    Follows κ (assign env name value) :=
  follows_operation (.assign env name value) fun _ => κ.assign env name value

theorem follows_bind {m : Action α} {f : α → Action β} (hm : Follows κ m)
    (hf : ∀ a, Follows κ (f a)) : Follows κ (m >>= f) := by
  intro w hw
  have hfirst := hm w hw
  rw [perform_bind]
  cases hresult : m.perform w with
  | mk result w' =>
      rw [hresult] at hfirst
      cases result with
      | ok a => exact hf a w' hfirst.holds
      | error e => exact Conduct.accepts_error hfirst.holds (hfirst.reports e rfl)

theorem follows_mapM {l : List α} {f : α → Action β} (hf : ∀ a, Follows κ (f a)) :
    Follows κ (l.mapM f) := by
  induction l with
  | nil =>
      rw [List.mapM_nil]
      exact follows_pure _
  | cons a l ih =>
      rw [List.mapM_cons]
      exact follows_bind (hf a) fun _ => follows_bind ih fun _ => follows_pure _

theorem perform_attempt (action : Action α) (w : World) :
    (attempt action).perform w = (.ok (action.perform w).1, (action.perform w).2) ∨
      ∃ e, e.isEndless = true ∧ (attempt action).perform w = (.error e, (action.perform w).2) := by
  unfold attempt
  rw [perform_bind, show (outcome action).perform w =
    (.ok (action.perform w).1, (action.perform w).2) from rfl]
  cases (action.perform w).1 with
  | ok a => exact Or.inl rfl
  | error e =>
      cases he : e.isEndless with
      | true => exact Or.inr ⟨e, he, by simp only [he, if_true]; rfl⟩
      | false => exact Or.inl (by simp only [he]; rfl)

/-- What follows an attempt goes on with its outcome, unless there is none. -/
theorem perform_attempt_bind (action : Action α) (f : Except Error α → Action β) (w : World) :
    (attempt action >>= f).perform w = (f (action.perform w).1).perform (action.perform w).2 ∨
      ∃ e, e.isEndless = true ∧
        (attempt action >>= f).perform w = (.error e, (action.perform w).2) := by
  rw [perform_bind]
  rcases perform_attempt action w with hperform | ⟨e, he, hperform⟩ <;> rw [hperform]
  · exact Or.inl rfl
  · exact Or.inr ⟨e, he, rfl⟩

/-- An attempt is accepted if its outcome is, and what follows is accepted then. -/
theorem accepts_attempt_bind {action : Action α} {f : Except Error α → Action β} {w : World}
    (hfirst : κ.Accepts (action.perform w).1 (action.perform w).2)
    (hrest : κ.Accepts ((f (action.perform w).1).perform (action.perform w).2).1
      ((f (action.perform w).1).perform (action.perform w).2).2) :
    κ.Accepts ((attempt action >>= f).perform w).1 ((attempt action >>= f).perform w).2 := by
  rcases perform_attempt_bind action f w with heq | ⟨e, he, heq⟩ <;> rw [heq]
  · exact hrest
  · refine Conduct.accepts_error hfirst.holds (κ.refuse hfirst.holds fun x id hcorrupt => ?_)
    subst hcorrupt
    cases he

end Action

/-- What evaluates, calls and copies for programs keeps to a conduct. It copies only where that
is allowed. -/
structure Evaluator.Follows (κ : Conduct) (inner : Evaluator) : Prop where
  eval : ∀ x env, Action.Follows κ (inner.eval x env)
  call : ∀ function args env, Action.Follows κ (inner.call function args env)
  copy : ∀ x w, κ.holds w → κ.allows w (.shallowCopy x) →
    κ.Accepts ((inner.copy x).perform w).1 ((inner.copy x).perform w).2

/-- The program performs only what is allowed, copies only where that is allowed, and reports
only what may be reported. -/
def Program.Complies (κ : Conduct) : Program → World → Prop
  | .done result, w => ∀ e, result = .error e → κ.reports w e
  | .look next, w => (next w).Complies κ w
  | .perform op next, w =>
      κ.allows w op ∧ (next (op.perform w).1).Complies κ (op.perform w).2
  | .copy x next, w =>
      κ.allows w (.shallowCopy x) ∧ ∀ result w', κ.Accepts result w' → (next result).Complies κ w'
  | .eval _ _ next, _ | .call _ _ _ next, _ | .assign _ _ next, _ =>
      ∀ result w', κ.Accepts result w' → (next result).Complies κ w'

namespace Program

variable {α : Type} {w : World} {rest : α → Program}

/-- A part of a program complies that gives up if its operation fails. -/
theorem complies_perform {op : Operation α} (hw : κ.holds w) (hallows : κ.allows w op)
    (hrest : ∀ a w', κ.holds w' → (rest a).Complies κ w') :
    (Phrase.perform op rest).Complies κ w := by
  obtain ⟨hholds, hreports⟩ := κ.perform op hw hallows
  refine ⟨hallows, ?_⟩
  cases hresult : (op.perform w).1 with
  | ok a => exact hrest a _ hholds
  | error e =>
      rintro e' ⟨⟩
      exact hreports e hresult

theorem complies_look {question : World → Except Error α}
    (hreports : ∀ e, question w = .error e → κ.reports w e)
    (hrest : ∀ a, (rest a).Complies κ w) :
    (Phrase.ofResult (fun next => .look fun w => next (question w)) rest).Complies κ w := by
  simp only [Phrase.ofResult, Program.Complies]
  cases hanswer : question w with
  | ok a => exact hrest a
  | error e =>
      rintro e' ⟨⟩
      exact hreports e hanswer

end Program

/-- The native functions and the behaviors of a host keep to a conduct. -/
structure Host.Complies (κ : Conduct) (host : Host) : Prop where
  native : ∀ name args env w, κ.holds w → (host.native name args env).Complies κ w
  evalAs : ∀ behavior x env w, κ.holds w → (host.evalAs behavior x env).Complies κ w
  callAs : ∀ behavior function args env w, κ.holds w →
    (host.callAs behavior function args env).Complies κ w
  copyAs : ∀ behavior x w, κ.holds w → κ.allows w (.shallowCopy x) →
    (host.copyAs behavior x).Complies κ w

namespace Action

variable {inner : Evaluator} (hinner : inner.Follows κ)

include hinner

theorem follows_assignOperands (args env : Handle) : Follows κ (assignOperands inner args env) := by
  unfold assignOperands
  refine follows_bind (follows_ask (.items args)) fun operands => ?_
  split
  · next target x =>
      exact follows_bind (follows_ask (.symbolOf target)) fun name =>
        follows_bind (hinner.eval x env) fun value =>
          follows_bind (follows_assign env name value) fun _ => follows_pure value
  · exact follows_throw (by simp)

theorem follows_evalArgs (args env : Handle) : Follows κ (inner.evalArgs args env) :=
  follows_bind (follows_ask (.items args)) fun _ => follows_mapM fun x => hinner.eval x env

/-- A program that complies leads to a world that is in order, by induction on its tree. -/
theorem accepts_run {program : Program} {w : World} (hcomplies : program.Complies κ w)
    (hw : κ.holds w) :
    κ.Accepts ((program.run inner).perform w).1 ((program.run inner).perform w).2 := by
  induction program generalizing w with
  | done result => exact ⟨hw, hcomplies⟩
  | look next ih => exact ih w hcomplies hw
  | perform op next ih =>
      have hfirst := Conduct.accepts_perform op hw hcomplies.1
      exact accepts_attempt_bind hfirst (ih _ hcomplies.2 hfirst.holds)
  | eval x env next ih =>
      have hfirst := hinner.eval x env w hw
      exact accepts_attempt_bind hfirst (ih _ (hcomplies _ _ hfirst) hfirst.holds)
  | call function args env next ih =>
      have hfirst := hinner.call function args env w hw
      exact accepts_attempt_bind hfirst (ih _ (hcomplies _ _ hfirst) hfirst.holds)
  | copy x next ih =>
      have hfirst := hinner.copy x w hw hcomplies.1
      exact accepts_attempt_bind hfirst (ih _ (hcomplies.2 _ _ hfirst) hfirst.holds)
  | assign args env next ih =>
      have hfirst := follows_assignOperands hinner args env w hw
      exact accepts_attempt_bind hfirst (ih _ (hcomplies _ _ hfirst) hfirst.holds)

section Host

variable {host : Host} (hhost : host.Complies κ)

include hhost

theorem follows_runNative (function : Native) (args env : Handle) :
    Follows κ (host.runNative inner function args env) := by
  unfold Host.runNative
  cases function with
  | assign => exact follows_assignOperands hinner args env
  | host name => exact fun w hw => accepts_run hinner (hhost.native name args env w hw) hw

theorem follows_runMethod (name : String) (values : List Handle) (env : Handle) :
    Follows κ (host.runMethod inner name values env) := by
  unfold Host.runMethod
  refine follows_bind (follows_requireMethod _ values) fun method =>
    follows_bind (follows_ask (.object method)) fun o => ?_
  split
  · exact follows_bind (follows_newList values) fun list =>
      follows_runNative hinner hhost _ list env
  · exact follows_pure method

theorem follows_callBy (function args env : Handle) :
    Follows κ (host.callBy inner function args env) := by
  unfold Host.callBy
  refine follows_bind (follows_ask (.behaviorOf function)) fun behavior => ?_
  split
  · exact follows_bind (follows_ask (.nativeOf function)) fun native =>
      follows_bind (follows_evalArgs hinner args env) fun values =>
        follows_bind (follows_newList values) fun list =>
          follows_runNative hinner hhost native list env
  · exact follows_bind (follows_ask (.nativeOf function)) fun native =>
      follows_runNative hinner hhost native args env
  · exact follows_bind follows_get fun _ => follows_bind (follows_ask (.symbolOf function))
      fun _ => follows_bind (follows_evalArgs hinner args env) fun values =>
        follows_runMethod hinner hhost _ values env
  · exact follows_pure function
  · exact fun w hw => accepts_run hinner (hhost.callAs _ function args env w hw) hw
  · exact follows_bind follows_get fun _ => follows_throw fun _ _ => telling_ne nofun nofun

theorem follows_evalBy (x env : Handle) : Follows κ (host.evalBy inner x env) := by
  unfold Host.evalBy
  refine follows_bind (follows_ask (.behaviorOf x)) fun behavior => ?_
  split
  · refine follows_bind (follows_ask (.symbolOf x)) fun name =>
      follows_bind (follows_ask (.lookup env name)) fun value => ?_
    split
    · exact follows_pure _
    · exact follows_bind follows_get fun _ => follows_throw (by simp)
  · exact follows_bind (follows_ask (.getAttr x Symbol.head)) fun head =>
      follows_bind (hinner.eval _ env) fun function =>
        follows_bind (follows_ask (.getAttr x Symbol.next)) fun args =>
          follows_callBy hinner hhost function _ env
  · exact fun w hw => accepts_run hinner (hhost.evalAs _ x env w hw) hw
  · exact follows_pure x

theorem accepts_copyBy {x : Handle} {w : World} (hw : κ.holds w)
    (hallows : κ.allows w (.shallowCopy x)) :
    κ.Accepts ((host.copyBy inner x).perform w).1 ((host.copyBy inner x).perform w).2 := by
  have hasks := follows_ask (κ := κ) (.behaviorOf x) w hw
  unfold Host.copyBy
  rw [perform_query_bind]
  cases hbehavior : w.behaviorOf x with
  | error e => exact Conduct.accepts_error hw (hasks.reports e hbehavior)
  | ok behavior =>
      simp only
      split
      · exact Conduct.accepts_ok hw
      · exact Conduct.accepts_ok hw
      · exact accepts_run hinner (hhost.copyAs _ x w hw hallows) hw
      · exact Conduct.accepts_perform (.shallowCopy x) hw hallows

end Host

end Action

/-- Where all operations are allowed, every program complies. -/
theorem Program.complies_ofKeeps {R : World → World → Prop} [IsPreorder World R]
    (hkeeps : ∀ {α : Type} (op : Operation α), op.action.Keeps R) (program : Program)
    (w w' : World) : program.Complies (.ofKeeps R hkeeps w) w' := by
  induction program generalizing w' with
  | done => exact fun _ _ => trivial
  | look next ih => exact ih w' w'
  | perform op next ih => exact ⟨trivial, ih _ _⟩
  | copy x next ih => exact ⟨trivial, fun result w' _ => ih result w'⟩
  | eval x env next ih | call function args env next ih | assign args env next ih =>
      exact fun result w' _ => ih result w'

namespace Host

open Action

variable {host : Host}

/-- However deep expressions are nested, evaluation keeps to a conduct that the host keeps to. -/
theorem Complies.follows (hhost : host.Complies κ) (depth : Nat) :
    (host.evaluator depth).Follows κ := by
  induction depth with
  | zero =>
      refine ⟨fun _ _ => follows_throw (by simp), fun _ _ _ => follows_throw (by simp),
        fun _ w hw _ => ?_⟩
      exact follows_throw (α := Handle) (e := .evaluationTooDeep) (by simp) w hw
  | succ depth ih =>
      exact ⟨follows_evalBy ih hhost, follows_callBy ih hhost,
        fun _ _ hw hallows => accepts_copyBy ih hhost hw hallows⟩

section Keeps

variable {R : World → World → Prop} [IsPreorder World R]
  (hkeeps : ∀ {α : Type} (op : Operation α), op.action.Keeps R)

include hkeeps

theorem complies_ofKeeps (host : Host) (w : World) : host.Complies (.ofKeeps R hkeeps w) where
  native _ _ _ w' _ := Program.complies_ofKeeps hkeeps _ w w'
  evalAs _ _ _ w' _ := Program.complies_ofKeeps hkeeps _ w w'
  callAs _ _ _ _ w' _ := Program.complies_ofKeeps hkeeps _ w w'
  copyAs _ _ w' _ _ := Program.complies_ofKeeps hkeeps _ w w'

/-- What all operations keep is kept by evaluation, whatever host programs do. -/
theorem keeps_eval (host : Host) (x env : Handle) : (host.eval x env).Keeps R :=
  fun w => (((host.complies_ofKeeps hkeeps w).follows depthLimit).eval x env w (refl_of R w)).holds

theorem keeps_call (host : Host) (function args env : Handle) :
    (host.call function args env).Keeps R :=
  fun w => (((host.complies_ofKeeps hkeeps w).follows depthLimit).call function args env w
    (refl_of R w)).holds

theorem keeps_copy (host : Host) (x : Handle) : (host.copy x).Keeps R :=
  fun w => (((host.complies_ofKeeps hkeeps w).follows depthLimit).copy x w (refl_of R w)
    trivial).holds

end Keeps

end Host

end ObjectSystem

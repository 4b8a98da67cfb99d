/-
# What generics dispatch

A generic holds the symbol of its name, and a call looks the name up again when it is made. The
table of names only grows at its end, so that is the name that the generic was made for; but the
name is taken as it is shown to users, without the marks of method names in front. So a generic
dispatches the method of its name if the name does not begin with such a mark, and otherwise the
method of what is left of it.
-/

import ObjectSystem.Proofs.Admission
import ObjectSystem.Proofs.Conduct
import ObjectSystem.Proofs.Ways

namespace ObjectSystem

open Relation

/-- A name as it is shown to users. -/
def shownName (name : String) : String :=
  String.ofList (name.toList.dropWhile (· == methodMark))

theorem shownName_eq {name : String} (hplain : name.toList.head? ≠ some methodMark) :
    shownName name = name := by
  have hlist : name.toList.dropWhile (· == methodMark) = name.toList := by
    cases hname : name.toList with
    | nil => rfl
    | cons first rest =>
        have hfirst : (first == methodMark) = false := by
          rw [beq_eq_false_iff_ne]
          rintro rfl
          exact hplain (by rw [hname]; rfl)
        rw [List.dropWhile_cons, hfirst]
        rfl
  rw [shownName, hlist, String.ofList_toList]

namespace World

variable {settings : Settings} {w w' w₁ w₂ w₃ : World} {g x args env c : Handle} {s : Symbol}
  {name : String} {values : List Handle} {payload : Payload} {length : Nat}

/-- The second world comes from the first by operations. -/
def Precedes (w w' : World) : Prop :=
  ReflTransGen (fun w w' => ∃ (α : Type) (op : Operation α), w' = (op.perform w).2) w w'

instance : IsPreorder World Precedes where
  refl _ := .refl
  trans _ _ _ := .trans

/-- Evaluation is made of operations, whatever host programs do. -/
theorem precedes_eval (w : World) (host : Host) (x env : Handle) :
    w.Precedes ((host.eval x env).perform w).2 :=
  host.keeps_eval (fun op _ => .single ⟨_, op, rfl⟩) x env w

theorem Precedes.remembers (hprecedes : w.Precedes w') : w.Remembers w' := by
  induction hprecedes with
  | refl => exact refl_of Remembers w
  | tail _ hstep ih =>
      obtain ⟨_, op, rfl⟩ := hstep
      exact trans_of Remembers ih (op.remembers _)

theorem symbolOf_eq_ok_iff : w.symbolOf x = .ok s ↔ w.payload? x = some (.symbol s) := by
  unfold symbolOf object payload?
  cases w.objects.get? x with
  | none => simp [bind, Except.bind]
  | some o =>
      rcases o with ⟨_, _, _, _, payload⟩
      cases payload <;> simp [bind, Except.bind, pure, Except.pure, throw, throwThe,
        MonadExceptOf.throw]

end World

namespace Action

open World

variable {settings : Settings} {w w' : World} {g x c : Handle} {name : String}
  {payload : Payload} {length : Nat}

/-- What is made of the method that a call has come to: a native function is run on the values,
and anything else is the result itself. -/
def runSelected (host : Host) (inner : Evaluator) (method : Handle) (values : List Handle)
    (env : Handle) : Action Handle := do
  match (← query (·.object method)).payload with
  | .native function => host.runNative inner function (← newList values) env
  | _ => return method

theorem runMethod_eq (host : Host) (inner : Evaluator) (name : String) (values : List Handle)
    (env : Handle) :
    host.runMethod inner name values env = (do
      let method ← requireMethod name values
      runSelected host inner method values env) := rfl

theorem payload?_allocateOf (hreachable : Reachable settings w) (hfits : w'.Fits)
    (hallocate : (allocateOf c payload length).perform w = (.ok x, w')) :
    w'.payload? x = some payload := by
  unfold allocateOf at hallocate
  rw [perform_query_bind] at hallocate
  cases hd : w.descriptor c with
  | error e =>
      rw [hd] at hallocate
      cases hallocate
  | ok d =>
      simp only [hd] at hallocate
      let o : Object := .new c d.attrCount payload length .shared
      have hspends : w.Spends ((allocate o).perform w).2 := steps_spends.allocate rfl w
      rw [hallocate] at hspends
      have hsturdy := hreachable.sturdy (hspends.fits hfits)
      rw [perform_allocate_eq] at hallocate
      split at hallocate
      · cases hallocate
      · next hroom =>
          cases hallocate
          have hputs := hsturdy.putsIn (Bool.eq_false_iff.2 hroom) hfits
          exact payload?_eq_some_iff.2 ⟨_, hputs.get?_eq, rfl⟩

/-- A new generic holds the symbol of its name. -/
theorem newGeneric_spec (hreachable : Reachable settings w) (hfits : w'.Fits)
    (hsymbols : w'.symbols.size ≤ 2 ^ 32) (hnew : (newGeneric name).perform w = (.ok g, w')) :
    ∃ s, w'.payload? g = some (.symbol s) ∧ w'.symbols.name? s = some name := by
  have hintern : (intern name).perform w = (.ok (w.intern name).1, (w.intern name).2) := rfl
  unfold newGeneric at hnew
  rw [perform_bind_ok hintern] at hnew
  have hinterned : Reachable settings (w.intern name).2 := hreachable.step (.intern name)
  have hrest : (allocateOf Builtin.genericClass (.symbol (w.intern name).1) 0).Keeps Remembers :=
    keeps_bind (keeps_query _) fun _ => steps_remembers.allocate rfl
  have hremembers := hrest (w.intern name).2
  rw [hnew] at hremembers
  exact ⟨_, payload?_allocateOf hinterned hfits hnew,
    hremembers.name?_eq (SymbolTable.name?_intern (hremembers.size_le.trans hsymbols))⟩

end Action

namespace World

variable {settings : Settings} {w w' w₁ w₂ w₃ : World} {g args env : Handle} {s : Symbol}
  {name : String} {values : List Handle}

/-- A call of a generic comes to the method of a name for the values of the arguments, in the
world in which they have been evaluated. What is inside is left to an evaluator. -/
structure Dispatches (host : Host) (inner : Evaluator) (w : World) (g args env : Handle)
    (name : String) (values : List Handle) (w' : World) : Prop where
  selects : ∀ method w'', (Operation.requireMethod name values).perform w' = (.ok method, w'') →
    (host.callBy inner g args env).perform w =
      (Action.runSelected host inner method values env).perform w''
  fails : ∀ e w'', (Operation.requireMethod name values).perform w' = (.error e, w'') →
    (host.callBy inner g args env).perform w = (.error e, w'')

theorem dispatches_of_name? {host : Host} {inner : Evaluator}
    (hgeneric : w.behaviorOf g = .ok .generic) (hsymbol : w.symbolOf g = .ok s)
    (hname : w.symbols.name? s = some name)
    (hargs : (inner.evalArgs args env).perform w = (.ok values, w')) :
    Dispatches host inner w g args env (shownName name) values w' := by
  have hshown : w.symbols.display s = shownName name := by
    rw [SymbolTable.display, hname]
    rfl
  have happly : (host.callBy inner g args env).perform w =
      (host.runMethod inner (shownName name) values env).perform w' := by
    unfold Host.callBy
    rw [Action.perform_query_bind, hgeneric]
    simp only [Action.perform_bind, Action.perform_get, Action.perform_query, hsymbol, hargs,
      hshown]
  rw [Action.runMethod_eq] at happly
  exact ⟨fun method w'' hrequire => happly.trans (Action.perform_bind_ok hrequire),
    fun e w'' hrequire => happly.trans (Action.perform_bind_error hrequire)⟩

/-- Whenever a generic is called while it holds what it was made with, it dispatches the method
of its name as that is shown: the very name, unless it begins with a mark of method names. This
is so for every host, and whatever evaluates the arguments. -/
theorem Reachable.generic_dispatches (hreachable : Reachable settings w) (host : Host)
    (inner : Evaluator)
    (hnew : (Operation.newGeneric name).perform w = (.ok g, w₁)) (hfits : w₁.Fits)
    (hsymbols : w₁.symbols.size ≤ 2 ^ 32) (hprecedes : w₁.Precedes w₂)
    (hkept : w₂.payload? g = w₁.payload? g) (hgeneric : w₂.behaviorOf g = .ok .generic)
    (hargs : (inner.evalArgs args env).perform w₂ = (.ok values, w₃)) :
    Dispatches host inner w₂ g args env (shownName name) values w₃ ∧
      (name.toList.head? ≠ some methodMark →
        Dispatches host inner w₂ g args env name values w₃) := by
  obtain ⟨s, hpayload, hname⟩ := Action.newGeneric_spec hreachable hfits hsymbols hnew
  have hdispatches : Dispatches host inner w₂ g args env (shownName name) values w₃ :=
    dispatches_of_name? hgeneric (symbolOf_eq_ok_iff.2 (hkept.trans hpayload))
      (hprecedes.remembers.name?_eq hname) hargs
  exact ⟨hdispatches, fun hplain => shownName_eq hplain ▸ hdispatches⟩

/-- A generic for a name with a mark in front. Texts have a method of this name, but the generic
comes to that of the name without the mark. -/
theorem Reachable.generic_dispatches_marked :
    let text := Builtin.missingString
    let generic := Builtin.nth 27
    let list := Builtin.nth 28
    let w₀ := ((Operation.defineMethod Builtin.charsClass "\x01f" [] Builtin.null).perform
      ((Operation.defineMethod Builtin.charsClass "f" [] Builtin.missingArg).perform initial).2).2
    let w₁ := ((Operation.newGeneric "\x01f").perform w₀).2
    let w₂ := ((Operation.newList [text]).perform w₁).2
    let inner := Host.bare.evaluator 1
    let w₃ := ((inner.evalArgs list Builtin.globalEnv).perform w₂).2
    (Reachable {} w₀ ∧ (Operation.newGeneric "\x01f").perform w₀ = (.ok generic, w₁) ∧
        w₁.Precedes w₂ ∧
        (inner.evalArgs list Builtin.globalEnv).perform w₂ = (.ok [text], w₃)) ∧
      Dispatches Host.bare inner w₂ generic list Builtin.globalEnv "f" [text] w₃ ∧
      ((Host.bare.call generic list Builtin.globalEnv).perform w₂).1 = .ok Builtin.missingArg ∧
      ((Operation.requireMethod "\x01f" [text]).perform w₃).1 = .ok Builtin.null := by
  intro text generic list w₀ w₁ w₂ inner w₃
  have hnew : ((Operation.newGeneric "\x01f").perform w₀).1 = .ok generic := by decide +kernel
  have hsizes : w₁.objects.cells.size ≤ 2 ^ 32 ∧ w₁.pools.opened < 2 ^ 32 ∧
      w₁.symbols.size ≤ 2 ^ 32 := by decide +kernel
  have hsymbol : w₁.symbolOf generic = .ok (Symbol.ofIndex 8) ∧
      w₂.symbolOf generic = .ok (Symbol.ofIndex 8) ∧ w₂.behaviorOf generic = .ok .generic := by
    decide +kernel
  have hargs : ((inner.evalArgs list Builtin.globalEnv).perform w₂).1 = .ok [text] := by
    decide +kernel
  have happly : ((Host.bare.call generic list Builtin.globalEnv).perform w₂).1 =
      .ok Builtin.missingArg := by decide +kernel
  have hrequire : ((Operation.requireMethod "\x01f" [text]).perform w₃).1 = .ok Builtin.null := by
    decide +kernel
  have hreachable : Reachable {} w₀ := ((Reachable.create create_default).step
    (.defineMethod Builtin.charsClass "f" [] Builtin.missingArg)).step
      (.defineMethod Builtin.charsClass "\x01f" [] Builtin.null)
  have hprecedes : w₁.Precedes w₂ := .single ⟨_, .newList [text], rfl⟩
  have hfits : w₁.Fits := ⟨hsizes.1, hsizes.2.1⟩
  have hkept : w₂.payload? generic = w₁.payload? generic :=
    (symbolOf_eq_ok_iff.1 hsymbol.2.1).trans (symbolOf_eq_ok_iff.1 hsymbol.1).symm
  have hshown : shownName "\x01f" = "f" := by decide +kernel
  have hnew : (Operation.newGeneric "\x01f").perform w₀ = (.ok generic, w₁) :=
    Action.outcome_eq hnew
  have hargs : (inner.evalArgs list Builtin.globalEnv).perform w₂ = (.ok [text], w₃) :=
    Action.outcome_eq hargs
  have hdispatches := (hreachable.generic_dispatches Host.bare inner hnew hfits hsizes.2.2
    hprecedes hkept hsymbol.2.2 hargs).1
  rw [hshown] at hdispatches
  exact ⟨⟨hreachable, hnew, hprecedes, hargs⟩, hdispatches, happly, hrequire⟩

end World

end ObjectSystem

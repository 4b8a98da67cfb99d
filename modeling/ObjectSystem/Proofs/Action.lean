/-
# Running actions

An action that is performed in a world gives a result or an error and leaves a
world behind. The laws here say what each way of putting actions together does
to the two.
-/

import ObjectSystem.World

namespace ObjectSystem.Action

variable {α β : Type} {w w' : World}

/-- The result of an action and the world that it leaves behind. -/
def perform (action : Action α) (w : World) : Except Error α × World :=
  action.run.run w

@[simp]
theorem perform_pure (a : α) (w : World) : (pure a : Action α).perform w = (.ok a, w) := rfl

@[simp]
theorem perform_throw (e : Error) (w : World) :
    (throw e : Action α).perform w = (.error e, w) := rfl

@[simp]
theorem perform_query (question : World → Except Error α) (w : World) :
    (query question).perform w = (question w, w) := rfl

@[simp]
theorem perform_get (w : World) : (get : Action World).perform w = (.ok w, w) := rfl

@[simp]
theorem perform_modify (f : World → World) (w : World) :
    (modify f : Action Unit).perform w = (.ok (), f w) := rfl

@[simp]
theorem perform_modifyGet (f : World → α × World) (w : World) :
    (modifyGet f : Action α).perform w = (.ok (f w).1, (f w).2) := rfl

@[simp]
theorem perform_outcome (action : Action α) (w : World) :
    (outcome action).perform w = (.ok (action.perform w).1, (action.perform w).2) := rfl

/-- An action that follows another starts where that one succeeded, and is not
started where it failed. -/
theorem perform_bind (m : Action α) (f : α → Action β) (w : World) :
    (m >>= f).perform w =
      match m.perform w with
      | (.ok a, w') => (f a).perform w'
      | (.error e, w') => (.error e, w') := by
  show (match m.perform w with | (result, w') => ExceptT.bindCont f result w') = _
  cases hm : m.perform w with
  | mk result w' =>
      cases result with
      | ok a => rfl
      | error e => rfl

theorem perform_bind_ok {m : Action α} {f : α → Action β} {a : α}
    (hm : m.perform w = (.ok a, w')) : (m >>= f).perform w = (f a).perform w' := by
  rw [perform_bind, hm]

theorem perform_bind_error {m : Action α} {f : α → Action β} {e : Error}
    (hm : m.perform w = (.error e, w')) : (m >>= f).perform w = (.error e, w') := by
  rw [perform_bind, hm]

/-- An action that follows another succeeds if both do. -/
theorem perform_bind_eq_ok_iff {m : Action α} {f : α → Action β} {b : β} :
    (m >>= f).perform w = (.ok b, w') ↔
      ∃ a w'', m.perform w = (.ok a, w'') ∧ (f a).perform w'' = (.ok b, w') := by
  rw [perform_bind]
  cases hm : m.perform w with
  | mk result w'' =>
      cases result with
      | ok a =>
          constructor
          · exact fun hf => ⟨a, w'', rfl, hf⟩
          · rintro ⟨_, _, heq, hf⟩
            cases heq
            exact hf
      | error e =>
          constructor
          · intro heq
            cases heq
          · rintro ⟨_, _, heq, _⟩
            cases heq

/-- An outcome whose result is known. -/
theorem outcome_eq {outcome : Except Error α × World} {result : Except Error α}
    (hresult : outcome.1 = result) : outcome = (result, outcome.2) :=
  Prod.ext hresult rfl

theorem exists_of_isOk {outcome : Except Error α × World} (hok : outcome.1.isOk = true) :
    ∃ a, outcome = (.ok a, outcome.2) := by
  cases hresult : outcome.1 with
  | error e =>
      rw [hresult] at hok
      cases hok
  | ok a => exact ⟨a, outcome_eq hresult⟩

/-- What a query lets through is what it answers; an error of it is the end. -/
theorem perform_query_bind (question : World → Except Error α) (f : α → Action β) (w : World) :
    (query question >>= f).perform w =
      match question w with
      | .ok a => (f a).perform w
      | .error e => (.error e, w) := by
  rw [perform_bind, perform_query]
  cases question w <;> rfl

/-- What fails after a question fails at the question or goes on with its answer. -/
theorem error_of_query_bind {question : World → Except Error α} {f : α → Action β} {e : Error}
    (hfails : (query question >>= f).perform w = (.error e, w')) :
    question w = .error e ∨ ∃ a, question w = .ok a ∧ (f a).perform w = (.error e, w') := by
  rw [perform_query_bind] at hfails
  cases hanswer : question w with
  | error e' =>
      rw [hanswer] at hfails
      cases hfails
      exact Or.inl rfl
  | ok a =>
      rw [hanswer] at hfails
      exact Or.inr ⟨a, rfl, hfails⟩

end ObjectSystem.Action

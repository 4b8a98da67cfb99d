/-
# Safe actions

`Action.Secures` says that an action which is performed while a scope is open does not find a
stale handle, and what holds if it succeeds. The laws here say how this goes through sequences of
actions.
-/

import ObjectSystem.Proofs.Population
import ObjectSystem.Proofs.Safety
import ObjectSystem.Proofs.Shelter
import ObjectSystem.Proofs.Sturdiness

namespace ObjectSystem

namespace World

/-- The same classes are registered. -/
def SameClasses (w w' : World) : Prop :=
  w'.classes = w.classes

instance : IsPreorder World SameClasses where
  refl _ := rfl
  trans _ _ _ hfirst hsecond := hsecond.trans hfirst

/-- A world from which actions may go on, in a scope. -/
structure Poised (w : World) : Prop extends w.Ready where
  sturdy : w.Sturdy

end World

namespace Action

open World

variable {α β : Type} {w w' : World}

/-- Only registrations change which classes are registered. -/
theorem Routine.classes_eq {π : Policy} {action : Action α} (hroutine : Routine π action)
    (w : World) : (action.perform w).2.classes = w.classes := by
  have htrims : ∀ w w' : World, w.Trims w' → w.SameClasses w' := fun _ _ h => h.classes_eq
  refine hroutine.keeps (R := SameClasses) htrims (fun _ _ _ => rfl) (fun _ _ _ _ _ _ _ => rfl)
    (fun _ _ _ _ _ _ => ?_) (fun _ _ _ _ _ _ => ?_) w
  · exact keeps_allocate ((trims_collect []).imp htrims) fun _ _ => rfl
  · exact keeps_bind (keeps_modifyGet fun _ => rfl) fun x =>
      keeps_bind ((trims_pin x).imp htrims) fun _ => keeps_pure x

theorem keeps_sustains {π : Policy} {action : Action α} (hroutine : Routine π action) :
    action.Keeps Sustains :=
  hroutine.composite.keeps steps_sustains

/-- An action that is performed in a world does not find a stale handle, unless the
numbers of cells and scopes run out. If it succeeds one may go on from the world that it leads
to, and the result has a property. -/
def Secures (w : World) (action : Action α) (Q : α → World → Prop) : Prop :=
  (action.perform w).2.Fits →
    match action.perform w with
    | (.ok a, w') => w.Resumes w' ∧ w'.Poised ∧ Q a w'
    | (.error e, _) => ∀ y, e ≠ .dangling y

section Rules

variable {action m : Action α} {f : α → Action β} {Q Q' : α → World → Prop} {R : β → World → Prop}

/-- A routine leads to a world from which one may go on. It is enough to look at what it reports,
and at what it leads to if it succeeds. -/
theorem secures_of_routine (hpoised : w.Poised) (hroutine : Routine w.policy action)
    (hok : ∀ a w', action.perform w = (.ok a, w') → w'.Fits → w.Resumes w' →
      w'.roots = w.roots → w'.classes = w.classes → Q a w')
    (herror : ∀ e w', action.perform w = (.error e, w') → w'.Fits → ∀ y, e ≠ .dangling y) :
    Secures w action Q := by
  intro hfits
  have hleads := hroutine.leadsTo hpoised.coherent hpoised.tidy w.policy_within hfits
  have htidy := (hroutine.advances w).tidy hpoised.tidy
  have hclasses := hroutine.classes_eq w
  have hsustains := keeps_sustains hroutine w
  cases hperform : action.perform w with
  | mk result w' =>
      rw [hperform] at hfits hleads htidy hclasses hsustains
      cases result with
      | error e => exact herror e w' hperform hfits
      | ok a =>
          have hresumes : w.Resumes w' := ⟨hleads.evolves, htidy, hleads.scopes_eq⟩
          exact ⟨hresumes, ⟨hpoised.toReady.resume hresumes, hsustains.sturdy hfits hpoised.sturdy⟩,
            hok a w' hperform hfits hresumes hleads.roots_eq hclasses⟩

theorem Secures.imp (hsecures : Secures w action Q)
    (himp : ∀ a w', w'.Poised → Q a w' → Q' a w') : Secures w action Q' := by
  intro hfits
  have hsecured := hsecures hfits
  revert hsecured
  cases action.perform w with
  | mk result w' =>
      cases result with
      | ok a => exact fun ⟨hresumes, hpoised, hQ⟩ => ⟨hresumes, hpoised, himp a w' hpoised hQ⟩
      | error e => exact id

/-- A safe action leads to where it ends, and one may go on from there. -/
theorem Secures.performed (hsecures : Secures w action Q) :
    Secures w action fun a w' => action.perform w = (.ok a, w') ∧ w.Resumes w' ∧ Q a w' := by
  intro hfits
  have hsecured := hsecures hfits
  revert hsecured
  cases action.perform w with
  | mk result w' =>
      cases result with
      | ok a => exact fun ⟨hresumes, hpoised, hQ⟩ => ⟨hresumes, hpoised, rfl, hresumes, hQ⟩
      | error e => exact id

theorem secures_pure {a : α} (hpoised : w.Poised) (hQ : Q a w) : Secures w (pure a) Q :=
  fun _ => ⟨hpoised.toReady.refl, hpoised, hQ⟩

theorem secures_throw {e : Error} (hne : ∀ y, e ≠ .dangling y) :
    Secures w (throw e : Action α) Q :=
  fun _ => hne

/-- An action may be looked at from a world that it comes through. -/
theorem Secures.after {rest : Action α} (hrest : Secures w' rest Q) (hresumes : w.Resumes w')
    (heq : action.perform w = rest.perform w') : Secures w action Q := by
  intro hfits
  rw [heq] at hfits ⊢
  have hsecured := hrest hfits
  revert hsecured
  cases rest.perform w' with
  | mk result w'' =>
      cases result with
      | ok a => exact fun hsecured => ⟨hresumes.trans hsecured.1, hsecured.2⟩
      | error e => exact id

/-- What follows a safe action starts from what it is known to lead to. -/
theorem secures_bind (hm : Secures w m Q) (hf : ∀ a, (f a).Keeps Sustains)
    (hnext : ∀ a w', w'.Poised → Q a w' → Secures w' (f a) R) : Secures w (m >>= f) R := by
  intro hfits
  cases hperform : m.perform w with
  | mk result w' =>
      cases result with
      | error e =>
          rw [perform_bind_error hperform] at hfits ⊢
          have hsecured := hm (by rw [hperform]; exact hfits)
          rw [hperform] at hsecured
          exact hsecured
      | ok a =>
          have hbind : (m >>= f).perform w = (f a).perform w' := perform_bind_ok hperform
          have hsecured := hm (by rw [hperform]; exact (hf a w').toSpends.fits (hbind ▸ hfits))
          rw [hperform] at hsecured
          obtain ⟨hresumes, hpoised, hQ⟩ := hsecured
          exact (hnext a w' hpoised hQ).after hresumes hbind hfits

/-- What follows a question on live handles starts from what is answered. -/
theorem secures_ask {question : World → Except Error α} {given : List Handle} {P : α → Prop}
    (hanswers : w.Answers given (question w) P) (hlive : ∀ x ∈ given, w.objects.Live x)
    (hnext : ∀ a, question w = .ok a → P a → Secures w (f a) R) :
    Secures w (query question >>= f) R := by
  intro hfits
  rw [perform_query_bind] at hfits ⊢
  cases hanswer : question w with
  | ok a =>
      rw [hanswer] at hfits
      exact hnext a hanswer (hanswers.ok hanswer) hfits
  | error e => exact (hanswers.error hanswer).ne_dangling hlive

theorem secures_of_answers {question : World → Except Error α} {given : List Handle}
    {P : α → Prop} (hpoised : w.Poised) (hanswers : w.Answers given (question w) P)
    (hlive : ∀ x ∈ given, w.objects.Live x) (hQ : ∀ a, P a → Q a w) :
    Secures w (query question) Q := by
  intro _
  rw [perform_query]
  cases hanswer : question w with
  | ok a => exact ⟨hpoised.toReady.refl, hpoised, hQ a (hanswers.ok hanswer)⟩
  | error e => exact (hanswers.error hanswer).ne_dangling hlive

theorem secures_query {question : World → Except Error α} {a : α} (hanswer : question w = .ok a)
    (hnext : Secures w (f a) R) : Secures w (query question >>= f) R := by
  unfold Secures
  rwa [perform_query_bind, hanswer]

theorem secures_get {f : World → Action β} (hnext : Secures w (f w) R) :
    Secures w (get >>= f) R := by
  intro hfits
  rw [perform_bind, perform_get] at hfits ⊢
  exact hnext hfits

end Rules

end Action

end ObjectSystem

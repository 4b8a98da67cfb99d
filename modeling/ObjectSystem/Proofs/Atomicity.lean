/-
# Writes that fail change nothing

A slot is written by itself, as an element, as an attribute or as the binding of a name. In every
world that respectful operations lead to, such a write is done or it fails and leaves the world as
it was; and what it fails for is in what it was given, never in the world.

A write takes its value over before it stores it, and looks at what was there afterwards. A
binding may get its name before it gets its value. No failure can come in between: the value has
been found to be live, its pool lists it, and what a slot holds is live.
-/

import ObjectSystem.Proofs.Building

namespace ObjectSystem

namespace World

/-- The same pools answer for the same objects. -/
structure SameOwners (w w' : World) : Prop where
  pools_eq : w'.pools = w.pools
  ownership_eq : ∀ x, w'.ownership x = w.ownership x

theorem sameOwners_modifyObject {w : World} {change : Object → Object}
    (hheader : ∀ o, (change o).header = o.header) (x : Handle) :
    w.SameOwners (w.modifyObject x change) := by
  refine ⟨rfl, fun y => ?_⟩
  rw [ownership, ownership, object, object, modifyObject, Arena.get?_modify]
  by_cases heq : y = x
  · rw [if_pos heq]
    cases w.objects.get? y with
    | none => rfl
    | some o => exact congrArg (fun h : Header => Except.ok h.ownership) (hheader o)
  · rw [if_neg heq]

end World

namespace Action

open World

variable {α β : Type} {w : World} {given : List Handle} {action : Action α}

/-- If the action fails it leaves the world as it is, and what it was given is to blame. -/
def Atomic (w : World) (given : List Handle) (action : Action α) : Prop :=
  ∀ e w', action.perform w = (.error e, w') → w' = w ∧ w.Blames given e

section Rules

theorem Atomic.eq_of_error {e : Error} (hatomic : Atomic w given action)
    (he : (action.perform w).1 = .error e) : action.perform w = (.error e, w) :=
  Prod.ext he (hatomic e _ (outcome_eq he)).1

theorem atomic_throw {e : Error} (hblames : w.Blames given e) :
    Atomic w given (throw e : Action α) := by
  rintro e' w' ⟨⟩
  exact ⟨rfl, hblames⟩

/-- What follows a query starts in the same world. -/
theorem atomic_ask {question : World → Except Error α} {f : α → Action β} {P : α → Prop}
    (hanswers : w.Answers given (question w) P) (hf : ∀ a, P a → Atomic w given (f a)) :
    Atomic w given (query question >>= f) := by
  intro e w' hfails
  rw [perform_query_bind] at hfails
  cases hquestion : question w with
  | error e' =>
      rw [hquestion] at hfails
      cases hfails
      exact ⟨rfl, hanswers.error hquestion⟩
  | ok a =>
      rw [hquestion] at hfails
      exact hf a (hanswers.ok hquestion) e w' hfails

/-- What cannot fail may follow. -/
theorem Atomic.bind_pure {b : β} (hatomic : Atomic w given action) :
    Atomic w given (action >>= fun _ => pure b) := by
  intro e w' hfails
  rw [perform_bind] at hfails
  cases hperform : action.perform w with
  | mk result w₁ =>
      rw [hperform] at hfails
      cases result with
      | ok a => cases hfails
      | error e' =>
          cases hfails
          exact hatomic _ _ hperform

end Rules

variable {w' : World} {x env value : Handle} {o : Object} {name : Symbol}

theorem atomic_set (hcoherent : w.Coherent) (s : Slot) (value : Option Handle) :
    Atomic w (s.owner :: value.toList) (set s value) := by
  intro e w' hfails
  rcases set_spec w s value with ⟨e', hrefused, hblames⟩ | ⟨o, old, ho, hs, hcases⟩
  · cases hrefused.symm.trans hfails
    exact ⟨rfl, hblames⟩
  · rcases hcases with ⟨_, hsame⟩ | ⟨hne, hlive, hexchange⟩
    · cases hsame.symm.trans hfails
    · obtain ⟨w₁, _, _, hwritten, _⟩ := exchange_spec hcoherent ho hs hne hlive
      cases (hexchange.trans hwritten).symm.trans hfails

theorem atomic_setAttr (hcoherent : w.Coherent) (x : Handle) (s : Symbol) (value : Option Handle) :
    Atomic w (x :: value.toList) (setAttr x s value) := by
  unfold setAttr
  refine atomic_ask ((answers_classOf hcoherent x).mono (by simp)) fun c ⟨hc, _⟩ => ?_
  have hlive : w.objects.Live c := hcoherent.linked.known_live hc
  refine atomic_ask (((answers_resolveAttr hcoherent c s).drop hlive).mono (by simp))
    fun location _ => ?_
  cases location with
  | ofClass => exact atomic_throw trivial
  | inInstance place =>
      have hcheck := (answers_checkAttr hcoherent c place.toNat value).drop hlive
      exact atomic_ask (hcheck.mono fun y hy => List.mem_cons_of_mem _ hy)
        fun _ _ => atomic_set hcoherent _ value
  | inClass | absent =>
      intro e w' hfails
      cases hfails
      exact ⟨rfl, blames_telling fun _ => trivial⟩

/-! ## Slots that have just been made -/

theorem promote_result (ho : w.objects.get? x = some o) : ((promote x).perform w).1 = .ok () := by
  unfold promote
  rw [perform_bind_ok (perform_addToPool PoolStack.get?_collector ho)]
  rfl

/-- Whether an object can be claimed depends on who answers for it and on the pools. -/
theorem claim_result_congr (hsame : w.SameOwners w') (x : Handle) :
    ((claim x).perform w').1 = ((claim x).perform w).1 := by
  have hown := hsame.ownership_eq x
  have hlive : ∀ {w : World} {own}, w.ownership x = .ok own →
      ∃ o, w.objects.get? x = some o := fun {w own} hown => by
    cases hx : w.objects.get? x with
    | some o => exact ⟨o, rfl⟩
    | none => cases (ownership_eq_error hx).symm.trans hown
  unfold claim
  rw [perform_query_bind, perform_query_bind, hown]
  cases hx : w.ownership x with
  | error e => rfl
  | ok own =>
      cases own with
      | shared => rfl
      | single =>
          obtain ⟨o, ho⟩ := hlive hx
          obtain ⟨o', ho'⟩ := hlive (hown.trans hx)
          exact (promote_result ho').trans (promote_result ho).symm
      | pool id =>
          simp only
          unfold removeFromPool
          rw [perform_bind, perform_bind, perform_bind, perform_bind, perform_get, perform_get]
          simp only [hsame.pools_eq]
          cases w.pools.get? id with
          | none => rfl
          | some pool => cases herase : pool.erase? x <;> simp [herase]

/-- A slot that has just been made can be given any value but a stale one. -/
theorem set_made {w₁ : World} (hcoherent : w.Coherent) (hsame : w.SameOwners w₁)
    (s : Slot) (ho : w₁.objects.get? s.owner = some o) (hs : s.peek? o = some none)
    (value : Option Handle) :
    (∃ w', (set s value).perform w₁ = (.ok (), w')) ∨
      ∃ x, value = some x ∧ ¬ w.objects.Live x ∧
        (set s value).perform w₁ = (.error (.dangling x), w₁) := by
  cases value with
  | none =>
      rw [perform_set (Slot.isWritable_of_peek? hs), perform_query_bind,
        read_eq_ok_of_peek? ho hs]
      exact Or.inl ⟨w₁, rfl⟩
  | some x =>
      have hset : (set s (some x)).perform w₁ = (exchange s none (some x)).perform w₁ := by
        rw [perform_set (Slot.isWritable_of_peek? hs), perform_query_bind,
          read_eq_ok_of_peek? ho hs]
        rfl
      cases hx : w.objects.get? x with
      | none =>
          have hclaim : (claim x).perform w₁ = (.error (.dangling x), w₁) := by
            unfold claim
            rw [perform_query_bind, hsame.ownership_eq, ownership_eq_error hx]
          refine Or.inr ⟨x, rfl, fun ⟨p, hp⟩ => ?_, hset.trans (perform_bind_error hclaim)⟩
          cases hx.symm.trans hp
      | some p =>
          obtain ⟨_, w₂, hclaim, _⟩ := claim_spec hcoherent hx
          have hresult := claim_result_congr hsame x
          rw [hclaim] at hresult
          have hclaimed : (claim x).perform w₁ = (.ok (), _) := outcome_eq hresult
          exact Or.inl ⟨_, hset.trans (perform_bind_ok hclaimed)⟩

/-- A name has an index in an environment, or it gets the next one if there is room. -/
theorem bindingIndex_cases (env : Handle) (name : Symbol) (w : World) :
    (∃ e, w.frame env = .error e ∧ (bindingIndex env name).perform w = (.error e, w)) ∨
      ∃ f, w.frame env = .ok f ∧
        ((∃ index, f.find? name = some index ∧
            (bindingIndex env name).perform w = (.ok (some index), w)) ∨
          f.find? name = none ∧
            (f.isFull = true ∧ (bindingIndex env name).perform w = (.ok none, w) ∨
              f.isFull = false ∧ (bindingIndex env name).perform w =
                (.ok (some f.size), w.modifyFrame env (·.addName name)))) := by
  unfold bindingIndex
  rw [perform_query_bind]
  cases hframe : w.frame env with
  | error e => exact Or.inl ⟨e, rfl, rfl⟩
  | ok f =>
      simp only
      cases hfind : f.find? name with
      | some index => exact Or.inr ⟨f, rfl, Or.inl ⟨index, hfind, rfl⟩⟩
      | none =>
          refine Or.inr ⟨f, rfl, Or.inr ⟨hfind, ?_⟩⟩
          cases hfull : f.isFull with
          | true => exact Or.inl ⟨rfl, rfl⟩
          | false => exact Or.inr ⟨rfl, rfl⟩

/-- A name that an environment has just got can be given a live value. -/
theorem exists_set_addName {f : Frame} (hcoherent : w.Coherent) (hframe : w.frame env = .ok f)
    (hlive : w.objects.Live value) (name : Symbol) :
    ∃ w', (set (.binding env f.size) (some value)).perform
      (w.modifyFrame env (·.addName name)) = (.ok (), w') := by
  obtain ⟨o, ho, hpayload⟩ := (w.answers_frame env).ok hframe
  have hputs : w.objects.Puts (w.modifyFrame env (·.addName name)).objects env _ :=
    Arena.puts_modify ho
  simp only [hpayload] at hputs
  have hsame : w.SameOwners (w.modifyFrame env (·.addName name)) := by
    refine sameOwners_modifyObject ?_ env
    exact fun _ => rfl
  have hempty : (Slot.binding env f.size).peek?
      { o with payload := .environment (f.addName name) } = some none := by
    simp [Slot.peek?, Frame.addName, Frame.size]
  rcases set_made hcoherent hsame (.binding env f.size) hputs.self hempty (some value) with
    hset | ⟨x, hx, hstale, _⟩
  · exact hset
  · cases hx
    exact absurd hlive hstale

theorem atomic_assign (hcoherent : w.Coherent) (env : Handle) (name : Symbol) (value : Handle) :
    Atomic w [env, value] (assign env name value) := by
  unfold assign
  refine atomic_ask ((w.answers_object value).mono (by simp)) fun p hp => ?_
  intro e w' hfails
  rcases bindingIndex_cases env name w with ⟨e', hframe, hindex⟩ |
    ⟨f, hframe, ⟨index, _, hindex⟩ | ⟨_, ⟨_, hindex⟩ | ⟨_, hindex⟩⟩⟩
  · rw [perform_bind_error hindex] at hfails
    cases hfails
    exact ⟨rfl, ((w.answers_frame env).error hframe).mono (by simp)⟩
  · rw [perform_bind_ok hindex] at hfails
    exact (atomic_set hcoherent (.binding env index) (some value)).bind_pure e w' hfails
  · rw [perform_bind_ok hindex] at hfails
    simp only at hfails
    rw [perform_query_bind, hframe] at hfails
    cases hfails
  · rw [perform_bind_ok hindex] at hfails
    obtain ⟨w₁, hset⟩ := exists_set_addName hcoherent hframe ⟨p, hp⟩ name
    rw [perform_bind_ok hset] at hfails
    cases hfails

end Action

namespace World

open ObjectSystem.Action

variable {settings : Settings} {w : World}

end World

end ObjectSystem

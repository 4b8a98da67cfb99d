/-
# Safe constructors

New objects are safe to make from what a collection would keep, and all that they are made of is
reached through them. `Operation.Makes` lists the constructors, with what each of them is given. A
copy is given what its original holds, and this is shared then. Copies of environments are left
out: names may be bound in these, so that what they hold is not reached for ever. `Operation.Alters`
lists what fills an object that has been made.
-/

import ObjectSystem.Proofs.Safety.Making

namespace ObjectSystem

namespace Action

open World

variable {α : Type} {w w' : World} {c x v head next : Handle} {o : Object} {name : Symbol}
  {payload : Payload} {length : Nat}

theorem Makes.gains (hmakes : Makes w w' c x payload length) (hready : w.Ready)
    (hclasses : w'.classes = w.classes) : w.Gains w' [] x := by
  obtain ⟨d, _, htakes⟩ := hmakes.takes
  have hown := Ownership.ofPool_of_ne hready.current_ne_collector
  constructor
  case owned => exact ⟨_, htakes.get?_eq, hown⟩
  constructor
  case toLeaves =>
    refine ⟨hmakes.moves.roots_eq, hclasses, fun y o hy ho => ⟨0, ?_, fun _ => rfl⟩⟩
    rw [htakes.kept y hy, ho, Object.claimed_zero]
  case new => exact Or.inl fun hx => htakes.new hx.live
  case stands => exact Or.inl ⟨_, _, htakes.get?_eq, hown⟩
  case only =>
    intro y o id ho _
    refine or_iff_not_imp_left.2 fun hne => ?_
    rw [htakes.other y hne] at ho
    exact (hready.tidy.get?_relieved_iff.1 ho).1
  case taken => exact fun y hy => absurd hy List.not_mem_nil
  case secure => exact fun y hy => absurd hy List.not_mem_nil

/-- An object that holds nothing may be allocated. -/
theorem secures_allocateOf (hpoised : w.Poised) (hc : c ∈ w.classes)
    (hpayload : payload.refs = []) (length : Nat) :
    Secures w (allocateOf c payload length) fun x w' =>
      w.Gains w' [] x ∧ Makes w w' c x payload length := by
  have hready := hpoised.toReady
  have hadmits : w.policy.admits c payload := ⟨hc, hpayload⟩
  have hcases : ∀ result w', (allocateOf c payload length).perform w = (result, w') → w'.Fits → _ :=
    fun result w' hperform hfits =>
      allocateOf_cases hready hpoised.sturdy hc hpayload (by rw [hperform]; exact hfits)
  refine secures_of_routine hpoised (.allocateOf hadmits length)
    (fun x w' hperform hfits _ hroots hclasses => ?_) fun e w' hperform hfits => ?_
  all_goals replace hcases := hcases _ w' hperform hfits
  · rcases hcases with ⟨limit, hfails⟩ | ⟨_, _, hmade, hmakes⟩
    · cases hfails.symm.trans hperform
    · cases hmade.symm.trans hperform
      exact ⟨hmakes.gains hready hclasses, hmakes⟩
  · rcases hcases with ⟨limit, hfails⟩ | ⟨_, _, hmade, _⟩
    · cases hfails.symm.trans hperform
      simp
    · cases hmade.symm.trans hperform

/-! ## Vectors of numbers -/

/-- What fills the vectors of one kind with numbers is safe, and refuses other objects. -/
theorem secures_refill {f : Object → Action Unit} (hpoised : w.Poised) (hx : w.objects.Live x)
    (hf : ∀ o, (∃ change, f o = modify (·.modifyPayload x change) ∧
      ∀ payload : Payload, change payload = payload ∨
        payload.IsVector ∧ (change payload).IsVector) ∨
      ∃ kind, f o = do throw ((← get).mismatch kind x)) :
    Secures w (query (·.object x) >>= f) fun _ w' => w.Retouches w' x := by
  refine secures_ask (w.answers_object x) (by simpa using hx) fun o _ _ => ?_
  obtain ⟨change, heq, hchange⟩ | ⟨kind, heq⟩ := hf o <;> rw [heq]
  · refine secures_of_routine hpoised (routine_modifyPayload hchange)
      (fun _ w' hperform _ _ hroots hclasses => ?_) fun e w' hperform => by cases hperform
    cases hperform
    refine ⟨hroots, hclasses, fun y hne => ?_, fun o ho => ⟨change o.payload, ?_, hchange _⟩⟩
    · exact (Arena.get?_modify _ _ _ _).trans (if_neg hne)
    · exact (Arena.get?_modify _ _ _ _).trans ((if_pos rfl).trans (by rw [ho]; rfl))
  · exact secures_get (secures_throw fun _ => telling_ne nofun nofun)

theorem secures_fillReals (hpoised : w.Poised) (hx : w.objects.Live x) (values : List Double) :
    Secures w (fillReals x values) fun _ w' => w.Retouches w' x := by
  refine secures_refill hpoised hx fun o => ?_
  split
  · refine Or.inl ⟨_, rfl, fun payload => ?_⟩
    cases payload with
    | real old => exact Or.inr ⟨trivial, trivial⟩
    | _ => exact Or.inl rfl
  · exact Or.inr ⟨_, rfl⟩

theorem secures_fillIntegers (hpoised : w.Poised) (hx : w.objects.Live x) (values : List Int32) :
    Secures w (fillIntegers x values) fun _ w' => w.Retouches w' x := by
  refine secures_refill hpoised hx fun o => ?_
  split
  · refine Or.inl ⟨_, rfl, fun payload => ?_⟩
    cases payload with
    | integer old => exact Or.inr ⟨trivial, trivial⟩
    | _ => exact Or.inl rfl
  · exact Or.inr ⟨_, rfl⟩

theorem secures_fillLogicals (hpoised : w.Poised) (hx : w.objects.Live x) (values : List Int32) :
    Secures w (fillLogicals x values) fun _ w' => w.Retouches w' x := by
  refine secures_refill hpoised hx fun o => ?_
  split
  · refine Or.inl ⟨_, rfl, fun payload => ?_⟩
    cases payload with
    | logical old => exact Or.inr ⟨trivial, trivial⟩
    | _ => exact Or.inl rfl
  · exact Or.inr ⟨_, rfl⟩

theorem secures_fillComplexes (hpoised : w.Poised) (hx : w.objects.Live x) (values : List Complex) :
    Secures w (fillComplexes x values) fun _ w' => w.Retouches w' x := by
  refine secures_refill hpoised hx fun o => ?_
  split
  · refine Or.inl ⟨_, rfl, fun payload => ?_⟩
    cases payload with
    | complex old => exact Or.inr ⟨trivial, trivial⟩
    | _ => exact Or.inl rfl
  · exact Or.inr ⟨_, rfl⟩

/-- A new vector may be filled as soon as it is there. -/
theorem secures_filled {fill : Handle → Action Unit} (hpoised : w.Poised) (hc : c ∈ w.classes)
    (hpayload : payload.refs = []) (length : Nat) (hsustains : ∀ x, (fill x).Keeps Sustains)
    (hfill : ∀ w₁ : World, ∀ x, w₁.Poised → w₁.objects.Live x →
      Secures w₁ (fill x) fun _ w₂ => w₁.Retouches w₂ x) :
    Secures w (do
      let x ← allocateOf c payload length
      fill x
      return x) fun x w' => w.Gains w' [] x := by
  refine secures_bind (secures_allocateOf hpoised hc hpayload length)
    (fun x => keeps_bind (hsustains x) fun _ => keeps_pure x)
    fun x w₁ hpoised₁ ⟨hgains, hmakes⟩ => ?_
  obtain ⟨_, _, htakes⟩ := hmakes.takes
  refine secures_bind (hfill w₁ x hpoised₁ ⟨_, htakes.get?_eq⟩) (fun _ => keeps_pure x)
    fun _ w₂ hpoised₂ hretouches => ?_
  exact secures_pure hpoised₂ (hgains.alter hpoised.coherent hpoised₁.coherent
    (hretouches.alters hpoised₁.coherent hgains.pooled) (by simp))

/-! ## Cells, lists and environments -/

/-- An empty slot may take up what is live. -/
theorem secures_set {s : Slot} (hpoised : w.Poised)
    (hempty : ∃ o, w.objects.get? s.owner = some o ∧ s.peek? o = some none)
    (hv : w.objects.Live v) :
    Secures w (set s (some v)) fun _ w' => w'.classes = w.classes ∧ w.TakesUp w' s v := by
  obtain ⟨o, ho, hs⟩ := hempty
  obtain ⟨w₁, hset, htakes⟩ := takesUp_set hpoised.coherent ho hs hv
  refine secures_of_routine hpoised (.set s _ (fun _ => trivial) (fun _ => trivial)
    fun _ => trivial) (fun _ w' hperform _ _ _ hclasses => ?_) fun e w' hperform => ?_
  · cases hset.symm.trans hperform
    exact ⟨hclasses, htakes⟩
  · cases hset.symm.trans hperform

/-- An attribute of a live object that has no value yet may be given one. -/
theorem secures_setAttr (hpoised : w.Poised) (ho : w.objects.get? x = some o)
    (hempty : ∀ place, w.Places o.classRef name place →
      ∀ old, (Slot.attr x place.toNat).peek? o = some old → old = none)
    (hv : w.objects.Live v) :
    Secures w (setAttr x name (some v)) fun _ w' => w'.classes = w.classes ∧
      ∃ place : UInt32, w.Places o.classRef name place ∧
        w.TakesUp w' (.attr x place.toNat) v := by
  refine secures_of_routine hpoised (.setAttr x name (some v))
    (fun _ w' hperform _ _ _ hclasses => ⟨hclasses, ?_⟩) fun e w' hperform _ =>
      ne_dangling_of_setAttr hpoised.coherent ⟨o, ho⟩ hv hperform
  rcases setAttr_cases hpoised.coherent ho hempty with
    ⟨e, hfails⟩ | ⟨place, w₁, hset, hplaces, htakes⟩
  · cases hfails.symm.trans hperform
  · cases hset.symm.trans hperform
    exact ⟨place, hplaces, htakes⟩

/-- A cell takes up what it is made of, if there are places for both. -/
theorem secures_cell (hpoised : w.Poised) (hc : c ∈ w.classes)
    (hpairs : ∃ d : Class, d.Pairs ∧ w.PlacesWithin c d) (hhead : w.Keeps [] head)
    (hnext : w.Keeps [] next) :
    Secures w (cell c head next) fun x w' => w.Gains w' [next, head] x := by
  have hcoherent := hpoised.coherent
  have hset : ∀ x name v, (setAttr x name (some v)).Keeps Sustains := fun x name v =>
    keeps_sustains (π := .anything) (.setAttr x name (some v))
  unfold cell
  refine secures_bind (secures_allocateOf hpoised hc rfl 0) (fun x =>
    keeps_bind (hset x _ _) fun _ => keeps_bind (hset x _ _) fun _ => keeps_pure x) ?_
  rintro x w₁ hpoised₁ ⟨hgains, hmakes⟩
  obtain ⟨d, _, htakes⟩ := hmakes.takes
  have hhead₁ := hgains.spares hcoherent hpoised₁.coherent head hhead
  refine secures_bind (secures_setAttr hpoised₁ htakes.get?_eq (fun _ _ _ => peek?_new)
    hhead₁.live) (fun _ => keeps_bind (hset x _ _) fun _ => keeps_pure x) ?_
  rintro _ w₂ hpoised₂ ⟨hclasses, p, hplaces, hfirst⟩
  have hheld := hgains.hold hcoherent hpoised₁.coherent hfirst hhead hclasses
  have hnext₂ := hheld.spares hcoherent hpoised₂.coherent next hnext
  refine secures_bind (secures_setAttr hpoised₂ (hfirst.owner _ htakes.get?_eq) (by
    rw [Slot.classRef_storeIn]
    exact hmakes.next_empty htakes hpairs hplaces hfirst) hnext₂.live) (fun _ => keeps_pure x) ?_
  rintro _ w₃ hpoised₃ ⟨hclasses', q, _, hsecond⟩
  exact secures_pure hpoised₃ (hheld.hold hcoherent hpoised₂.coherent hsecond hnext hclasses')

/-- Copying registers no classes. -/
theorem classes_shallowCopy (x : Handle) (w : World) :
    ((shallowCopy x).perform w).2.classes = w.classes := by
  have htrims : ∀ w w' : World, w.Trims w' → w.SameClasses w' := fun _ _ h => h.classes_eq
  have hcopy : (shallowCopy x).Keeps SameClasses := by
    unfold shallowCopy
    refine keeps_bind (keeps_query _) fun o => keeps_bind ?_ fun copy =>
      keeps_bind (keeps_forM fun y => (trims_share y).imp htrims) fun _ => keeps_pure copy
    exact keeps_allocate ((trims_collect []).imp htrims) fun _ _ => rfl
  exact hcopy w

theorem secures_shallowCopy (hpoised : w.Poised) (hx : w.objects.get? x = some o)
    (hnot : ∀ f, o.payload ≠ .environment f) (hkept : ∀ y ∈ o.ownedRefs, w.Keeps [] y) :
    Secures w (shallowCopy x) fun copy w' => w.Gains w' o.ownedRefs copy := by
  intro hfits
  have hcoherent := hpoised.coherent
  have hallocate := perform_allocate_eq o.duplicate w
  have hperform : (shallowCopy x).perform w = _ := perform_shallowCopy hx
  have hmoves := moves_shallowCopy x w
  have hclasses := classes_shallowCopy x w
  have hsustains := (Operation.shallowCopy x).keeps steps_sustains w
  change w.Sustains ((shallowCopy x).perform w).2 at hsustains
  by_cases hfull : w.relieved.isFull = true
  · rw [if_pos hfull] at hallocate
    rw [hperform, perform_bind_error hallocate]
    simp
  · rw [if_neg hfull] at hallocate
    rw [perform_bind_ok hallocate] at hperform
    have hshares : (do
        o.duplicate.ownedRefs.forM share
        return (w.relieved.admitObject o.duplicate).1 : Action Handle).Keeps World.Moves :=
      keeps_bind (keeps_forM moves_share) fun _ => keeps_pure _
    have hadmitted : (w.relieved.admitObject o.duplicate).2.Fits :=
      (hshares (w.relieved.admitObject o.duplicate).2).fits (hperform ▸ hfits)
    have htakes := hpoised.sturdy.takesIn hpoised.tidy (Bool.eq_false_iff.2 hfull) hadmitted
    obtain ⟨w', hshare, hcopies, hevolves⟩ :=
      copies_of_kept hcoherent hpoised.tidy hx hadmitted htakes fun y hy _ => hkept y hy
    rw [perform_bind_ok hshare] at hperform
    rw [hperform] at hfits hmoves hclasses hsustains ⊢
    have hresumes : w.Resumes w' := ⟨hevolves, hmoves.tidy hpoised.tidy, hmoves.scopes_eq⟩
    refine ⟨hresumes, ⟨hpoised.toReady.resume hresumes, hsustains.sturdy hfits hpoised.sturdy⟩, ?_⟩
    refine hcopies.gains hpoised.toReady hmoves.roots_eq hclasses hevolves.coherent
      (hcoherent.linked.classes_known x o hx) hnot ?_
    rintro y hy ⟨p, id, hp, hpool⟩
    obtain ⟨q, hq, hne⟩ := held_spec hcoherent hx hy
    cases hp.symm.trans hq
    exact hne id hpool

/-- A list takes over its items. -/
theorem secures_newList {items : List Handle} (hpoised : w.Poised)
    (hkept : ∀ y ∈ items, w.Keeps [] y) :
    Secures w (newList items) fun l w' => w.Furnishes w' items l := by
  have hready := hpoised.toReady
  obtain ⟨d, hpairs, hwithin⟩ := hready.equipped.pairs
  have houtcome := fun hfits : ((newList items).perform w).2.Fits =>
    newList_outcome hready.coherent hready.tidy hready.equipped hpoised.sturdy hpairs hwithin hfits
  refine secures_of_routine hpoised (routine_newList hready.equipped.standard items)
    (fun l w' hperform hfits _ _ hclasses => ?_) fun e w' hperform hfits => ?_
  all_goals
    rw [hperform] at houtcome
    replace houtcome := houtcome hfits
  · rcases houtcome with ⟨_, _, _, hmade, hstrings⟩ | ⟨_, _, _, _, hfails, _⟩
    · cases hmade
      exact hstrings.furnishes hready hkept hclasses
    · cases hfails
  · rcases houtcome with ⟨_, _, _, hmade, _⟩ | ⟨_, _, _, _, hfails, _, _, hne⟩
    · cases hmade
    · cases hfails
      exact hne hkept

/-- An environment takes up the one around it. -/
theorem secures_newEnvironment {parent : Option Handle} (hpoised : w.Poised)
    (hkept : ∀ y ∈ parent, w.Keeps [] y) :
    Secures w (newEnvironment parent) fun x w' => w.Gains w' parent.toList x := by
  have hcoherent := hpoised.coherent
  unfold newEnvironment
  refine secures_get ?_
  refine secures_bind (secures_allocateOf hpoised (hpoised.equipped.classes _ (by decide))
    (by simp [Payload.refs, Frame.values]) 0) (fun x => ?_) ?_
  · cases parent with
    | none => exact keeps_pure x
    | some outer =>
        exact keeps_bind (keeps_sustains (π := .anything) (.setAttr x _ _)) fun _ => keeps_pure x
  rintro x w₁ hpoised₁ ⟨hgains, hmakes⟩
  cases parent with
  | none => exact secures_pure hpoised₁ hgains
  | some outer =>
      obtain ⟨d, _, htakes⟩ := hmakes.takes
      have houter := hgains.spares hcoherent hpoised₁.coherent outer (hkept outer rfl)
      refine secures_bind (secures_setAttr hpoised₁ htakes.get?_eq (fun _ _ _ => peek?_new)
        houter.live) (fun _ => keeps_pure x) ?_
      rintro _ w₂ hpoised₂ ⟨hclasses, p, _, htaken⟩
      exact secures_pure hpoised₂
        (hgains.hold hcoherent hpoised₁.coherent htaken (hkept outer rfl) hclasses)

/-! ## Objects made in a scope -/

/-- A new object may be made in a scope of its own. -/
theorem secures_scope {body : Action Handle} {given : List Handle} (hpoised : w.Poised)
    (hroutine : ∀ {π : Policy}, π.Standard → Routine π body)
    (hkept : ∀ y ∈ given, w.Keeps [] y)
    (hbody : ∀ w₁ : World, w₁.Poised → w.Evolves w₁ → (∀ y ∈ given, w₁.Keeps [] y) →
      Secures w₁ body fun x w' => w₁.Gains w' given x) :
    Secures w (scope body) fun x w' => w.Gains w' given x := by
  have hready := hpoised.toReady
  have hstandard := hroutine hready.equipped.standard
  let opened := (openScope.perform w).2
  have hopened := opens_scope (hroutine Policy.standard_anything) hready.coherent hready.tidy
    hready.equipped hpoised.sturdy
  -- What the body does, and what becomes of its result when the scope is closed.
  have hclosed : ∀ {result w₂}, (scope body).perform w = (result, w₂) → w₂.Fits →
      ∃ w₁, body.perform opened = (result, w₁) ∧ opened.Resumes w₁ ∧ w₁.Fits ∧
        (closeScope w.pools.push.1 result).perform w₁ = (result, w₂) ∧ w₁.classes = w.classes := by
    intro result w₂ hperform hfits
    obtain ⟨hopens, -, hfits₁⟩ := hopened (by rw [hperform]; exact hfits)
    have hleads := hstandard.leadsTo hopens.ready.coherent hopens.ready.tidy
      (w.policy_within.evolve hopens.evolves) hfits₁
    have htidy := (hstandard.advances opened).tidy hopens.ready.tidy
    have hresumes : opened.Resumes (body.perform opened).2 :=
      ⟨hleads.evolves, htidy, hleads.scopes_eq⟩
    rw [perform_scope (Prod.mk.eta (p := body.perform opened)).symm] at hperform
    obtain ⟨_, _, _, _, hclose, _⟩ := hopens.close hresumes (body.perform opened).1
    cases hclose.symm.trans hperform
    exact ⟨_, rfl, hresumes, hfits₁, hclose, hstandard.classes_eq opened⟩
  refine secures_of_routine hpoised (.scope hstandard)
    (fun x w' hperform hfits _ _ hclasses => ?_) fun e w' hperform hfits => ?_
  all_goals
    obtain ⟨w₁, hrun, hresumes, hfits₁, hclose, hclasses₁⟩ := hclosed hperform hfits
    obtain ⟨hopens, hsturdy, -⟩ := hopened (by rw [hperform]; exact hfits)
    have hsecured := hbody opened ⟨hopens.ready, hsturdy⟩ hopens.evolves
      (fun y hy => hopens.spares y (hkept y hy)) (by rw [hrun]; exact hfits₁)
    rw [hrun] at hsecured
  · obtain ⟨w₂, hclose', hgains⟩ :=
      hsecured.2.2.close hopens rfl rfl hready hresumes rfl rfl
    cases hclose'.symm.trans hclose
    exact hgains (hclasses.trans hclasses₁.symm)
  · exact hsecured

/-- A vector takes up a new text. -/
theorem secures_vectorOfText (hpoised : w.Poised) (text : String) :
    Secures w (do
      let x ← allocateOf Builtin.characterClass (.elements #[none]) 1
      let chars ← newText text
      setElement x 0 (some chars)
      return x) fun x w' => w.Gains w' [] x := by
  refine secures_bind (secures_allocateOf hpoised (hpoised.equipped.classes _ (by decide))
    (by simp [Payload.refs]) 1) (fun x => keeps_sustains (.bind
      (routine_newText Policy.standard_anything text) fun chars =>
        .bind (routine_setElement x 0 _) fun _ => .pure x)) ?_
  rintro x w₁ hpoised₁ ⟨hgains, hmakes⟩
  obtain ⟨d, _, htakes⟩ := hmakes.takes
  refine secures_bind (secures_allocateOf hpoised₁ (hpoised₁.equipped.classes _ (by decide)) rfl _)
    (fun chars => keeps_sustains (π := .anything) (.bind (routine_setElement x 0 _) fun _ =>
      .pure x)) ?_
  rintro chars w₂ hpoised₂ ⟨hsecond, hmakes₂⟩
  obtain ⟨_, _, htakes₂⟩ := hmakes₂.takes
  have hx₁ := hgains.pooled.keeps hpoised₁.coherent
  have hne : chars ≠ x := fun heq =>
    hsecond.fresh hpoised₁.coherent hpoised₂.coherent (heq ▸ hx₁)
  refine secures_bind (secures_set (s := .element x 0) hpoised₂
    ⟨_, (htakes₂.kept x hx₁).trans htakes.get?_eq, rfl⟩ ⟨_, htakes₂.get?_eq⟩)
    (fun _ => keeps_pure x) ?_
  rintro _ w₃ hpoised₃ ⟨hclasses, htaken⟩
  have hx₂ := hsecond.toLeaves.pooled hpoised₁.coherent hgains.pooled List.not_mem_nil
  exact secures_pure hpoised₃ (hgains.take hpoised.coherent hpoised₁.coherent hsecond
    hpoised₂.coherent (htaken.alters hne hpoised₂.coherent hx₂ id hclasses))

theorem secures_newString (hpoised : w.Poised) (text : String) :
    Secures w (newString text) fun x w' => w.Gains w' [] x := by
  refine secures_scope hpoised (fun hstandard => ?_) (by simp) fun w₁ hpoised₁ _ _ =>
    secures_vectorOfText hpoised₁ text
  exact .bind (routine_allocateBuiltin hstandard (by decide) (by simp [Payload.refs])
    False.elim id 1) fun x => .bind (routine_newText hstandard text) fun chars =>
      .bind (routine_setElement x 0 _) fun _ => .pure x

/-- A call takes up its function, and its arguments with the list of them. -/
theorem secures_newCall {parts : List Handle} (hpoised : w.Poised)
    (hpairs : ∃ d : Class, d.Pairs ∧ w.PlacesWithin Builtin.languageClass d)
    (hkept : ∀ y ∈ parts, w.Keeps [] y) :
    Secures w (newCall parts) fun x w' => w.Gains w' parts x := by
  cases parts with
  | nil => exact secures_throw (by simp)
  | cons function args =>
      refine secures_scope hpoised (fun hstandard => ?_) hkept fun w₁ hpoised₁ hevolves hkept₁ => ?_
      · exact .bind (routine_newList hstandard args) fun l =>
          routine_cell (hstandard _ (by decide) _ rfl False.elim id) function l
      obtain ⟨hfunction, hargs⟩ := List.forall_mem_cons.1 hkept₁
      refine secures_bind (secures_newList hpoised₁ hargs).performed (fun l => keeps_sustains
        (routine_cell_anything (c := Builtin.languageClass))) ?_
      rintro l w₂ hpoised₂ ⟨-, hresumes, hfurnishes⟩
      have hcoherent₂ := hpoised₂.coherent
      obtain ⟨d, hpairs, hplaces⟩ := hpairs
      refine (secures_cell hpoised₂ (hpoised₂.equipped.classes _ (by decide))
        ⟨d, hpairs, hplaces.evolve (hevolves.trans hresumes.evolves)⟩
        (hfurnishes.spares hpoised₁.coherent hcoherent₂ function hfunction)
        (hfurnishes.keeps_self hcoherent₂)).imp fun x w₃ hpoised₃ hgains => ?_
      exact hfurnishes.gains hpoised₁.toReady hresumes hgains hpoised₃.coherent

/-! ## Symbols -/

/-- Names may be added to the table of symbols. -/
theorem secures_intern (hpoised : w.Poised) (name : String) :
    Secures w (intern name) fun _ w' => w.Beside w' := by
  refine secures_of_routine hpoised (routine_intern name) (fun s w' hperform _ _ _ _ => ?_)
    fun e w' hperform => by cases hperform
  cases hperform
  exact ⟨rfl, rfl, rfl, rfl, rfl, rfl, w.symbols.grows_intern name⟩

theorem secures_newGeneric (hpoised : w.Poised) (name : String) :
    Secures w (newGeneric name) fun x w' => w.Gains w' [] x := by
  unfold newGeneric
  refine secures_bind (secures_intern hpoised name) (fun s => keeps_sustains
    (routine_allocateBuiltin Policy.standard_anything (by decide) rfl False.elim id 0))
    fun s w₁ hpoised₁ hbeside => ?_
  refine (secures_allocateOf hpoised₁ (hpoised₁.equipped.classes _ (by decide)) rfl 0).imp
    fun x w₂ _ ⟨hgains, _⟩ => ⟨hgains.of_beside hbeside hpoised.coherent hpoised₁.coherent, ?_⟩
  exact hbeside.pools_eq ▸ hgains.owned

theorem advances_represent (s : Symbol) (attrCount : Nat) :
    (represent s attrCount).Keeps World.Advances :=
  keeps_bind (steps_advances.allocatePinned rfl) fun x =>
    keeps_bind (keeps_modify fun _ => .of_eq rfl rfl) fun _ => keeps_pure x

/-- A symbol gets an object that is never freed. -/
theorem represent_spec {s : Symbol} {attrCount : Nat} (hcoherent : w.Coherent)
    (hfits : ((represent s attrCount).perform w).2.Fits) :
    ∃ x w', (represent s attrCount).perform w = (.ok x, w') ∧
      (w'.roots = w.roots → w.Furnishes w' [] x) := by
  let o : Object := .new Builtin.symbolClass attrCount (.symbol s) 0 .shared
  have hrest : ∀ x, (do
      modify fun w => { w with symbolObjects := (s, x) :: w.symbolObjects }
      return x : Action Handle).Keeps World.Advances := fun x =>
    keeps_bind (keeps_modify fun _ => .of_eq rfl rfl) fun _ => keeps_pure x
  obtain ⟨w₁, hallocate, hputs⟩ := allocatePinned_spec (o := o) hcoherent
    (fits_of_bind hrest hfits) rfl
  refine ⟨_, _, perform_bind_ok hallocate, fun hroots => ?_⟩
  have hne : ∀ y p, w.objects.get? y = some p → y ≠ (w.objects.insertWith fun _ => o).1 := by
    rintro y p hp rfl
    cases hputs.new.symm.trans hp
  constructor
  case toLeaves =>
    refine ⟨hroots, hputs.classes_eq, fun y p _ hp => ⟨0, ?_, fun _ => rfl⟩⟩
    rw [Object.claimed_zero]
    exact (hputs.puts.other (hne y p hp)).trans hp
  case new =>
    refine Or.inl fun hx => ?_
    obtain ⟨p, hp⟩ := hx.live
    cases hputs.new.symm.trans hp
  case stands => exact Or.inr ⟨_, hputs.puts.self, rfl⟩
  case only =>
    refine fun y p id hp _ => or_iff_not_imp_left.2 fun hy => ?_
    exact (hputs.puts.other hy).symm.trans hp
  case taken => exact fun y hy => absurd hy List.not_mem_nil
  case secure => exact fun y hy => absurd hy List.not_mem_nil

/-- The object of a symbol may be asked for, if those that symbols have are never freed. -/
theorem secures_install (hpoised : w.Poised) (name : String)
    (hnoted : ∀ s x, w.symbolObjects.lookup s = some x → w.Pinned x) :
    Secures w (install name) fun x w' => w.Furnishes w' [] x := by
  have hcoherent := hpoised.coherent
  have hbeside : w.Beside (w.intern name).2 :=
    ⟨rfl, rfl, rfl, rfl, rfl, rfl, w.symbols.grows_intern name⟩
  have hinterned : (w.intern name).2.Fits → (w.intern name).2.Coherent := fun hfits =>
    ((routine_intern name).leadsTo hcoherent hpoised.tidy w.policy_within hfits).evolves.coherent
  have hrepresent : ∀ {result w' attrCount}, (represent (w.intern name).1 attrCount).perform
      (w.intern name).2 = (result, w') → w'.Fits →
        ∃ x, result = .ok x ∧ (w'.roots = w.roots → w.Furnishes w' [] x) := by
    intro result w' attrCount hperform hfits
    replace hfits : ((represent (w.intern name).1 attrCount).perform
        (w.intern name).2).2.Fits := by rwa [hperform]
    have hcoherent₁ := hinterned ((advances_represent _ _ _).fits hfits)
    obtain ⟨x, _, hmade, hfurnishes⟩ := represent_spec hcoherent₁ hfits
    cases hmade.symm.trans hperform
    exact ⟨x, rfl, fun hroots => (hfurnishes hroots).of_beside hbeside hcoherent hcoherent₁⟩
  refine secures_of_routine hpoised (routine_install hpoised.equipped.standard trivial name)
    (fun x w' hperform hfits _ hroots _ => ?_) fun e w' hperform hfits => ?_
  all_goals
    obtain ⟨z, hlookup, hinstall⟩ | ⟨_, ⟨e', hfails, hinstall⟩ | ⟨attrCount, hinstall⟩⟩ :=
      perform_install name w
    all_goals rw [hinstall] at hperform
  · cases hperform
    have hpinned : (w.intern name).2.Pinned x := hnoted _ _ hlookup
    exact hpinned.furnishes.of_beside hbeside hcoherent (hinterned hfits)
  · cases hperform
  · obtain ⟨_, heq, hfurnishes⟩ := hrepresent hperform hfits
    cases heq
    exact hfurnishes hroots
  · cases hperform
  · cases hperform
    refine ((World.answers_descriptor _ _).error hfails).ne_dangling ?_
    simpa using (hinterned hfits).linked.known_live
      (hpoised.equipped.classes Builtin.symbolClass (by decide))
  · obtain ⟨_, heq, _⟩ := hrepresent hperform hfits
    cases heq

end Action

namespace Operation

/-- The operation leaves objects alone. -/
def IsAside : {α : Type} → Operation α → Prop
  | _, intern _ | _, warn _ | _, clearWarnings => True
  | _, _ => False

theorem IsAside.secures {α : Type} {w : World} {op : Operation α} (haside : op.IsAside)
    (hpoised : w.Poised) : Action.Secures w op.action fun _ w' => w.Beside w' := by
  have hmodify : ∀ {f : World → World}, (∀ w, World.Beside w (f w)) →
      (∀ w, (f w).symbolObjects = w.symbolObjects) →
        Action.Secures w (modify f) fun _ w' => w.Beside w' := fun hbeside hnotes =>
    Action.secures_of_routine hpoised (Action.routine_modify hbeside (Or.inr hnotes))
      (fun _ w' hperform _ _ _ _ => by cases hperform; exact hbeside w)
      fun e w' hperform => by cases hperform
  cases op with
  | intern name => exact Action.secures_intern hpoised name
  | warn | clearWarnings =>
      exact hmodify (fun _ => ⟨rfl, rfl, rfl, rfl, rfl, rfl, .refl _⟩) fun _ => rfl
  | _ => exact haside.elim

/-- The operation makes a new object. It is given these objects for it. -/
inductive Makes (w : World) : Operation Handle → List Handle → Prop where
  | allocates {op : Operation Handle} {c : Handle} {payload : Payload} {length : Nat}
      (hop : op.action = Action.allocateOf c payload length) (hc : c ∈ w.classes)
      (hpayload : payload.refs = []) : Makes w op []
  | scalarReal (value : Double) : Makes w (.scalarReal value) []
  | scalarInteger (value : Int32) : Makes w (.scalarInteger value) []
  | scalarLogical (value : Bool) : Makes w (.scalarLogical value) []
  | newString (text : String) : Makes w (.newString text) []
  | newGeneric (name : String) : Makes w (.newGeneric name) []
  | newEnvironment (parent : Option Handle) : Makes w (.newEnvironment parent) parent.toList
  | cell {c head next : Handle} (hc : c ∈ w.classes)
      (hpairs : ∃ d : Class, d.Pairs ∧ w.PlacesWithin c d) :
      Makes w (.cell c head next) [next, head]
  | newList (items : List Handle) : Makes w (.newList items) items
  | newCall (parts : List Handle)
      (hpairs : ∃ d : Class, d.Pairs ∧ w.PlacesWithin Builtin.languageClass d) :
      Makes w (.newCall parts) parts
  | shallowCopy {x : Handle} {o : Object} (hx : w.objects.get? x = some o)
      (hnot : ∀ f, o.payload ≠ .environment f) : Makes w (.shallowCopy x) o.ownedRefs
  | install (name : String)
      (hnoted : ∀ s x, w.symbolObjects.lookup s = some x → w.Pinned x) :
      Makes w (.install name) []

/-- The constructors are safe. -/
theorem Makes.secures {w : World} {op : Operation Handle} {given : List Handle}
    (hmakes : op.Makes w given) (hpoised : w.Poised) (hkept : ∀ y ∈ given, w.Keeps [] y) :
    Action.Secures w op.action fun x w' => w.Furnishes w' given x := by
  have hclass : ∀ {c}, c ∈ Builtin.classes → c ∈ w.classes := hpoised.equipped.classes _
  have hgains : ∀ {action : Action Handle},
      Action.Secures w action (fun x w' => w.Gains w' given x) →
        Action.Secures w action fun x w' => w.Furnishes w' given x := fun h =>
    h.imp fun _ _ _ hgains => hgains.toFurnishes
  cases hmakes with
  | allocates hop hc hpayload =>
      rw [hop]
      exact (Action.secures_allocateOf hpoised hc hpayload _).imp fun _ _ _ h => h.1.toFurnishes
  | scalarReal value =>
      exact hgains (Action.secures_filled hpoised (hclass (by decide)) rfl 1
        (fun x => Action.keeps_sustains (π := .anything) (Action.routine_fillReals x _))
        fun _ _ hpoised hx => Action.secures_fillReals hpoised hx _)
  | scalarInteger value =>
      exact hgains (Action.secures_filled hpoised (hclass (by decide)) rfl 1
        (fun x => Action.keeps_sustains (π := .anything) (Action.routine_fillIntegers x _))
        fun _ _ hpoised hx => Action.secures_fillIntegers hpoised hx _)
  | scalarLogical value =>
      exact hgains (Action.secures_filled hpoised (hclass (by decide)) rfl 1
        (fun x => Action.keeps_sustains (π := .anything) (Action.routine_fillLogicals x _))
        fun _ _ hpoised hx => Action.secures_fillLogicals hpoised hx _)
  | newString text => exact hgains (Action.secures_newString hpoised text)
  | newGeneric name => exact hgains (Action.secures_newGeneric hpoised name)
  | newEnvironment parent =>
      exact hgains (Action.secures_newEnvironment hpoised fun y hy =>
        hkept y (Option.mem_toList.2 hy))
  | cell hc hpairs =>
      exact hgains (Action.secures_cell hpoised hc hpairs (hkept _ (by simp)) (hkept _ (by simp)))
  | newList => exact Action.secures_newList hpoised hkept
  | newCall _ hpairs => exact hgains (Action.secures_newCall hpoised hpairs hkept)
  | shallowCopy hx hnot => exact hgains (Action.secures_shallowCopy hpoised hx hnot hkept)
  | install name hnoted => exact Action.secures_install hpoised name hnoted

/-- The operation puts something into an object. The slot for it was empty before. -/
inductive Alters (w : World) : Operation Unit → Handle → List Handle → Prop where
  | fillReals (x : Handle) (values : List Double) : Alters w (.fillReals x values) x []
  | fillIntegers (x : Handle) (values : List Int32) : Alters w (.fillIntegers x values) x []
  | fillLogicals (x : Handle) (values : List Int32) : Alters w (.fillLogicals x values) x []
  | fillComplexes (x : Handle) (values : List Complex) : Alters w (.fillComplexes x values) x []
  | set {s : Slot} {v : Handle}
      (hempty : ∃ o, w.objects.get? s.owner = some o ∧ s.peek? o = some none)
      (hnot : ¬ s.IsBinding) (hne : v ≠ s.owner) : Alters w (.set s (some v)) s.owner [v]
  | setAttr {x v : Handle} {name : Symbol} {o : Object} (ho : w.objects.get? x = some o)
      (hempty : ∀ place, w.Places o.classRef name place →
        ∀ old, (Slot.attr x place.toNat).peek? o = some old → old = none)
      (hne : v ≠ x) : Alters w (.setAttr x name (some v)) x [v]

/-- What a pool answers for may be altered. -/
theorem Alters.secures {w : World} {op : Operation Unit} {x : Handle} {given : List Handle}
    (halters : op.Alters w x given) (hpoised : w.Poised) (hx : w.Pooled x)
    (hkept : ∀ y ∈ given, w.Keeps [] y) :
    Action.Secures w op.action fun _ w' => w.Alters w' x given := by
  have hcoherent := hpoised.coherent
  have hlive := (hx.keeps hcoherent).live
  have hfill : ∀ {action : Action Unit}, Action.Secures w action (fun _ w' => w.Retouches w' x) →
      Action.Secures w action fun _ w' => w.Alters w' x [] := fun h =>
    h.imp fun _ _ _ hretouches => hretouches.alters hcoherent hx
  cases halters with
  | fillReals _ values => exact hfill (Action.secures_fillReals hpoised hlive values)
  | fillIntegers _ values => exact hfill (Action.secures_fillIntegers hpoised hlive values)
  | fillLogicals _ values => exact hfill (Action.secures_fillLogicals hpoised hlive values)
  | fillComplexes _ values => exact hfill (Action.secures_fillComplexes hpoised hlive values)
  | set hempty hnot hne =>
      refine (Action.secures_set hpoised hempty (hkept _ List.mem_cons_self).live).imp
        fun _ w' _ ⟨hclasses, htakes⟩ => ?_
      exact htakes.alters hne hcoherent hx hnot hclasses
  | setAttr ho hempty hne =>
      refine (Action.secures_setAttr hpoised ho hempty
        (hkept _ List.mem_cons_self).live).imp fun _ w' _ ⟨hclasses, place, _, htakes⟩ => ?_
      exact htakes.alters hne hcoherent hx id hclasses

end Operation

end ObjectSystem

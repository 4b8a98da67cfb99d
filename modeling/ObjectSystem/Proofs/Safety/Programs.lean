/-
# Safe native functions

A modest program finds no stale handle, if none is found by what evaluates, calls and copies for
it. What the program knows is kept while it makes new objects, and while names are bound that it
does not need. Each request has a lemma that says what is known when it has come back, and the run
of a program is an induction on its tree.

The effects of an expression are found in one world, and it is evaluated in another. On the way
only names have been bound that may be, so the expression reads the same.
-/

import ObjectSystem.Proofs.Conduct
import ObjectSystem.Proofs.Safety.Effects
import ObjectSystem.Proofs.Safety.Rebinding

namespace ObjectSystem

open World

variable {host : Host} {inner : Evaluator} {env : Handle}

namespace World

/-- Certain names have been bound. The value that has come out may go if names are bound that it
needs, but with no others. No pool answered for it, unless it is what it came from. -/
structure Produces (env : Handle) (names bound needed : Set Symbol) (w : World) (x v : Handle)
    (w' : World) : Prop where
  passes : Passes env bound [] w w'
  not_pooled : v = x ∨ ¬ w.Pooled v
  sheltered : ∀ others ⊆ names, Disjoint needed others → w'.Sheltered Set.univ env others v

variable {w₀ w w' : World} {names others bound needed : Set Symbol} {x y v : Handle}

theorem Poised.null (hpoised : w.Poised) : w.Pinned Builtin.null :=
  hpoised.equipped.null

namespace Later

variable (hlater : Later env names w₀ w)
include hlater

theorem sheltered (hx : w₀.Sheltered Set.univ env names x) : w.Sheltered Set.univ env names x :=
  hlater.passes.sheltered_univ hlater.coherent subset_rfl hx

theorem housed (hx : w₀.Housed Set.univ env names x) : w.Housed Set.univ env names x :=
  hlater.passes.housed hlater.coherent hx

theorem live (hx : w₀.Sheltered Set.univ env names x) : w.objects.Live x :=
  ((hlater.sheltered hx).keeps hlater.poised.coherent).live

theorem step (hpasses : Passes env bound [] w w') (hbound : bound ⊆ names)
    (hpoised : w'.Poised) : Later env names w₀ w' where
  coherent := hlater.coherent
  null := hlater.null
  env_sheltered := hlater.env_sheltered
  passes := hlater.passes.trans hlater.coherent (hpasses.mono hbound fun _ => id)
  poised := hpoised

/-- From where one has come one may go on as from where the effects were found. -/
theorem onward (hpasses : Passes env bound [] w w') (hbound : bound ⊆ names)
    (hpoised : w'.Poised) : Later env names w w' where
  coherent := hlater.poised.coherent
  null := hlater.poised.null
  env_sheltered := hlater.sheltered hlater.env_sheltered
  passes := hpasses.mono hbound fun _ => id
  poised := hpoised

end Later

/-- What is sheltered may come out at once. -/
theorem produces_of_sheltered (hx : w.Sheltered Set.univ env names v)
    (hpooled : v = x ∨ ¬ w.Pooled v) : Produces env names bound needed w x v w where
  passes := .refl env bound w
  not_pooled := hpooled
  sheltered _ hothers _ := hx.mono hothers

theorem Produces.unpooled (hproduces : Produces env names bound needed w x v w')
    (hx : ¬ w.Pooled x) : ¬ w.Pooled v :=
  hproduces.not_pooled.elim (fun heq => heq ▸ hx) id

/-- Names may have been bound before already. -/
theorem Produces.after (hproduces : Produces env names bound needed w x v w')
    (hcoherent : w₀.Coherent) (hpasses : Passes env bound [] w₀ w) (hx : ¬ w₀.Pooled x) :
    Produces env names bound needed w₀ y v w' where
  passes := hpasses.trans hcoherent hproduces.passes
  not_pooled := Or.inr (hproduces.not_pooled.elim (fun heq => heq ▸ hx) hpasses.not_pooled)
  sheltered := hproduces.sheltered

theorem Produces.keeps (hproduces : Produces env names bound needed w x v w')
    (hcoherent : w'.Coherent) : w'.Keeps [] v :=
  (hproduces.sheltered ∅ (Set.empty_subset _) (Set.disjoint_empty _)).keeps hcoherent

/-- What a program is said to know is there. Names have been bound since the base, and nothing
that is known has come from a pool there. What the program has made has come in since. -/
structure Informed (env : Handle) (names total : Set Symbol) (known : Set (Handle × Set Symbol))
    (made : Set Handle) (base w : World) : Prop where
  coherent : base.Coherent
  env_sheltered : base.Sheltered Set.univ env names env
  within : total ⊆ names
  poised : w.Poised
  passes : Passes env total [] base w
  not_pooled : ∀ k ∈ known, ¬ base.Pooled k.1
  sheltered : ∀ k ∈ known, ∀ others ⊆ names, Disjoint k.2 others →
    w.Sheltered Set.univ env others k.1
  later : ∀ x ∈ made, base.Sheltered Set.univ env total x → base.Pinned x

namespace Informed

variable {base : World} {total held : Set Symbol} {known : Set (Handle × Set Symbol)}
  {made : Set Handle} {given : List Handle} (hinformed : Informed env names total known made base w)
include hinformed

theorem env_later : w.Sheltered Set.univ env names env :=
  hinformed.passes.sheltered_univ hinformed.coherent hinformed.within hinformed.env_sheltered

theorem knows_not_pooled (hx : w.Knows known x needed) : ¬ base.Pooled x :=
  hx.not_pooled hinformed.poised.coherent hinformed.passes hinformed.not_pooled

theorem knows_sheltered (hx : w.Knows known x needed) (hothers : others ⊆ names)
    (hdisjoint : Disjoint needed others) : w.Sheltered Set.univ env others x :=
  hx.sheltered hinformed.poised.coherent
    (fun k hk => hinformed.sheltered k hk others hothers) hdisjoint

theorem knows_keeps (hx : w.Knows known x needed) : w.Sheltered Set.univ env ∅ x :=
  hinformed.knows_sheltered hx (Set.empty_subset _) (Set.disjoint_empty _)

theorem aside (hbeside : w.Beside w') (hpoised : w'.Poised) :
    Informed env names total known made base w' where
  coherent := hinformed.coherent
  env_sheltered := hinformed.env_sheltered
  within := hinformed.within
  poised := hpoised
  passes := hinformed.passes.trans hinformed.coherent
    (.of_eq hbeside.objects_eq hbeside.roots_eq hbeside.classes_eq)
  not_pooled := hinformed.not_pooled
  sheltered k hk others hothers hdisjoint := by
    have hpasses : Passes env others [] w w' :=
      .of_eq hbeside.objects_eq hbeside.roots_eq hbeside.classes_eq
    exact hpasses.sheltered_univ hinformed.poised.coherent subset_rfl
      (hinformed.sheltered k hk others hothers hdisjoint)
  later := hinformed.later

/-- What is made of something known is known, and it needs no names. -/
theorem furnish (hfurnishes : w.Furnishes w' given x) (hpoised : w'.Poised)
    (hgiven : ∀ y ∈ given, ¬ base.Pooled y) :
    Informed env names total (insert (x, ∅) known) (insert x made) base w' where
  coherent := hinformed.coherent
  env_sheltered := hinformed.env_sheltered
  within := hinformed.within
  poised := hpoised
  passes := hinformed.passes.next hinformed.coherent
    (hfurnishes.toLeaves.passes hinformed.poised.coherent) hgiven
  not_pooled := by
    rintro k (rfl | hk)
    · exact hinformed.passes.not_pooled (hfurnishes.not_pooled hinformed.poised.coherent)
    · exact hinformed.not_pooled k hk
  sheltered := by
    rintro k (rfl | hk) others hothers hdisjoint
    · exact (hfurnishes.secure_self hpoised.coherent).sheltered
    · exact (hfurnishes.supplies hinformed.poised.coherent).sheltered hinformed.poised.coherent
        (hinformed.sheltered k hk others hothers hdisjoint)
  later := by
    rintro y (rfl | hy) hbase
    · have hkeeps := (hinformed.passes.sheltered_univ hinformed.coherent subset_rfl hbase).keeps
        hinformed.poised.coherent
      exact hinformed.passes.pinned_back hinformed.coherent hbase
        (hfurnishes.new.resolve_left fun h => h hkeeps)
    · exact hinformed.later y hy hbase

/-- What has been made may be filled with what is known. -/
theorem alter (halters : w.Alters w' x given) (hpoised : w'.Poised) (hx : x ∈ made)
    (hpooled : w.Pooled x) (hgiven : ∀ y ∈ given, ¬ base.Pooled y) :
    Informed env names total known made base w' where
  coherent := hinformed.coherent
  env_sheltered := hinformed.env_sheltered
  within := hinformed.within
  poised := hpoised
  passes := halters.passes hinformed.passes hinformed.poised.coherent hpooled
    (hinformed.later x hx) hgiven
  not_pooled := hinformed.not_pooled
  sheltered k hk others hothers hdisjoint :=
    halters.toSupplies.sheltered hinformed.poised.coherent
      (hinformed.sheltered k hk others hothers hdisjoint)
  later := hinformed.later

/-- When names are bound, what needs them is no longer known. -/
theorem rebind (hproduces : Produces env (names \ held) bound needed w x v w')
    (hpoised : w'.Poised) (hx : ¬ base.Pooled x) (hbound : bound ⊆ total) :
    Informed env names total (insert (v, held ∪ needed) {k ∈ known | Disjoint k.2 bound}) made
      base w' where
  coherent := hinformed.coherent
  env_sheltered := hinformed.env_sheltered
  within := hinformed.within
  poised := hpoised
  passes := hinformed.passes.trans hinformed.coherent (hproduces.passes.mono hbound fun _ => id)
  not_pooled := by
    rintro k (rfl | ⟨hk, _⟩)
    · exact hproduces.not_pooled.elim (fun heq => heq ▸ hx) hinformed.passes.not_pooled
    · exact hinformed.not_pooled k hk
  sheltered := by
    rintro k (rfl | ⟨hk, hk'⟩) others hothers hdisjoint
    · obtain ⟨hheld, hneeded⟩ := Set.disjoint_union_left.1 hdisjoint
      exact hproduces.sheltered others (Set.subset_sdiff.2 ⟨hothers, hheld.symm⟩) hneeded
    · refine Sheltered.mono (hproduces.passes.sheltered_univ hinformed.poised.coherent
        Set.subset_union_right (hinformed.sheltered k hk (others ∪ bound) ?_ ?_))
        Set.subset_union_left
      · exact Set.union_subset hothers (hbound.trans hinformed.within)
      · exact Set.disjoint_union_right.2 ⟨hdisjoint, hk'⟩
  later := hinformed.later

end Informed

end World

namespace Action

variable {α β : Type} {w₀ w w' : World} {names others inside bound needed : Set Symbol}
  {x v target args function : Handle} {name : Symbol}

/-- What follows an attempt that succeeds starts from what is known of the attempt, and what
fails is given up. -/
theorem secures_attempt_bind {action : Action α} {f : Except Error α → Action β}
    {Q : α → World → Prop} {R : β → World → Prop} (hm : Secures w action Q)
    (hf : ∀ result, (f result).Keeps Sustains)
    (herror : ∀ e, f (.error e) = query fun _ => .error e)
    (hnext : ∀ a w', w'.Poised → Q a w' → Secures w' (f (.ok a)) R) :
    Secures w (attempt action >>= f) R := by
  intro hfits
  rcases perform_attempt_bind action f w with heq | ⟨e, he, heq⟩
  · cases hperform : action.perform w with
    | mk result w' =>
        rw [hperform] at heq
        have hsecured := hm (by
          rw [hperform]
          exact (hf result w').toSpends.fits (heq ▸ hfits))
        rw [hperform] at hsecured
        cases result with
        | error e =>
            rw [heq, herror]
            exact hsecured
        | ok a =>
            obtain ⟨hresumes, hpoised, hQ⟩ := hsecured
            exact (hnext a w' hpoised hQ).after hresumes heq hfits
  · rw [heq]
    rintro y rfl
    cases he

theorem secures_attempt_query {question : World → Except Error α} {f : Except Error α → Action β}
    {R : β → World → Prop} (hnext : Secures w (f (question w)) R) :
    Secures w (attempt (query question) >>= f) R := by
  intro hfits
  rcases perform_attempt_bind (query question) f w with heq | ⟨e, he, heq⟩ <;> rw [heq] at hfits ⊢
  · exact hnext hfits
  · rintro y rfl
    cases he

/-- An attempt whose outcome is the result is nothing but the action. -/
theorem perform_attempt_query (action : Action α) (w : World) :
    (attempt action >>= fun result => query fun _ => result).perform w = action.perform w := by
  unfold attempt
  simp only [perform_bind, show (outcome action).perform w =
    (.ok (action.perform w).1, (action.perform w).2) from rfl]
  cases hperform : action.perform w with
  | mk result w' =>
      cases result with
      | ok a => rfl
      | error e => cases he : e.isEndless <;> simp [he]

theorem perform_runNative (host : Host) (inner : Evaluator) (function : Native)
    (args env : Handle) (w : World) :
    (host.runNative inner function args env).perform w =
      ((host.program function args env).run inner).perform w := by
  cases function with
  | assign => exact (perform_attempt_query _ w).symm
  | host name => rfl

end Action

/-- What is inside is evaluated safely, and what is known of the value before holds of it. -/
structure Evaluator.Sound (host : Host) (inner : Evaluator) : Prop where
  follows : ∀ w, inner.Follows (.ofKeeps Sustains (fun op => op.keeps steps_sustains) w)
  eval : ∀ {env names w₀ w x bound needed}, host.Effects env w₀ names x bound needed →
    bound ⊆ names → Later env names w₀ w → w₀.Sheltered Set.univ env names x →
      Action.Secures w (inner.eval x env) fun v w' =>
        Produces env names bound needed w x v w' ∧ w₀.Gives env names x v
  call : ∀ {env names w₀ w function args bound needed},
    (∀ callee, w.Runs function callee → host.Applies env w₀ names callee args bound needed) →
    (∀ callee, w.Runs function callee → callee.IsHanded → ¬ w.Pooled function ∧ ¬ w.Pooled args) →
    bound ⊆ names → Later env names w₀ w → w.Sheltered Set.univ env (names \ needed) function →
    w₀.Sheltered Set.univ env names args → Action.Secures w (inner.call function args env)
      (Produces env names bound needed w function)
  copy_unique : ∀ {w x behavior Q}, w.behaviorOf x = .ok behavior → behavior.IsUnique →
    Action.Secures w (pure x) Q → Action.Secures w (inner.copy x) Q
  copy_plain : ∀ {w x behavior Q}, w.behaviorOf x = .ok behavior → behavior.IsPlain →
    Action.Secures w (Action.shallowCopy x) Q → Action.Secures w (inner.copy x) Q
  copy_custom : ∀ {env names w x name bound needed}, w.behaviorOf x = .ok (.custom name) →
    host.Modest env names bound needed w {(x, ∅)} ∅ (host.copyAs name x) → bound ⊆ names →
      Later env names w w → ¬ w.Pooled x → w.Sheltered Set.univ env names x →
        Action.Secures w (inner.copy x) (Produces env names bound needed w x)

namespace Action

variable {w₀ w w' base : World} {names others inside bound total needed : Set Symbol}
  {x v target args function : Handle} {name : Symbol} {known : Set (Handle × Set Symbol)}
  {made : Set Handle} {program : Program}

/-- The value of the second operand is bound to the symbol that is the first. No pool answers for
the value, since the operand is kept by the list. -/
theorem secures_assignOperands (hpoised : w.Poised) (hargs : w.Sheltered Set.univ env ∅ args)
    (hitems : ∀ items, w.items args = .ok items → items = [target, x])
    (hname : ∀ s, w.symbolOf target = .ok s → s = name)
    (henv : w.Sheltered Set.univ env names env) (hmem : name ∈ names) (hinside : inside ⊆ names)
    (hothers : others ⊆ names)
    (heval : Secures w (inner.eval x env) (Produces env others inside needed w x))
    (origin : Handle) : Secures w (assignOperands inner args env)
      (Produces env others (insert name inside) (insert name needed) w origin) := by
  have hcoherent := hpoised.coherent
  unfold assignOperands
  refine secures_ask (answers_items hcoherent args) (by simpa using (hargs.keeps hcoherent).live)
    fun items hok _ => ?_
  cases hitems items hok
  have hoperand : ∀ y ∈ [target, x], w.Housed Set.univ env ∅ y := fun y hy =>
    hargs.items hcoherent hpoised.null hok hy
  have htarget := (hoperand target (by simp)).sheltered hcoherent
  refine secures_ask (w.answers_symbolOf target)
    (by simpa using (htarget.keeps hcoherent).live) fun s hs _ => ?_
  cases hname s hs
  refine secures_bind heval (fun v => keeps_bind (keeps_sustains (π := .anything)
    (.assign trivial env name v)) fun _ => keeps_pure v) fun v w₁ hpoised₁ hvalue => ?_
  have hcoherent₁ := hpoised₁.coherent
  have hpooled : ¬ w.Pooled v :=
    hvalue.unpooled ((hoperand x (by simp)).not_pooled hcoherent)
  -- The environment does not stand on the value, which no pool answered for.
  have henv₁ : w₁.Sheltered {u | u ≠ v} env names env := by
    have hbase : w.Sheltered {u | w.Pooled u} env names env := henv.rebase fun _ _ h => h
    refine (hvalue.passes.sheltered nofun hcoherent hinside hbase).rebase fun u hu _ heq => ?_
    exact hpooled (heq ▸ hu)
  refine secures_bind (secures_assign hpoised₁ (hvalue.keeps hcoherent₁).live
    (henv₁.mono (Set.singleton_subset_iff.2 hmem))) (fun _ => keeps_pure v)
    fun _ w₂ hpoised₂ ⟨hassigned, hbound⟩ => ?_
  have hpasses : Passes env (insert name inside) [] w w₂ :=
    (hvalue.passes.mono (Set.subset_insert _ _) fun _ => id).next hcoherent
      (hassigned.mono (Set.singleton_subset_iff.2 (Set.mem_insert _ _)) fun _ => id)
      (by simpa using hpooled)
  refine secures_pure hpoised₂ ⟨hpasses, Or.inr hpooled, fun avoided havoided hdisjoint => ?_⟩
  obtain ⟨hname', hneeded⟩ := Set.disjoint_insert_left.1 hdisjoint
  rcases hbound with hbinds | hobjects
  · have henv₂ := hpasses.sheltered_univ hcoherent
      (Set.insert_subset hmem hinside) henv
    exact (hbinds.housed (henv₂.mono (havoided.trans hothers)) hname').sheltered hpoised₂.coherent
  · have hsame : Passes env ∅ [] w₁ w₂ := .of_eq hobjects hassigned.roots_eq hassigned.classes_eq
    exact hsame.sheltered_univ hcoherent₁ (Set.empty_subset _)
      (hvalue.sheltered avoided havoided hneeded)

/-- An assignment to something else than a symbol is refused. -/
theorem secures_assignOperands_misuse {Q : Handle → World → Prop} (hpoised : w.Poised)
    (hargs : w.Sheltered Set.univ env ∅ args) (hnone : ∀ target x name,
      w.items args = .ok [target, x] → w.symbolOf target ≠ .ok name) :
    Secures w (assignOperands inner args env) Q := by
  have hcoherent := hpoised.coherent
  unfold assignOperands
  refine secures_ask (answers_items hcoherent args) (by simpa using (hargs.keeps hcoherent).live)
    fun items hok _ => ?_
  split
  · next target x _ =>
      have htarget := (hargs.items hcoherent hpoised.null hok
        List.mem_cons_self).sheltered hcoherent
      exact secures_ask (w.answers_symbolOf target)
        (by simpa using (htarget.keeps hcoherent).live) fun s hs _ => absurd hs (hnone _ _ s hok)
  · exact secures_throw (by simp)

section Run

variable (hinner : inner.Sound host)
include hinner

theorem keeps_run (program : Program) : (program.run inner).Keeps Sustains := fun w =>
  (accepts_run (hinner.follows w)
    (program.complies_ofKeeps (fun op => op.keeps steps_sustains) w w) (refl_of Sustains w)).holds

theorem keeps_runNative (function : Native) (args env : Handle) :
    (host.runNative inner function args env).Keeps Sustains := fun w =>
  (follows_runNative (hinner.follows w) (host.complies_ofKeeps _ w) function args env w
    (refl_of Sustains w)).holds

/-- A program that gives up if a request fails goes on from what is known of the request. -/
theorem secures_request {α : Type} {action : Action α} {next : Except Error α → Program}
    {Q : α → World → Prop} {R : Handle → World → Prop} (hrequest : Secures w action Q)
    (hfails : ∀ e, next (.error e) = .done (.error e))
    (hnext : ∀ a w', w'.Poised → Q a w' → Secures w' ((next (.ok a)).run inner) R) :
    Secures w (attempt action >>= fun result => (next result).run inner) R :=
  secures_attempt_bind hrequest (fun _ => keeps_run hinner _) (fun e => by rw [hfails]; rfl) hnext

section Requests

variable {op : Operation Handle} {held : Set Symbol} {given : List Handle} {o : Object}
  {behavior : Behavior} (hinformed : Informed env names total known made base w)
include hinformed

omit hinner in
theorem secures_made (hmakes : op.Makes w given)
    (hgiven : ∀ y ∈ given, ∃ held, w.Knows known y held) :
    Secures w op.action fun x w' => op.perform w = (.ok x, w') ∧
      Informed env names total (insert (x, ∅) known) (insert x made) base w' := by
  have hkept : ∀ y ∈ given, w.Keeps [] y := fun y hy => by
    obtain ⟨_, hy⟩ := hgiven y hy
    exact (hinformed.knows_keeps hy).keeps hinformed.poised.coherent
  refine (hmakes.secures hinformed.poised hkept).performed.imp fun x w' hpoised hfurnishes => ?_
  refine ⟨hfurnishes.1, hinformed.furnish hfurnishes.2.2 hpoised fun y hy => ?_⟩
  obtain ⟨_, hy⟩ := hgiven y hy
  exact hinformed.knows_not_pooled hy

omit hinner in
theorem secures_altered {op : Operation Unit} (halters : op.Alters w x given) (hmade : x ∈ made)
    (hpooled : w.Pooled x) (hgiven : ∀ y ∈ given, ∃ held, w.Knows known y held) :
    Secures w op.action fun a w' => op.perform w = (.ok a, w') ∧
      Informed env names total known made base w' := by
  have hkept : ∀ y ∈ given, w.Keeps [] y := fun y hy => by
    obtain ⟨_, hy⟩ := hgiven y hy
    exact (hinformed.knows_keeps hy).keeps hinformed.poised.coherent
  refine (halters.secures hinformed.poised hpooled hkept).performed.imp
    fun _ w' hpoised haltered => ?_
  refine ⟨haltered.1, hinformed.alter haltered.2.2 hpoised hmade hpooled fun y hy => ?_⟩
  obtain ⟨_, hy⟩ := hgiven y hy
  exact hinformed.knows_not_pooled hy

/-- What is evaluated binds names, and what needs them is no longer known. -/
theorem secures_evaluated (hx : w.Knows known x held) (hlater : Later env (names \ held) w₀ w)
    (hsheltered : w₀.Sheltered Set.univ env (names \ held) x)
    (heffects : host.Effects env w₀ (names \ held) x inside needed) (hinside : inside ⊆ total)
    (hdisjoint : Disjoint held inside) :
    Secures w (inner.eval x env) fun v w' => Passes env inside [] w w' ∧
      w₀.Gives env (names \ held) x v ∧ Informed env names total
        (insert (v, held ∪ needed) {k ∈ known | Disjoint k.2 inside}) made base w' := by
  have hnames := hinside.trans hinformed.within
  refine (hinner.eval heffects (Set.subset_sdiff.2 ⟨hnames, hdisjoint.symm⟩) hlater
    hsheltered).imp fun v w' hpoised h => ⟨h.1.passes, h.2, ?_⟩
  exact hinformed.rebind h.1 hpoised (hinformed.knows_not_pooled hx) hinside

theorem secures_called (hfunction : ∃ held' ⊆ held, w.Knows known function held')
    (hlater : Later env (names \ held) w₀ w)
    (hsheltered : w₀.Sheltered Set.univ env (names \ held) args)
    (hhanded : ∀ callee, w.Runs function callee → callee.IsHanded →
      ¬ w.Pooled function ∧ ¬ w.Pooled args)
    (hcalls : ∀ callee, w.Runs function callee →
      host.Applies env w₀ (names \ held) callee args inside needed)
    (hinside : inside ⊆ total) (hdisjoint : Disjoint held inside) :
    Secures w (inner.call function args env) fun v w' => Passes env inside [] w w' ∧
      Informed env names total (insert (v, held ∪ needed) {k ∈ known | Disjoint k.2 inside}) made
        base w' := by
  obtain ⟨_, hheld, hfunction⟩ := hfunction
  have hnames := hinside.trans hinformed.within
  have hshelter : w.Sheltered Set.univ env ((names \ held) \ needed) function :=
    hinformed.knows_sheltered hfunction (Set.sdiff_subset.trans Set.sdiff_subset)
      ((Set.disjoint_sdiff_right.mono_left hheld).mono_right Set.sdiff_subset)
  refine (hinner.call hcalls hhanded (Set.subset_sdiff.2 ⟨hnames, hdisjoint.symm⟩) hlater hshelter
    hsheltered).imp fun v w' hpoised hproduces => ⟨hproduces.passes, ?_⟩
  exact hinformed.rebind hproduces hpoised (hinformed.knows_not_pooled hfunction) hinside

theorem secures_copied (hbehavior : w.behaviorOf x = .ok behavior) (hplain : behavior.IsPlain)
    (hx : w.objects.get? x = some o) (hnot : ∀ f, o.payload ≠ .environment f)
    (hgiven : ∀ y ∈ o.ownedRefs, ∃ held, w.Knows known y held) :
    Secures w (inner.copy x) fun y w' => (Operation.shallowCopy x).perform w = (.ok y, w') ∧
      Informed env names total (insert (y, ∅) known) (insert y made) base w' :=
  hinner.copy_plain hbehavior hplain (secures_made hinformed (.shallowCopy hx hnot) hgiven)

theorem secures_copiedAs {name : String} (hbehavior : w.behaviorOf x = .ok (.custom name))
    (hx : w.Knows known x held) (hnot : ¬ w.Pooled x)
    (hmodest : host.Modest env (names \ held) inside needed w {(x, ∅)} ∅ (host.copyAs name x))
    (hinside : inside ⊆ total) (hdisjoint : Disjoint held inside) :
    Secures w (inner.copy x) fun v w' => Passes env inside [] w w' ∧
      Informed env names total (insert (v, held ∪ needed) {k ∈ known | Disjoint k.2 inside}) made
        base w' := by
  have hnames := hinside.trans hinformed.within
  have hlater : Later env (names \ held) w w := ⟨hinformed.poised.coherent,
    hinformed.poised.null, hinformed.env_later.mono Set.sdiff_subset, .refl env _ w,
    hinformed.poised⟩
  refine (hinner.copy_custom hbehavior hmodest (Set.subset_sdiff.2 ⟨hnames, hdisjoint.symm⟩) hlater
    hnot (hinformed.knows_sheltered hx Set.sdiff_subset Set.disjoint_sdiff_right)).imp
      fun v w' hpoised hproduces => ⟨hproduces.passes, ?_⟩
  exact hinformed.rebind hproduces hpoised (hinformed.knows_not_pooled hx) hinside

theorem secures_assigned (hargs : ∃ held', w.Knows known args held')
    (hitems : w.items args = .ok [target, x]) (hname : w.symbolOf target = .ok name)
    (hlater : Later env (names \ held) w₀ w)
    (hsheltered : w₀.Sheltered Set.univ env (names \ held) x)
    (heffects : host.Effects env w₀ (names \ held) x inside needed)
    (hinside : insert name inside ⊆ total) (hdisjoint : Disjoint held inside) :
    Secures w (assignOperands inner args env) fun v w' => Passes env (insert name inside) [] w w' ∧
      Informed env names total (insert (v, insert name (held ∪ needed))
        {k ∈ known | Disjoint k.2 (insert name inside)}) made base w' := by
  obtain ⟨_, hargs⟩ := hargs
  have hnames : insert name inside ⊆ names := hinside.trans hinformed.within
  have hinside' : inside ⊆ names := (Set.subset_insert _ _).trans hnames
  have heval := (hinner.eval heffects (Set.subset_sdiff.2 ⟨hinside', hdisjoint.symm⟩) hlater
    hsheltered).imp fun _ _ _ h => h.1
  refine (secures_assignOperands hinformed.poised (hinformed.knows_keeps hargs)
    (fun items hok => by cases hitems.symm.trans hok; rfl)
    (fun s hs => by cases hname.symm.trans hs; rfl) hinformed.env_later
    (hnames (Set.mem_insert _ _)) hinside' Set.sdiff_subset heval Builtin.null).imp
      fun v w' hpoised hproduces => ⟨hproduces.passes, ?_⟩
  rw [← Set.union_insert]
  exact hinformed.rebind hproduces hpoised (hinformed.passes.not_pooled
    (hinformed.poised.null.not_pooled hinformed.poised.coherent)) hinside

end Requests

/-- A modest program is safe, by induction on its tree. -/
theorem secures_run (hmodest : host.Modest env names bound needed w known made program)
    (hbound : bound ⊆ total) (hinformed : Informed env names total known made base w) :
    Secures w (program.run inner) fun v w' => Produces env names total needed base x v w' := by
  induction program generalizing w known made with
  | done result =>
      cases hmodest with
      | done hx hheld =>
          refine fun _ => ⟨hinformed.poised.toReady.refl, hinformed.poised, hinformed.passes,
            Or.inr (hinformed.knows_not_pooled hx), fun others hothers hdisjoint => ?_⟩
          exact hinformed.knows_sheltered hx hothers (hdisjoint.mono_left hheld)
      | fail he => exact fun _ => he
  | look next ih =>
      cases hmodest with
      | look hnext => exact secures_get (ih w hnext hinformed)
  | perform op next ih =>
      cases hmodest with
      | ask hnext => exact secures_attempt_query (ih _ hnext hinformed)
      | aside haside hfails hnext =>
          exact secures_request hinner (haside.secures hinformed.poised).performed hfails
            fun a w' hpoised h => ih _ (hnext a w' hpoised h.1) (hinformed.aside h.2.2 hpoised)
      | make hmakes hgiven hfails hnext =>
          exact secures_request hinner (secures_made hinformed hmakes hgiven) hfails
            fun y w' hpoised h => ih _ (hnext y w' hpoised h.1) h.2
      | alter halters hmade hpooled hgiven hfails hnext =>
          exact secures_request hinner (secures_altered hinformed halters hmade hpooled hgiven)
            hfails fun _ w' hpoised h => ih _ (hnext w' hpoised h.1) h.2
  | eval y env' next ih =>
      cases hmodest with
      | eval hy hlater hsheltered heffects hinside hdisjoint hfails hnext =>
          exact secures_request hinner (secures_evaluated hinner hinformed hy hlater hsheltered
            heffects (hinside.trans hbound) hdisjoint) hfails
            fun v w' hpoised h => ih _ (hnext v w' hpoised h.1 h.2.1) h.2.2
  | call function args env' next ih =>
      cases hmodest with
      | call hfunction hlater hsheltered hhanded hcalls hinside hdisjoint hfails hnext =>
          exact secures_request hinner (secures_called hinner hinformed hfunction hlater hsheltered
            hhanded hcalls (hinside.trans hbound) hdisjoint) hfails
            fun v w' hpoised h => ih _ (hnext v w' hpoised h.1) h.2
  | copy y next ih =>
      cases hmodest with
      | unique hbehavior hunique hfails hnext =>
          refine secures_request hinner (hinner.copy_unique hbehavior hunique (secures_pure
            (Q := fun v w' => v = y ∧ w' = w) hinformed.poised ⟨rfl, rfl⟩)) hfails ?_
          rintro _ _ _ ⟨rfl, rfl⟩
          exact ih _ hnext hinformed
      | copy hbehavior hplain hy hnot hgiven hfails hnext =>
          exact secures_request hinner (secures_copied hinner hinformed hbehavior hplain hy hnot
            hgiven) hfails fun v w' hpoised h => ih _ (hnext v w' hpoised h.1) h.2
      | copyAs hbehavior hy hnot hmodest hinside hdisjoint hfails hnext =>
          exact secures_request hinner (secures_copiedAs hinner hinformed hbehavior hy hnot hmodest
            (hinside.trans hbound) hdisjoint) hfails
            fun v w' hpoised h => ih _ (hnext v w' hpoised h.1) h.2
  | assign args env' next ih =>
      cases hmodest with
      | assign hargs hitems hname hlater hsheltered heffects hinside hdisjoint hfails hnext =>
          exact secures_request hinner (secures_assigned hinner hinformed hargs hitems hname hlater
            hsheltered heffects (hinside.trans hbound) hdisjoint) hfails
            fun v w' hpoised h => ih _ (hnext v w' hpoised h.1) h.2
      | misuse hargs hnone hfails =>
          obtain ⟨_, hargs⟩ := hargs
          exact secures_request hinner (secures_assignOperands_misuse hinformed.poised
            (hinformed.knows_keeps hargs) hnone) hfails fun _ _ _ h => absurd h id

/-- A modest program is safe if it starts from one object that is there. -/
theorem secures_runOn {z : Handle} (hlater : Later env names base w)
    (hmodest : host.Modest env names bound needed w {(z, ∅)} ∅ program)
    (hpasses : Passes env bound [] base w) (hbound : bound ⊆ names) (hnot : ¬ base.Pooled z)
    (hz : w.Sheltered Set.univ env names z) :
    Secures w (program.run inner) fun v w' => Produces env names bound needed base x v w' := by
  refine secures_run hinner hmodest subset_rfl ⟨hlater.coherent, hlater.env_sheltered, hbound,
    hlater.poised, hpasses, ?_, ?_, by simp⟩
  · rintro k rfl
    exact hnot
  · rintro k rfl others hothers _
    exact hz.mono hothers

/-- So is a modest native function on a list. -/
theorem secures_runNative {native : Native} {list : Handle} (hlater : Later env names base w)
    (hmodest : host.Modest env names bound needed w {(list, ∅)} ∅ (host.program native list env))
    (hpasses : Passes env bound [] base w) (hbound : bound ⊆ names) (hnot : ¬ base.Pooled list)
    (hlist : w.Sheltered Set.univ env names list) :
    Secures w (host.runNative inner native list env) fun v w' =>
      Produces env names bound needed base x v w' := by
  unfold Secures
  rw [perform_runNative]
  exact secures_runOn hinner hlater hmodest hpasses hbound hnot hlist

end Run

end Action

end ObjectSystem

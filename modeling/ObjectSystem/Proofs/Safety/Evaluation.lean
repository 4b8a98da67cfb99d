/-
# Safe evaluation

Evaluation of an expression whose effects are known finds no stale handle. What its value may go
with is known as well, so the value is still there when it is used. Arguments are evaluated one
after the other, and the list that keeps their values is made at the end.
-/

import ObjectSystem.Proofs.Safety.Programs

namespace ObjectSystem

open World

variable {host : Host} {inner : Evaluator} {env : Handle}

namespace Action

variable {w₀ w w' base : World} {names inside bound needed : Set Symbol}
  {x args function : Handle}

/-- What a method is looked for among is what classes hold. -/
theorem secures_requireMethod {values : List Handle} (hpoised : w.Poised)
    (hvalues : ∀ v ∈ values, w.Keeps [] v) (text : String) :
    Secures w (requireMethod text values) fun method w' => Passes env ∅ [] w w' ∧ w.Spares w' ∧
      w'.Overload method := by
  have hfind : Secures w (findMethod text values) fun found w' => Passes env ∅ [] w w' ∧
      w.Spares w' ∧ ∀ method, found = some method → w'.Overload method := by
    cases values with
    | nil => exact secures_pure hpoised ⟨.refl env ∅ w, fun _ => id, nofun⟩
    | cons receiver values =>
        have hintern : Secures w (methodSymbol text) fun _ w' => Passes env ∅ [] w w' ∧
            w.Spares w' := (secures_intern hpoised _).imp fun _ w' hpoised' hbeside =>
          ⟨.of_eq hbeside.objects_eq hbeside.roots_eq hbeside.classes_eq,
            hbeside.spares hpoised.coherent hpoised'.coherent⟩
        refine secures_bind hintern (fun s => keeps_sustains (π := .anything)
          (.bind (routine_classOf receiver) fun c => routine_ask fun _ hcoherent =>
            answers_findMethodInClass hcoherent s c values))
          fun s w' hpoised' ⟨hpasses, hspares⟩ => ?_
        have hlive : ∀ v ∈ receiver :: values, w'.objects.Live v := fun v hv =>
          (hspares v (hvalues v hv)).live
        refine secures_ask (answers_classOf hpoised'.coherent receiver)
          (by simpa using hlive receiver List.mem_cons_self) fun c _ ⟨hc, _⟩ => ?_
        refine secures_of_answers hpoised' (answers_overload hpoised'.coherent hc s values) ?_
          fun found hfound => ⟨hpasses, hspares, hfound⟩
        rintro v (_ | ⟨_, hv⟩)
        · exact hpoised'.coherent.linked.known_live hc
        · exact hlive v (List.mem_cons_of_mem _ hv)
  unfold requireMethod
  refine secures_bind hfind (fun found => keeps_sustains (π := .anything) ?_)
    fun found w' hpoised' ⟨hpasses, hspares, hfound⟩ => ?_
  · split
    · exact .pure _
    · exact .bind routine_get fun _ => .throw _ fun _ _ => telling_ne nofun nofun
  · cases found with
    | some method => exact secures_pure hpoised' ⟨hpasses, hspares, hfound method rfl⟩
    | none => exact secures_get (secures_throw fun _ => telling_ne nofun nofun)

/-! ## Copies -/

section Copies

variable {behavior : Behavior} {Q : Handle → World → Prop}

theorem secures_copyBy_unique (hbehavior : w.behaviorOf x = .ok behavior)
    (hunique : behavior.IsUnique) (hsecures : Secures w (pure x) Q) :
    Secures w (host.copyBy inner x) Q := by
  unfold Host.copyBy
  refine secures_query hbehavior ?_
  cases behavior with
  | noCopy | symbol => exact hsecures
  | _ => exact absurd hunique id

theorem secures_copyBy_plain (hbehavior : w.behaviorOf x = .ok behavior)
    (hplain : behavior.IsPlain) (hsecures : Secures w (shallowCopy x) Q) :
    Secures w (host.copyBy inner x) Q := by
  unfold Host.copyBy
  refine secures_query hbehavior ?_
  cases behavior with
  | noCopy | symbol | custom => exact absurd hplain id
  | _ => exact hsecures

theorem secures_copyBy_custom {name : String} (hbehavior : w.behaviorOf x = .ok (.custom name))
    (hsecures : Secures w ((host.copyAs name x).run inner) Q) :
    Secures w (host.copyBy inner x) Q := by
  unfold Host.copyBy
  exact secures_query hbehavior hsecures

end Copies

section Run

variable (hinner : inner.Sound host)
include hinner

theorem keeps_mapM (xs : List Handle) (env : Handle) :
    (xs.mapM fun x => inner.eval x env).Keeps Sustains := fun w =>
  (follows_mapM (fun x => (hinner.follows w).eval x env) w (refl_of Sustains w)).holds

theorem keeps_runMethod (name : String) (values : List Handle) (env : Handle) :
    (host.runMethod inner name values env).Keeps Sustains := fun w =>
  (follows_runMethod (hinner.follows w) (host.complies_ofKeeps _ w) name values env w
    (refl_of Sustains w)).holds

theorem keeps_callBy (function args env : Handle) :
    (host.callBy inner function args env).Keeps Sustains := fun w =>
  (follows_callBy (hinner.follows w) (host.complies_ofKeeps _ w) function args env w
    (refl_of Sustains w)).holds

/-- The values of arguments are kept while further arguments are evaluated. -/
theorem secures_mapM {xs : List Handle} (hall : host.EffectsAll env w₀ names xs inside)
    (hinside : inside ⊆ names) (hlater : Later env names w₀ w)
    (hxs : ∀ x ∈ xs, w₀.Housed Set.univ env names x) :
    Secures w (xs.mapM fun x => inner.eval x env) fun values w' => Passes env inside [] w w' ∧
      ∀ v ∈ values, ¬ w.Pooled v ∧ w'.Keeps [] v := by
  induction xs generalizing inside w with
  | nil =>
      cases hall
      rw [List.mapM_nil]
      exact secures_pure hlater.poised ⟨.refl env inside w, by simp⟩
  | cons x xs ih =>
      cases hall with
      | @cons _ _ _ _ _ needed rest hx hall hrest hdisjoint =>
      have hcoherent := hlater.poised.coherent
      have hhoused := hxs x List.mem_cons_self
      rw [List.mapM_cons]
      refine secures_bind (hinner.eval hx hinside hlater (hhoused.sheltered hlater.coherent))
        (fun _ => keeps_bind (keeps_mapM hinner xs env) fun _ => keeps_pure _)
        fun v w₁ hpoised₁ ⟨hv, _⟩ => ?_
      have hrest' := hrest.trans hinside
      refine secures_bind (ih hall hrest' (hlater.step hv.passes hinside hpoised₁)
        fun y hy => hxs y (List.mem_cons_of_mem _ hy)) (fun _ => keeps_pure _)
        fun values w₂ hpoised₂ ⟨hpasses, hvalues⟩ => ?_
      refine secures_pure hpoised₂ ⟨?_, fun y hy => ?_⟩
      · exact hv.passes.trans hcoherent (hpasses.mono hrest fun _ => id)
      · rcases List.mem_cons.1 hy with rfl | hy
        · refine ⟨hv.unpooled ((hlater.housed hhoused).not_pooled hcoherent), ?_⟩
          exact (hpasses.sheltered_univ hpoised₁.coherent subset_rfl
            (hv.sheltered rest hrest' hdisjoint)).keeps hpoised₂.coherent
        · exact ⟨hv.passes.not_pooled (hvalues y hy).1, (hvalues y hy).2⟩

theorem secures_evalArgs {xs : List Handle} (hitems : w₀.items args = .ok xs)
    (hall : host.EffectsAll env w₀ names xs inside) (hinside : inside ⊆ names)
    (hlater : Later env names w₀ w) (hargs : w₀.Sheltered Set.univ env names args) :
    Secures w (inner.evalArgs args env) fun values w' => Passes env inside [] w w' ∧
      ∀ v ∈ values, ¬ w.Pooled v ∧ w'.Keeps [] v := by
  unfold Evaluator.evalArgs
  refine secures_ask (answers_items hlater.poised.coherent args)
    (by simpa using hlater.live hargs) fun items hok _ => ?_
  cases hlater.passes.agrees_items hlater.coherent hargs _ _ hitems hok
  exact secures_mapM hinner hall hinside hlater fun x hx =>
    hargs.items hlater.coherent hlater.null hitems hx

/-- A modest native function is safe on the values of arguments. The list of them keeps them. -/
theorem secures_runListed {native : Native} {values : List Handle}
    (hlater : Later env names w₀ base)
    (hmodest : ∀ w' list, w'.Poised → Passes env names [] w₀ w' → w'.Keeps [] list →
      host.Modest env names bound needed w' {(list, ∅)} ∅ (host.program native list env))
    (hbound : bound ⊆ names) (hpoised : w.Poised) (hpasses : Passes env bound [] base w)
    (hvalues : ∀ v ∈ values, ¬ base.Pooled v ∧ w.Keeps [] v) :
    Secures w (newList values >>= fun list => host.runNative inner native list env) fun v w' =>
      Produces env names bound needed base x v w' := by
  have hcoherent := hlater.poised.coherent
  refine secures_bind (secures_newList hpoised fun y hy => (hvalues y hy).2)
    (fun list => keeps_runNative hinner _ list env) fun list w' hpoised' hfurnishes => ?_
  have hlisted : Passes env bound [] base w' := hpasses.next hcoherent
    (hfurnishes.toLeaves.passes hpoised.coherent) fun y hy => (hvalues y hy).1
  have hafter := hlater.step hlisted hbound hpoised'
  refine secures_runNative hinner (hlater.onward hlisted hbound hpoised')
    (hmodest w' list hpoised' hafter.passes (hfurnishes.keeps_self hpoised'.coherent)) hlisted
    hbound (hpasses.not_pooled (hfurnishes.not_pooled hpoised.coherent)) ?_
  exact (hfurnishes.secure_self hpoised'.coherent).sheltered

/-- A generic function runs an overload, and all of these are modest. -/
theorem secures_runMethod {values : List Handle} (hlater : Later env names w₀ base)
    (hmodest : ∀ method native, w₀.Overload method → w₀.nativeOf method = .ok native →
      ∀ w' list, w'.Poised → Passes env names [] w₀ w' → w'.Keeps [] list →
        host.Modest env names bound needed w' {(list, ∅)} ∅ (host.program native list env))
    (hbound : bound ⊆ names) (hpoised : w.Poised) (hpasses : Passes env bound [] base w)
    (hvalues : ∀ v ∈ values, ¬ base.Pooled v ∧ w.Keeps [] v) (text : String) :
    Secures w (host.runMethod inner text values env) fun v w' =>
      Produces env names bound needed base x v w' := by
  unfold Host.runMethod
  have hrequire : Secures w (requireMethod text values) fun method w' => Passes env ∅ [] w w' ∧
      w.Spares w' ∧ w'.Overload method :=
    secures_requireMethod hpoised (fun v hv => (hvalues v hv).2) text
  refine secures_bind hrequire
    (fun method => keeps_bind (keeps_sustains (π := .anything) (routine_object method)) fun o => ?_)
    fun method w' hpoised' ⟨hfound, hspares, hmethod⟩ => ?_
  · split
    · exact keeps_bind (keeps_sustains (routine_newList Policy.standard_anything values))
        fun list => keeps_runNative hinner _ list env
    · exact keeps_pure _
  have hcoherent := hlater.poised.coherent
  have hpasses' : Passes env bound [] base w' :=
    hpasses.trans hcoherent (hfound.mono (Set.empty_subset _) fun _ => id)
  have hafter := hlater.step hpasses' hbound hpoised'
  have hsecure := hmethod.secure hpoised'.coherent
  refine secures_ask (w'.answers_object method)
    (by simpa using (hsecure.keeps hpoised'.coherent).live) fun o _ ho => ?_
  split
  · next native hpayload =>
      have hoverload := hafter.passes.overload_back hlater.coherent hmethod
      refine secures_runListed hinner hlater (hmodest method native hoverload ?_) hbound
        hpoised' hpasses' fun v hv => ⟨(hvalues v hv).1, hspares v (hvalues v hv).2⟩
      exact hafter.passes.nativeOf_back hlater.coherent (hoverload.secure hlater.coherent).sheltered
        (nativeOf_eq_ok_iff.2 (payload?_eq_some_iff.2 ⟨o, ho, hpayload⟩))
  · refine secures_pure hpoised' ⟨hpasses', Or.inr
      (hpasses'.not_pooled (hmethod.not_pooled hpoised'.coherent)), fun _ _ _ => hsecure.sheltered⟩

/-- The application of a callable is safe. It is not needed any more when the arguments have been
evaluated. -/
theorem secures_callBy (hcalls : ∀ callee, w.Runs function callee →
      host.Applies env w₀ names callee args bound needed)
    (hhanded : ∀ callee, w.Runs function callee → callee.IsHanded →
      ¬ base.Pooled function ∧ ¬ base.Pooled args)
    (hbound : bound ⊆ names) (hlater : Later env names w₀ base) (hpoised : w.Poised)
    (hfunction : Produces env names bound needed base x function w)
    (hargs : w₀.Sheltered Set.univ env names args) :
    Secures w (host.callBy inner function args env) fun v w' =>
      Produces env names bound needed base x v w' := by
  have hcoherent := hlater.poised.coherent
  have hafter := hlater.step hfunction.passes hbound hpoised
  have hlive : ∀ y ∈ [function], w.objects.Live y := by
    simpa using (hfunction.keeps hpoised.coherent).live
  unfold Host.callBy
  refine secures_ask (answers_behaviorOf hpoised.coherent function) hlive fun behavior hok _ => ?_
  cases behavior with
  | default | noCopy | symbol | language =>
      exact secures_get (secures_throw fun _ => telling_ne nofun nofun)
  | method => exact secures_pure hpoised hfunction
  | custom name =>
      have hruns : w.Runs function (.custom name) := ⟨hok, by simp [Callee.native?]⟩
      obtain ⟨hfunction', hargs'⟩ := hhanded _ hruns trivial
      cases hcalls _ hruns with
      | custom hmodest =>
      refine secures_run hinner (hmodest w function hpoised hafter.passes
        (hfunction.keeps hpoised.coherent) hruns) subset_rfl ⟨hcoherent,
        hlater.sheltered hlater.env_sheltered, hbound, hpoised, hfunction.passes, ?_, ?_, by simp⟩
      · rintro k (rfl | rfl)
        · exact hfunction'
        · exact hargs'
      · rintro k (rfl | rfl) others hothers hdisjoint
        · exact hfunction.sheltered others hothers hdisjoint
        · exact (hafter.sheltered hargs).mono hothers
  | special =>
      refine secures_ask (w.answers_nativeOf function) hlive fun native hnative _ => ?_
      have hruns : w.Runs function (.special native) :=
        ⟨hok, by simpa [Callee.native?] using hnative⟩
      cases hcalls _ hruns with
      | assign hitems hname hvalue hmem hneeded =>
          have hoperand := fun y hy => hargs.items hlater.coherent hlater.null hitems (y := y) hy
          have hassign := secures_assignOperands hpoised
            ((hafter.sheltered hargs).mono (Set.empty_subset _))
            (fun items hok => hafter.passes.agrees_items hlater.coherent hargs _ _ hitems hok)
            (hafter.passes.agrees_symbolOf hlater.coherent
              ((hoperand _ (by simp)).sheltered hlater.coherent) _ · hname ·)
            (hafter.sheltered hlater.env_sheltered) (hbound hmem) hbound subset_rfl
            ((hinner.eval hvalue hbound hafter
              ((hoperand _ (by simp)).sheltered hlater.coherent)).imp fun _ _ _ h => h.1)
              Builtin.null
          rw [Set.insert_eq_of_mem hmem, Set.insert_eq_of_mem hneeded] at hassign
          exact hassign.imp fun _ _ _ h =>
            h.after hcoherent hfunction.passes (hlater.poised.null.not_pooled hcoherent)
      | special hmodest =>
          exact secures_runNative hinner (hlater.onward hfunction.passes hbound hpoised)
            (hmodest w hpoised hafter.passes) hfunction.passes hbound
            (hhanded _ hruns trivial).2 (hafter.sheltered hargs)
  | builtin =>
      refine secures_ask (w.answers_nativeOf function) hlive fun native hnative _ => ?_
      cases hcalls (.builtin native) ⟨hok, by simpa [Callee.native?] using hnative⟩ with
      | builtin hitems hall hmodest =>
      refine secures_bind (secures_evalArgs hinner hitems hall hbound hafter hargs)
        (fun values => keeps_bind (keeps_sustains (routine_newList Policy.standard_anything values))
          fun list => keeps_runNative hinner _ list env)
        fun values w₁ hpoised₁ ⟨hpasses, hvalues⟩ => ?_
      exact secures_runListed hinner hlater hmodest hbound hpoised₁
        (hfunction.passes.trans hcoherent hpasses) fun v hv =>
          ⟨hfunction.passes.not_pooled (hvalues v hv).1, (hvalues v hv).2⟩
  | generic =>
      refine secures_get (secures_ask (w.answers_symbolOf function) hlive fun name _ _ => ?_)
      cases hcalls .generic ⟨hok, by simp [Callee.native?]⟩ with
      | generic hitems hall hmodest =>
      refine secures_bind (secures_evalArgs hinner hitems hall hbound hafter hargs)
        (fun values => keeps_runMethod hinner _ values env)
        fun values w₁ hpoised₁ ⟨hpasses, hvalues⟩ => ?_
      exact secures_runMethod hinner hlater hmodest hbound hpoised₁
        (hfunction.passes.trans hcoherent hpasses) (fun v hv =>
          ⟨hfunction.passes.not_pooled (hvalues v hv).1, (hvalues v hv).2⟩) _

/-- What is evaluated is a symbol, which is looked up, a call or its own value. -/
theorem secures_evalBy (heffects : host.Effects env w₀ names x bound needed)
    (hbound : bound ⊆ names) (hlater : Later env names w₀ w)
    (hx : w₀.Sheltered Set.univ env names x) :
    Secures w (host.evalBy inner x env) fun v w' =>
      Produces env names bound needed w x v w' ∧ w₀.Gives env names x v := by
  have hcoherent := hlater.poised.coherent
  have hlive : ∀ y ∈ [x], w.objects.Live y := by simpa using hlater.live hx
  have hagrees := hlater.passes.agrees_behaviorOf hlater.coherent hx
  unfold Host.evalBy
  refine secures_ask (answers_behaviorOf hcoherent x) hlive fun behavior hok _ => ?_
  cases heffects with
  | constant hbehavior hidle =>
      cases hagrees _ _ hbehavior hok
      cases behavior with
      | symbol | language | custom => exact absurd hidle id
      | _ =>
          exact secures_pure hlater.poised
            ⟨produces_of_sheltered (hlater.sheltered hx) (Or.inl rfl), .itself hbehavior hidle rfl⟩
  | @named _ _ _ _ _ name hbehavior hname hneeded =>
      cases hagrees _ _ hbehavior hok
      refine secures_ask (w.answers_symbolOf x) hlive fun _ hname' _ => ?_
      cases hlater.passes.agrees_symbolOf hlater.coherent hx _ _ hname hname'
      refine secures_ask (answers_lookup hcoherent env name)
        (by simpa using hlater.live hlater.env_sheltered) fun v hfound _ => ?_
      have henv := hlater.sheltered hlater.env_sheltered
      cases v with
      | none => exact secures_get (secures_throw (by simp))
      | some v =>
          refine secures_pure hlater.poised ⟨⟨.refl env bound w, Or.inr ?_,
            fun others hothers h => ?_⟩, .named hbehavior hname fun hnot found hfound' =>
              (hlater.passes.agrees_lookup hlater.coherent hlater.env_sheltered hnot _ _ hfound'
                hfound).symm⟩
          · exact ((henv.mono (Set.empty_subset _)).lookup hcoherent (Set.notMem_empty name)
              hfound).not_pooled hcoherent
          · exact ((henv.mono hothers).lookup hcoherent
              (Set.disjoint_left.1 h hneeded) hfound).sheltered hcoherent
  | call hbehavior hhead hargs hfunction hcalls =>
      cases hagrees _ _ hbehavior hok
      have hattrs := fun s => hlater.passes.agrees_getAttr hlater.coherent hx s
      have hhead' := hx.getAttr_getD hlater.coherent hlater.null hhead
      refine Secures.imp ?_ fun v _ _ h => ⟨h, .computed hbehavior⟩
      show Secures w (host.evalCallBy inner x env) _
      unfold Host.evalCallBy
      refine secures_ask (answers_getAttr hcoherent x Symbol.head) hlive fun head hok' _ => ?_
      cases hattrs _ _ _ hhead hok'
      refine secures_bind (hinner.eval hfunction hbound hlater (hhead'.sheltered hlater.coherent))
        (fun f => keeps_bind (keeps_sustains (π := .anything) (routine_getAttr x Symbol.next))
          fun args => keeps_callBy hinner f _ env) ?_
      rintro f w₁ hpoised₁ ⟨hproduces, hgives⟩
      have hafter := hlater.step hproduces.passes hbound hpoised₁
      refine secures_ask (answers_getAttr hpoised₁.coherent x Symbol.next)
        (by simpa using hafter.live hx) fun args hok' _ => ?_
      cases hafter.passes.agrees_getAttr hlater.coherent hx _ _ _ hargs hok'
      have hhead := (hlater.housed hhead').not_pooled hcoherent
      have hrest := hx.getAttr_getD hlater.coherent hlater.null hargs
      exact secures_callBy hinner (fun callee hruns => hcalls w₁ f callee hpoised₁ hafter.passes
        (hproduces.keeps hpoised₁.coherent) hgives hruns) (fun _ _ _ =>
          ⟨hproduces.unpooled hhead, (hlater.housed hrest).not_pooled hcoherent⟩) hbound hlater
        hpoised₁ ⟨hproduces.passes, Or.inr (hproduces.unpooled hhead), hproduces.sheltered⟩
        (hrest.sheltered hlater.coherent)
  | custom hbehavior hhoused hmodest =>
      cases hagrees _ _ hbehavior hok
      refine (secures_runOn hinner (hlater.onward (.refl env ∅ w) (Set.empty_subset _)
        hlater.poised) (hmodest w hlater.poised hlater.passes) (.refl env bound w) hbound
        ((hlater.housed hhoused).not_pooled hcoherent) (hlater.sheltered hx)).imp
          fun _ _ _ h => ⟨h, .custom hbehavior⟩

end Run

end Action

/-- However deep expressions are nested, what is inside is evaluated safely. -/
theorem Host.sound_evaluator (host : Host) (depth : Nat) : (host.evaluator depth).Sound host := by
  have hfollows := fun depth w => (host.complies_ofKeeps
    (fun op => op.keeps steps_sustains) w).follows depth
  induction depth with
  | zero =>
      exact ⟨hfollows 0, fun _ _ _ _ => Action.secures_throw (by simp),
        fun _ _ _ _ _ _ => Action.secures_throw (by simp),
        fun _ _ _ => Action.secures_throw (by simp), fun _ _ _ => Action.secures_throw (by simp),
        fun _ _ _ _ _ _ => Action.secures_throw (by simp)⟩
  | succ depth ih =>
      refine ⟨hfollows (depth + 1), Action.secures_evalBy ih,
        fun hcalls hhanded hbound hlater hfunction hargs => ?_, Action.secures_copyBy_unique,
        Action.secures_copyBy_plain, fun hbehavior hmodest hbound hlater hnot hx =>
          Action.secures_copyBy_custom hbehavior
            (Action.secures_runOn ih hlater hmodest (.refl _ _ _) hbound hnot hx)⟩
      refine Action.secures_callBy ih hcalls hhanded hbound hlater hlater.poised
        ⟨.refl _ _ _, Or.inl rfl, fun others hothers hdisjoint => ?_⟩ hargs
      exact hfunction.mono (Set.subset_sdiff.2 ⟨hothers, hdisjoint.symm⟩)

end ObjectSystem

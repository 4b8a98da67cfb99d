/-
# Going down to a place

A definition goes down to the place for the classes of its arguments and puts in the chains that
are not there yet. None of these steps opens a way, and the value that is added at the end opens
those ways that pass the place.

A collection may be run before each new chain. So the handle of an object that is freed on the
way might come to name a new chain. It does not: the new chains are all there at the end, and
so is the class. So less has been taken out all in all than had been put in at first, which is
not enough for a cell to come back to its generation.
-/

import ObjectSystem.Proofs.Places

namespace ObjectSystem

namespace World

variable {w w' : World} {c k m n x y v : Handle} {s t : Symbol} {bs p q new : List Handle}
  {is : List Nat} {g : Growth}

variable {w₁ : World} {argClass : Option Handle}

/-- The way of a definition down to the chain at a place, with the steps by which it puts in the
chains that are not there. -/
inductive Approaches (w : World) (c : Handle) (s : Symbol) :
    (place : List Handle) → World → Handle → Prop where
  | held {m : Handle} (hm : w.classAttr c s = .ok (some m)) : Approaches w c s [] w m
  | opened {w₁ : World} {x : Handle} (hregrows : w.Regrows w₁ (.opens c s x)) :
      Approaches w c s [] w₁ x
  | goes {p : List Handle} {w₁ : World} {m k n : Handle} {l : Array Signature} {sig : Signature}
      (happroaches : Approaches w c s p w₁ m) (hl : w₁.signatures m = .ok l) (hsig : sig ∈ l)
      (hclass : sig.argClass = some k) (hvalue : sig.value = some n)
      (hn : w₁.isMethod n = true) : Approaches w c s (p ++ [k]) w₁ n
  | nested {p : List Handle} {w₁ w₂ : World} {m k x : Handle}
      (happroaches : Approaches w c s p w₁ m) (hm : w₁.isMethod m = true)
      (hregrows : w₁.Regrows w₂ (.nests m k x)) : Approaches w c s (p ++ [k]) w₂ x

/-- Nothing that matching depends on has changed. -/
structure Quiet (w w' : World) : Prop where
  classes_eq : w'.classes = w.classes
  below_iff : ∀ b ∈ w.classes, ∀ c, w'.Below b c ↔ w.Below b c
  obstructs_iff : ∀ c ∈ w.classes, ∀ s e, w'.Obstructs c s e ↔ w.Obstructs c s e
  leads_iff : ∀ c ∈ w.classes, ∀ s, ∀ bs, (∀ b ∈ bs, b ∈ w.classes) → ∀ is v,
    w'.Leads c s bs is v ↔ w.Leads c s bs is v

theorem Quiet.refl (w : World) : w.Quiet w :=
  ⟨rfl, fun _ _ _ => Iff.rfl, fun _ _ _ _ => Iff.rfl, fun _ _ _ _ _ _ _ => Iff.rfl⟩

theorem Quiet.trans (hfirst : w.Quiet w₁) (hsecond : w₁.Quiet w') : w.Quiet w' where
  classes_eq := hsecond.classes_eq.trans hfirst.classes_eq
  below_iff b hb c :=
    (hsecond.below_iff b (hfirst.classes_eq ▸ hb) c).trans (hfirst.below_iff b hb c)
  obstructs_iff c hc s e :=
    (hsecond.obstructs_iff c (hfirst.classes_eq ▸ hc) s e).trans (hfirst.obstructs_iff c hc s e)
  leads_iff c hc s bs hbs is v :=
    (hsecond.leads_iff c (hfirst.classes_eq ▸ hc) s bs
      (fun b hb => hfirst.classes_eq ▸ hbs b hb) is v).trans (hfirst.leads_iff c hc s bs hbs is v)

/-- A step that adds no value opens no ways. -/
theorem Regrows.quiet (hregrows : w.Regrows w' g) (harranged : w.Arranged) (hplain : g.Plain w')
    (hchain : ∀ m argClass v, g ≠ .adds m argClass v) : w.Quiet w' where
  classes_eq := hregrows.classes_eq
  below_iff := hregrows.below_iff
  obstructs_iff c hc _ _ := hregrows.obstructs_iff harranged hc
  leads_iff c hc s bs hbs is v := by
    constructor
    · intro hleads
      rcases hregrows.leads_back harranged hplain hc hbs hleads with
        hleads | ⟨n, argClass, q, hg, _⟩
      · exact hleads
      · exact absurd hg (hchain n argClass v)
    · exact hregrows.leads harranged hc hbs

namespace Approaches

theorem classes_eq (happroaches : w.Approaches c s p w₁ m) : w₁.classes = w.classes := by
  induction happroaches with
  | held => rfl
  | opened hregrows => exact hregrows.classes_eq
  | goes _ _ _ _ _ _ ih => exact ih
  | nested _ _ hregrows ih => exact hregrows.classes_eq.trans ih

theorem turns (happroaches : w.Approaches c s p w₁ m) : w.objects.Turns w₁.objects := by
  induction happroaches with
  | held => exact .refl _
  | opened hregrows => exact hregrows.turns
  | goes _ _ _ _ _ _ ih => exact ih
  | nested _ _ hregrows ih => exact ih.trans hregrows.turns

theorem filled (happroaches : w.Approaches c s p w₁ m) (hfilled : w.Filled) : w₁.Filled := by
  induction happroaches with
  | held => exact hfilled
  | opened hregrows => exact hregrows.filled hfilled
  | goes _ _ _ _ _ _ ih => exact ih
  | nested _ _ hregrows ih => exact hregrows.filled ih

theorem arranged (happroaches : w.Approaches c s p w₁ m) (harranged : w.Arranged) :
    w₁.Arranged := by
  induction happroaches with
  | held => exact harranged
  | opened hregrows => exact hregrows.arranged harranged trivial
  | goes _ _ _ _ _ _ ih => exact ih
  | nested _ _ hregrows ih => exact hregrows.arranged ih trivial

/-- A definition comes to the place, unless it finds something there that is no chain. -/
theorem branch (happroaches : w.Approaches c s p w₁ m) (harranged : w.Arranged)
    (hc : c ∈ w.classes) (hm : w₁.isMethod m = true) : w₁.Branch c s p m := by
  induction happroaches with
  | held hattr => exact ⟨_, hattr, .top hm⟩
  | opened hregrows =>
      exact hregrows.branch_new harranged.tidy harranged.firm.ordered hc rfl ⟨rfl, rfl, rfl⟩
  | goes _ hl hsig hclass hvalue hn ih =>
      obtain ⟨top, hattr, hinside⟩ := ih (isMethod_iff.2 ⟨_, hl⟩)
      exact ⟨top, hattr, .inner hinside hl hsig hclass hvalue hn⟩
  | nested happroaches hchain hregrows ih =>
      have harranged₁ := happroaches.arranged harranged
      exact hregrows.branch_new harranged₁.tidy harranged₁.firm.ordered
        (happroaches.classes_eq ▸ hc) rfl ⟨_, ih hchain, rfl⟩

/-- A definition comes to the place without opening ways. -/
theorem quiet (happroaches : w.Approaches c s p w₁ m) (harranged : w.Arranged) : w.Quiet w₁ := by
  induction happroaches with
  | held => exact .refl w
  | opened hregrows => exact hregrows.quiet harranged trivial (fun _ _ _ h => by cases h)
  | goes _ _ _ _ _ _ ih => exact ih
  | nested happroaches _ hregrows ih =>
      exact ih.trans (hregrows.quiet (happroaches.arranged harranged) trivial
        (fun _ _ _ h => by cases h))

/-- On the way no methods come to share chains. -/
theorem shares_back {b b' : Handle} {t t' : Symbol} (happroaches : w.Approaches c s p w₁ m)
    (harranged : w.Arranged) (hb : b ∈ w.classes) (hb' : b' ∈ w.classes) (hne : b ≠ b' ∨ t ≠ t')
    (hshares : w₁.Shares b t b' t') : w.Shares b t b' t' := by
  induction happroaches with
  | held => exact hshares
  | opened hregrows => exact hregrows.shares_back harranged trivial hb hb' hne hshares
  | goes _ _ _ _ _ _ ih => exact ih hshares
  | nested happroaches _ hregrows ih =>
      have hclasses := happroaches.classes_eq
      exact ih (hregrows.shares_back (happroaches.arranged harranged) trivial (hclasses ▸ hb)
        (hclasses ▸ hb') hne hshares)

end Approaches

/-- What a definition does to the ways: those that were there stay, and those of arguments that
lead to the place and meet the overload there are opened, all to the value. Other methods that
share chains with this one may get ways to the value too. -/
structure Overloads (w w' : World) (c : Handle) (s : Symbol) (p : List Handle)
    (argClass : Option Handle) (v : Handle) : Prop where
  classes_eq : w'.classes = w.classes
  obstructs_iff : ∀ k ∈ w.classes, ∀ t e, w'.Obstructs k t e ↔ w.Obstructs k t e
  kept : ∀ k ∈ w.classes, ∀ t, ∀ bs, (∀ b ∈ bs, b ∈ w.classes) → ∀ is y,
    w.Leads k t bs is y → w'.Leads k t bs is y
  back : ∀ k ∈ w.classes, ∀ t, ∀ bs, (∀ b ∈ bs, b ∈ w.classes) → ∀ is y,
    w'.Leads k t bs is y → w.Leads k t bs is y ∨
      y = v ∧ (k = c ∧ t = s ∧ w.Meets argClass bs p ∨ (k ≠ c ∨ t ≠ s) ∧ w.Shares k t c s)
  opened : ∀ bs, (∀ b ∈ bs, b ∈ w.classes) → w.Meets argClass bs p → ∃ is, w'.Leads c s bs is v

theorem Meets.congr (hbelow : ∀ b ∈ w.classes, ∀ c, w'.Below b c ↔ w.Below b c)
    (hbs : ∀ b ∈ bs, b ∈ w.classes) : w'.Meets argClass bs p ↔ w.Meets argClass bs p := by
  constructor
  · intro hmeets
    induction hmeets with
    | marker hclass => exact .marker hclass
    | value hclass hb => exact .value hclass ((hbelow _ (hbs _ List.mem_cons_self) _).1 hb)
    | further hb _ ih =>
        exact .further ((hbelow _ (hbs _ List.mem_cons_self) _).1 hb)
          (ih fun b hb => hbs b (List.mem_cons_of_mem _ hb))
  · intro hmeets
    induction hmeets with
    | marker hclass => exact .marker hclass
    | value hclass hb => exact .value hclass ((hbelow _ (hbs _ List.mem_cons_self) _).2 hb)
    | further hb _ ih =>
        exact .further ((hbelow _ (hbs _ List.mem_cons_self) _).2 hb)
          (ih fun b hb => hbs b (List.mem_cons_of_mem _ hb))

/-- Where no chain is at two places, a definition opens the ways through its place and no others,
except where chains are shared. -/
theorem Approaches.overloads (happroaches : w.Approaches c s p w₁ m) (harranged : w.Arranged)
    (hc : c ∈ w.classes) (hm : w₁.isMethod m = true) (hregrows : w₁.Regrows w' (.adds m argClass v))
    (hplain : w'.isMethod v = false) : w.Overloads w' c s p argClass v := by
  have harranged₁ := happroaches.arranged harranged
  have hquiet := happroaches.quiet harranged
  have hbranch := happroaches.branch harranged hc hm
  have hclasses := hquiet.classes_eq
  have hbs₁ : ∀ {bs : List Handle}, (∀ b ∈ bs, b ∈ w.classes) → ∀ b ∈ bs, b ∈ w₁.classes :=
    fun hbs b hb => hclasses ▸ hbs b hb
  constructor
  case classes_eq => exact hregrows.classes_eq.trans hclasses
  case obstructs_iff =>
    intro k hk t e
    exact (hregrows.obstructs_iff harranged₁ (hclasses ▸ hk)).trans (hquiet.obstructs_iff k hk t e)
  case kept =>
    intro k hk t bs hbs is y hleads
    exact hregrows.leads harranged₁ (hclasses ▸ hk) (hbs₁ hbs)
      ((hquiet.leads_iff k hk t bs hbs is y).2 hleads)
  case back =>
    intro k hk t bs hbs is y hleads
    rcases hregrows.leads_back harranged₁ hplain (hclasses ▸ hk) (hbs₁ hbs) hleads with
      hleads | ⟨n, argClass', q, hg, hbranch', hmeets⟩
    · exact Or.inl ((hquiet.leads_iff k hk t bs hbs is y).1 hleads)
    · cases hg
      refine Or.inr ⟨rfl, ?_⟩
      by_cases hsame : k = c ∧ t = s
      · obtain ⟨rfl, rfl⟩ := hsame
        rw [harranged₁.parted.branch hbranch' hbranch] at hmeets
        exact Or.inl ⟨rfl, rfl, (Meets.congr hquiet.below_iff hbs).1 hmeets⟩
      · have hne : k ≠ c ∨ t ≠ s := not_and_or.1 hsame
        exact Or.inr ⟨hne, happroaches.shares_back harranged hk hc hne
          ⟨q, p, m, hbranch', hbranch⟩⟩
  case opened =>
    intro bs hbs hmeets
    exact hregrows.leads_new harranged₁.tidy harranged₁.firm.ordered hplain (hclasses ▸ hc)
      (hbs₁ hbs) hbranch ((Meets.congr hquiet.below_iff hbs).2 hmeets)

/-! ## What is not replaced -/

/-- Some chains are new, at places of one method, and nothing else has been put in. -/
structure Chains (w w' : World) (c : Handle) (s : Symbol) (new : List Handle) : Prop where
  nodup : new.Nodup
  placed : ∀ y ∈ new, ∃ q, w'.Branch c s q y
  inserted_eq : w'.objects.inserted = w.objects.inserted + new.length

theorem chains_nil (w : World) (c : Handle) (s : Symbol) : w.Chains w c s [] where
  nodup := List.nodup_nil
  placed _ h := absurd h List.not_mem_nil
  inserted_eq := rfl

theorem Chains.regrow (hchains : w.Chains w₁ c s new) (hregrows : w₁.Regrows w' g)
    (htidy : w₁.Tidy) (hordered : w₁.Ordered) (hc : c ∈ w₁.classes)
    (hplaces : ∀ y, g.IsNew y → ∃ q, g.Places w₁ c s q) : w.Chains w' c s (g.chains ++ new) where
  nodup := by
    refine g.nodup_chains.append hchains.nodup fun y hy hy' => ?_
    obtain ⟨q, hbranch⟩ := hchains.placed y hy'
    exact hregrows.stale y (Growth.mem_chains_iff.1 hy) (live_of_isMethod hbranch.isMethod)
  placed y hy := by
    rcases List.mem_append.1 hy with hy | hy
    · have hy := Growth.mem_chains_iff.1 hy
      obtain ⟨q, hplaces⟩ := hplaces y hy
      exact ⟨q, hregrows.branch_new htidy hordered hc hy hplaces⟩
    · obtain ⟨q, hbranch⟩ := hchains.placed y hy
      exact ⟨q, hregrows.branch htidy hordered hc hbranch⟩
  inserted_eq := by
    rw [hregrows.inserted_eq, hchains.inserted_eq, List.length_append]
    omega

/-- Less has been taken out than had been put in at first. -/
theorem Chains.removed_lt (hchains : w.Chains w' c s new) (hordered : w'.Ordered)
    (hc : c ∈ w'.classes) (hcells : w'.objects.cells.size ≤ 2 ^ 32) :
    w'.objects.removed < w.objects.inserted := by
  obtain ⟨d, hd⟩ := hordered.described c hc
  have hdescriptor := descriptor_eq_ok_iff.1 hd.describes.descriptor_eq
  have hmethod : ∀ y ∈ new, w'.isMethod y = true := fun y hy => by
    obtain ⟨q, hbranch⟩ := hchains.placed y hy
    exact hbranch.isMethod
  have hnodup : (c :: new).Nodup := by
    refine List.nodup_cons.2 ⟨fun hmem => ?_, hchains.nodup⟩
    obtain ⟨l, hl⟩ := isMethod_iff.1 (hmethod c hmem)
    cases hdescriptor.symm.trans (signatures_eq_ok_iff.1 hl)
  have hlive : ∀ y ∈ c :: new, w'.objects.Live y :=
    List.forall_mem_cons.2 ⟨live_of_payload? hdescriptor, fun y hy =>
      live_of_isMethod (hmethod y hy)⟩
  have hcount := Arena.length_le_occupied (Arena.addressed_of_size_le hcells) hnodup hlive
  have hcounted := hordered.counted
  have hinserted := hchains.inserted_eq
  unfold Arena.Counted at hcounted
  rw [List.length_cons] at hcount
  omega

/-- What is there before and afterwards is the same object, as long as so little is taken out
that no cell comes back to its generation. -/
def Persists (w w' : World) : Prop :=
  w'.objects.removed < w.objects.inserted → ∀ x, w.objects.Live x → w'.objects.Live x →
    w'.classOf x = w.classOf x ∧ (w'.isMethod x = true → w.isMethod x = true)

theorem Persists.refl (w : World) : w.Persists w :=
  fun _ _ _ _ => ⟨rfl, id⟩

theorem Persists.regrow (hpersists : w.Persists w₁) (hturns : w.objects.Turns w₁.objects)
    (hregrows : w₁.Regrows w' g) (hcounted : w.objects.Counted)
    (hcells : w.objects.cells.size ≤ 2 ^ 32) : w.Persists w' := by
  intro hfew x hx hx'
  obtain ⟨o, ho⟩ := hx
  obtain ⟨o', ho'⟩ := hx'
  have hx₁ : w₁.objects.Live x :=
    hcounted.get?_between hcells hturns hregrows.turns ho ho' hfew
  have hfew₁ := hregrows.turns.removed_le.trans_lt hfew
  obtain ⟨hclass, hmethod⟩ := hpersists hfew₁ x ⟨o, ho⟩ hx₁
  exact ⟨(hregrows.classOf_eq x hx₁ ⟨o', ho'⟩).trans hclass,
    fun h => hmethod (hregrows.isMethod_back hx₁ h)⟩

namespace Approaches

theorem persists (happroaches : w.Approaches c s p w₁ m) (hcounted : w.objects.Counted)
    (hcells : w.objects.cells.size ≤ 2 ^ 32) : w.Persists w₁ := by
  induction happroaches with
  | held => exact .refl w
  | opened hregrows => exact (Persists.refl w).regrow (.refl _) hregrows hcounted hcells
  | goes _ _ _ _ _ _ ih => exact ih
  | nested happroaches _ hregrows ih =>
      exact ih.regrow happroaches.turns hregrows hcounted hcells

theorem chains (happroaches : w.Approaches c s p w₁ m) (harranged : w.Arranged)
    (hc : c ∈ w.classes) : ∃ new, w.Chains w₁ c s new := by
  induction happroaches with
  | held => exact ⟨[], w.chains_nil c s⟩
  | opened hregrows =>
      exact ⟨_, (w.chains_nil c s).regrow hregrows harranged.tidy harranged.firm.ordered hc
        fun _ _ => ⟨[], rfl, rfl, rfl⟩⟩
  | goes _ _ _ _ _ _ ih => exact ih
  | nested happroaches hm hregrows ih =>
      obtain ⟨new, hchains⟩ := ih
      have harranged₁ := happroaches.arranged harranged
      have hbranch := happroaches.branch harranged hc hm
      exact ⟨_, hchains.regrow hregrows harranged₁.tidy harranged₁.firm.ordered
        (happroaches.classes_eq ▸ hc) fun _ _ => ⟨_, _, hbranch, rfl⟩⟩

/-- What is there before a definition and after it is the same object. -/
theorem same (happroaches : w.Approaches c s p w₁ m) (harranged : w.Arranged)
    (hc : c ∈ w.classes) (hregrows : w₁.Regrows w' (.adds m argClass v))
    (hcells : w'.objects.cells.size ≤ 2 ^ 32) (hx : w.objects.Live x) (hx' : w'.objects.Live x) :
    w'.classOf x = w.classOf x ∧ (w'.isMethod x = true → w.isMethod x = true) := by
  obtain ⟨new, hchains⟩ := happroaches.chains harranged hc
  have hclasses := happroaches.classes_eq
  have harranged₁ := happroaches.arranged harranged
  have hall := hchains.regrow hregrows harranged₁.tidy harranged₁.firm.ordered (hclasses ▸ hc)
    fun _ h => h.elim
  have hfew := hall.removed_lt hregrows.firm.ordered (hregrows.classes_eq ▸ hclasses ▸ hc) hcells
  have hcounted := harranged.firm.ordered.counted
  have hturns := happroaches.turns
  have hcells₀ := hturns.size_le.trans (hregrows.turns.size_le.trans hcells)
  have hpersists := happroaches.persists hcounted hcells₀
  exact hpersists.regrow hturns hregrows hcounted hcells₀ hfew x hx hx'

end Approaches

end World

end ObjectSystem

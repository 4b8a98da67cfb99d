/-
# What a definition does to matching

For arguments that the new overload accepts, its value is found where nothing was, and where
something was, either that is found again or the value is. For all other arguments matching finds
what it found before. Which of the two is found depends on where the place of the overload lies
among the older ones: it is the end of the chain that the classes lead to, not of all chains.

For other classes and names matching finds what it found before too, unless what they hold has a
chain in common with the method. Definitions alone do not bring this about, but a class attribute
may be set to any object, so also to a chain that another class holds.
-/

import ObjectSystem.Proofs.Methodical

namespace ObjectSystem.World

variable {settings : Settings} {a a' : Annals} {w w' : World} {c k v top x : Handle} {s t : Symbol}
  {name : String} {argClass : Option Handle} {args argClasses bs p rest ks : List Handle}
  {found found' : Option Handle}

/-- The classes of an overload accept arguments: there are at least as many, each of the class at
its place or of one below it. Without classes there must be no arguments. -/
def AcceptedBy (w : World) (args argClasses : List Handle) : Prop :=
  (argClasses = [] → args = []) ∧
    List.Forall₂ (fun x k => w.isAssignable x k = .ok true) (args.take argClasses.length) argClasses

/-- What a definition does to the matches for some arguments. -/
structure Redefines (w w' : World) (c : Handle) (name : String) (argClasses : List Handle)
    (v : Handle) (args : List Handle) : Prop where
  matched : ∃ found, w.matchInClass (w'.methodSymbol name) args c = .ok found
  unaccepted : ¬ w.AcceptedBy args argClasses →
    w'.matchInClass (w'.methodSymbol name) args c = w.matchInClass (w'.methodSymbol name) args c
  first : w.AcceptedBy args argClasses → w.matchInClass (w'.methodSymbol name) args c = .ok none →
    w'.matchInClass (w'.methodSymbol name) args c = .ok (some v)
  again : w.AcceptedBy args argClasses →
    ∀ u, w.matchInClass (w'.methodSymbol name) args c = .ok (some u) →
      w'.matchInClass (w'.methodSymbol name) args c = .ok (some u) ∨
        w'.matchInClass (w'.methodSymbol name) args c = .ok (some v)
  others : ∀ k ∈ w.classes, ∀ other, k ≠ c ∨ other ≠ name →
    ¬ w.Shares k (w'.methodSymbol other) c (w'.methodSymbol name) →
      w'.matchInClass (w'.methodSymbol other) args k = w.matchInClass (w'.methodSymbol other) args k
  shared : ∀ k ∈ w.classes, ∀ other,
    w'.matchInClass (w'.methodSymbol other) args k =
        w.matchInClass (w'.methodSymbol other) args k ∨
      w'.matchInClass (w'.methodSymbol other) args k = .ok (some v)

/-! ## Acceptance -/

theorem acceptedBy_singleton_iff :
    w.AcceptedBy args [k] ↔ ∃ x rest, args = x :: rest ∧ w.isAssignable x k = .ok true := by
  cases args <;> simp [AcceptedBy]

theorem acceptedBy_cons_cons_iff {k' : Handle} :
    w.AcceptedBy args (k :: k' :: ks) ↔
      ∃ x rest, args = x :: rest ∧ w.isAssignable x k = .ok true ∧
        w.AcceptedBy rest (k' :: ks) := by
  cases args <;> simp [AcceptedBy]

theorem acceptedBy_intern (w : World) (text : String) (args argClasses : List Handle) :
    (w.intern text).2.AcceptedBy args argClasses ↔ w.AcceptedBy args argClasses := by
  simp only [AcceptedBy, isAssignable_intern]

/-- Arguments are accepted if their classes lead to the place of the overload and meet it. -/
theorem acceptedBy_iff_meets (hargs : w.ClassesOf args bs) :
    w.AcceptedBy args argClasses ↔ w.Meets argClasses.getLast? bs argClasses.dropLast := by
  have hassignable : ∀ {x b k : Handle}, w.classOf x = .ok b →
      (w.isAssignable x k = .ok true ↔ w.Below b k) := fun hx => by
    rw [isAssignable, hx]
    rfl
  induction argClasses generalizing args bs with
  | nil =>
      constructor
      · rintro ⟨hnone, _⟩
        cases hnone rfl
        cases hargs
        exact .marker rfl
      · intro hmeets
        cases hmeets with
        | marker =>
            cases hargs
            exact ⟨fun _ => rfl, .nil⟩
        | value hclass => cases hclass
  | cons k ks ih =>
      cases ks with
      | nil =>
          rw [acceptedBy_singleton_iff]
          constructor
          · rintro ⟨x, rest, rfl, hx⟩
            cases hargs with
            | cons hclass => exact .value rfl ((hassignable hclass).1 hx)
          · intro hmeets
            cases hmeets with
            | marker hclass => cases hclass
            | value hclass hbelow =>
                cases hclass
                cases hargs with
                | cons hclass => exact ⟨_, _, rfl, (hassignable hclass).2 hbelow⟩
      | cons k' ks =>
          rw [acceptedBy_cons_cons_iff, List.getLast?_cons_cons, List.dropLast_cons_cons]
          constructor
          · rintro ⟨x, rest, rfl, hx, hrest⟩
            cases hargs with
            | cons hclass hargs =>
                exact .further ((hassignable hclass).1 hx) ((ih hargs).1 hrest)
          · intro hmeets
            cases hmeets with
            | further hbelow hrest =>
                cases hargs with
                | cons hclass hargs =>
                    exact ⟨_, _, rfl, (hassignable hclass).2 hbelow, (ih hargs).2 hrest⟩

/-! ## What is found -/

section Found

variable (hoverloads : w.Overloads w' c s p argClass v) (hbs : ∀ b ∈ bs, b ∈ w.classes)

include hoverloads hbs

/-- Everywhere the value is found, or what was found. -/
theorem Overloads.found_either (hk : k ∈ w.classes) (hfirst : First (w.Leads k t bs) found)
    (hfirst' : First (w'.Leads k t bs) found') : found' = found ∨ found' = some v :=
  hfirst.extend (fun _ _ _ h h' => h.unique h') hfirst' (hoverloads.kept k hk t bs hbs)
    fun is u hleads => (hoverloads.back k hk t bs hbs is u hleads).imp_right And.left

/-- Where no way is opened, what was found is found. -/
theorem Overloads.found_same (hk : k ∈ w.classes)
    (hnot : ¬ (k = c ∧ t = s ∧ w.Meets argClass bs p ∨ (k ≠ c ∨ t ≠ s) ∧ w.Shares k t c s))
    (hfirst : First (w.Leads k t bs) found) (hfirst' : First (w'.Leads k t bs) found') :
    found' = found := by
  have hiff : ∀ is u, w'.Leads k t bs is u ↔ w.Leads k t bs is u := fun is u =>
    ⟨fun hleads => (hoverloads.back k hk t bs hbs is u hleads).resolve_right fun h => hnot h.2,
      hoverloads.kept k hk t bs hbs is u⟩
  exact hfirst'.unique (fun _ _ _ h h' => h.unique h') (hfirst.congr hiff)

/-- At the class and the symbol of the definition something is found if the overload is met. -/
theorem Overloads.found_ne_none (hmeets : w.Meets argClass bs p)
    (hfirst' : First (w'.Leads c s bs) found') : found' ≠ none := by
  obtain ⟨is, hway⟩ := hoverloads.opened bs hbs hmeets
  exact hfirst'.ne_none hway

end Found

/-- What a class holds that gets an overload does not obstruct matching. -/
theorem Approaches.not_obstructs {w₁ : World} {m : Handle} {e : Error}
    (happroaches : w.Approaches c s p w₁ m) (harranged : w.Arranged) (hc : c ∈ w.classes)
    (hm : w₁.isMethod m = true) : ¬ w.Obstructs c s e := by
  intro hobstructs
  obtain ⟨top, hattr, hinside⟩ := happroaches.branch harranged hc hm
  obtain ⟨l, hl⟩ := isMethod_iff.1 hinside.isMethod_top
  obtain ⟨m', hattr', he⟩ :=
    ((happroaches.quiet harranged).obstructs_iff c hc s e).2 hobstructs
  cases hattr.symm.trans hattr'
  cases hl.symm.trans he

theorem shares_intern (w : World) (text : String) (k : Handle) (t : Symbol) (c : Handle)
    (s : Symbol) : (w.intern text).2.Shares k t c s ↔ w.Shares k t c s := by
  have hmethod : ∀ m, (w.intern text).2.isMethod m = w.isMethod m := fun _ => rfl
  have hinside : ∀ {top p m}, (w.intern text).2.Inside top p m ↔ w.Inside top p m := by
    intro top p m
    constructor
    · exact (w.sameChains_intern text).inside_back
    · intro hinside
      induction hinside with
      | top hm => exact .top hm
      | inner _ hl hsig hclass hvalue hn ih =>
          exact .inner ih ((w.signatures_intern text _).trans hl) hsig hclass hvalue hn
  simp only [Shares, Branch, hinside, classAttr_congr (w.objects_intern text)]

/-- Live arguments have classes, and those are registered. -/
theorem Tallies.exists_classes (htallies : w.Tallies a)
    (hlive : ∀ x ∈ args, w.isLive x = true) :
    ∃ bs, w.ClassesOf args bs ∧ ∀ b ∈ bs, b ∈ w.classes := by
  induction args with
  | nil => exact ⟨[], .nil, fun _ h => absurd h List.not_mem_nil⟩
  | cons x args ih =>
      obtain ⟨hx, hlive⟩ := List.forall_mem_cons.1 hlive
      obtain ⟨bs, hbs, hmem⟩ := ih hlive
      obtain ⟨o, ho⟩ := Arena.contains_iff.1 hx
      exact ⟨o.classRef :: bs, .cons (classOf_eq_ok ho) hbs,
        List.forall_mem_cons.2 ⟨(htallies.shapely x o ho).1, hmem⟩⟩

theorem ClassesOf.congr (hargs : w.ClassesOf args bs)
    (hsame : ∀ x ∈ args, w'.classOf x = w.classOf x) : w'.ClassesOf args bs := by
  induction hargs with
  | nil => exact .nil
  | cons hclass _ ih =>
      obtain ⟨hx, hsame⟩ := List.forall_mem_cons.1 hsame
      exact .cons (hx.trans hclass) (ih hsame)

/-- A definition that succeeds has exactly the effect that it should have. The value must not be
a chain when it is there; what is live and no chain before the call is none afterwards. -/
theorem Methodical.define_exact (hmethodical : Methodical settings Careful w) (hc : c ∈ w.classes)
    (hks : ∀ k ∈ argClasses, k ∈ w.classes)
    (hdefine : (Operation.defineMethod c name argClasses v).perform w = (.ok top, w'))
    (hplain : w'.isMethod v = false) (hfits : w'.Fits) (hsymbols : w'.symbols.size < 2 ^ 32)
    (hlive : ∀ x ∈ args, w.isLive x = true ∧ w'.isLive x = true) :
    w.Redefines w' c name argClasses v args := by
  have hfits₀ := (spends_of_perform hdefine).fits hfits
  have horderly := hmethodical.orderly hfits₀
  have hfirm := horderly.arranged.firm
  obtain ⟨harranged, w₁, m, happroaches, hm, hregrows⟩ :=
    horderly.exists_of_define hc hks hfits hdefine
  have hoverloads := happroaches.overloads harranged hc hm hregrows hplain
  obtain ⟨a, htallies⟩ := harranged.firm
  obtain ⟨a', htallies'⟩ := hfirm.step hdefine hks hfits.cells_le
  have hfilled := (w.sameChains_intern (methodName name)).filled horderly.filled
  have hfilled' := hfirm.filled_define hc hks hfits.cells_le hdefine horderly.filled
  obtain ⟨bs, hbs, hmem⟩ := htallies.exists_classes fun x hx => (hlive x hx).1
  have hbs' : w'.ClassesOf args bs := hbs.congr fun x hx =>
    (horderly.same hc hks hfits hdefine (Arena.contains_iff.1 (hlive x hx).1)
      (Arena.contains_iff.1 (hlive x hx).2)).1
  -- Matching meets with the same obstacle as before, or finds the first of the ways.
  have hmatch : ∀ k ∈ w.classes, ∀ t, (∃ found found',
      w.matchInClass t args k = .ok found ∧ w'.matchInClass t args k = .ok found' ∧
        First ((w.intern (methodName name)).2.Leads k t bs) found ∧
          First (w'.Leads k t bs) found') ∨
      ∃ e, (w.intern (methodName name)).2.Obstructs k t e ∧
        w'.matchInClass t args k = w.matchInClass t args k := by
    intro k hk t
    have hintern := w.matchInClass_intern (methodName name) t args k
    rcases htallies.matchInClass_cases hfilled hk hbs t with
      ⟨found, hfound, hfirst⟩ | ⟨e, hobstructs⟩
    · rcases htallies'.matchInClass_cases hfilled' (hoverloads.classes_eq ▸ hk) hbs' t with
        ⟨found', hfound', hfirst'⟩ | ⟨e, hobstructs'⟩
      · exact Or.inl ⟨found, found', hintern.symm.trans hfound, hfound', hfirst, hfirst'⟩
      · have hobstructs := (hoverloads.obstructs_iff k hk t e).1 hobstructs'
        cases hobstructs.matchInClass_eq.symm.trans hfound
    · have hobstructs' := (hoverloads.obstructs_iff k hk t e).2 hobstructs
      exact Or.inr ⟨e, hobstructs, hobstructs'.matchInClass_eq.trans
        (hobstructs.matchInClass_eq.symm.trans hintern)⟩
  have haccepted : w.AcceptedBy args argClasses ↔
      (w.intern (methodName name)).2.Meets argClasses.getLast? bs argClasses.dropLast :=
    (w.acceptedBy_intern _ args argClasses).symm.trans (acceptedBy_iff_meets hbs)
  have hsymbol := methodSymbol_of_defineMethod hdefine
  obtain ⟨found, found', hfound, hfound', hfirst, hfirst'⟩ :=
    (hmatch c hc (w.methodSymbol name)).resolve_right fun ⟨e, hobstructs, _⟩ =>
      happroaches.not_obstructs harranged hc hm hobstructs
  have heither := hoverloads.found_either hmem hc hfirst hfirst'
  constructor
  case matched => exact ⟨found, hsymbol ▸ hfound⟩
  case unaccepted =>
    intro hnot
    rw [haccepted] at hnot
    rw [hsymbol, hfound, hfound', hoverloads.found_same hmem hc (by simp [hnot]) hfirst hfirst']
  case first =>
    intro hmeets hnone
    rw [hsymbol] at hnone ⊢
    cases hnone.symm.trans hfound
    have hsome := hoverloads.found_ne_none hmem (haccepted.1 hmeets) hfirst'
    rw [hfound', heither.resolve_left hsome]
  case again =>
    intro _ u hu
    rw [hsymbol] at hu ⊢
    cases hu.symm.trans hfound
    rw [hfound']
    exact heither.imp (congrArg _) (congrArg _)
  case others =>
    intro k hk other hne hshares
    have hne : k ≠ c ∨ w'.methodSymbol other ≠ w.methodSymbol name :=
      hne.imp_right fun hne heq =>
        hne (methodName_injective (SymbolTable.eq_of_intern_eq hsymbols
          (find?_of_defineMethod hdefine) heq))
    rw [hsymbol, ← shares_intern w (methodName name)] at hshares
    rcases hmatch k hk (w'.methodSymbol other) with
      ⟨found, found', hfound, hfound', hfirst, hfirst'⟩ | ⟨_, _, hsame⟩
    · have hnot : ¬ (k = c ∧ w'.methodSymbol other = w.methodSymbol name) := not_and_or.2 hne
      rw [hfound, hfound', hoverloads.found_same hmem hk (fun h => ?_) hfirst hfirst']
      exact h.elim (fun h => hnot ⟨h.1, h.2.1⟩) fun h => hshares h.2
    · exact hsame
  case shared =>
    intro k hk other
    rcases hmatch k hk (w'.methodSymbol other) with
      ⟨found, found', hfound, hfound', hfirst, hfirst'⟩ | ⟨_, _, hsame⟩
    · rw [hfound, hfound']
      exact (hoverloads.found_either hmem hk hfirst hfirst').imp (congrArg _) (congrArg _)
    · exact Or.inl hsame

/-- One overload is for a text and a list, so nothing is found for a text alone until an overload
for a text is defined. -/
theorem define_exact_text :
    let text := Builtin.missingString
    let w := ((Operation.defineMethod Builtin.objectClass "show"
      [Builtin.charsClass, Builtin.listClass] Builtin.missingArg).perform initial).2
    let w' := ((Operation.defineMethod Builtin.objectClass "show" [Builtin.charsClass]
      Builtin.null).perform w).2
    (Methodical {} Careful w ∧ w.AcceptedBy [text] [Builtin.charsClass] ∧
        w.matchInClass (w'.methodSymbol "show") [text] Builtin.objectClass = .ok none) ∧
      w.Redefines w' Builtin.objectClass "show" [Builtin.charsClass] Builtin.null [text] ∧
      w'.matchInClass (w'.methodSymbol "show") [text] Builtin.objectClass =
        .ok (some Builtin.null) := by
  intro text w w'
  have hfirst : Builtin.objectClass ∈ initial.classes ∧
      (∀ c ∈ [Builtin.charsClass, Builtin.listClass], c ∈ initial.classes) ∧
      (initial.isLive Builtin.missingArg = true ∧ initial.isMethod Builtin.missingArg = false) ∧
      ((Operation.defineMethod Builtin.objectClass "show" [Builtin.charsClass, Builtin.listClass]
        Builtin.missingArg).perform initial).1.isOk = true := by decide +kernel
  have hsecond : Builtin.objectClass ∈ w.classes ∧
      (∀ c ∈ [Builtin.charsClass], c ∈ w.classes) ∧
      ((Operation.defineMethod Builtin.objectClass "show" [Builtin.charsClass]
        Builtin.null).perform w).1.isOk = true ∧
      w.isAssignable text Builtin.charsClass = .ok true ∧ w.isLive text = true := by
    decide +kernel
  have hsizes : w'.objects.cells.size ≤ 2 ^ 32 ∧ w'.pools.opened < 2 ^ 32 ∧
      w'.symbols.size < 2 ^ 32 ∧ w'.isMethod Builtin.null = false ∧ w'.isLive text = true := by
    decide +kernel
  have hnone : w.matchInClass (w'.methodSymbol "show") [text] Builtin.objectClass = .ok none := by
    decide +kernel
  obtain ⟨hc, hks, hok, haccepted, hlive⟩ := hsecond
  obtain ⟨hcells, hopened, hsymbols, hplain, hlive'⟩ := hsizes
  have hmethodical : Methodical {} Careful w :=
    Methodical.defined (.create create_default) ⟨hfirst.2.1, hfirst.2.2.1⟩ hfirst.1 hfirst.2.2.2
  obtain ⟨top, hdefine⟩ := Action.exists_of_isOk hok
  have haccepted : w.AcceptedBy [text] [Builtin.charsClass] :=
    acceptedBy_singleton_iff.2 ⟨text, [], rfl, haccepted⟩
  have hredefines : w.Redefines w' Builtin.objectClass "show" [Builtin.charsClass] Builtin.null
      [text] :=
    hmethodical.define_exact hc hks hdefine hplain ⟨hcells, hopened⟩ hsymbols
      (List.forall_mem_singleton.2 ⟨hlive, hlive'⟩)
  exact ⟨⟨hmethodical, haccepted, hnone⟩, hredefines, hredefines.first haccepted hnone⟩

/-- The class of texts can be made to hold the chain of the class of all objects. Then a definition
for the latter changes what the former finds in its own chain. -/
theorem define_exact_shared :
    let text := Builtin.missingString
    let chain := Builtin.nth 25
    let w₁ := ((Operation.defineMethod Builtin.objectClass "show" [Builtin.listClass]
      Builtin.missingArg).perform initial).2
    let symbol := w₁.methodSymbol "show"
    let w := ((Operation.defineClassAttr Builtin.charsClass symbol (some chain)).perform w₁).2
    let w' := ((Operation.defineMethod Builtin.objectClass "show" [Builtin.charsClass]
      Builtin.null).perform w).2
    (Methodical {} Careful w ∧
        ((Operation.defineMethod Builtin.objectClass "show" [Builtin.charsClass]
          Builtin.null).perform w).1 = .ok chain ∧
        w'.isMethod Builtin.null = false ∧ w.isLive text = true ∧ w'.isLive text = true ∧
        Builtin.charsClass ∈ w.classes ∧ Builtin.charsClass ≠ Builtin.objectClass) ∧
      w.matchInClass symbol [text] Builtin.charsClass = .ok none ∧
      w'.matchInClass symbol [text] Builtin.charsClass = .ok (some Builtin.null) := by
  intro text chain w₁ symbol w w'
  have hfirst : Builtin.objectClass ∈ initial.classes ∧
      (∀ c ∈ [Builtin.listClass], c ∈ initial.classes) ∧
      (initial.isLive Builtin.missingArg = true ∧ initial.isMethod Builtin.missingArg = false) ∧
      ((Operation.defineMethod Builtin.objectClass "show" [Builtin.listClass]
        Builtin.missingArg).perform initial).1.isOk = true := by decide +kernel
  have hmethodical : Methodical {} Careful w₁ :=
    Methodical.defined (.create create_default) ⟨hfirst.2.1, hfirst.2.2.1⟩ hfirst.1 hfirst.2.2.2
  have hsizes : w.objects.cells.size ≤ 2 ^ 32 ∧ w.pools.opened < 2 ^ 32 := by decide +kernel
  have hfits : w.Fits := ⟨hsizes.1, hsizes.2⟩
  have hafter : Methodical {} Careful w :=
    hmethodical.leave (fun _ _ _ hcareful => hcareful.namesRegistered)
      (.defineClassAttr Builtin.charsClass symbol (some chain)) ⟨trivial, trivial⟩ trivial hfits
  exact ⟨⟨hafter, by decide +kernel⟩, by decide +kernel⟩

end ObjectSystem.World

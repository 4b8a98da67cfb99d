/-
# Lists and their scopes

A list is built in a scope of its own. If it comes out, its first cell goes to the pool around
the scope, and the other cells stay where they are. If it does not, the cells that have been
made go with the scope, and with them goes what they alone hold by then.

The closing of the scope takes away new cells and what is lost with the list, and nothing else.
-/

import ObjectSystem.Proofs.Stringing

namespace ObjectSystem

namespace Action

open World

/-- A list is worked off from its last item to its first. What is said of the state after the
last items is carried from item to item, until one of them fails. -/
theorem foldrM_outcome {α β : Type} {f : α → β → Action β} {w : World} {b : β} {items : List α}
    {I : List α → β → World → Prop} {E : Error → List α → World → Prop}
    (hf : ∀ a b, (f a b).Keeps World.Advances) (hstart : I [] b w)
    (hstep : ∀ a rest b w', I rest b w' → ((f a b).perform w').2.Fits →
      (∀ x w'', (f a b).perform w' = (.ok x, w'') → I (a :: rest) x w'') ∧
        ∀ e w'', (f a b).perform w' = (.error e, w'') → E e (a :: rest) w'')
    (hfits : ((items.foldrM f b).perform w).2.Fits) :
    (∃ x w', (items.foldrM f b).perform w = (.ok x, w') ∧ I items x w') ∨
      ∃ e w' rest, (items.foldrM f b).perform w = (.error e, w') ∧ rest <:+ items ∧
        E e rest w' := by
  induction items with
  | nil => exact Or.inl ⟨b, w, rfl, hstart⟩
  | cons a rest ih =>
      rw [List.foldrM_cons] at hfits ⊢
      rcases ih (fits_of_bind (hf a) hfits) with
        ⟨x, w', hperform, hrest⟩ | ⟨e, w', failed, hperform, hsuffix, hfailed⟩
      · rw [perform_bind_ok hperform] at hfits ⊢
        obtain ⟨hok, herror⟩ := hstep a rest x w' hrest hfits
        cases hrun : (f a x).perform w' with
        | mk result w'' =>
            cases result with
            | ok y => exact Or.inl ⟨y, w'', rfl, hok y w'' hrun⟩
            | error e => exact Or.inr ⟨e, w'', _, rfl, List.suffix_rfl, herror e w'' hrun⟩
      · rw [perform_bind_error hperform]
        exact Or.inr ⟨e, w', failed, rfl, hsuffix.trans (List.suffix_cons a rest), hfailed⟩

variable {w : World} {d : Class} {c head next : Handle} {items : List Handle} {ids : List PoolId}

theorem routine_cell_anything : Routine .anything (cell c head next) :=
  routine_cell trivial head next

theorem advances_cell : (cell c head next).Keeps World.Advances :=
  routine_cell_anything.advances

theorem routine_cells (items : List Handle) :
    Routine .anything (items.foldrM cons Builtin.null) :=
  routine_foldrM (fun _ _ => routine_cell_anything) Builtin.null

/-- A cell whose item and rest are kept does not fail for a stale handle. -/
theorem ne_dangling_of_cellRun {w₁ w₂ : World} {cells : List Handle} {e : Error}
    (hstrings : Strings d w w₁ items next cells) (hready : w.Ready)
    (hkept : ∀ y ∈ head :: items, w.Keeps [] y)
    (hrun : CellRun w₁ c head next (.error e) w₂) (y : Handle) : e ≠ .dangling y := by
  have hready₁ := hready.resume hstrings.resumes
  obtain ⟨hhead, hitems⟩ := List.forall_mem_cons.1 hkept
  cases hrun with
  | full => simp
  | bare hmakes hfails =>
      obtain ⟨_, _, htakes⟩ := hmakes.takes
      have hlive := hstrings.keeps hready ⟨hhead, Or.inl hitems⟩
      refine ne_dangling_of_setAttr hmakes.evolves.coherent ⟨_, htakes.get?_eq⟩ ?_ hfails y
      obtain ⟨o, ho⟩ := hlive.live
      exact ⟨o, (htakes.kept head hlive).trans ho⟩
  | @loose x wa wb _ p hmakes _ htakes hfails =>
      have hmade := hmakes.resumes hready₁
      have htaken := htakes.resumes (hready₁.resume hmade)
      obtain ⟨o, ho, _⟩ := htakes.empty
      refine ne_dangling_of_setAttr htaken.evolves.coherent ⟨_, htakes.owner o ho⟩ ?_ hfails y
      rcases hstrings.front with hmem | rfl
      · exact (hstrings.chain_take hready hkept hmakes htakes).1.strung.live hmem
      · obtain ⟨o, ho, _⟩ := ((hready₁.resume hmade).resume htaken).equipped.null
        exact ⟨o, ho⟩

/-- The cell is made, or the list is given up. -/
theorem strings_cell {w₁ : World} {cells : List Handle} (hready : w.Ready) (hpairs : d.Pairs)
    (hwithin : w.PlacesWithin Builtin.pairlistClass d) (hid : w.pools.current ∉ ids)
    (hsturdy : w₁.Sturdy) (hstrings : Strings d w w₁ items next cells)
    (hfits : ((cons head next).perform w₁).2.Fits) :
    (∀ x w', (cons head next).perform w₁ = (.ok x, w') →
      w'.Sturdy ∧ Strings d w w' (head :: items) x (x :: cells)) ∧
      ∀ e w', (cons head next).perform w₁ = (.error e, w') →
        (∃ taken cells', taken <:+ head :: items ∧ Breaks ids w w' taken cells') ∧
          ((∀ y ∈ head :: items, w.Keeps [] y) → ∀ y, e ≠ .dangling y) := by
  have hrun := hstrings.cellRun hready hsturdy (hready.equipped.classes _ (by decide)) hpairs
    hwithin hfits
  have hsustains : w₁.Sustains ((cons head next).perform w₁).2 :=
    routine_cell_anything.composite.keeps steps_sustains w₁
  constructor
  · intro x w' hperform
    rw [cons] at hperform hsustains hfits
    rw [hperform] at hrun hsustains hfits
    exact ⟨hsustains.sturdy hfits hsturdy, hstrings.cell hready hpairs hwithin hrun⟩
  · intro e w' hperform
    rw [cons] at hperform
    rw [hperform] at hrun
    exact ⟨hstrings.breaks hready hid hrun, fun hkept => ne_dangling_of_cellRun hstrings hready
      hkept hrun⟩

/-- The cells of a list are made, or the list is given up. -/
theorem strings_foldrM (hready : w.Ready) (hsturdy : w.Sturdy) (hpairs : d.Pairs)
    (hwithin : w.PlacesWithin Builtin.pairlistClass d) (hid : w.pools.current ∉ ids)
    (hfits : ((items.foldrM cons Builtin.null).perform w).2.Fits) :
    (∃ l w', (items.foldrM cons Builtin.null).perform w = (.ok l, w') ∧
      w'.Sturdy ∧ ∃ cells, Strings d w w' items l cells) ∨
      ∃ e w', (items.foldrM cons Builtin.null).perform w = (.error e, w') ∧
        ∃ taken cells, taken <:+ items ∧ Breaks ids w w' taken cells ∧
          ((∀ y ∈ items, w.Keeps [] y) → ∀ y, e ≠ .dangling y) := by
  have houtcome := foldrM_outcome
    (I := fun items l w' => w'.Sturdy ∧ ∃ cells, Strings d w w' items l cells)
    (E := fun e rest w' => (∃ taken cells, taken <:+ rest ∧ Breaks ids w w' taken cells) ∧
      ((∀ y ∈ rest, w.Keeps [] y) → ∀ y, e ≠ .dangling y))
    (fun _ _ => advances_cell) ⟨hsturdy, [], .start hready⟩
    (fun head rest next w₁ hrest hfits => by
      obtain ⟨hsturdy₁, cells, hstrings⟩ := hrest
      obtain ⟨hok, herror⟩ :=
        strings_cell hready hpairs hwithin hid hsturdy₁ hstrings hfits
      refine ⟨fun x w' hperform => ?_, herror⟩
      obtain ⟨hsturdy', hstrings'⟩ := hok x w' hperform
      exact ⟨hsturdy', _, hstrings'⟩) hfits
  rcases houtcome with
    hok | ⟨e, w', rest, hperform, hsuffix, ⟨taken, cells, htaken, hbreaks⟩, hne⟩
  · exact Or.inl hok
  · exact Or.inr ⟨e, w', hperform, taken, cells, htaken.trans hsuffix, hbreaks,
      fun hkept => hne fun y hy => hkept y (hsuffix.subset hy)⟩

end Action

namespace World

variable {w w' w₁ opened saved : World} {P Q : Handle → Prop} {taken items cells : List Handle}
  {ids : List PoolId} {id : PoolId} {d : Class} {l x y : Handle} {o : Object} {own : Ownership}

/-- What a pool answers for, a scope that is open answers for. -/
theorem Coherent.mem_scopeIds (hcoherent : w.Coherent) (hx : w.objects.get? x = some o)
    (hown : o.header.ownership = .pool id) : id ∈ w.pools.scopeIds := by
  obtain ⟨hmem, hid⟩ := hcoherent.registered.mem_of_pool hx hown
  obtain ⟨p, hp, hpid, _⟩ := (PoolStack.mem_entries_scope hid).1 hmem
  exact PoolStack.mem_scopeIds.2 ⟨p, hp, hpid⟩

/-- With scopes that were opened later go new cells, and what is lost with the list. -/
theorem Builds.lost_of_falls (hbuilds : Builds w w₁ P taken cells) (hcoherent : w.Coherent)
    (hcoherent₁ : w₁.Coherent) (hequipped₁ : w₁.Equipped)
    (hfalls : w₁.objects.Falls (w₁.pools.listedBeside w.pools.scopeIds) x) :
    x ∈ cells ∨ w.objects.Lost taken x := by
  induction hfalls with
  | @listed x o hlisted ho hpinned =>
      obtain ⟨o', id', ho', hown, hout⟩ := (Action.mem_listedBeside_iff hcoherent₁).1 hlisted
      cases ho.symm.trans ho'
      refine (hbuilds.back x o ho).imp_right ?_
      rintro ⟨p, hp, rfl⟩
      obtain ⟨_, hpool⟩ := Ownership.iterate_claimed_eq_pool_iff.1 hown
      exact absurd (hcoherent.mem_scopeIds hp hpool) hout
  | @held x y o p _ ho hy hp hpinned hsingle ih =>
      have hne : y ≠ Builtin.null := by
        rintro rfl
        obtain ⟨q, hq, hnull⟩ := hequipped₁.null
        cases hp.symm.trans hq
        cases hpinned.symm.trans hnull
      refine or_iff_not_imp_left.2 fun hcell => ?_
      obtain ⟨q, hq, rfl⟩ := (hbuilds.back y p hp).resolve_left hcell
      rcases Ownership.iterate_claimed_eq_single_iff.1 hsingle with
        ⟨hcount, hown⟩ | ⟨hcount, id', hown⟩
      · have htaken : y ∉ taken := List.count_eq_zero.1 hcount
        -- The holder is a cell, or it is lost itself.
        by_cases hx : x ∈ cells
        · exact absurd (hbuilds.refs x hx o ho y hy) (by simp [htaken, hcell, hne])
        · obtain ⟨o', ho', rfl⟩ := (hbuilds.back x o ho).resolve_left hx
          exact .held (ih.resolve_left hx) ho' hy hq hown htaken
      · exact .moved hq hown hcount

/-- The closing of a scope takes nothing away that has the property. -/
theorem Builds.close (hbuilds : Builds w w₁ P taken cells) (hroots : w'.roots = w₁.roots)
    {pending : List Handle} (hget : ∀ y p, w'.objects.get? y = some p ↔
      w₁.objects.get? y = some p ∧ ¬ w₁.objects.Falls pending y)
    (hstays : ∀ x, Q x → P x ∧ ¬ w₁.objects.Falls pending x) : Builds w w' Q taken cells where
  roots_eq := hroots.trans hbuilds.roots_eq
  stays x o ho hx := (hget x _).2 ⟨hbuilds.stays x o ho (hstays x hx).1, (hstays x hx).2⟩
  back x o ho := hbuilds.back x o ((hget x o).1 ho).1
  refs c hc o ho := hbuilds.refs c hc o ((hget c o).1 ho).1
  new c hc hx := hbuilds.new c hc (hstays c hx).1

/-- Nothing goes with scopes that were opened later if they answer for no cell. -/
theorem Builds.not_falls (hbuilds : Builds w w₁ P taken cells) (hcoherent : w.Coherent)
    (hcoherent₁ : w₁.Coherent)
    (hcells : ∀ c ∈ cells, ∀ o, w₁.objects.get? c = some o →
      ∀ id, o.header.ownership = .pool id → id ∈ w.pools.scopeIds) :
    ¬ w₁.objects.Falls (w₁.pools.listedBeside w.pools.scopeIds) x := by
  have hnone : w₁.pools.listedBeside w.pools.scopeIds = [] := by
    refine List.eq_nil_iff_forall_not_mem.2 fun y hlisted => ?_
    obtain ⟨o, id, ho, hown, hout⟩ := (Action.mem_listedBeside_iff hcoherent₁).1 hlisted
    rcases hbuilds.back y o ho with hy | ⟨p, hp, rfl⟩
    · exact hout (hcells y hy o ho id hown)
    · exact hout (hcoherent.mem_scopeIds hp (Ownership.iterate_claimed_eq_pool_iff.1 hown).2)
  rw [hnone]
  exact Arena.not_falls_nil

/-- What happens to the owners of the cells does not matter to the rest. -/
theorem Builds.save (hbuilds : Builds w w₁ P taken cells) (hroots : w'.roots = w₁.roots)
    (hother : ∀ x, x ∉ cells → w'.objects.get? x = w₁.objects.get? x)
    (hcells : ∀ c ∈ cells, ∀ o, w'.objects.get? c = some o →
      ∃ p, w₁.objects.get? c = some p ∧ p.ownedRefs = o.ownedRefs) :
    Builds w w' P taken cells where
  roots_eq := hroots.trans hbuilds.roots_eq
  stays x o ho hx := (hother x fun hmem => hbuilds.new x hmem hx).trans (hbuilds.stays x o ho hx)
  back x o ho := by
    by_cases hx : x ∈ cells
    · exact Or.inl hx
    · exact hbuilds.back x o (hother x hx ▸ ho)
  refs c hc o ho y hy := by
    obtain ⟨p, hp, hrefs⟩ := hcells c hc o ho
    exact hbuilds.refs c hc p hp y (hrefs ▸ hy)
  new := hbuilds.new

/-- The first cell gets another owner. -/
theorem Chain.save {own' : Ownership} (hchain : Chain d w own l items cells)
    (hother : ∀ x, x ≠ l → w'.objects.get? x = w.objects.get? x)
    (hself : ∀ o, l ∈ cells → w.objects.get? l = some o →
      w'.objects.get? l = some (o.setOwnership own')) : Chain d w' own' l items cells where
  strung := hchain.strung.carry fun x hx o ho => by
    by_cases heq : x = l
    · subst heq
      exact ⟨own', hself o hx ho⟩
    · exact ⟨o.header.ownership, by rw [hother x heq, ho]; rfl⟩
  nodup := hchain.nodup
  owned x hx o ho := by
    by_cases heq : x = l
    · subst heq
      obtain ⟨p, hp⟩ := hchain.strung.live hx
      cases (hself p hx hp).symm.trans ho
      exact (if_pos rfl).symm
    · rw [hother x heq] at ho
      rw [if_neg heq, hchain.owned x hx o ho, if_neg heq]

/-- What is left when a list has been given up and its scope is closed. -/
structure Abandons (w w' : World) (taken cells : List Handle) : Prop where
  resumes : w.Resumes w'
  builds : Builds w w' (fun x => w.Safe taken x ∧ ¬ w.objects.Lost taken x) taken cells
  gone : (∀ y ∈ taken, w.Keeps [] y) → ∀ x, w.objects.Lost taken x → ¬ w'.objects.Live x

/-- Only the owner of the first cell changes when a list is saved from what goes. -/
theorem Strings.other_saved (hstrings : Strings d opened w₁ items l cells) (hready₁ : w₁.Ready)
    (hsaves : Action.Saves w₁ saved id (.ok l)) (hx : x ∉ cells) :
    saved.objects.get? x = w₁.objects.get? x := by
  by_cases heq : x = l
  · have hnull : l = Builtin.null := hstrings.front.resolve_left (heq ▸ hx)
    rcases hsaves.objects with hsame | ⟨y, o, _, hy, ho, _, hcases⟩
    · rw [hsame]
    · cases hy
      have hshared := hready₁.null_shared (hnull ▸ ho)
      rcases hcases with ⟨hpool, _⟩ | ⟨hsingle, _⟩
      · cases hshared.symm.trans hpool
      · cases hshared.symm.trans hsingle
  · exact hsaves.other heq

/-- With the scopes of a list that has been given up goes all that is lost with it, if what it
has taken over was kept. -/
theorem Breaks.falls_of_lost (hbreaks : Breaks ids w w₁ taken cells)
    (hkept : ∀ y ∈ taken, w.Keeps [] y) (hlost : w.objects.Lost taken x) :
    w₁.objects.Falls (w₁.pools.listedBeside ids) x := by
  have hlinked := hbreaks.resumes.evolves.coherent.linked
  have hstays : ∀ {y o}, w.Keeps [] y → w.objects.get? y = some o →
      w₁.objects.get? y = some (o.claimed (taken.count y)) := fun hy ho =>
    hbreaks.builds.stays _ _ ho ⟨hy, Or.inl hkept⟩
  induction hlost with
  | @moved x o _ hx hown honce =>
      have hmem := List.count_pos_iff.1 (honce ▸ Nat.one_pos)
      obtain ⟨z, q, hfalls, hz, href⟩ := hbreaks.doomed hkept x hmem
      have hx₁ := hstays (hkept x hmem) hx
      have hsingle : (o.claimed (taken.count x)).header.ownership = .single :=
        Ownership.iterate_claimed_eq_single_iff.2 (Or.inr ⟨honce, _, hown⟩)
      exact hfalls.held hz href hx₁ (hlinked.unpinned hx₁ (by simp [hsingle])) hsingle
  | @held x y o p hlost hx hy hp hsingle hnot ih =>
      have hkeeps := keeps_of_lost hlost hkept
      have hx₁ := hstays hkeeps hx
      have hy₁ := hstays (hkeeps.ref hx (List.mem_cons_of_mem _ hy) ⟨p, hp⟩) hp
      rw [List.count_eq_zero.2 hnot] at hy₁
      exact ih.held hx₁ hy hy₁ (hlinked.unpinned hy₁ (by simp [hsingle])) hsingle

section Scope

variable (hopens : Opens w opened id)
include hopens

/-- The scope can be closed when its work is done. -/
theorem Opens.close (hresumes : opened.Resumes w₁) (result : Except Error Handle) :
    ∃ saved w', Action.Saves w₁ saved id result ∧
      (Action.saveResult id result).perform w₁ = (.ok (), saved) ∧
      (Action.closeScope id result).perform w₁ = (result, w') ∧ w.Resumes w' ∧
      w'.roots = saved.roots ∧
      ∀ y p, w'.objects.get? y = some p ↔ saved.objects.get? y = some p ∧
        ¬ saved.objects.Falls (saved.pools.listedBeside w.pools.scopeIds) y := by
  have hscopes := hresumes.scopes_eq.trans hopens.scopes_eq
  obtain ⟨saved, w', hsaves, hsave, hclose, hevolves, hkept, hroots', hget⟩ :=
    Action.closeScope_frees hresumes.evolves.coherent hscopes hopens.new hopens.ne_collector result
  have htidy := (Action.advances_closeScope id result w₁).tidy hresumes.tidy
  rw [hclose] at htidy
  refine ⟨saved, w', hsaves, hsave, hclose, ⟨?_, htidy, hkept⟩, hroots', hget⟩
  exact hopens.evolves.trans (hresumes.evolves.trans (hsaves.evolves.trans hevolves))

variable (hobjects : opened.objects = w.objects)
include hobjects

theorem Opens.safe (hsafe : w.Safe taken x) : opened.Safe taken x := by
  refine ⟨hopens.spares x hsafe.1,
    hsafe.2.imp (fun hkept y hy => hopens.spares y (hkept y hy)) fun hnot => ?_⟩
  rwa [hobjects]

variable (hcoherent : w.Coherent) (hroots : opened.roots = w.roots)
include hcoherent hroots

/-- The scope of a list that has been given up is closed. -/
theorem Breaks.close (hbreaks : Breaks w.pools.scopeIds opened w₁ taken cells) (e : Error) :
    ∃ w', (Action.closeScope id (.error e)).perform w₁ = (.error e, w') ∧
      Abandons w w' taken cells := by
  obtain ⟨saved, w', _, hsave, hclose, hresumes, hroots', hget⟩ :=
    hopens.close hbreaks.resumes (.error e)
  cases hsave
  have hready₁ := hopens.ready.resume hbreaks.resumes
  have hbuilds : Builds w w₁ (w.Safe taken) taken cells :=
    (hbreaks.builds.of_eq hobjects hroots).mono fun _ hx => hopens.safe hobjects hx
  refine ⟨w', hclose, hresumes, hbuilds.close hroots' hget fun x ⟨hsafe, hlost⟩ => ?_, ?_⟩
  · refine ⟨hsafe, fun hfalls => ?_⟩
    exact (hbuilds.lost_of_falls hcoherent hready₁.coherent hready₁.equipped hfalls).elim
      (fun hx => hbuilds.new x hx hsafe) hlost
  · rintro hkept x hlost ⟨p, hp⟩
    refine ((hget x p).1 hp).2 ?_
    exact hbreaks.falls_of_lost (fun y hy => hopens.spares y (hkept y hy)) (hobjects ▸ hlost)

/-- A list that has been given up in a scope is given up with the scope around it too. -/
theorem Abandons.close (habandons : Abandons opened w₁ taken cells) (e : Error) :
    ∃ w', (Action.closeScope id (.error e)).perform w₁ = (.error e, w') ∧
      Abandons w w' taken cells := by
  obtain ⟨saved, w', _, hsave, hclose, hresumes, hroots', hget⟩ :=
    hopens.close habandons.resumes (.error e)
  cases hsave
  have hready₁ := hopens.ready.resume habandons.resumes
  have hbuilds : Builds w w₁ (fun x => w.Safe taken x ∧ ¬ w.objects.Lost taken x) taken cells :=
    (habandons.builds.of_eq hobjects hroots).mono fun x ⟨hx, hlost⟩ =>
      ⟨hopens.safe hobjects hx, hobjects ▸ hlost⟩
  refine ⟨w', hclose, hresumes, hbuilds.close hroots' hget fun x hx => ⟨hx, fun hfalls => ?_⟩, ?_⟩
  · exact (hbuilds.lost_of_falls hcoherent hready₁.coherent hready₁.equipped hfalls).elim
      (fun hmem => hbuilds.new x hmem hx) hx.2
  · rintro hkept x hlost ⟨p, hp⟩
    exact habandons.gone (fun y hy => hopens.spares y (hkept y hy)) x (hobjects ▸ hlost)
      ⟨p, ((hget x p).1 hp).1⟩

/-- The list is handed to the pool around its scope. -/
theorem Strings.close (hstrings : Strings d opened w₁ items l cells)
    (hcurrent : opened.pools.current = id) :
    ∃ w', (Action.closeScope id (.ok l)).perform w₁ = (.ok l, w') ∧
      Strings d w w' items l cells := by
  obtain ⟨saved, w', hsaves, hsave, hclose, hresumes, hroots', hget⟩ :=
    hopens.close hstrings.resumes (.ok l)
  have hready₁ := hopens.ready.resume hstrings.resumes
  have hcoherent' := hsaves.evolves.coherent
  have hsaved : saved.roots = w₁.roots := by
    have hmoves := Action.moves_saveResult id (.ok l) w₁
    rw [hsave] at hmoves
    exact hmoves.roots_eq
  have hbuilds : Builds w saved (w.Safe items) items cells :=
    ((hstrings.builds.of_eq hobjects hroots).mono fun _ hx => hopens.safe hobjects hx).save
      hsaved (fun _ hx => hstrings.other_saved hready₁ hsaves hx) fun c _ o ho =>
        hsaves.ownedRefs_eq ho
  have hchain : (∀ y ∈ items, w.Keeps [] y) →
      Chain d saved (.ofPool w.pools.current) l items cells := by
    intro hkept
    have hchain₁ := hstrings.pooled hopens.ready fun y hy => hopens.spares y (hkept y hy)
    rw [hcurrent] at hchain₁
    refine hchain₁.save (fun x hne => hsaves.other hne) fun o hl ho => ?_
    have hown := (hchain₁.owned l hl o ho).trans (if_pos rfl)
    rw [hsaves.handed ho hown, PoolStack.enclosing_eq
      (hstrings.resumes.scopes_eq.trans hopens.scopes_eq) hopens.new, ← PoolStack.current_eq]
  have hnone : (∀ y ∈ items, w.Keeps [] y) → ∀ x,
      ¬ saved.objects.Falls (saved.pools.listedBeside w.pools.scopeIds) x := by
    refine fun hkept x => hbuilds.not_falls hcoherent hcoherent' fun c hc o ho id' hown => ?_
    rw [(hchain hkept).owned c hc o ho] at hown
    split at hown
    · rw [PoolStack.current_eq] at hown
      exact Ownership.mem_of_ofPool_getLast? hown
    · cases hown
  refine ⟨w', hclose, hresumes, hbuilds.close hroots' hget fun x hsafe => ⟨hsafe, ?_⟩,
    hstrings.front, fun hkept => (hchain hkept).carry fun x hx => ?_⟩
  · rcases hsafe.2 with hkept | hnot
    · exact hnone hkept x
    · intro hfalls
      exact (hbuilds.lost_of_falls hcoherent hcoherent'
        (hready₁.equipped.evolve hsaves.evolves) hfalls).elim (fun hx => hbuilds.new x hx hsafe)
          fun hlost => hnot (Arena.under_of_lost hlost)
  · obtain ⟨o, ho⟩ := (hchain hkept).strung.live hx
    rw [ho]
    exact (hget x o).2 ⟨ho, hnone hkept x⟩

end Scope

end World

namespace Action

open World

variable {w : World} {d : Class} {items : List Handle}

/-- The scope in which something is built. -/
theorem opens_scope {body : Action Handle} (hroutine : Routine .anything body)
    (hcoherent : w.Coherent) (htidy : w.Tidy) (hequipped : w.Equipped) (hsturdy : w.Sturdy)
    (hfits : ((scope body).perform w).2.Fits) :
    Opens w (openScope.perform w).2 w.pools.push.1 ∧ (openScope.perform w).2.Sturdy ∧
      (body.perform (openScope.perform w).2).2.Fits := by
  have hfits₁ : (body.perform (openScope.perform w).2).2.Fits := by
    rw [perform_scope (Prod.mk.eta (p := body.perform (openScope.perform w).2)).symm] at hfits
    exact (advances_closeScope _ _ _).fits hfits
  have hfits₀ := (hroutine.advances (openScope.perform w).2).fits hfits₁
  have hsustains : w.Sustains (openScope.perform w).2 := steps_sustains.push w
  exact ⟨opens_openScope hcoherent htidy hequipped hfits₀, hsustains.sturdy hfits₀ hsturdy, hfits₁⟩

/-- A list is made and handed to the pool around, or it is given up. -/
theorem newList_outcome (hcoherent : w.Coherent) (htidy : w.Tidy) (hequipped : w.Equipped)
    (hsturdy : w.Sturdy) (hpairs : d.Pairs) (hwithin : w.PlacesWithin Builtin.pairlistClass d)
    (hfits : ((newList items).perform w).2.Fits) :
    (∃ l w' cells, (newList items).perform w = (.ok l, w') ∧ Strings d w w' items l cells) ∨
      ∃ e w' taken cells, (newList items).perform w = (.error e, w') ∧ taken <:+ items ∧
        Abandons w w' taken cells ∧
          ((∀ y ∈ items, w.Keeps [] y) → ∀ y, e ≠ .dangling y) := by
  obtain ⟨hopens, hsturdy₀, hfits₁⟩ :=
    opens_scope (routine_cells items) hcoherent htidy hequipped hsturdy hfits
  rcases strings_foldrM hopens.ready hsturdy₀ hpairs (hwithin.evolve hopens.evolves) hopens.new
      hfits₁ with
    ⟨l, w₁, hbuilt, _, cells, hstrings⟩ | ⟨e, w₁, hbuilt, taken, cells, hsuffix, hbreaks, hne⟩
  · obtain ⟨w', hclose, hstrings'⟩ := hstrings.close hopens rfl hcoherent rfl rfl
    exact Or.inl ⟨l, w', cells, (perform_scope hbuilt).trans hclose, hstrings'⟩
  · obtain ⟨w', hclose, habandons⟩ := hbreaks.close hopens rfl hcoherent rfl e
    exact Or.inr ⟨e, w', taken, cells, (perform_scope hbuilt).trans hclose, hsuffix, habandons,
      fun hkept => hne fun y hy => hopens.spares y (hkept y hy)⟩

end Action

end ObjectSystem

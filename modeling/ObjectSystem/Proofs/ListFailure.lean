/-
# Lists that fail

A list or a call that cannot be made to the end is given up. Its cells are gone afterwards,
and the scopes are open that were open before. What was kept before is there as it was, except
that the last items have been taken over one by one before the failure, each as often as it
stands among them. A pool that gives an item up does not get it back. The item is lost then with
the cell that has it, if no other slot holds it, and with it what it alone answers for.
-/

import ObjectSystem.Proofs.Handover
import ObjectSystem.Proofs.Soundness

namespace ObjectSystem

/-- Two attributes of a class do not share a place. -/
theorem Class.WellLaid.pairs {d : Class} (hwell : d.WellLaid) : d.Pairs := by
  intro place hhead hnext
  obtain ⟨hpos, hle⟩ := hwell.place_mem _ place hhead
  obtain ⟨s, _, hunique⟩ := hwell.place_unique place.toNat hpos hle
  have hsame := (hunique Symbol.head ⟨place, hhead, rfl⟩).trans
    (hunique Symbol.next ⟨place, hnext, rfl⟩).symm
  revert hsame
  decide

theorem Class.Laid.pairs {d : Class} (hlaid : d.Laid) : d.Pairs := by
  obtain ⟨_, _, hlaid⟩ := hlaid
  exact hlaid.wellLaid.pairs

namespace World

variable {w w' : World} {c : Handle} {d : Class} {taken cells items parts : List Handle}

theorem Describes.placesWithin (hd : w.Describes c d) : w.PlacesWithin c d := by
  obtain ⟨o, ho, hpinned, hpayload⟩ := hd
  refine ⟨o, ho, hpinned, fun d' hd' s place => ?_⟩
  cases hpayload.symm.trans hd'
  exact id

/-- What an operation leaves that was to make a list and has taken over the last of its items
when it failed. -/
structure GivesUp (w w' : World) (taken : List Handle) : Prop where
  scopes_eq : w'.pools.scopeIds = w.pools.scopeIds
  roots_eq : w'.roots = w.roots
  /-- What is kept and not lost gets no other owner than the slots that have taken it over. -/
  stays : ∀ x o, w.objects.get? x = some o → w.Safe taken x → ¬ w.objects.Lost taken x →
    w'.objects.get? x = some (o.claimed (taken.count x))
  /-- What has not been taken over is found in the pools as before. -/
  registered : ∀ x, w.Safe taken x → ¬ w.objects.Lost taken x → x ∉ taken →
    ∀ id, w'.pools.entries.count (id, x) = w.pools.entries.count (id, x)
  /-- If all that was taken over was kept, all that is lost is gone. -/
  gone : (∀ y ∈ taken, w.Keeps [] y) → ∀ x, w.objects.Lost taken x → ¬ w'.objects.Live x

theorem Abandons.givesUp (habandons : Abandons w w' taken cells) (hcoherent : w.Coherent) :
    GivesUp w w' taken where
  scopes_eq := habandons.resumes.scopes_eq
  roots_eq := habandons.builds.roots_eq
  stays x o ho hsafe hlost := habandons.builds.stays x o ho ⟨hsafe, hlost⟩
  registered x hsafe hlost hx id := by
    obtain ⟨o, ho⟩ := hsafe.1.live
    have ho' := habandons.builds.stays x o ho ⟨hsafe, hlost⟩
    rw [List.count_eq_zero.2 hx] at ho'
    rw [habandons.resumes.evolves.coherent.count_entries ho', hcoherent.count_entries ho]
    rfl
  gone := habandons.gone

end World

namespace Action

open World

variable {w : World} {d d' : Class} {parts : List Handle} {e : Error}

/-- In its scope a call is put together. If that fails, the list of its arguments has been given
up, or the whole call is. -/
theorem call_outcome {ids : List PoolId} {function : Handle} {args : List Handle}
    (hready : w.Ready) (hsturdy : w.Sturdy) (hpairs : d.Pairs)
    (hwithin : w.PlacesWithin Builtin.pairlistClass d) (hpairs' : d'.Pairs)
    (hwithin' : w.PlacesWithin Builtin.languageClass d') (hid : w.pools.current ∉ ids)
    (hfits : ((newList args >>= consCall function).perform w).2.Fits) :
    (∃ l w', (newList args >>= consCall function).perform w = (.ok l, w') ∧ w.Resumes w') ∨
      ∃ e w' taken cells, (newList args >>= consCall function).perform w = (.error e, w') ∧
        taken <:+ function :: args ∧
        (Abandons w w' taken cells ∨ Breaks ids w w' taken cells) := by
  have hcell : ∀ rest, (consCall function rest).Keeps World.Advances := fun _ => advances_cell
  have hfits₁ := fits_of_bind hcell hfits
  have hsustains : w.Sustains ((newList args).perform w).2 :=
    (routine_newList Policy.standard_anything args).composite.keeps steps_sustains w
  rcases newList_outcome hready.coherent hready.tidy hready.equipped hsturdy hpairs hwithin
      hfits₁ with
    ⟨rest, w₁, cells, hlist, hstrings⟩ | ⟨e, w₁, taken, cells, hlist, hsuffix, habandons, _⟩
  · rw [hlist] at hfits₁ hsustains
    rw [perform_bind_ok hlist] at hfits ⊢
    have hrun := hstrings.cellRun hready (hsustains.sturdy hfits₁ hsturdy)
      (hready.equipped.classes _ (by decide)) hpairs' hwithin' hfits
    have hresumes := hrun.resumes (hready.resume hstrings.resumes)
    cases hperform : (consCall function rest).perform w₁ with
    | mk result w₂ =>
        rw [← consCall, hperform] at hrun hresumes
        cases result with
        | ok l => exact Or.inl ⟨l, w₂, rfl, hstrings.resumes.trans hresumes⟩
        | error e =>
            obtain ⟨taken, cells', hsuffix, hbreaks⟩ := hstrings.breaks hready hid hrun
            exact Or.inr ⟨e, w₂, taken, cells', rfl, hsuffix, Or.inr hbreaks⟩
  · exact Or.inr ⟨e, w₁, taken, cells, perform_bind_error hlist,
      hsuffix.trans (List.suffix_cons _ _), Or.inl habandons⟩

/-- A call that fails is given up like a list. -/
theorem newCall_abandons (hcoherent : w.Coherent) (htidy : w.Tidy) (hequipped : w.Equipped)
    (hsturdy : w.Sturdy) (hpairs : d.Pairs) (hwithin : w.PlacesWithin Builtin.pairlistClass d)
    (hpairs' : d'.Pairs) (hwithin' : w.PlacesWithin Builtin.languageClass d')
    (hfails : ((newCall parts).perform w).1 = .error e)
    (hfits : ((newCall parts).perform w).2.Fits) :
    ∃ taken cells, taken <:+ parts ∧ Abandons w ((newCall parts).perform w).2 taken cells := by
  cases parts with
  | nil =>
      refine ⟨[], [], List.suffix_rfl, ⟨.refl hcoherent, htidy, rfl⟩, .start w _,
        fun _ x hlost => ?_⟩
      exact absurd hlost Arena.not_lost_nil
  | cons function args =>
      have hroutine : Routine .anything (newList args >>= consCall function) :=
        .bind (routine_newList Policy.standard_anything args) fun _ => routine_cell_anything
      obtain ⟨hopens, hsturdy₀, hfits₁⟩ :=
        opens_scope hroutine hcoherent htidy hequipped hsturdy hfits
      rcases call_outcome hopens.ready hsturdy₀ hpairs (hwithin.evolve hopens.evolves) hpairs'
          (hwithin'.evolve hopens.evolves) hopens.new hfits₁ with
        ⟨l, w₁, hbody, hresumes⟩ | ⟨e', w₁, taken, cells, hbody, hsuffix, hgiven⟩
      · obtain ⟨_, _, _, _, hclose, _⟩ := hopens.close hresumes (.ok l)
        cases hfails.symm.trans (congrArg Prod.fst ((perform_scope hbody).trans hclose))
      · obtain ⟨w', hclose, habandons⟩ :
            ∃ w', (closeScope w.pools.push.1 (.error e')).perform w₁ = (.error e', w') ∧
              Abandons w w' taken cells := by
          rcases hgiven with habandons | hbreaks
          · exact habandons.close hopens rfl hcoherent rfl e'
          · exact hbreaks.close hopens rfl hcoherent rfl e'
        refine ⟨taken, cells, hsuffix, ?_⟩
        rw [show (newCall (function :: args)).perform w = (.error e', w') from
          (perform_scope hbody).trans hclose]
        exact habandons

end Action

namespace World.Respectful

variable {settings : Settings} {w : World} {items : List Handle} {e : Error}

/-- If a list or a call cannot be made of its items, it is given up when the last ones of
them, if any, have been taken over. -/
theorem list_givesUp (hrespectful : Respectful settings w) (op : Operation Handle)
    (hop : op = .newList items ∨ op = .newCall items) (hfails : (op.perform w).1 = .error e)
    (hfits : (op.perform w).2.Fits) :
    ∃ taken, taken <:+ items ∧ GivesUp w (op.perform w).2 taken := by
  have hfits₀ : w.Fits := (op.spends w).fits hfits
  obtain ⟨hcoherent, hequipped⟩ := hrespectful.coherent hfits₀
  have htidy := hrespectful.tidy
  have hsturdy := hrespectful.reachable.sturdy hfits₀
  obtain ⟨a, hclassed, _⟩ := hrespectful.exists_classed
  have hordered := (hclassed.tallies hfits₀.cells_le).ordered
  obtain ⟨d, hd⟩ := hordered.described _ (hequipped.classes Builtin.pairlistClass (by decide))
  obtain ⟨d', hd'⟩ := hordered.described _ (hequipped.classes Builtin.languageClass (by decide))
  obtain ⟨taken, cells, hsuffix, habandons⟩ :
      ∃ taken cells, taken <:+ items ∧ Abandons w (op.perform w).2 taken cells := by
    rcases hop with rfl | rfl
    · rcases Action.newList_outcome hcoherent htidy hequipped hsturdy hd.laid.pairs
          hd.describes.placesWithin hfits with
        ⟨l, w', cells, hlist, _⟩ | ⟨e', w', taken, cells, hlist, hsuffix, habandons, _⟩
      · cases hfails.symm.trans (congrArg Prod.fst hlist)
      · rw [show (Operation.newList items).perform w = (.error e', w') from hlist]
        exact ⟨taken, cells, hsuffix, habandons⟩
    · exact Action.newCall_abandons hcoherent htidy hequipped hsturdy hd.laid.pairs
        hd.describes.placesWithin hd'.laid.pairs hd'.describes.placesWithin hfails hfits
  exact ⟨taken, hsuffix, habandons.givesUp hcoherent⟩

/-- A number that a scope answers for is lost with the list that takes it over before a stale
handle is found. -/
theorem list_givesUp_stale :
    let stale : Handle := ⟨99, 0⟩
    let number := Builtin.nth 25
    let w := ((Operation.realVector 1).perform (Operation.openScope.perform initial).2).2
    let w' := ((Operation.newList [stale, number]).perform w).2
    (∃ taken, taken <:+ [stale, number] ∧ GivesUp w w' taken) ∧
      w.Keeps [] number ∧ ¬ w'.objects.Live number := by
  intro stale number w w'
  have hrespectful : Respectful {} w :=
    (respectful_initial.step .openScope trivial).step (.realVector 1) trivial
  let opened := (Action.openScope.perform w).2
  let first := Operation.cell Builtin.pairlistClass number Builtin.null
  let built := (first.perform opened).2
  let second := Operation.cell Builtin.pairlistClass stale (Builtin.nth 26)
  let after := (second.perform built).2
  have hfirst : first.perform opened = (.ok (Builtin.nth 26), built) :=
    Prod.fst_eq_iff.1 (by decide +kernel)
  have hsecond : second.perform built = (.error (.dangling stale), after) :=
    Prod.fst_eq_iff.1 (by decide +kernel)
  have hbody : ([stale, number].foldrM Action.cons Builtin.null).perform opened =
      (.error (.dangling stale), after) := by
    rw [List.foldrM_cons, List.foldrM_cons, List.foldrM_nil, pure_bind]
    exact (Action.perform_bind_ok hfirst).trans hsecond
  have hclasses : Builtin.pairlistClass ∈ opened.classes ∧
      Builtin.pairlistClass ∈ built.classes := by decide +kernel
  have hrespectful' : Respectful {} after :=
    ((hrespectful.step .openScope trivial).step first hclasses.1).step second hclasses.2
  have hsizes : after.objects.cells.size ≤ 2 ^ 32 ∧ after.pools.opened < 2 ^ 32 := by
    decide +kernel
  have hfits : after.Fits := ⟨hsizes.1, hsizes.2⟩
  obtain ⟨hscopes, hnew, hid⟩ : after.pools.scopeIds = w.pools.scopeIds ++ [w.pools.push.1] ∧
      w.pools.push.1 ∉ w.pools.scopeIds ∧ w.pools.push.1 ≠ PoolId.collector := by decide +kernel
  obtain ⟨closed, hclose, hunwinds⟩ := Action.closeScope_unwinds (hrespectful'.coherent hfits).1
    hscopes hnew hid (.error (.dangling stale))
  have hlist : (Operation.newList [stale, number]).perform w = (.error (.dangling stale), closed) :=
    (Action.perform_scope hbody).trans hclose
  have hfails : ((Operation.newList [stale, number]).perform w).1 = .error (.dangling stale) :=
    congrArg Prod.fst hlist
  have hclosed : w' = closed := congrArg Prod.snd hlist
  have hcells : closed.objects.cells.size = after.objects.cells.size := by
    have htrims := Action.trims_closeScope (S := fun _ => Object.Stays) w.pools.push.1
      (.error (.dangling stale)) after
    rw [hclose] at htrims
    exact htrims.objects.cells_eq
  have hopened : w'.pools.opened < 2 ^ 32 := by decide +kernel
  have hfits' : w'.Fits := by
    refine ⟨?_, hopened⟩
    rw [hclosed, hcells]
    exact hfits.cells_le
  have hlisted : (w.objects.get? number).any (·.header.ownership == .pool ⟨1⟩) = true := by
    decide +kernel
  obtain ⟨o, ho, hown⟩ := (Option.any_eq_true _ _).1 hlisted
  have hcoherent := (hrespectful.coherent ((Operation.spends _ w).fits hfits')).1
  refine ⟨hrespectful.list_givesUp _ (Or.inl rfl) hfails hfits',
    keeps_of_pool hcoherent ho (beq_iff_eq.1 hown), ?_⟩
  rintro ⟨p, hp⟩
  -- The first cell is freed with its scope, and by then it alone holds the number.
  obtain ⟨hmem, hcell, hheld⟩ :
      (after.pools.listedBeside w.pools.scopeIds).contains (Builtin.nth 26) = true ∧
      (after.objects.get? (Builtin.nth 26)).any
        (fun q => !q.header.pinned && q.ownedRefs.contains number) = true ∧
      (after.objects.get? number).any
        (fun q => !q.header.pinned && q.header.ownership == .single) = true := by decide +kernel
  obtain ⟨cell, hcell, hcell'⟩ := (Option.any_eq_true _ _).1 hcell
  obtain ⟨held, hheld, hheld'⟩ := (Option.any_eq_true _ _).1 hheld
  simp only [Bool.and_eq_true, Bool.not_eq_true', beq_iff_eq, List.contains_iff_mem] at *
  rw [hclosed] at hp
  refine ((hunwinds.failed _ rfl number p).1 hp).2 ?_
  exact .held (.listed hmem hcell hcell'.1) hcell hcell'.2 hheld hheld'.1 hheld'.2

end World.Respectful

end ObjectSystem

/-
# What a definition does

A definition goes down through the chains for the classes of the arguments and puts in those
that are not there; at the end it adds an overload for the value. So it is a sequence of the
steps by which methods grow. A new chain is attached right after it has been allocated, so no
collection comes in between; nothing is freed, since the slots that are written were empty.
-/

import ObjectSystem.Proofs.Rewriting

namespace ObjectSystem

theorem modify_push_size {α : Type} (l : Array α) (a : α) (f : α → α) :
    (l.push a).modify l.size f = l.push (f a) := by
  refine Array.ext_getElem? fun i => ?_
  rw [Array.getElem?_modify, Array.getElem?_push, Array.getElem?_push]
  by_cases hi : i = l.size
  · simp [hi]
  · simp [hi, Ne.symm hi]

/-- The object may have another mark, and it has not been unpinned. -/
structure Object.Remarked (o o' : Object) : Prop extends Object.Stays o o' where
  payload_eq : o'.payload = o.payload

instance : Object.Leeway fun _ => Object.Remarked where
  stays h := h.toStays
  trans hfirst hsecond :=
    ⟨hfirst.toStays.trans hsecond.toStays, hsecond.payload_eq.trans hfirst.payload_eq⟩
  setHeader _ o h hpinned := ⟨o.stays_setHeader h hpinned, rfl⟩

namespace World

variable {settings : Settings} {a : Annals} {w w' w₁ w₂ : World} {c m n x y v : Handle} {s : Symbol}
  {l : Array Signature} {g : Growth} {payload : Payload}

/-- An operation that uses registered classes leaves the classes in order. -/
theorem Firm.step {α : Type} {op : Operation α} {result : Except Error α} (hfirm : w.Firm)
    (hperform : op.perform w = (result, w')) (hnames : op.NamesRegistered w)
    (hcells : w'.objects.cells.size ≤ 2 ^ 32) : w'.Firm := by
  obtain ⟨a, htallies⟩ := hfirm
  have hafter := htallies.perform op hnames
  rw [hperform] at hafter
  exact ⟨_, (hafter hcells).1⟩

theorem tidy_of_perform {α : Type} {op : Operation α} {result : Except Error α}
    (hperform : op.perform w = (result, w')) (hunmarked : op.Unmarked) (htidy : w.Tidy) :
    w'.Tidy := by
  have htidy' : (op.perform w).2.Tidy := (op.advances hunmarked w).tidy htidy
  rwa [hperform] at htidy'

/-- What is left of a world in which room has been made: objects as they were, with other marks,
all classes, and if the world was tidy, all that something leads to. -/
structure Thins (w w' : World) : Prop where
  classes_eq : w'.classes = w.classes
  inserted_eq : w'.objects.inserted = w.objects.inserted
  back : ∀ y o', w'.objects.get? y = some o' → ∃ o, w.objects.get? y = some o ∧ o.Remarked o'
  pinned : ∀ y o, w.objects.get? y = some o → o.header.pinned = true → w'.objects.Live y
  kept : w.Tidy → ∀ y, w.Keeps [] y → w'.objects.Live y
  values : w.Tidy → ∀ m l, w.signatures m = .ok l → w'.objects.Live m → ∀ sig ∈ l, ∀ y,
    sig.value = some y → w.objects.Live y → w'.objects.Live y

theorem thins_of_room (hroom : w₁ = w ∨ w₁ = (w.collect []).2) : w.Thins w₁ := by
  rcases hroom with rfl | rfl
  · exact ⟨rfl, rfl, fun y o ho => ⟨o, ho, .refl o, rfl⟩, fun y o ho _ => ⟨o, ho⟩,
      fun _ y hy => hy.live, fun _ _ _ _ _ _ _ _ _ hy => hy⟩
  · have htrims := w.trims_collect (S := fun _ => Object.Remarked) []
    have hcollect : w.Tidy → ∀ {y}, (w.collect []).2.objects.Live y ↔ w.Keeps [] y :=
      fun htidy => live_collect_iff htidy.clear htidy.addressed
    exact ⟨rfl, htrims.objects.inserted_eq, htrims.objects.back, htrims.objects.kept,
      fun htidy y => (hcollect htidy).2, fun htidy m l hl hm sig hsig y hy hlive =>
        (hcollect htidy).2 (keeps_overload ((hcollect htidy).1 hm) hl hsig hy hlive)⟩

theorem Thins.payload?_eq (hthins : w.Thins w₁) (hlive : w₁.objects.Live y) :
    w₁.payload? y = w.payload? y := by
  obtain ⟨o', ho'⟩ := hlive
  obtain ⟨o, ho, hremarked⟩ := hthins.back y o' ho'
  rw [payload?, payload?, ho, ho', Option.map_some, Option.map_some, hremarked.payload_eq]

/-- An overload can be added to a method, for any arguments or for a class. -/
def TakesOverloads (w : World) (m : Handle) (argClass : Option Handle) : Prop :=
  (∃ l, w.signatures m = .ok l) ∧ ∀ k, argClass = some k → ∃ d, w.descriptor k = .ok d

theorem spends_of_perform {α : Type} {op : Operation α} {result : Except Error α}
    (hperform : op.perform w = (result, w')) : w.Spends w' := by
  have hspends : w.Spends (op.perform w).2 := op.spends w
  rwa [hperform] at hspends

end World

namespace Class

variable {d : Class} {inst own : List Symbol} {s : Symbol}

/-- A class that gets a value at the index of a symbol has it under that symbol only. -/
theorem LaidAs.value?_set {i : Nat} (hlaid : d.LaidAs inst own) (hi : own[i]? = some s)
    (x : Handle) (t : Symbol) :
    Class.value? { d with classAttrs := d.classAttrs.setIfInBounds i (some x) } t =
      if t = s then some x else d.value? t := by
  have hsize : i < d.classAttrs.size := hlaid.classAttrs_size ▸ (List.getElem?_eq_some_iff.1 hi).1
  have hslot : ∀ values, slot { d with classAttrs := values } t = d.slot t := fun _ => rfl
  rw [value?, value?, hslot]
  by_cases ht : t = s
  · subst ht
    have hindex : d.slot t = .inClass (UInt32.ofNat i) := hlaid.lays.inClass i t hi
    rw [if_pos rfl, hindex]
    simp [UInt32.toNat_ofNat_of_lt' (hlaid.lays.lt_of_own hi), hsize]
  · rw [if_neg ht]
    cases hindex : d.slot t with
    | unmapped | inInstance => rfl
    | inClass index =>
        obtain ⟨j, hj, rfl⟩ := hlaid.lays.inClass_iff.1 hindex
        have hne : i ≠ j := by
          rintro rfl
          exact ht (Option.some.inj (hj.symm.trans hi))
        simp only [UInt32.toNat_ofNat_of_lt' (hlaid.lays.lt_of_own hj)]
        rw [Array.getElem?_setIfInBounds_ne hne]

/-- Room for one more value holds none yet. -/
theorem LaidAs.value?_addClassAttr (hlaid : d.LaidAs inst own) (hs : s.isReserved = false)
    (hfree : d.slot s = .unmapped) (t : Symbol) : (d.addClassAttr s).value? t = d.value? t := by
  have hlaid' := hlaid.addClassAttr hs hfree
  rw [value?, value?, slot_addClassAttr_eq]
  by_cases ht : t = s
  · subst ht
    have hlast : (own ++ [t])[own.length]? = some t := by simp
    rw [if_pos rfl, hfree, hlaid.classAttrs_size]
    simp only [UInt32.toNat_ofNat_of_lt' (hlaid'.lays.lt_of_own hlast)]
    simp [Class.addClassAttr, ← hlaid.classAttrs_size]
  · rw [if_neg ht]
    cases hindex : d.slot t with
    | unmapped | inInstance => rfl
    | inClass index =>
        obtain ⟨i, hi, rfl⟩ := hlaid.lays.inClass_iff.1 hindex
        have hsize : i < d.classAttrs.size :=
          hlaid.classAttrs_size ▸ (List.getElem?_eq_some_iff.1 hi).1
        simp only [UInt32.toNat_ofNat_of_lt' (hlaid.lays.lt_of_own hi), Class.addClassAttr,
          Array.getElem?_push, if_neg hsize.ne]

end Class

namespace Action

open World

variable {settings : Settings} {a : Annals} {w w' w₁ : World} {c m x v top : Handle} {s : Symbol}
  {slot : Slot} {o : Object} {l : Array Signature}

/-- What is written into an empty slot is taken over and stored, and nothing is freed. -/
theorem set_empty
    (hslot : ∀ o old, w.objects.get? slot.owner = some o → slot.peek? o = some old → old = none)
    (hset : (set slot (some v)).perform w = (.ok (), w')) :
    ∃ w₁, w.TakesOver (some v) w₁ ∧ w' = w₁.store slot (some v) := by
  rcases set_spec w slot (some v) with ⟨e, hfails, _⟩ | ⟨o, old, ho, hold, hcases⟩
  · cases hfails.symm.trans hset
  · cases hslot o old ho hold
    rcases hcases with ⟨heq, _⟩ | ⟨_, _, hexchange⟩
    · cases heq
    · obtain ⟨_, w₁, hclaim, hrest⟩ := perform_bind_eq_ok_iff.1 (hexchange.symm.trans hset)
      cases hrest
      exact ⟨w₁, takesOver_claim hclaim, rfl⟩

/-- A new chain has no overloads, and what is left otherwise is not touched. -/
theorem newMethod_redrafts (hfirm : w.Firm) (hcells : w'.objects.cells.size ≤ 2 ^ 32)
    (hnew : newMethod.perform w = (.ok x, w')) :
    w.Redrafts w' (· = x) (fun _ => id) ∧ w'.objects.inserted = w.objects.inserted + 1 := by
  have hordered := hfirm.ordered
  have hmethodClass : Builtin.methodClass ∈ w.classes := hfirm.builtin _ (by decide)
  obtain ⟨d, hd⟩ := hordered.described _ hmethodClass
  unfold newMethod allocateOf at hnew
  rw [perform_query_bind, hd.describes.descriptor_eq] at hnew
  have hcells' : (Prod.snd (α := Except Error Handle) (.ok x, w')).objects.cells.size ≤ 2 ^ 32 :=
    hcells
  rw [← hnew] at hcells'
  obtain ⟨w₁, hw₁, hallocate⟩ := admits_allocate hordered hmethodClass _ hcells'
  rcases hallocate with ⟨limit, hfails⟩ | ⟨y, own, w'', hperform, hadmits, hstale⟩
  · cases hfails.symm.trans hnew
  cases hperform.symm.trans hnew
  have hthins := thins_of_room hw₁
  have hother : ∀ {y}, y ≠ x → w'.objects.get? y = w₁.objects.get? y := hadmits.puts.other
  have hself : w'.payload? x = some (.method #[]) := by
    rw [payload?, hadmits.puts.self]
    rfl
  -- What was there and is left is another object than the new one.
  have hleft : ∀ {y}, w.objects.Live y → w₁.objects.Live y → w'.objects.get? y = w₁.objects.get? y
      ∧ w'.payload? y = w.payload? y := by
    intro y hy hy₁
    have hne : y ≠ x := by
      rintro rfl
      exact hstale hy
    exact ⟨hother hne, (congrArg (Option.map _) (hother hne)).trans (hthins.payload?_eq hy₁)⟩
  have hlive : ∀ {y}, w.objects.Live y → w₁.objects.Live y → w'.objects.Live y := by
    rintro y hy ⟨o, ho⟩
    exact ⟨o, (hleft hy ⟨o, ho⟩).1.trans ho⟩
  have hback : ∀ {y}, w.objects.Live y → w'.objects.Live y → w₁.objects.Live y := by
    rintro y hy ⟨o', ho'⟩
    have hne : y ≠ x := by
      rintro rfl
      exact hstale hy
    exact ⟨o', (hother hne).symm.trans ho'⟩
  refine ⟨?_, by rw [hadmits.inserted_eq, hthins.inserted_eq]⟩
  constructor
  case classes_eq => exact hadmits.classes_eq.trans hthins.classes_eq
  case classOf_eq =>
    intro y hy hy'
    obtain ⟨o₁, ho₁⟩ := hback hy hy'
    obtain ⟨o, ho, hremarked⟩ := hthins.back y o₁ ho₁
    rw [classOf_eq_ok ((hleft hy ⟨o₁, ho₁⟩).1.trans ho₁), classOf_eq_ok ho, hremarked.classRef_eq]
  case class_eq =>
    rintro c d ⟨o, ho, hpinned, hpayload⟩
    rw [(hleft ⟨o, ho⟩ (hthins.pinned c o ho hpinned)).2]
    exact payload?_eq_some_iff.2 ⟨o, ho, hpayload⟩
  case kept =>
    intro htidy y hy
    rw [(hleft hy.live (hthins.kept htidy y hy)).2, Option.map_id]
    rfl
  case values =>
    intro htidy m l hl hm sig hsig y hy hy₀
    have hm₀ := hback (live_of_signatures hl) hm
    exact hlive hy₀ (hthins.values htidy m l hl hm₀ sig hsig y hy hy₀)
  case back =>
    intro y payload hy
    by_cases hne : y = x
    · subst hne
      exact Or.inr ⟨rfl, Option.some.inj (hy.symm.trans hself)⟩
    · obtain ⟨o', ho', hpayload⟩ := payload?_eq_some_iff.1 hy
      have ho₁ := (hother hne).symm.trans ho'
      have hpayload₁ := hthins.payload?_eq ⟨o', ho₁⟩
      refine Or.inl ⟨payload, hpayload₁.symm.trans ?_, rfl⟩
      exact payload?_eq_some_iff.2 ⟨o', ho₁, hpayload⟩
  case new => exact fun y hy => hy ▸ hself
  case stale => exact fun y hy => hy ▸ hstale

/-- Adding an overload means to append one that leads nowhere and to write its slot. -/
theorem addSignature_cases (m : Handle) (argClass : Option Handle) (v : Handle) (w : World) :
    (∃ e, ¬ w.TakesOverloads m argClass ∧ (addSignature m argClass v).perform w = (.error e, w)) ∨
      ∃ l, w.TakesOverloads m argClass ∧ w.signatures m = .ok l ∧
        (addSignature m argClass v).perform w =
          (set (.signature m l.size) (some v)).perform (w.openOverload m argClass l.size) := by
  by_cases hclass : ∀ k, argClass = some k → ∃ d, w.descriptor k = .ok d
  · have hpush : (addSignature m argClass v).perform w = (do
        let index := (← query (·.signatures m)).size
        modify (·.openOverload m argClass index)
        set (.signature m index) (some v) : Action Unit).perform w := by
      unfold addSignature
      cases argClass with
      | none => rfl
      | some k =>
          obtain ⟨d, hd⟩ := hclass k rfl
          rw [perform_query_bind, hd]
          rfl
    rw [hpush, perform_query_bind]
    cases hl : w.signatures m with
    | error e =>
        refine Or.inl ⟨e, fun htakes => ?_, rfl⟩
        obtain ⟨⟨l, hl'⟩, _⟩ := htakes
        cases hl.symm.trans hl'
    | ok l => exact Or.inr ⟨l, ⟨⟨l, hl⟩, hclass⟩, rfl, rfl⟩
  · obtain ⟨k, rfl, hnone⟩ : ∃ k, argClass = some k ∧ ¬ ∃ d, w.descriptor k = .ok d := by
      simpa using hclass
    unfold addSignature
    rw [perform_query_bind]
    cases hk : w.descriptor k with
    | error e => exact Or.inl ⟨e, fun htakes => hclass htakes.2, rfl⟩
    | ok d => exact absurd ⟨d, hk⟩ hnone

/-- An overload is added at the end of a chain. -/
theorem addSignature_rewrites {argClass : Option Handle}
    (hadd : (addSignature m argClass v).perform w = (.ok (), w')) :
    w.Rewrites w' (appends m { argClass := argClass, value := some v }) ∧ w.objects.Live v := by
  obtain ⟨l, hl, hset⟩ : ∃ l, w.signatures m = .ok l ∧ (set (.signature m l.size)
      (some v)).perform (w.openOverload m argClass l.size) = (.ok (), w') := by
    rcases addSignature_cases m argClass v w with ⟨_, _, hfails⟩ | ⟨l, _, hl, hpush⟩
    · cases hfails.symm.trans hadd
    · exact ⟨l, hl, hpush.symm.trans hadd⟩
  have hpush := w.rewrites_openOverload m argClass l.size
  rw [signatures_eq_ok_iff] at hl
  have hl₁ : (w.openOverload m argClass l.size).payload? m =
      some (.method (l.push { argClass := argClass, value := none })) := by
    rw [hpush.payload?_eq, hl]
    simp [appends]
  obtain ⟨w₂, htakes, rfl⟩ := set_empty (fun o old ho hold => by
    obtain ⟨o', ho', hpayload⟩ := payload?_eq_some_iff.1 hl₁
    cases ho.symm.trans ho'
    simp only [Slot.peek?, hpayload, Array.getElem?_push_size, Option.map_some,
      Option.some.injEq] at hold
    exact hold.symm) hset
  have hstore : w₂.Rewrites (w₂.store (.signature m l.size) (some v)) (fills m l.size v) :=
    rewrites_modifyObject (fun o => Slot.classRef_storeIn o _ _)
      (fun o => by cases hpayload : o.payload <;> simp [Slot.storeIn, Slot.owner, hpayload, fills])
      fun hne payload => by
        rw [Slot.owner] at hne
        cases payload <;> simp [hne, fills]
  refine ⟨((hpush.trans htakes.rewrites).trans hstore).congr fun y payload hy => ?_,
    hpush.live_iff.1 htakes.live⟩
  by_cases hym : y = m
  · subst hym
    cases hl.symm.trans hy
    simp [appends, fills, modify_push_size]
  · cases payload <;> simp [appends, fills, hym]

theorem isMethod_of_addSignature {argClass : Option Handle}
    (hadd : (addSignature m argClass v).perform w = (.ok (), w')) : w.isMethod m = true := by
  rcases addSignature_cases m argClass v w with ⟨_, _, hfails⟩ | ⟨l, _, hl, _⟩
  · cases hfails.symm.trans hadd
  · exact isMethod_iff.2 ⟨l, hl⟩

/-- Writing an empty value of a class lets the class hold the new one there. -/
theorem set_classAttr_rewrites {index : Nat}
    (hempty : ∀ d old, w.descriptor c = .ok d → d.classAttrs[index]? = some old → old = none)
    (hset : (set (.classAttr c index) (some x)).perform w = (.ok (), w')) :
    w.Rewrites w' (endows c fun d =>
      { d with classAttrs := d.classAttrs.setIfInBounds index (some x) }) := by
  obtain ⟨w₂, htakes, rfl⟩ := set_empty (fun o old ho hold => by
    cases hpayload : o.payload with
    | descriptor d =>
        simp only [Slot.peek?, hpayload] at hold
        exact hempty d old
          (descriptor_eq_ok_iff.2 (payload?_eq_some_iff.2 ⟨o, ho, hpayload⟩)) hold
    | _ =>
        simp only [Slot.peek?, hpayload] at hold
        cases hold) hset
  have hstore : w₂.Rewrites (w₂.store (.classAttr c index) (some x)) (endows c fun d =>
      { d with classAttrs := d.classAttrs.setIfInBounds index (some x) }) :=
    rewrites_modifyObject (fun o => Slot.classRef_storeIn o _ _)
      (fun o => by cases hpayload : o.payload <;> simp [Slot.storeIn, Slot.owner, hpayload, endows])
      fun hne payload => by
        rw [Slot.owner] at hne
        cases payload <;> simp [hne, endows]
  exact htakes.rewrites.trans hstore

/-- A class that holds nothing under a symbol comes to hold a value there. -/
theorem defineClassAttr_rewrites {d : Class} (hd : w.Orders c d) (hnone : d.value? s = none)
    (hdefine : (defineClassAttr c s (some x)).perform w = (.ok (), w')) :
    ∃ change : Class → Class, w.Rewrites w' (endows c change) ∧
      (change d).supers = d.supers ∧ (change d).name = d.name ∧
      ∀ t, (change d).value? t = if t = s then some x else d.value? t := by
  obtain ⟨inst, own, hlaid⟩ := hd.laid
  have hdescriptor := hd.describes.descriptor_eq
  unfold defineClassAttr at hdefine
  split at hdefine
  · cases hdefine
  · next hs =>
    have hs := Bool.eq_false_iff.2 hs
    obtain ⟨index, w₁, hindex, hset⟩ := perform_bind_eq_ok_iff.1 hdefine
    rcases classAttrIndex_cases c s w with
      ⟨_, hfails⟩ | ⟨d', hd', ⟨place, hslot, hfound⟩ | ⟨hslot, hadds⟩⟩
    · cases hfails.symm.trans hindex
    · cases hdescriptor.symm.trans hd'
      cases hfound.symm.trans hindex
      obtain ⟨i, hi, rfl⟩ := hlaid.lays.inClass_iff.1 hslot
      rw [UInt32.toNat_ofNat_of_lt' (hlaid.lays.lt_of_own hi)] at hset
      refine ⟨_, set_classAttr_rewrites (fun d' old hd' hold => ?_) hset, rfl, rfl,
        hlaid.value?_set hi x⟩
      cases hdescriptor.symm.trans hd'
      simp only [Class.value?, hslot, UInt32.toNat_ofNat_of_lt' (hlaid.lays.lt_of_own hi), hold,
        Option.join_some] at hnone
      exact hnone
    · cases hdescriptor.symm.trans hd'
      cases hadds.symm.trans hindex
      have hroom := w.rewrites_openAttr c s
      have hdescriptor₁ : (w.openAttr c s).descriptor c = .ok (d.addClassAttr s) := by
        rw [descriptor_eq_ok_iff, hroom.payload?_eq, descriptor_eq_ok_iff.1 hdescriptor]
        simp [endows]
      have hstore := set_classAttr_rewrites (fun d' old hd' hold => by
        cases hdescriptor₁.symm.trans hd'
        simpa [Class.addClassAttr, eq_comm] using hold) hset
      have hi : (own ++ [s])[d.classAttrs.size]? = some s := by simp [hlaid.classAttrs_size]
      refine ⟨_, hroom.endows_trans hstore, rfl, rfl, fun t => ?_⟩
      exact ((hlaid.addClassAttr hs hslot).value?_set hi x t).trans
        (by rw [hlaid.value?_addClassAttr hs hslot])

/-! ## Going down to a place -/

/-- The chain that a class holds for a method is there, or it is a step to put it in. -/
theorem methodChain_approaches (hfirm : w.Firm) (hc : c ∈ w.classes)
    (hcells : w'.objects.cells.size ≤ 2 ^ 32)
    (hchain : (methodChain c s).perform w = (.ok m, w')) :
    w.Approaches c s [] w' m ∧ w'.Firm := by
  obtain ⟨d, hd⟩ := hfirm.ordered.described c hc
  have hdescriptor := hd.describes.descriptor_eq
  have hattr := classAttr_eq (s := s) hdescriptor
  unfold methodChain at hchain
  rw [perform_query_bind, hattr] at hchain
  cases hvalue : d.value? s with
  | some chain =>
      rw [hvalue] at hattr hchain
      cases hchain
      exact ⟨.held hattr, hfirm⟩
  | none =>
      rw [hvalue] at hattr hchain
      obtain ⟨x, w₁, hnew, hchain⟩ := perform_bind_eq_ok_iff.1 hchain
      obtain ⟨_, w₂, hdefine, hreturn⟩ := perform_bind_eq_ok_iff.1 hchain
      cases hreturn
      have hnewOp : Operation.newMethod.perform w = (.ok m, w₁) := hnew
      have hdefineOp : (Operation.defineClassAttr c s (some m)).perform w₁ = (.ok (), w') := hdefine
      have hcells₁ := (spends_of_perform hdefineOp).cells_le.trans hcells
      have hfirm₁ := hfirm.step hnewOp trivial hcells₁
      have hfirm' := hfirm₁.step hdefineOp trivial hcells
      have htidy : w.Tidy → w'.Tidy := fun htidy =>
        tidy_of_perform hdefineOp trivial (tidy_of_perform hnewOp trivial htidy)
      obtain ⟨hredrafts, hinserted⟩ := newMethod_redrafts hfirm hcells₁ hnew
      have hd₁ : w₁.Describes c d := by
        obtain ⟨d₁, hd₁⟩ := hfirm₁.ordered.described c (hredrafts.classes_eq ▸ hc)
        have hkept := hredrafts.class_eq c d hd.describes
        rw [descriptor_eq_ok_iff.1 hd₁.describes.descriptor_eq] at hkept
        cases hkept
        exact hd₁.describes
      obtain ⟨change, hrewrites, hchange⟩ :=
        defineClassAttr_rewrites (hfirm₁.ordered.orders (hredrafts.classes_eq ▸ hc) hd₁) hvalue
          hdefine
      have hgrown := hredrafts.rewrite hrewrites fun _ _ => rfl
      have hturns := (spends_of_perform hnewOp).turns.trans (spends_of_perform hdefineOp).turns
      refine ⟨.opened (hgrown.regrows (realizes_endows hattr fun d' hd' => ?_) hfirm.ordered htidy
        hfirm' hturns (hrewrites.inserted_eq.trans hinserted) fun _ _ _ h => by cases h), hfirm'⟩
      cases hdescriptor.symm.trans hd'
      exact hchange

/-- The chain for a class is there, or it is a step to put it in. -/
theorem innerChain_cases {k n : Handle} (hfirm : w.Firm) (hk : k ∈ w.classes)
    (hcells : w'.objects.cells.size ≤ 2 ^ 32)
    (hinner : (innerChain m k).perform w = (.ok n, w')) :
    w' = w ∧ (∃ l, w.signatures m = .ok l ∧ ∃ sig ∈ l, sig.argClass = some k ∧
        sig.value = some n ∧ w.isMethod n = true) ∨
      w.isMethod m = true ∧ w.Regrows w' (.nests m k n) := by
  unfold innerChain at hinner
  rw [perform_query_bind] at hinner
  cases hl : w.signatures m with
  | error e =>
      rw [hl] at hinner
      cases hinner
  | ok l =>
      rw [hl] at hinner
      simp only at hinner
      rw [perform_bind_ok (perform_get w)] at hinner
      split at hinner
      · next n' hfound =>
          cases hinner
          obtain ⟨sig, hsig, hfilter⟩ := List.exists_of_findSome?_eq_some hfound
          split at hfilter
          · next hclass =>
              obtain ⟨hvalue, hn⟩ := Option.filter_eq_some_iff.1 hfilter
              exact Or.inl ⟨rfl, l, rfl, sig, Array.mem_toList_iff.1 hsig, hclass, hvalue, hn⟩
          · cases hfilter
      · obtain ⟨x, w₁, hnew, hinner⟩ := perform_bind_eq_ok_iff.1 hinner
        obtain ⟨_, w₂, hadd, hreturn⟩ := perform_bind_eq_ok_iff.1 hinner
        cases hreturn
        have hnewOp : Operation.newMethod.perform w = (.ok n, w₁) := hnew
        have haddOp : (Operation.addSignature m (some k) n).perform w₁ = (.ok (), w') := hadd
        have hcells₁ := (spends_of_perform haddOp).cells_le.trans hcells
        have hfirm₁ := hfirm.step hnewOp trivial hcells₁
        obtain ⟨hredrafts, hinserted⟩ := newMethod_redrafts hfirm hcells₁ hnew
        have hfirm' := hfirm₁.step haddOp (fun k' hk' => by
          cases hk'
          rwa [hredrafts.classes_eq]) hcells
        have htidy : w.Tidy → w'.Tidy := fun htidy =>
          tidy_of_perform haddOp trivial (tidy_of_perform hnewOp trivial htidy)
        obtain ⟨hrewrites, _⟩ := addSignature_rewrites hadd
        have hm : w.objects.Live m := live_of_signatures hl
        have hgrown := hredrafts.rewrite hrewrites fun y hy => by
          have hne : y ≠ m := by
            rintro rfl
            exact hredrafts.stale y hy hm
          simp [appends, hne]
        have hturns := (spends_of_perform hnewOp).turns.trans (spends_of_perform haddOp).turns
        exact Or.inr ⟨isMethod_iff.2 ⟨l, hl⟩,
          hgrown.regrows (realizes_appends (fun _ => rfl) (fun _ _ _ => id) w) hfirm.ordered htidy
            hfirm' hturns (hrewrites.inserted_eq.trans hinserted) (fun _ _ _ h => by cases h)⟩

/-- Adding an overload for a value is a step by which methods grow. -/
theorem addSignature_regrows {argClass : Option Handle} (hfirm : w.Firm)
    (hclass : ∀ k, argClass = some k → k ∈ w.classes) (hcells : w'.objects.cells.size ≤ 2 ^ 32)
    (hadd : (addSignature m argClass v).perform w = (.ok (), w')) :
    w.Regrows w' (.adds m argClass v) := by
  have haddOp : (Operation.addSignature m argClass v).perform w = (.ok (), w') := hadd
  obtain ⟨hrewrites, hlive⟩ := addSignature_rewrites hadd
  refine hrewrites.redrafts.regrows (g := .adds m argClass v)
    (realizes_appends (fun _ => rfl) (fun _ _ _ => id) w) hfirm.ordered
    (tidy_of_perform haddOp trivial) (hfirm.step haddOp hclass hcells)
    (spends_of_perform haddOp).turns hrewrites.inserted_eq fun _ _ _ h => ?_
  cases h
  exact hrewrites.live_iff.2 hlive

theorem cells_le_of_foldlM {ks : List Handle} {n : Handle}
    (hfold : (ks.foldlM innerChain m).perform w = (.ok n, w')) :
    w.objects.cells.size ≤ w'.objects.cells.size := by
  have hkeeps : (ks.foldlM innerChain m).Keeps World.Advances :=
    (routine_innerChains Policy.standard_anything Policy.generous_anything.defines
      (fun _ _ => trivial) m).advances
  have hle := (hkeeps w).cells_le
  rwa [hfold] at hle

/-- Going down through the chains for further classes. -/
theorem foldlM_approaches {p ks : List Handle} {n : Handle} (happroaches : w.Approaches c s p w₁ m)
    (hfirm : w₁.Firm) (hks : ∀ k ∈ ks, k ∈ w₁.classes) (hcells : w'.objects.cells.size ≤ 2 ^ 32)
    (hfold : (ks.foldlM innerChain m).perform w₁ = (.ok n, w')) :
    w.Approaches c s (p ++ ks) w' n ∧ w'.Firm := by
  induction ks generalizing p w₁ m with
  | nil =>
      cases hfold
      rw [List.append_nil]
      exact ⟨happroaches, hfirm⟩
  | cons k ks ih =>
      obtain ⟨hk, hks⟩ := List.forall_mem_cons.1 hks
      rw [List.foldlM_cons] at hfold
      obtain ⟨m', w₂, hinner, hrest⟩ := perform_bind_eq_ok_iff.1 hfold
      have hcells₂ := (cells_le_of_foldlM hrest).trans hcells
      rw [List.append_cons]
      rcases innerChain_cases hfirm hk hcells₂ hinner with
        ⟨rfl, l, hl, sig, hsig, hclass, hvalue, hm'⟩ | ⟨hm, hregrows⟩
      · exact ih (.goes happroaches hl hsig hclass hvalue hm') hfirm hks hrest
      · exact ih (.nested happroaches hm hregrows) hregrows.firm
          (fun k hk => hregrows.classes_eq ▸ hks k hk) hrest

/-- A definition goes down to the place for all classes but the last and adds an overload for
that one. -/
theorem exists_of_defineMethod {name : String} {argClasses : List Handle} (hfirm : w.Firm)
    (hc : c ∈ w.classes) (hks : ∀ k ∈ argClasses, k ∈ w.classes)
    (hcells : w'.objects.cells.size ≤ 2 ^ 32)
    (hdefine : (defineMethod c name argClasses v).perform w = (.ok top, w')) :
    ∃ w₁ m, (w.intern (methodName name)).2.Approaches c (w.intern (methodName name)).1
        argClasses.dropLast w₁ m ∧ w₁.isMethod m = true ∧
      w₁.Regrows w' (.adds m argClasses.getLast? v) := by
  have hdefineOp : (Operation.defineMethod c name argClasses v).perform w = (.ok top, w') := hdefine
  have hintern : (intern (methodName name)).perform w =
      (.ok (w.intern (methodName name)).1, (w.intern (methodName name)).2) := rfl
  have hinternOp : (Operation.intern (methodName name)).perform w = _ := hintern
  have hfirm₀ := hfirm.step hinternOp trivial
    ((spends_of_perform hdefineOp).cells_le.trans hcells)
  unfold defineMethod methodSymbol at hdefine
  rw [perform_bind_ok hintern] at hdefine
  obtain ⟨m₀, w₁, htop, hdefine⟩ := perform_bind_eq_ok_iff.1 hdefine
  cases hlast : argClasses.getLast? with
  | none =>
      rw [List.getLast?_eq_none_iff] at hlast
      subst hlast
      obtain ⟨_, w₂, hadd, hreturn⟩ := perform_bind_eq_ok_iff.1 hdefine
      cases hreturn
      have haddOp : (Operation.addSignature top none v).perform w₁ = (.ok (), w') := hadd
      have hcells₁ := (spends_of_perform haddOp).cells_le.trans hcells
      obtain ⟨happroaches, hfirm₁⟩ := methodChain_approaches hfirm₀ hc hcells₁ htop
      exact ⟨w₁, top, happroaches, isMethod_of_addSignature hadd,
        addSignature_regrows hfirm₁ (fun _ h => by cases h) hcells hadd⟩
  | some last =>
      simp only [hlast] at hdefine
      obtain ⟨m, w₂, hfold, hdefine⟩ := perform_bind_eq_ok_iff.1 hdefine
      obtain ⟨_, w₃, hadd, hreturn⟩ := perform_bind_eq_ok_iff.1 hdefine
      cases hreturn
      have haddOp : (Operation.addSignature m (some last) v).perform w₂ = (.ok (), w') := hadd
      have hcells₂ := (spends_of_perform haddOp).cells_le.trans hcells
      have hcells₁ := (cells_le_of_foldlM hfold).trans hcells₂
      obtain ⟨htop, hfirm₁⟩ := methodChain_approaches hfirm₀ hc hcells₁ htop
      have hclasses₁ : w₁.classes = w.classes := htop.classes_eq
      obtain ⟨happroaches, hfirm₂⟩ := foldlM_approaches htop hfirm₁
        (fun k hk => hclasses₁ ▸ hks k (List.dropLast_subset _ hk)) hcells₂ hfold
      have hclasses₂ : w₂.classes = w.classes := happroaches.classes_eq
      refine ⟨w₂, m, happroaches, isMethod_of_addSignature hadd,
        addSignature_regrows hfirm₂ (fun k hk => ?_) hcells hadd⟩
      cases hk
      exact hclasses₂ ▸ hks last (List.mem_of_getLast? hlast)

end Action

end ObjectSystem

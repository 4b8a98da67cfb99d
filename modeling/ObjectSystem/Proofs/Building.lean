/-
# Building cells

The cell of a list is made in three steps: it is allocated, its item is put into it, and then
the rest of the list. Any of the steps may fail, and what the steps before it have done stays
done. `Action.CellRun` says how a cell may come out, with the worlds in between.

A value that is put into an empty slot gets one owner more. A pool gives it up to the slot, and
a slot that had it alone shares it with the new one.
-/

import ObjectSystem.Proofs.Admission
import ObjectSystem.Proofs.Exchange
import ObjectSystem.Proofs.Safety

namespace ObjectSystem

namespace Ownership

variable {own : Ownership} {id : PoolId} {n : Nat}

/-- Who answers for an object when one slot more has taken it over. -/
def claimed : Ownership → Ownership
  | pool _ => single
  | single | shared => shared

theorem claimed_ne_pool (own : Ownership) (id : PoolId) : own.claimed ≠ .pool id := by
  cases own <;> simp [claimed]

theorem claimed_eq_single_iff : own.claimed = .single ↔ ∃ id, own = .pool id := by
  cases own <;> simp [claimed]

/-- A pool answers only for what no slot has taken over. -/
theorem iterate_claimed_eq_pool_iff : claimed^[n] own = .pool id ↔ n = 0 ∧ own = .pool id := by
  cases n with
  | zero => simp
  | succ n =>
      rw [Function.iterate_succ_apply']
      simp [claimed_ne_pool]

/-- A slot alone answers for what it had already, or for what one slot has taken over from a
pool. -/
theorem iterate_claimed_eq_single_iff :
    claimed^[n] own = .single ↔ n = 0 ∧ own = .single ∨ n = 1 ∧ ∃ id, own = .pool id := by
  cases n with
  | zero => simp
  | succ n =>
      rw [Function.iterate_succ_apply', claimed_eq_single_iff]
      simp [iterate_claimed_eq_pool_iff]

theorem iterate_claimed_shared (n : Nat) : claimed^[n] .shared = .shared :=
  Function.iterate_fixed rfl n

end Ownership

namespace Object

variable {o : Object} {m n : Nat}

/-- An object after a number of slots more have taken it over. -/
def claimed (o : Object) (n : Nat) : Object :=
  o.setOwnership (Ownership.claimed^[n] o.header.ownership)

@[simp]
theorem claimed_zero (o : Object) : o.claimed 0 = o := rfl

@[simp]
theorem claimed_claimed (o : Object) (m n : Nat) : (o.claimed m).claimed n = o.claimed (n + m) := by
  unfold claimed
  rw [Function.iterate_add_apply]
  rfl

theorem ownership_claimed (o : Object) (n : Nat) :
    (o.claimed n).header.ownership = Ownership.claimed^[n] o.header.ownership := rfl

theorem claimed_of_shared (hshared : o.header.ownership = .shared) (n : Nat) :
    o.claimed n = o := by
  unfold claimed setOwnership
  rw [hshared, Ownership.iterate_claimed_shared, ← hshared]

@[simp]
theorem peek?_claimed (s : Slot) (o : Object) (n : Nat) : s.peek? (o.claimed n) = s.peek? o := by
  cases s <;> rfl

end Object

namespace World

variable {w w' w₁ : World} {s : Slot} {v x y : Handle} {o : Object}

theorem TakesOver.puts (htakes : w.TakesOver (some x) w') (hx : w.objects.get? x = some o) :
    w.objects.Puts w'.objects x (o.claimed 1) := by
  cases htakes with
  | taken ho hown =>
      cases ho.symm.trans hx
      have hclaimed : o.claimed 1 = o.setOwnership .single := by
        rw [Object.claimed, hown]
        rfl
      exact hclaimed ▸ Arena.puts_modify hx
  | promoted ho hown =>
      cases ho.symm.trans hx
      have hclaimed : o.claimed 1 = o.setOwnership .shared := by
        rw [Object.claimed, hown]
        rfl
      exact hclaimed ▸ Arena.puts_modify hx
  | shared ho hown =>
      cases ho.symm.trans hx
      rw [Object.claimed_of_shared hown]
      intro y
      split
      · next heq => rw [heq, hx]
      · rfl

/-- Taking a value over changes no object but this one. -/
theorem TakesOver.get?_eq (htakes : w.TakesOver (some v) w') (hlive : w.objects.Live v)
    (y : Handle) : w'.objects.get? y = (w.objects.get? y).map (·.claimed ([v].count y)) := by
  obtain ⟨p, hp⟩ := hlive
  by_cases heq : y = v
  · subst heq
    rw [(htakes.puts hp).self, hp]
    simp
  · rw [(htakes.puts hp).other heq, List.count_singleton, if_neg (by simpa using Ne.symm heq)]
    simp

/-- The instances of a class have a place for an attribute. -/
def Places (w : World) (c : Handle) (s : Symbol) (place : UInt32) : Prop :=
  ∃ o d, w.objects.get? c = some o ∧ o.payload = .descriptor d ∧ d.slot s = .inInstance place

theorem PlacesWithin.slot_eq {c : Handle} {d : Class} {s : Symbol} {place : UInt32}
    (hwithin : w.PlacesWithin c d) (hplaces : w.Places c s place) :
    d.slot s = .inInstance place := by
  obtain ⟨o, ho, _, hwithin⟩ := hwithin
  obtain ⟨o', d', ho', hpayload, hslot⟩ := hplaces
  cases ho.symm.trans ho'
  exact hwithin d' hpayload s place hslot

/-- An empty slot has taken a value up. -/
structure TakesUp (w w' : World) (s : Slot) (v : Handle) : Prop where
  evolves : w.Evolves w'
  moves : w.Moves w'
  live : w.objects.Live v
  empty : ∃ o, w.objects.get? s.owner = some o ∧ s.peek? o = some none
  owner : ∀ o, w.objects.get? s.owner = some o →
    w'.objects.get? s.owner = some (s.storeIn (some v) (o.claimed ([v].count s.owner)))
  other : ∀ y, y ≠ s.owner →
    w'.objects.get? y = (w.objects.get? y).map (·.claimed ([v].count y))
  counts : w'.objects.inserted = w.objects.inserted

end World

namespace Action

open World

variable {w w' : World} {s : Slot} {c v x head next : Handle} {o : Object} {name : Symbol}

/-- A live value can be put into an empty slot. -/
theorem takesUp_set (hcoherent : w.Coherent) (ho : w.objects.get? s.owner = some o)
    (hs : s.peek? o = some none) (hlive : w.objects.Live v) :
    ∃ w', (set s (some v)).perform w = (.ok (), w') ∧ w.TakesUp w' s v := by
  have hlive' : ∀ x, some v = some x → w.objects.Live x := by
    rintro x ⟨⟩
    exact hlive
  obtain ⟨w₁, hclaim, hclaims, hexchange, hevolves⟩ :=
    exchange_spec hcoherent ho hs (by simp) hlive'
  have hset : (set s (some v)).perform w = (.ok (), written w₁ s none (some v)) := by
    rw [perform_set (Slot.isWritable_of_peek? hs), perform_query_bind, read_eq_ok_of_peek? ho hs]
    simpa using hexchange
  have htakes := takesOver_claim hclaim
  have hexchanges := exchanges_written hclaims htakes ho hs (by simp)
  have hget : ∀ y, (written w₁ s none (some v)).objects.get? y =
      (w₁.store s (some v)).objects.get? y := by
    intro y
    simp [written, reclaim]
  have hmoves := moves_set s (some v) w
  rw [hset] at hmoves
  refine ⟨_, hset, hevolves, hmoves, hlive, ⟨o, ho, hs⟩, fun p hp => ?_, fun y hne => ?_,
    hexchanges.inserted_eq⟩
  · have hp₁ : w₁.objects.get? s.owner = some (p.claimed ([v].count s.owner)) := by
      rw [htakes.get?_eq hlive, hp]
      rfl
    exact (hget _).trans (Arena.puts_modify hp₁).self
  · rw [hget]
    show (w₁.objects.modify _ _).get? y = _
    rw [Arena.get?_modify, if_neg hne, htakes.get?_eq hlive]

/-- An attribute that has no value yet is given one, or nothing happens. -/
theorem setAttr_cases (hcoherent : w.Coherent) (ho : w.objects.get? x = some o)
    (hempty : ∀ place, w.Places o.classRef name place →
      ∀ old, (Slot.attr x place.toNat).peek? o = some old → old = none) :
    (∃ e, (setAttr x name (some v)).perform w = (.error e, w)) ∨
      ∃ place w', (setAttr x name (some v)).perform w = (.ok (), w') ∧
        w.Places o.classRef name place ∧ w.TakesUp w' (.attr x place.toNat) v := by
  unfold setAttr
  rw [perform_query_bind, classOf_eq_ok ho]
  simp only
  rw [perform_query_bind]
  cases hresolve : w.resolveAttr o.classRef name with
  | error e => exact Or.inl ⟨e, rfl⟩
  | ok location =>
      cases location with
      | ofClass => exact Or.inl ⟨_, rfl⟩
      | inClass | absent => exact Or.inl ⟨_, rfl⟩
      | inInstance place =>
          have hplaces := ((answers_resolveAttr hcoherent _ name).ok hresolve).2 place rfl
          simp only
          rw [perform_query_bind]
          cases w.checkAttr o.classRef place.toNat (some v) with
          | error e => exact Or.inl ⟨e, rfl⟩
          | ok _ =>
              rcases set_spec w (.attr x place.toNat) (some v) with
                ⟨e, hset, _⟩ | ⟨p, old, hp, hs, hcases⟩
              · exact Or.inl ⟨e, hset⟩
              · cases ho.symm.trans hp
                cases hempty place hplaces old hs
                rcases hcases with ⟨heq, _⟩ | ⟨_, hlive, _⟩
                · cases heq
                obtain ⟨w', hset, htakes⟩ := takesUp_set hcoherent hp hs (hlive v rfl)
                exact Or.inr ⟨place, w', hset, hplaces, htakes⟩

/-- A new object of a class has been put in, and its attributes have no values yet. -/
structure Makes (w w' : World) (c x : Handle) (payload : Payload := .none) (length : Nat := 0) :
    Prop where
  evolves : w.Evolves w'
  moves : w.Moves w'
  sturdy : w'.Sturdy
  takes : ∃ d, w.Describes c d ∧ w.TakesIn (.new c d.attrCount payload length .shared) x w'
  inserted_eq : w'.objects.inserted = w.objects.inserted + 1

/-- An object that holds nothing is allocated, or there is no room for it. -/
theorem allocateOf_cases {payload : Payload} {length : Nat} (hready : w.Ready)
    (hsturdy : w.Sturdy) (hc : c ∈ w.classes) (hpayload : payload.refs = [])
    (hfits : ((allocateOf c payload length).perform w).2.Fits) :
    (∃ limit, (allocateOf c payload length).perform w =
      (.error (.outOfMemory limit), w.relieved)) ∨
      ∃ x w', (allocateOf c payload length).perform w = (.ok x, w') ∧
        Makes w w' c x payload length := by
  obtain ⟨p, hp, hpinned, d, hdescriptor⟩ := hready.coherent.linked.known_class c hc
  have hd : w.Describes c d := ⟨p, hp, hpinned, hdescriptor⟩
  let o : Object := .new c d.attrCount payload length .shared
  unfold allocateOf at hfits ⊢
  rw [perform_query_bind, hd.descriptor_eq] at hfits ⊢
  simp only at hfits ⊢
  have hadmits : w.policy.admits c payload := ⟨hc, hpayload⟩
  have hcomposite : Composite w.policy (allocate o) :=
    .allocate hadmits d.attrCount length .shared
  have hleads := hcomposite.leadsTo hready.coherent hready.tidy w.policy_within hfits
  have hmoves := moves_allocate (o := o) rfl w
  have hsustains : w.Sustains ((allocate o).perform w).2 := hcomposite.keeps steps_sustains w
  rw [perform_allocate_eq] at hfits hleads hmoves hsustains ⊢
  by_cases hfull : w.relieved.isFull = true
  · rw [if_pos hfull]
    exact Or.inl ⟨_, rfl⟩
  · rw [if_neg hfull] at hfits hleads hmoves hsustains ⊢
    have htakes := hsturdy.takesIn hready.tidy (Bool.eq_false_iff.2 hfull) hfits
    have hinserted : (w.relieved.admitObject o).2.objects.inserted = w.objects.inserted + 1 := by
      rw [← w.trims_relieved.objects.inserted_eq]
      exact w.relieved.objects.inserted_insertWith fun _ =>
        o.setOwnership (.ofPool w.relieved.pools.current)
    exact Or.inr ⟨_, _, rfl, hleads.evolves, hmoves, hsustains.sturdy hfits hsturdy,
      ⟨d, hd, htakes⟩, hinserted⟩

/-- No live handle that is put into a slot is taken for a stale one. -/
theorem ne_dangling_of_set {s : Slot} {e : Error} (hcoherent : w.Coherent)
    (howner : w.objects.Live s.owner) (hv : w.objects.Live v)
    (hfails : (set s (some v)).perform w = (.error e, w')) (y : Handle) : e ≠ .dangling y := by
  rcases set_spec w s (some v) with ⟨e', hset, hblames⟩ | ⟨o, old, ho, hs, hcases⟩
  · cases hset.symm.trans hfails
    exact hblames.ne_dangling (by simpa using ⟨howner, hv⟩) y
  · rcases hcases with ⟨_, hset⟩ | ⟨hne, hlive, hset⟩
    · cases hset.symm.trans hfails
    · obtain ⟨w₁, _, _, hexchange, _⟩ := exchange_spec hcoherent ho hs hne hlive
      cases (hset.trans hexchange).symm.trans hfails

/-- Nor is one that is put into an attribute. -/
theorem ne_dangling_of_setAttr {s : Symbol} {e : Error} (hcoherent : w.Coherent)
    (hx : w.objects.Live x) (hv : w.objects.Live v)
    (hfails : (setAttr x s (some v)).perform w = (.error e, w')) (y : Handle) :
    e ≠ .dangling y := by
  rcases error_of_query_bind hfails with hc | ⟨c, hc, hfails⟩
  · exact ((answers_classOf hcoherent x).error hc).ne_dangling (by simpa using hx) y
  have hclass := hcoherent.linked.known_live ((answers_classOf hcoherent x).ok hc).1
  rcases error_of_query_bind hfails with hlocation | ⟨location, -, hfails⟩
  · exact ((answers_resolveAttr hcoherent c s).error hlocation).ne_dangling
      (by simpa using hclass) y
  cases location with
  | ofClass =>
      cases hfails
      simp
  | inClass | absent =>
      cases hfails
      exact telling_ne nofun nofun
  | inInstance place =>
      rcases error_of_query_bind hfails with hcheck | ⟨_, -, hfails⟩
      · exact ((answers_checkAttr hcoherent c _ _).error hcheck).ne_dangling
          (by simpa using ⟨hclass, hv⟩) y
      · exact ne_dangling_of_set (s := .attr x place.toNat) hcoherent hx hv hfails y

/-- How a cell comes out that is made with given contents. -/
inductive CellRun (w : World) (c head next : Handle) : Except Error Handle → World → Prop where
  /-- There was no room. -/
  | full {limit : Nat} : CellRun w c head next (.error (.outOfMemory limit)) w.relieved
  /-- The item was refused. -/
  | bare {x : Handle} {w₁ : World} {e : Error} (hmakes : Makes w w₁ c x)
      (hhead : (setAttr x Symbol.head (some head)).perform w₁ = (.error e, w₁)) :
      CellRun w c head next (.error e) w₁
  /-- The rest of the list was refused. -/
  | loose {x : Handle} {w₁ w₂ : World} {e : Error} {p : UInt32} (hmakes : Makes w w₁ c x)
      (hplaces : w₁.Places c Symbol.head p) (hhead : w₁.TakesUp w₂ (.attr x p.toNat) head)
      (hnext : (setAttr x Symbol.next (some next)).perform w₂ = (.error e, w₂)) :
      CellRun w c head next (.error e) w₂
  | done {x : Handle} {w₁ w₂ w₃ : World} {p q : UInt32} (hmakes : Makes w w₁ c x)
      (hplaces : w₁.Places c Symbol.head p) (hhead : w₁.TakesUp w₂ (.attr x p.toNat) head)
      (hplaces' : w₂.Places c Symbol.next q) (hnext : w₂.TakesUp w₃ (.attr x q.toNat) next) :
      CellRun w c head next (.ok x) w₃

theorem peek?_new {d : Class} {x : Handle} {payload : Payload} {length place : Nat}
    {own : Ownership} {old : Option Handle}
    (hold : (Slot.attr x place).peek?
      ((Object.new c d.attrCount payload length .shared).setOwnership own) = some old) :
    old = none := by
  cases place with
  | zero => cases hold
  | succ index =>
      simp only [Slot.peek?, Object.setOwnership, Object.new, Array.getElem?_replicate] at hold
      split at hold
      · exact (Option.some.inj hold).symm
      · cases hold

/-- Numbers that have not run out at the end had not run out when a part was done. -/
theorem fits_of_bind {α β : Type} {m : Action α} {f : α → Action β}
    (hf : ∀ a, (f a).Keeps World.Advances) (hfits : ((m >>= f).perform w).2.Fits) :
    (m.perform w).2.Fits := by
  rw [perform_bind] at hfits
  cases hperform : m.perform w with
  | mk result w' =>
      rw [hperform] at hfits
      cases result with
      | error e => exact hfits
      | ok a => exact (hf a w').fits hfits

/-- When the item has been put into a new cell, the place of the rest is still empty. -/
theorem Makes.next_empty {w₁ w₂ : World} {d : Class} {p : UInt32}
    (hmakes : Makes w w₁ c x) (htakes : w.TakesIn (.new c d.attrCount .none 0 .shared) x w₁)
    (hpairs : ∃ d : Class, d.Pairs ∧ w.PlacesWithin c d)
    (hplaces : w₁.Places c Symbol.head p) (hfirst : w₁.TakesUp w₂ (.attr x p.toNat) head)
    (place : UInt32) (hplaces' : w₂.Places c Symbol.next place) (old : Option Handle)
    (hold : (Slot.attr x place.toNat).peek? ((Slot.attr x p.toNat).storeIn (some head)
      (((Object.new c d.attrCount .none 0 .shared).setOwnership
        (.ofPool w.pools.current)).claimed ([head].count x))) = some old) : old = none := by
  obtain ⟨d', hd', hwithin⟩ := hpairs
  have hwithin₁ := hwithin.evolve hmakes.evolves
  have hne : place ≠ p := fun heq =>
    hd' place (heq ▸ hwithin₁.slot_eq hplaces) ((hwithin₁.evolve hfirst.evolves).slot_eq hplaces')
  obtain ⟨o, ho, hpeek⟩ := hfirst.empty
  cases htakes.get?_eq.symm.trans ho
  rw [Slot.peek?_storeIn (t := .attr x place.toNat) (s := .attr x p.toNat)
    ((Object.peek?_claimed _ _ _).trans hpeek) rfl, if_neg, Object.peek?_claimed] at hold
  · exact peek?_new hold
  · exact fun heq => hne (UInt32.toNat_inj.1 (Slot.attr.inj heq).2)

/-- A cell comes out in one of these ways if the item and the rest have different places. -/
theorem cellRun (hready : w.Ready) (hsturdy : w.Sturdy) (hc : c ∈ w.classes)
    (hpairs : ∃ d : Class, d.Pairs ∧ w.PlacesWithin c d)
    (hfits : ((cell c head next).perform w).2.Fits) :
    CellRun w c head next ((cell c head next).perform w).1 ((cell c head next).perform w).2 := by
  have hrest : ∀ x, Routine .anything (do
      setAttr x Symbol.head (some head)
      setAttr x Symbol.next (some next)
      return x : Action Handle) := fun x =>
    .bind (.setAttr x _ _) fun _ => .bind (.setAttr x _ _) fun _ => .pure x
  rcases allocateOf_cases hready hsturdy hc rfl
      (fits_of_bind (fun x => (hrest x).advances) hfits) with
    ⟨limit, hmake⟩ | ⟨x, w₁, hmake, hmakes⟩
  · have hcell : (cell c head next).perform w = (.error (.outOfMemory limit), w.relieved) :=
      perform_bind_error hmake
    rw [hcell]
    exact .full
  obtain ⟨d, hd, htakes⟩ := hmakes.takes
  rcases setAttr_cases (v := head) hmakes.evolves.coherent htakes.get?_eq
      fun _ _ _ => peek?_new with
    ⟨e, hhead⟩ | ⟨p, w₂, hhead, hplaces, hfirst⟩
  · have hcell : (cell c head next).perform w = (.error e, w₁) :=
      (perform_bind_ok hmake).trans (perform_bind_error hhead)
    rw [hcell]
    exact .bare hmakes hhead
  have hempty := hmakes.next_empty htakes hpairs hplaces hfirst
  rcases setAttr_cases (v := next) hfirst.evolves.coherent (hfirst.owner _ htakes.get?_eq)
      (by rwa [Slot.classRef_storeIn]) with
    ⟨e, hnext⟩ | ⟨q, w₃, hnext, hplaces', hsecond⟩
  · have hcell : (cell c head next).perform w = (.error e, w₂) :=
      (perform_bind_ok hmake).trans ((perform_bind_ok hhead).trans (perform_bind_error hnext))
    rw [hcell]
    exact .loose hmakes hplaces hfirst hnext
  · have hcell : (cell c head next).perform w = (.ok x, w₃) :=
      (perform_bind_ok hmake).trans ((perform_bind_ok hhead).trans (perform_bind_ok hnext))
    rw [hcell]
    rw [Slot.classRef_storeIn] at hplaces'
    exact .done hmakes hplaces hfirst hplaces' hsecond

/-! ## What the steps leave -/

theorem Makes.resumes (hmakes : Makes w w' c x) (hready : w.Ready) : w.Resumes w' :=
  ⟨hmakes.evolves, hmakes.moves.tidy hready.tidy, hmakes.moves.scopes_eq⟩

end Action

namespace World

variable {w w' : World} {s : Slot} {v : Handle} {o : Object}

/-- The slot holds the value, and its object is the same for the rest, unless it is the value
itself. -/
theorem TakesUp.stored (htakes : w.TakesUp w' s v) (hv : v ≠ s.owner)
    (ho : w.objects.get? s.owner = some o) :
    ∃ o', w'.objects.get? s.owner = some o' ∧ o'.header = o.header ∧ o'.classRef = o.classRef ∧
      ∀ t : Slot, t.owner = s.owner →
        t.peek? o' = if t = s then some (some v) else t.peek? o := by
  obtain ⟨p, hp, hs⟩ := htakes.empty
  cases ho.symm.trans hp
  have hcount : [v].count s.owner = 0 := by
    rw [List.count_eq_zero, List.mem_singleton]
    exact hv.symm
  have howner := htakes.owner o ho
  rw [hcount, Object.claimed_zero] at howner
  exact ⟨_, howner, Slot.header_storeIn _ _ _, Slot.classRef_storeIn _ _ _,
    fun t ht => Slot.peek?_storeIn hs ht⟩

theorem TakesUp.resumes (htakes : w.TakesUp w' s v) (hready : w.Ready) : w.Resumes w' :=
  ⟨htakes.evolves, htakes.moves.tidy hready.tidy, htakes.moves.scopes_eq⟩

theorem resumes_relieved (hready : w.Ready) : w.Resumes w.relieved := by
  refine ⟨evolves_relieved hready.coherent hready.tidy,
    hready.tidy.tidy_relieved, ?_⟩
  rw [PoolStack.scopeIds, innermostFirst_relieved, PoolStack.scopeIds]

end World

/-- However a cell comes out, the world may be used on. -/
theorem Action.CellRun.resumes {w w' : World} {c head next : Handle}
    {result : Except Error Handle} (hrun : CellRun w c head next result w') (hready : w.Ready) :
    w.Resumes w' := by
  cases hrun with
  | full => exact World.resumes_relieved hready
  | bare hmakes _ => exact hmakes.resumes hready
  | loose hmakes _ hhead _ =>
      have hmade := hmakes.resumes hready
      exact hmade.trans (hhead.resumes (hready.resume hmade))
  | done hmakes _ hhead _ hnext =>
      have hmade := hmakes.resumes hready
      have hfirst := hmade.trans (hhead.resumes (hready.resume hmade))
      exact hfirst.trans (hnext.resumes (hready.resume hfirst))

end ObjectSystem

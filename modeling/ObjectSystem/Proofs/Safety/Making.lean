/-
# New objects

When something new is made in a scope, all that a collection would keep stays as it was, except
that slots of the new object may hold what was given for it. A pool answers for the new object, or
it is pinned, and what was given is reached through it. These facts go through the steps in which
objects are made: an object is filled, a slot of it takes something up, and a scope is closed
around it.
-/

import ObjectSystem.Proofs.Copying
import ObjectSystem.Proofs.Handover
import ObjectSystem.Proofs.Safety.Altering
import ObjectSystem.Proofs.Safety.Secures

namespace ObjectSystem

namespace World

variable {w w' w'' w₀ w₁ w₂ : World} {env x y l v : Handle} {names : Set Symbol} {o : Object}
  {given given' total : List Handle} {s : Slot} {id : PoolId}

/-- What a collection would keep is as it was, except that more slots may hold what was given. -/
structure Leaves (w w' : World) (given : List Handle) : Prop where
  roots_eq : w'.roots = w.roots
  classes_eq : w'.classes = w.classes
  stays : ∀ x o, w.Keeps [] x → w.objects.get? x = some o →
    ∃ n, w'.objects.get? x = some (o.claimed n) ∧ (x ∉ given → n = 0)

section Leaves

variable (hleaves : w.Leaves w' given)
include hleaves

theorem Leaves.same (hx : w.Keeps [] x) (hnot : x ∉ given) :
    w'.objects.get? x = w.objects.get? x := by
  obtain ⟨o, ho⟩ := hx.live
  obtain ⟨n, ho', hzero⟩ := hleaves.stays x o hx ho
  rw [ho', ho, hzero hnot, Object.claimed_zero]

theorem Leaves.live (hx : w.Keeps [] x) : w'.objects.Live x := by
  obtain ⟨o, ho⟩ := hx.live
  obtain ⟨n, ho', _⟩ := hleaves.stays x o hx ho
  exact ⟨_, ho'⟩

theorem Leaves.pooled (hcoherent : w.Coherent) (hx : w.Pooled x) (hnot : x ∉ given) :
    w'.Pooled x := by
  have hsame := hleaves.same (hx.keeps hcoherent) hnot
  obtain ⟨o, id, ho, hown⟩ := hx
  exact ⟨o, id, hsame.trans ho, hown⟩

theorem Leaves.pinned (hcoherent : w.Coherent) (hx : w.Pinned x) : w'.Pinned x := by
  obtain ⟨o, ho, hpinned⟩ := hx
  have hkeeps := (Pinned.secure hcoherent ⟨o, ho, hpinned⟩).keeps hcoherent
  obtain ⟨n, ho', _⟩ := hleaves.stays x o hkeeps ho
  exact ⟨_, ho', hpinned⟩

/-- If what was given is still kept, all is kept. -/
theorem Leaves.spares (hcoherent : w.Coherent) (hcoherent' : w'.Coherent)
    (hgiven : ∀ y ∈ given, w'.Keeps [] y) : w.Spares w' := by
  intro x hx
  induction hx with
  | @start x hroot hx =>
      have hkeeps : w.Keeps [] x := .start hroot hx
      cases hroot with
      | pinned ho hpinned =>
          obtain ⟨p, hp, hpinned⟩ := hleaves.pinned hcoherent ⟨_, ho, hpinned⟩
          exact .start (.pinned hp hpinned) ⟨_, hp⟩
      | builtin hmem => exact .start (.builtin hmem) (hleaves.live hkeeps)
      | root hmem => exact .start (.root (hleaves.roots_eq ▸ hmem)) (hleaves.live hkeeps)
      | scope hp hmem =>
          obtain ⟨o, ho, hown⟩ := Action.ownership_of_mem_scope hcoherent hp hmem
          by_cases hmem' : x ∈ given
          · exact hgiven x hmem'
          · exact keeps_of_pool hcoherent' ((hleaves.same hkeeps hmem').trans ho) hown
      | extra hmem => cases hmem
  | @ref x y o hreach ho hy hlive' ih =>
      obtain ⟨n, ho', _⟩ := hleaves.stays x o hreach ho
      exact ih.ref ho' hy (hleaves.live (.ref hreach ho hy hlive'))

/-- What was not kept before, or cannot be let go, does not count as given. -/
theorem Leaves.trans (hcoherent : w.Coherent) (hspares : w.Spares w')
    (hsecond : w'.Leaves w'' given') (hsub : ∀ y ∈ given, y ∈ total)
    (hsub' : ∀ y ∈ given', y ∈ total ∨ ¬ w.Keeps [] y ∨ w.Pinned y) : w.Leaves w'' total where
  roots_eq := hsecond.roots_eq.trans hleaves.roots_eq
  classes_eq := hsecond.classes_eq.trans hleaves.classes_eq
  stays x o hx ho := by
    obtain ⟨n, ho', hzero⟩ := hleaves.stays x o hx ho
    obtain ⟨m, ho'', hzero'⟩ := hsecond.stays x _ (hspares x hx) ho'
    by_cases hmem : x ∈ total
    · exact ⟨m + n, by rw [ho'', Object.claimed_claimed], fun hnot => absurd hmem hnot⟩
    · rw [hzero fun h => hmem (hsub x h), Object.claimed_zero] at ho''
      refine ⟨0, ?_, fun _ => rfl⟩
      by_cases hmem' : x ∈ given'
      · obtain ⟨p, hp, hpinned⟩ := ((hsub' x hmem').resolve_left hmem).resolve_left fun h => h hx
        cases ho.symm.trans hp
        rw [ho'', Object.claimed_of_shared (hcoherent.linked.pinned_shared x o ho hpinned),
          Object.claimed_zero]
      · rw [ho'', hzero' hmem']

theorem Leaves.passes (hcoherent : w.Coherent) : Passes env names given w w' where
  roots_eq := hleaves.roots_eq
  classes_eq := hleaves.classes_eq
  stays base _ x o hx ho := by
    obtain ⟨n, ho', hzero⟩ := hleaves.stays x o (hx.keeps hcoherent) ho
    refine ⟨_, ho', Object.sameBut_setHeader rfl, fun hmem id hid => ?_, fun hshared => ?_⟩
    · rw [hzero hmem, Object.claimed_zero, hid]
    · rw [Object.claimed_of_shared hshared, hshared]

theorem Leaves.supplies (hcoherent : w.Coherent) (hsecure : ∀ y ∈ given, w'.Secure y) :
    w.Supplies w' given where
  stands x hx hnot := by
    have hpasses : Passes Builtin.globalEnv ∅ given w w' := hleaves.passes hcoherent
    have hbase : ∀ u ∈ given, u ∉ {u | u ∉ given} := fun u hu hout => hout hu
    refine (hpasses.stands hbase hcoherent ?_).mono fun _ _ _ => trivial
    cases hx with
    | shared hroot ho hshared => exact .shared hroot ho hshared
    | pooled _ hpooled => exact .pooled hnot hpooled
  holds s y hkeeps hs := by
    obtain ⟨o, ho, hpeek⟩ := hs
    obtain ⟨n, ho', _⟩ := hleaves.stays _ o hkeeps ho
    exact ⟨_, ho', (Object.peek?_claimed _ _ _).trans hpeek⟩
  frames e f hkeeps hf := by
    obtain ⟨o, ho⟩ := hkeeps.live
    obtain ⟨n, ho', _⟩ := hleaves.stays e o hkeeps ho
    obtain ⟨q, hq, hpayload⟩ := frame_eq_ok_iff.1 hf
    cases ho'.symm.trans hq
    exact frame_eq_ok_iff.2 ⟨o, ho, hpayload⟩
  secure := hsecure

end Leaves

theorem Beside.spares (hbeside : w.Beside w') (hcoherent : w.Coherent)
    (hcoherent' : w'.Coherent) : w.Spares w' :=
  spares_of_same hcoherent hcoherent' hbeside.roots_eq fun _ _ ho => hbeside.objects_eq ▸ ho

/-- Something new has been made of what was given, and nothing else is new that a pool answers
for. What was given is reached through it, and pools do not answer for this any more. -/
structure Furnishes (w w' : World) (given : List Handle) (x : Handle) : Prop
    extends w.Leaves w' given where
  new : ¬ w.Keeps [] x ∨ w.Pinned x
  stands : w'.Pooled x ∨ w'.Pinned x
  only : ∀ y o id, w'.objects.get? y = some o → o.header.ownership = .pool id →
    y = x ∨ w.objects.get? y = some o
  taken : ∀ y ∈ given, ¬ w'.Pooled y
  secure : ∀ y ∈ given, w'.Secure y

section Furnishes

variable (hfurnishes : w.Furnishes w' given x)
include hfurnishes

theorem Furnishes.not_pooled (hcoherent : w.Coherent) : ¬ w.Pooled x := fun hpooled =>
  hfurnishes.new.elim (fun hnot => hnot (hpooled.keeps hcoherent))
    fun hpinned => hpinned.not_pooled hcoherent hpooled

theorem Furnishes.secure_self (hcoherent' : w'.Coherent) : w'.Secure x :=
  hfurnishes.stands.elim Pooled.secure (Pinned.secure hcoherent')

theorem Furnishes.keeps_self (hcoherent' : w'.Coherent) : w'.Keeps [] x :=
  (hfurnishes.secure_self hcoherent').keeps hcoherent'

theorem Furnishes.supplies (hcoherent : w.Coherent) : w.Supplies w' given :=
  hfurnishes.toLeaves.supplies hcoherent hfurnishes.secure

theorem Furnishes.spares (hcoherent : w.Coherent) (hcoherent' : w'.Coherent) : w.Spares w' :=
  hfurnishes.toLeaves.spares hcoherent hcoherent' fun y hy =>
    (hfurnishes.secure y hy).keeps hcoherent'

/-- It does not matter from which of two worlds one starts that have the same objects. -/
theorem Furnishes.of_same (hspares : w₀.Spares w) (hobjects : w.objects = w₀.objects)
    (hroots : w.roots = w₀.roots) (hclasses : w.classes = w₀.classes) :
    w₀.Furnishes w' given x where
  roots_eq := hfurnishes.roots_eq.trans hroots
  classes_eq := hfurnishes.classes_eq.trans hclasses
  stays y o hy ho := hfurnishes.stays y o (hspares y hy) (hobjects ▸ ho)
  new := hfurnishes.new.imp (mt (hspares x)) fun ⟨o, ho, hpinned⟩ => ⟨o, hobjects ▸ ho, hpinned⟩
  stands := hfurnishes.stands
  only y o id ho hpool := hobjects ▸ hfurnishes.only y o id ho hpool
  taken := hfurnishes.taken
  secure := hfurnishes.secure

theorem Furnishes.of_beside (hbeside : w₀.Beside w) (hcoherent₀ : w₀.Coherent)
    (hcoherent : w.Coherent) : w₀.Furnishes w' given x :=
  hfurnishes.of_same (hbeside.spares hcoherent₀ hcoherent) hbeside.objects_eq hbeside.roots_eq
    hbeside.classes_eq

end Furnishes

/-- What cannot be let go may be handed out again. -/
theorem Pinned.furnishes (hx : w.Pinned x) : w.Furnishes w [] x where
  roots_eq := rfl
  classes_eq := rfl
  stays y o _ ho := ⟨0, by rw [ho, Object.claimed_zero], fun _ => rfl⟩
  new := Or.inr hx
  stands := Or.inr hx
  only _ _ _ ho _ := Or.inr ho
  taken _ hy := absurd hy List.not_mem_nil
  secure _ hy := absurd hy List.not_mem_nil

/-- The innermost scope answers for something new. -/
structure Gains (w w' : World) (given : List Handle) (x : Handle) : Prop
    extends w.Furnishes w' given x where
  owned : ∃ o, w'.objects.get? x = some o ∧ o.header.ownership = .pool w.pools.current

section Gains

variable (hgains : w.Gains w₁ given x)
include hgains

theorem Gains.pooled : w₁.Pooled x := by
  obtain ⟨o, ho, hown⟩ := hgains.owned
  exact ⟨o, _, ho, hown⟩

theorem Gains.fresh (hcoherent : w.Coherent) (hcoherent₁ : w₁.Coherent) : ¬ w.Keeps [] x :=
  hgains.new.elim id fun hpinned _ =>
    (hgains.toLeaves.pinned hcoherent hpinned).not_pooled hcoherent₁ hgains.pooled

end Gains

/-! ## What is put in -/

section Gains

variable (hgains : w.Gains w₁ given x) (hcoherent : w.Coherent) (hcoherent₁ : w₁.Coherent)
include hgains hcoherent hcoherent₁

/-- What is new may be altered. It may take up what was kept before. -/
theorem Gains.alter (halters : w₁.Alters w' x given') (hkept : ∀ y ∈ given', w.Keeps [] y) :
    w.Gains w' (given' ++ given) x := by
  have hfresh := hgains.fresh hcoherent hcoherent₁
  obtain ⟨p, hp, hown⟩ := hgains.owned
  obtain ⟨p', hp', hheader⟩ := halters.self p hp
  constructor
  case owned => exact ⟨p', hp', hheader ▸ hown⟩
  constructor
  case toLeaves =>
    refine ⟨halters.roots_eq.trans hgains.roots_eq, halters.classes_eq.trans hgains.classes_eq,
      fun y o hy ho => ?_⟩
    obtain ⟨n, ho₁, hzero⟩ := hgains.stays y o hy ho
    refine ⟨given'.count y + n, ?_, fun hmem => ?_⟩
    · rw [halters.other y fun heq => hfresh (heq ▸ hy), ho₁, Option.map_some,
        Object.claimed_claimed]
    · obtain ⟨hy', hy⟩ := not_or.1 (mt List.mem_append.2 hmem)
      rw [hzero hy, List.count_eq_zero.2 hy']
  case new => exact hgains.new
  case stands => exact Or.inl ⟨p', _, hp', hheader ▸ hown⟩
  case only =>
    intro y o id ho hpool
    refine or_iff_not_imp_left.2 fun hy => ?_
    exact (hgains.only y o id (halters.back hy ho hpool).2 hpool).resolve_left hy
  case taken =>
    rintro y hy ⟨o, id, ho, hpool⟩
    rcases List.mem_append.1 hy with hy | hy
    · exact (halters.back (fun heq => hfresh (heq ▸ hkept y hy)) ho hpool).1 hy
    · have hne : y ≠ x := by
        rintro rfl
        exact hgains.taken y hy hgains.pooled
      exact hgains.taken y hy ⟨o, id, (halters.back hne ho hpool).2, hpool⟩
  case secure =>
    intro y hy
    rcases List.mem_append.1 hy with hy | hy
    · exact halters.secure y hy
    · exact halters.toSupplies.secured hcoherent₁ (hgains.secure y hy)

/-- An attribute of it may be given a value. -/
theorem Gains.hold {place : Nat} (htakes : w₁.TakesUp w' (.attr x place) v) (hv : w.Keeps [] v)
    (hclasses : w'.classes = w₁.classes) : w.Gains w' (v :: given) x :=
  hgains.alter hcoherent hcoherent₁ (htakes.alters (fun heq : v = x =>
    hgains.fresh hcoherent hcoherent₁ (heq ▸ hv)) hcoherent₁ hgains.pooled id hclasses) (by simpa)

/-- It may also take up what has been made after it. -/
theorem Gains.take (hsecond : w₁.Gains w₂ [] y) (hcoherent₂ : w₂.Coherent)
    (halters : w₂.Alters w' x [y]) : w.Gains w' given x := by
  have hkeeps : w₁.Keeps [] x := hgains.pooled.keeps hcoherent₁
  have hfresh := hsecond.fresh hcoherent₁ hcoherent₂
  obtain ⟨p, hp, hown⟩ := hgains.owned
  obtain ⟨p', hp', hheader⟩ :=
    halters.self p ((hsecond.same hkeeps List.not_mem_nil).trans hp)
  -- The second object is not found in a pool afterwards.
  have hback : ∀ z o id, w'.objects.get? z = some o → o.header.ownership = .pool id → z ≠ x →
      w₁.objects.get? z = some o := by
    intro z o id ho hpool hne
    obtain ⟨hzy, hz⟩ := halters.back hne ho hpool
    exact (hsecond.only z o id hz hpool).resolve_left fun heq => hzy (heq ▸ List.mem_cons_self)
  constructor
  case owned => exact ⟨p', hp', hheader ▸ hown⟩
  constructor
  case toLeaves =>
    refine ⟨(halters.roots_eq.trans hsecond.roots_eq).trans hgains.roots_eq,
      (halters.classes_eq.trans hsecond.classes_eq).trans hgains.classes_eq,
      fun z o hz ho => ?_⟩
    obtain ⟨n, ho₁, hzero⟩ := hgains.stays z o hz ho
    have hz₁ := hgains.spares hcoherent hcoherent₁ z hz
    have hzx : z ≠ x := fun heq => hgains.fresh hcoherent hcoherent₁ (heq ▸ hz)
    have hzy : z ∉ [y] := fun hmem => hfresh (List.mem_singleton.1 hmem ▸ hz₁)
    exact ⟨n, (halters.same hzx hzy).trans ((hsecond.same hz₁ List.not_mem_nil).trans ho₁), hzero⟩
  case new => exact hgains.new
  case stands => exact Or.inl ⟨p', _, hp', hheader ▸ hown⟩
  case only =>
    intro z o id ho hpool
    refine or_iff_not_imp_left.2 fun hz => ?_
    exact (hgains.only z o id (hback z o id ho hpool hz) hpool).resolve_left hz
  case taken =>
    rintro z hz ⟨o, id, ho, hpool⟩
    have hne : z ≠ x := by
      rintro rfl
      exact hgains.taken z hz hgains.pooled
    exact hgains.taken z hz ⟨o, id, hback z o id ho hpool hne, hpool⟩
  case secure =>
    exact fun z hz => halters.toSupplies.secured hcoherent₂
      ((hsecond.supplies hcoherent₁).secured hcoherent₁ (hgains.secure z hz))

end Gains

/-- Something new may take up what was made before it, and with this all that is reached
through it. -/
theorem Furnishes.gains (hfurnishes : w.Furnishes w₁ given l) (hready : w.Ready)
    (hresumes : w.Resumes w₁) (hgains : w₁.Gains w' (l :: given') x) (hcoherent' : w'.Coherent) :
    w.Gains w' (given' ++ given) x := by
  have hcoherent := hready.coherent
  have hcoherent₁ := hresumes.evolves.coherent
  have hspares := hfurnishes.spares hcoherent hcoherent₁
  have hfresh := hgains.fresh hcoherent₁ hcoherent'
  have hback : ∀ y o id, w'.objects.get? y = some o → o.header.ownership = .pool id → y ≠ x →
      w₁.objects.get? y = some o := fun y o id ho hpool hne =>
    (hgains.only y o id ho hpool).resolve_left hne
  constructor
  case owned => exact hresumes.current_eq ▸ hgains.owned
  constructor
  case toLeaves =>
    refine hfurnishes.toLeaves.trans hcoherent hspares hgains.toLeaves
      (fun y hy => List.mem_append_right _ hy) fun y hy => ?_
    rcases List.mem_cons.1 hy with rfl | hy
    · exact Or.inr hfurnishes.new
    · exact Or.inl (List.mem_append_left _ hy)
  case new => exact Or.inl fun hx => hfresh (hspares x hx)
  case stands => exact hgains.stands
  case only =>
    intro y o id ho hpool
    refine or_iff_not_imp_left.2 fun hne => ?_
    refine (hfurnishes.only y o id (hback y o id ho hpool hne) hpool).resolve_left ?_
    rintro rfl
    exact hgains.taken y List.mem_cons_self ⟨o, id, ho, hpool⟩
  case taken =>
    rintro y hy ⟨o, id, ho, hpool⟩
    rcases List.mem_append.1 hy with hy | hy
    · exact hgains.taken y (List.mem_cons_of_mem _ hy) ⟨o, id, ho, hpool⟩
    · refine hfurnishes.taken y hy ⟨o, id, hback y o id ho hpool ?_, hpool⟩
      rintro rfl
      exact hfresh ((hfurnishes.secure y hy).keeps hcoherent₁)
  case secure =>
    intro y hy
    rcases List.mem_append.1 hy with hy | hy
    · exact hgains.secure y (List.mem_cons_of_mem _ hy)
    · exact (hgains.supplies hcoherent₁).secured hcoherent₁ (hfurnishes.secure y hy)

/-! ## Scopes -/

/-- Another pool answers for an object, and nothing else has changed. -/
structure Hands (w w' : World) (x : Handle) (id : PoolId) : Prop where
  roots_eq : w'.roots = w.roots
  self : ∃ o, w.objects.get? x = some o ∧ w'.objects.get? x = some (o.setOwnership (.pool id))
  other : ∀ y, y ≠ x → w'.objects.get? y = w.objects.get? y

theorem Hands.supplies (hhands : w.Hands w' x id) (hcoherent : w.Coherent) :
    w.Supplies w' [] := by
  obtain ⟨o, ho, ho'⟩ := hhands.self
  constructor
  case stands =>
    intro y hy _
    by_cases heq : y = x
    · exact heq ▸ .pooled trivial ⟨_, _, ho', rfl⟩
    · exact hy.of_same hcoherent hhands.roots_eq (hhands.other y heq)
  case holds =>
    rintro s y - ⟨p, hp, hpeek⟩
    by_cases heq : s.owner = x
    · rw [heq] at hp
      cases ho.symm.trans hp
      exact ⟨_, heq ▸ ho', by cases s <;> exact hpeek⟩
    · exact ⟨p, (hhands.other _ heq).trans hp, hpeek⟩
  case frames =>
    intro e f _ hf
    obtain ⟨p, hp, hpayload⟩ := frame_eq_ok_iff.1 hf
    by_cases heq : e = x
    · rw [heq] at hp ⊢
      cases ho'.symm.trans hp
      exact frame_eq_ok_iff.2 ⟨o, ho, hpayload⟩
    · exact frame_eq_ok_iff.2 ⟨p, (hhands.other e heq).symm.trans hp, hpayload⟩
  case secure => exact fun y hy => absurd hy List.not_mem_nil

/-- What is new may be handed to another scope. -/
theorem Gains.hand (hgains : w.Gains w₁ given x) (hhands : w₁.Hands w' x id)
    (hcoherent : w.Coherent) (hcoherent₁ : w₁.Coherent) (hclasses : w'.classes = w₁.classes) :
    w.Furnishes w' given x := by
  have hfresh := hgains.fresh hcoherent hcoherent₁
  obtain ⟨o, ho, ho'⟩ := hhands.self
  constructor
  case toLeaves =>
    refine ⟨hhands.roots_eq.trans hgains.roots_eq, hclasses.trans hgains.classes_eq,
      fun y p hy hp => ?_⟩
    obtain ⟨n, hp', hzero⟩ := hgains.stays y p hy hp
    exact ⟨n, (hhands.other y fun heq => hfresh (heq ▸ hy)).trans hp', hzero⟩
  case new => exact hgains.new
  case stands => exact Or.inl ⟨_, _, ho', rfl⟩
  case only =>
    intro y p id' hp hpool
    refine or_iff_not_imp_left.2 fun hne => ?_
    exact (hgains.only y p id' (hhands.other y hne ▸ hp) hpool).resolve_left hne
  case taken =>
    rintro y hy ⟨p, id', hp, hpool⟩
    have hne : y ≠ x := by
      rintro rfl
      exact hgains.taken y hy hgains.pooled
    exact hgains.taken y hy ⟨p, id', hhands.other y hne ▸ hp, hpool⟩
  case secure =>
    exact fun y hy => (hhands.supplies hcoherent₁).secured hcoherent₁ (hgains.secure y hy)

section Scope

variable (hopens : Opens w w₁ id) (hobjects : w₁.objects = w.objects)
  (hcurrent : w₁.pools.current = id) (hready : w.Ready) (hgains : w₁.Gains w₂ given x)
  (hresumes : w₁.Resumes w₂)
include hopens hobjects hcurrent hready hgains hresumes

/-- When the scope is closed in which a new object was made, the object is handed to the scope
around it, and nothing else goes. -/
theorem Gains.exists_hands :
    ∃ w', (Action.closeScope id (.ok x)).perform w₂ = (.ok x, w') ∧
      w₂.Hands w' x w.pools.current := by
  obtain ⟨saved, w', hsaves, hsave, hclose, -, hroots', hget⟩ := hopens.close hresumes (.ok x)
  obtain ⟨o, ho, hown⟩ := hgains.owned
  rw [hcurrent] at hown
  have hx := hsaves.handed ho hown
  have hne_collector := hready.current_ne_collector
  rw [PoolStack.enclosing_eq (hresumes.scopes_eq.trans hopens.scopes_eq) hopens.new,
    ← PoolStack.current_eq, Ownership.ofPool_of_ne hne_collector] at hx
  -- No other object belongs to a scope that is closed.
  have hnone : saved.pools.listedBeside w.pools.scopeIds = [] := by
    refine List.eq_nil_iff_forall_not_mem.2 fun y hlisted => ?_
    obtain ⟨p, id', hp, hpool, hout⟩ :=
      (Action.mem_listedBeside_iff hsaves.evolves.coherent).1 hlisted
    by_cases heq : y = x
    · subst heq
      cases hx.symm.trans hp
      cases hpool
      rw [PoolStack.current_eq] at hout
      exact hout (Ownership.mem_of_ofPool_getLast? (Ownership.ofPool_of_ne
        (PoolStack.current_eq _ ▸ hne_collector)))
    · rw [hsaves.other heq] at hp
      have hp₁ := (hgains.only y p id' hp hpool).resolve_left heq
      exact hout (hready.coherent.mem_scopeIds (hobjects ▸ hp₁) hpool)
  have hsame : ∀ y, w'.objects.get? y = saved.objects.get? y := fun y => by
    refine Option.ext fun p => ?_
    rw [hget y p, hnone, and_iff_left Arena.not_falls_nil]
  have hmoves := Action.moves_saveResult id (.ok x) w₂
  rw [hsave] at hmoves
  exact ⟨w', hclose, hroots'.trans hmoves.roots_eq, ⟨o, ho, (hsame x).trans hx⟩,
    fun y hne => (hsame y).trans (hsaves.other hne)⟩

/-- So the object is new in the scope around. -/
theorem Gains.close (hroots : w₁.roots = w.roots) (hclasses : w₁.classes = w.classes) :
    ∃ w', (Action.closeScope id (.ok x)).perform w₂ = (.ok x, w') ∧
      (w'.classes = w₂.classes → w.Gains w' given x) := by
  obtain ⟨w', hclose, hhands⟩ :=
    hgains.exists_hands hopens hobjects hcurrent hready hresumes
  refine ⟨w', hclose, fun hclasses' => ?_⟩
  have hhanded := hgains.hand hhands hopens.ready.coherent hresumes.evolves.coherent hclasses'
  obtain ⟨o, _, ho'⟩ := hhands.self
  exact ⟨hhanded.of_same hopens.spares hobjects hroots hclasses, _, ho', rfl⟩

end Scope

/-! ## Copies -/

/-- What a copy holds is reached through it, unless it is an environment. -/
theorem Copies.gains (hcopies : w.Copies o x w') (hready : w.Ready) (hroots : w'.roots = w.roots)
    (hclasses : w'.classes = w.classes) (hcoherent' : w'.Coherent)
    (hknown : ∀ c ∈ o.classRefs, c ∈ w.classes) (hnot : ∀ f, o.payload ≠ .environment f)
    (hheld : ∀ y ∈ o.ownedRefs, ¬ w.Pooled y) : w.Gains w' o.ownedRefs x := by
  have hcoherent := hready.coherent
  have hown := Ownership.ofPool_of_ne hready.current_ne_collector
  have hpooled : w'.Pooled x := ⟨_, _, hcopies.get?_eq, hown⟩
  have hleaves : w.Leaves w' o.ownedRefs := by
    refine ⟨hroots, hclasses, fun y p hy hp => ?_⟩
    by_cases hmem : y ∈ o.ownedRefs
    · obtain ⟨q, hq, hshared⟩ := hcopies.shared y hmem
      cases hp.symm.trans hq
      cases hcase : p.header.ownership with
      | pool id => exact absurd ⟨p, id, hp, hcase⟩ (hheld y hmem)
      | single =>
          refine ⟨1, hshared.trans ?_, fun h => absurd hmem h⟩
          simp [Object.claimed, hcase, Ownership.claimed]
      | shared =>
          refine ⟨0, hshared.trans ?_, fun h => absurd hmem h⟩
          rw [Object.claimed_zero, Object.setOwnership, ← hcase]
    · refine ⟨0, ?_, fun _ => rfl⟩
      have hne : y ≠ x := fun heq => hcopies.new (heq ▸ hy.live)
      rw [hcopies.other y hne hmem, hready.tidy.get?_relieved hy, hp, Object.claimed_zero]
  constructor
  case owned => exact ⟨_, hcopies.get?_eq, hown⟩
  constructor
  case toLeaves => exact hleaves
  case new => exact Or.inl fun hx => hcopies.new hx.live
  case stands => exact Or.inl hpooled
  case only =>
    intro y p id hp hpool
    refine or_iff_not_imp_left.2 fun hne => ?_
    by_cases hmem : y ∈ o.ownedRefs
    · obtain ⟨q, _, hshared⟩ := hcopies.shared y hmem
      cases hp.symm.trans hshared
      cases hpool
    · rw [hcopies.other y hne hmem] at hp
      exact (hready.tidy.get?_relieved_iff.1 hp).1
  case taken =>
    rintro y hy ⟨p, id, hp, hpool⟩
    obtain ⟨q, _, hshared⟩ := hcopies.shared y hy
    cases hp.symm.trans hshared
    cases hpool
  case secure =>
    intro y hy
    rcases (Object.mem_ownedRefs_iff (x := x)).1 hy with hclass | ⟨s, howner, hs⟩
    · have hpinned := pinned_of_mem_classes hcoherent (hknown y (List.mem_cons_of_mem _ hclass))
      exact (hleaves.pinned hcoherent hpinned).secure hcoherent'
    · have hholds : w'.objects.Holds s y := ⟨_, howner ▸ hcopies.get?_eq, by cases s <;> exact hs⟩
      refine Arena.Attains.slot (howner ▸ hpooled.secure) hholds fun hbinding => ?_
      cases s with
      | binding e index =>
          cases hpayload : o.payload with
          | environment f => exact hnot f hpayload
          | _ => simp [Slot.peek?, hpayload] at hs
      | _ => exact hbinding

/-! ## Lists -/

section Lists

variable {d : Class} {items cells : List Handle}

/-- The items of a list are reached from its first cell. -/
theorem Strung.secure (hstrung : Strung d w l items cells) (hl : w.Secure l) (hy : y ∈ items) :
    w.Secure y := by
  induction hstrung with
  | null => cases hy
  | cell _ _ hitem _ hnext _ ih =>
      rcases List.mem_cons.1 hy with rfl | hy
      · exact hl.slot hitem id
      · exact ih (hl.slot hnext id) hy

theorem Strung.not_pooled (hstrung : Strung d w l items cells) (hcoherent : w.Coherent)
    (hy : y ∈ items) : ¬ w.Pooled y := by
  induction hstrung with
  | null => cases hy
  | cell _ _ hitem _ _ _ ih =>
      rcases List.mem_cons.1 hy with rfl | hy
      · exact not_pooled_of_holds hcoherent hitem
      · exact ih hy

/-- A list has taken over its items. -/
theorem Strings.furnishes (hstrings : Strings d w w' items l cells) (hready : w.Ready)
    (hkept : ∀ y ∈ items, w.Keeps [] y) (hclasses : w'.classes = w.classes) :
    w.Furnishes w' items l := by
  have hready' := hready.resume hstrings.resumes
  have hchain := hstrings.pooled hready hkept
  have hstands : w'.Pooled l ∨ w'.Pinned l := by
    rcases hstrings.front with hmem | rfl
    · obtain ⟨o, ho⟩ := hchain.strung.live hmem
      exact Or.inl ⟨o, _, ho, (hchain.owned l hmem o ho).trans (if_pos rfl)⟩
    · exact Or.inr hready'.equipped.null
  have hl : w'.Secure l := hstands.elim Pooled.secure (Pinned.secure hready'.coherent)
  constructor
  case toLeaves =>
    exact ⟨hstrings.builds.roots_eq, hclasses, fun x o hx ho =>
      ⟨_, hstrings.builds.stays x o ho ⟨hx, Or.inl hkept⟩, List.count_eq_zero.2⟩⟩
  case new =>
    rcases hstrings.front with hmem | rfl
    · exact Or.inl fun hl => hstrings.builds.new l hmem ⟨hl, Or.inl hkept⟩
    · exact Or.inr hready.equipped.null
  case stands => exact hstands
  case only =>
    intro y o id ho hpool
    rcases hstrings.builds.back y o ho with hmem | ⟨p, hp, rfl⟩
    · have hown := hchain.owned y hmem o ho
      split at hown
      · next heq => exact Or.inl heq
      · cases hown.symm.trans hpool
    · rw [(Ownership.iterate_claimed_eq_pool_iff.1 hpool).1, Object.claimed_zero]
      exact Or.inr hp
  case taken => exact fun y hy => hchain.strung.not_pooled hready'.coherent hy
  case secure => exact fun y hy => hchain.strung.secure hl hy

end Lists

end World

end ObjectSystem

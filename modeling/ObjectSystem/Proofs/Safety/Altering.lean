/-
# Altered objects

An object that a pool answers for may be altered. If it takes something up, other objects answer
for this less than before, and it is reached through the object that has it. Nothing else that a
collection would keep changes.
-/

import ObjectSystem.Proofs.Building
import ObjectSystem.Proofs.Shelter

namespace ObjectSystem

/-- Vectors of numbers hold nothing but what their attributes hold. -/
theorem Slot.peek?_setPayload {s : Slot} {o : Object} {payload : Payload}
    (hpayload : payload = o.payload ∨ o.payload.IsVector ∧ payload.IsVector) :
    s.peek? { o with payload } = s.peek? o := by
  rcases hpayload with rfl | ⟨hbefore, hafter⟩
  · rfl
  rcases o with ⟨_, _, _, _, old⟩
  cases s with
  | attr x index => cases index <;> rfl
  | element | binding | classAttr | signature =>
      cases old <;> cases hbefore <;> cases payload <;> cases hafter <;> rfl

theorem Slot.environment_of_storeIn {s : Slot} {o : Object} {value : Option Handle} {f : Frame}
    (hnot : ¬ s.IsBinding) (hpayload : (s.storeIn value o).payload = .environment f) :
    o.payload = .environment f := by
  cases s with
  | attr x index => cases index <;> exact hpayload
  | binding => exact absurd trivial hnot
  | element | classAttr | signature =>
      rcases o with ⟨_, _, _, _, payload⟩
      cases payload <;> cases hpayload
      rfl

namespace World

variable {w w' base : World} {env x y v : Handle} {names : Set Symbol} {o : Object} {s : Slot}
  {given : List Handle} {id : PoolId}

/-- One object has been altered, and what was given is reached through it. -/
structure Alters (w w' : World) (x : Handle) (given : List Handle) : Prop
    extends w.Supplies w' given where
  roots_eq : w'.roots = w.roots
  classes_eq : w'.classes = w.classes
  self : ∀ o, w.objects.get? x = some o →
    ∃ o', w'.objects.get? x = some o' ∧ o'.header = o.header
  other : ∀ y, y ≠ x → w'.objects.get? y = (w.objects.get? y).map (·.claimed (given.count y))

section Alters

variable (halters : w.Alters w' x given)
include halters

theorem Alters.same (hy : y ≠ x) (hnot : y ∉ given) :
    w'.objects.get? y = w.objects.get? y := by
  rw [halters.other y hy, List.count_eq_zero.2 hnot]
  simp

/-- Pools answer for nothing that was given, and for what they answered for before. -/
theorem Alters.back (hy : y ≠ x) (ho : w'.objects.get? y = some o)
    (hown : o.header.ownership = .pool id) : y ∉ given ∧ w.objects.get? y = some o := by
  have hnot : y ∉ given := by
    intro hmem
    rw [halters.other y hy] at ho
    obtain ⟨p, _, rfl⟩ := Option.map_eq_some_iff.1 ho
    exact (List.count_pos_iff.2 hmem).ne' (Ownership.iterate_claimed_eq_pool_iff.1 hown).1
  exact ⟨hnot, halters.same hy hnot ▸ ho⟩

/-- An object that has come in later may be altered. -/
theorem Alters.passes (hpasses : Passes env names [] base w) (hcoherent : w.Coherent)
    (hx : w.Pooled x) (hnew : base.Sheltered Set.univ env names x → base.Pinned x)
    (hgiven : ∀ y ∈ given, ¬ base.Pooled y) : Passes env names [] base w' where
  roots_eq := halters.roots_eq.trans hpasses.roots_eq
  classes_eq := halters.classes_eq.trans hpasses.classes_eq
  stays within hwithin y o hy ho := by
    obtain ⟨o', ho', hsame, hpool, hshared⟩ := hpasses.stays within hwithin y o hy ho
    have hne : y ≠ x := by
      rintro rfl
      obtain ⟨p, hp, hpinned⟩ := hnew (hy.rebase fun _ _ _ => trivial)
      cases ho.symm.trans hp
      exact Pinned.not_pooled hcoherent ⟨o', ho', hsame.pinned_eq.trans hpinned⟩ hx
    refine ⟨o'.claimed (given.count y), by rw [halters.other y hne, ho', Option.map_some],
      hsame.trans (Object.sameBut_setHeader rfl), fun hnot id hown => ?_, fun h => ?_⟩
    · rw [List.count_eq_zero.2 fun hmem => hgiven y hmem ⟨o, id, ho, hown⟩, Object.claimed_zero]
      exact hpool hnot id hown
    · rw [Object.claimed_of_shared (hshared h), hshared h]

end Alters

/-- The payload of one object has changed. If it is another one, both are vectors of numbers. -/
structure Retouches (w w' : World) (x : Handle) : Prop where
  roots_eq : w'.roots = w.roots
  classes_eq : w'.classes = w.classes
  other : ∀ y, y ≠ x → w'.objects.get? y = w.objects.get? y
  self : ∀ o, w.objects.get? x = some o → ∃ payload, w'.objects.get? x = some { o with payload } ∧
    (payload = o.payload ∨ o.payload.IsVector ∧ payload.IsVector)

theorem Retouches.alters (hretouches : w.Retouches w' x) (hcoherent : w.Coherent)
    (hx : w.Pooled x) : w.Alters w' x [] := by
  obtain ⟨p, id, hp, hown⟩ := hx
  obtain ⟨payload, hp', hpayload⟩ := hretouches.self p hp
  constructor
  case toSupplies =>
    constructor
    case stands =>
      intro y hy _
      by_cases heq : y = x
      · exact heq ▸ .pooled trivial ⟨_, id, hp', hown⟩
      · exact hy.of_same hcoherent hretouches.roots_eq (hretouches.other y heq)
    case holds =>
      rintro t y - ⟨o, ho, hpeek⟩
      by_cases ht : t.owner = x
      · rw [ht, hp] at ho
        cases ho
        exact ⟨_, ht ▸ hp', (Slot.peek?_setPayload hpayload).trans hpeek⟩
      · exact ⟨o, (hretouches.other _ ht).trans ho, hpeek⟩
    case frames =>
      intro e f _ hf
      obtain ⟨o, ho, hframe⟩ := frame_eq_ok_iff.1 hf
      by_cases he : e = x
      · subst he
        cases hp'.symm.trans ho
        rcases hpayload with rfl | ⟨_, hvector⟩
        · exact frame_eq_ok_iff.2 ⟨p, hp, hframe⟩
        · exact absurd hframe (hvector.ne_environment f)
      · exact frame_eq_ok_iff.2 ⟨o, (hretouches.other e he).symm.trans ho, hframe⟩
    case secure => exact fun y hy => absurd hy List.not_mem_nil
  case roots_eq => exact hretouches.roots_eq
  case classes_eq => exact hretouches.classes_eq
  case self =>
    intro o ho
    cases hp.symm.trans ho
    exact ⟨_, hp', rfl⟩
  case other =>
    intro y hy
    rw [hretouches.other y hy]
    simp

/-- An empty slot of an object may take a value up. -/
theorem TakesUp.alters (htakes : w.TakesUp w' s v) (hne : v ≠ s.owner) (hcoherent : w.Coherent)
    (howner : w.Pooled s.owner) (hnot : ¬ s.IsBinding) (hclasses : w'.classes = w.classes) :
    w.Alters w' s.owner [v] := by
  obtain ⟨p, id, hp, hown⟩ := howner
  obtain ⟨p', hp', hheader, _, hslots⟩ := htakes.stored hne hp
  obtain ⟨q, hq, hempty⟩ := htakes.empty
  cases hp.symm.trans hq
  have howner' : w'.Pooled s.owner := ⟨p', id, hp', hheader ▸ hown⟩
  constructor
  case toSupplies =>
    constructor
    case stands =>
      intro x hx hxv
      by_cases heq : x = s.owner
      · exact heq ▸ .pooled trivial howner'
      · refine hx.of_same hcoherent htakes.moves.roots_eq ?_
        rw [htakes.other x heq, List.count_eq_zero.2 hxv]
        simp
    case holds =>
      rintro t y - ⟨o, ho, hpeek⟩
      by_cases ht : t.owner = s.owner
      · rw [ht, hp] at ho
        cases ho
        refine ⟨p', ht ▸ hp', ?_⟩
        rw [hslots t ht, if_neg, hpeek]
        rintro rfl
        cases hempty.symm.trans hpeek
      · exact ⟨_, by rw [htakes.other _ ht, ho, Option.map_some],
          (Object.peek?_claimed _ _ _).trans hpeek⟩
    case frames =>
      intro e f _ hf
      obtain ⟨o', ho', hpayload⟩ := frame_eq_ok_iff.1 hf
      by_cases he : e = s.owner
      · subst he
        cases (htakes.owner p hp).symm.trans ho'
        exact frame_eq_ok_iff.2
          ⟨p, hp, Slot.environment_of_storeIn (o := p.claimed _) hnot hpayload⟩
      · rw [htakes.other e he] at ho'
        obtain ⟨o, ho, rfl⟩ := Option.map_eq_some_iff.1 ho'
        exact frame_eq_ok_iff.2 ⟨o, ho, hpayload⟩
    case secure =>
      intro y hy
      rw [List.mem_singleton.1 hy]
      refine howner'.secure.slot ⟨p', hp', ?_⟩ hnot
      rw [hslots s rfl, if_pos rfl]
  case roots_eq => exact htakes.moves.roots_eq
  case classes_eq => exact hclasses
  case self =>
    intro o ho
    cases hp.symm.trans ho
    exact ⟨p', hp', hheader⟩
  case other => exact htakes.other

end World

end ObjectSystem

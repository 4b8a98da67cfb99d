/-
# What is written is there

Writing a slot puts the new value where it can be read again, and writing it once more
changes nothing, unless the write frees the very object that the slot is in. It does so
exactly if this object hangs on what the slot held before: a chain of objects, each held
by one slot, leads from the old value back to the object.
-/

import Mathlib.Data.Prod.Basic
import ObjectSystem.Proofs.Reachable
import ObjectSystem.Proofs.Reclaiming

namespace ObjectSystem

namespace Arena

/-- An object hangs on another if a chain of objects leads to it from there, in which each
object is held by one slot. One object may be taken out of consideration. -/
inductive Hangs (a : Arena Object) (except : Option Handle) (x : Handle) : Handle → Prop where
  | self {o : Object} (hx : a.get? x = some o) (hsingle : o.header.ownership = .single)
      (hne : except ≠ some x) : Hangs a except x x
  | next {y z : Handle} {o p : Object} (hhangs : Hangs a except x y) (hy : a.get? y = some o)
      (hmem : z ∈ o.ownedRefs) (hz : a.get? z = some p) (hsingle : p.header.ownership = .single)
      (hne : except ≠ some z) : Hangs a except x z

theorem Hangs.ne {a : Arena Object} {except : Option Handle} {x y : Handle}
    (hhangs : a.Hangs except x y) : except ≠ some y := by
  cases hhangs with
  | self _ _ hne => exact hne
  | next _ _ _ _ _ hne => exact hne

theorem Hangs.start_ne {a : Arena Object} {except : Option Handle} {x y : Handle}
    (hhangs : a.Hangs except x y) : except ≠ some x := by
  induction hhangs with
  | self _ _ hne => exact hne
  | next _ _ _ _ _ _ ih => exact ih

end Arena

namespace World

variable {w : World} {s : Slot} {value : Option Handle} {y : Handle} {o p : Object}

/-- A store changes one object, and not its header. -/
theorem get?_store_of_get? (s : Slot) (value : Option Handle) (ho : w.objects.get? y = some o) :
    ∃ p, (w.store s value).objects.get? y = some p ∧ p.header = o.header ∧
      (y ≠ s.owner → p = o) := by
  show ∃ p, (w.objects.modify _ _).get? y = some p ∧ _
  rw [Arena.get?_modify, ho]
  split
  · next heq => exact ⟨_, rfl, Slot.header_storeIn _ _ _, fun hne => absurd heq hne⟩
  · exact ⟨o, rfl, rfl, fun _ => rfl⟩

theorem get?_of_get?_store (hp : (w.store s value).objects.get? y = some p) :
    ∃ o, w.objects.get? y = some o ∧ o.header = p.header ∧ (y ≠ s.owner → o = p) := by
  change (w.objects.modify _ _).get? y = some p at hp
  rw [Arena.get?_modify] at hp
  split at hp
  · next heq =>
      obtain ⟨o, ho, rfl⟩ := Option.map_eq_some_iff.1 hp
      exact ⟨o, ho, (Slot.header_storeIn _ _ _).symm, fun hne => absurd heq hne⟩
  · exact ⟨p, hp, rfl, fun _ => rfl⟩

end World

namespace Action

open World

variable {w w₁ : World} {s : Slot} {value : Option Handle} {x y : Handle} {o p : Object}

/-- Claiming the new value changes no other object, before a store or after it. -/
theorem Claims.get?_store_of_ne (hclaims : Claims w w₁ value) (hne : value ≠ some y) :
    (w₁.store s value).objects.get? y = (w.store s value).objects.get? y := by
  show (w₁.objects.modify _ _).get? y = (w.objects.modify _ _).get? y
  rw [Arena.get?_modify, Arena.get?_modify, hclaims.other y hne]

/-- Claiming the new value changes headers at most, before a store or after it. -/
theorem Claims.get?_store (hclaims : Claims w w₁ value)
    (hlive : ∀ x, value = some x → w.objects.Live x)
    (hy : (w₁.store s value).objects.get? y = some p) :
    ∃ q, (w.store s value).objects.get? y = some q ∧ p = { q with header := p.header } := by
  by_cases hvalue : value = some y
  · obtain ⟨q, hq⟩ := hlive y hvalue
    obtain ⟨h, hq', _⟩ := hclaims.header y q hq
    change (w₁.objects.modify _ _).get? y = some p at hy
    show ∃ q, (w.objects.modify _ _).get? y = some q ∧ _
    rw [Arena.get?_modify, hq'] at hy
    rw [Arena.get?_modify, hq]
    split at hy
    · next heq =>
        refine ⟨s.storeIn value q, by rw [if_pos heq, Option.map_some], ?_⟩
        have hp : p = s.storeIn value { q with header := h } := (Option.some.inj hy).symm
        rw [Slot.storeIn_setHeader] at hp
        rw [hp]
    · next heq =>
        refine ⟨q, by rw [if_neg heq], ?_⟩
        rw [← Option.some.inj hy]
  · exact ⟨p, by rw [← hclaims.get?_store_of_ne hvalue, hy], rfl⟩

/-- If the object that a slot is in is still there after a write, the slot holds the new
value. -/
theorem Claims.peek?_written {old : Option Handle} (hclaims : Claims w w₁ value)
    (ho : w.objects.get? s.owner = some o) (hs : s.peek? o = some old)
    (hp : (written w₁ s old value).objects.get? s.owner = some p) : s.peek? p = some value := by
  obtain ⟨h, ho₁, _⟩ := hclaims.header _ o ho
  have hs₁ : s.peek? { o with header := h } = some old := by
    cases s <;> exact hs
  have hputs : w₁.objects.Puts (w₁.store s value).objects s.owner
      (s.storeIn value { o with header := h }) := Arena.puts_modify ho₁
  cases hputs.self.symm.trans (get?_of_get?_reclaim hp)
  rw [Slot.peek?_storeIn hs₁ rfl, if_pos rfl]

/-- What a slot had answered for may be freed with the object that the slot is in, if this
object hangs on it. -/
theorem Claims.hangs_of_falls {z : Handle} (hclaims : Claims w w₁ value)
    (hne : value ≠ some x)
    (hfalls : (w₁.store s value).objects.Falls
      ([x].filter (isSingle (w₁.store s value).objects)) z) :
    w.objects.Hangs value x z ∨ w.objects.Hangs value x s.owner := by
  have hback : ∀ {y p}, value ≠ some y → (w₁.store s value).objects.get? y = some p →
      ∃ q, w.objects.get? y = some q ∧ q.header = p.header ∧ (y ≠ s.owner → q = p) := by
    intro y p hy hp
    rw [hclaims.get?_store_of_ne hy] at hp
    exact get?_of_get?_store hp
  induction hfalls with
  | @listed z p hmem hp _ =>
      rw [List.mem_filter, List.mem_singleton, isSingle_iff] at hmem
      obtain ⟨rfl, p', hp', hsingle⟩ := hmem
      obtain ⟨q, hq, hheader, _⟩ := hback hne hp'
      exact Or.inl (.self hq (by rw [hheader, hsingle]) hne)
  | @held y z p p' _ hp hmem hp' _ hsingle ih =>
      rcases ih with hhangs | howner
      · by_cases heq : y = s.owner
        · exact Or.inr (heq ▸ hhangs)
        · obtain ⟨q, hq, _, hsame⟩ := hback hhangs.ne hp
          cases hsame heq
          by_cases hvalue : value = some z
          · -- The new value is shared, or no slot but the one that is written holds it.
            obtain ⟨r, hr, hready⟩ := hclaims.ready z hvalue
            have hrp : p'.header = r.header := by
              obtain ⟨r', hr', hheader, _⟩ := get?_of_get?_store hp'
              cases hr'.symm.trans hr
              exact hheader.symm
            have hunheld : ∀ t, ¬ w₁.objects.Holds t z := by
              rcases hready with hshared | ⟨_, hunheld⟩
              · rw [← hrp, hsingle] at hshared
                cases hshared
              · exact hunheld
            have hy : w₁.objects.get? y = some p := by rw [hclaims.other y hhangs.ne, hq]
            rcases hclaims.coherent.linked.ref_shared_or_held hy (List.mem_cons_of_mem _ hmem) hr
              with hshared | ⟨t, _, ht⟩
            · rw [← hrp, hsingle] at hshared
              cases hshared
            · exact absurd ht (hunheld t)
          · obtain ⟨q', hq', hheader, _⟩ := hback hvalue hp'
            exact Or.inl (hhangs.next hq hmem hq' (by rw [hheader, hsingle]) hvalue)
      · exact Or.inr howner

/-- If the object that a slot is in hangs on what the slot had answered for, it is freed
with it. -/
theorem Claims.falls_of_hangs {z : Handle} (hclaims : Claims w w₁ value)
    (hcoherent : w.Coherent) (hhangs : w.objects.Hangs value x z) :
    (w₁.store s value).objects.Falls
        ([x].filter (isSingle (w₁.store s value).objects)) z ∨
      (w₁.store s value).objects.Falls
        ([x].filter (isSingle (w₁.store s value).objects)) s.owner := by
  have hforth : ∀ {y q}, value ≠ some y → w.objects.get? y = some q →
      ∃ p, (w₁.store s value).objects.get? y = some p ∧ p.header = q.header ∧
        (y ≠ s.owner → p = q) := by
    intro y q hy hq
    rw [hclaims.get?_store_of_ne hy]
    exact get?_store_of_get? s value hq
  have hunpinned : ∀ {y q}, w.objects.get? y = some q → q.header.ownership = .single →
      q.header.pinned = false :=
    fun hq hsingle => hcoherent.linked.unpinned hq (by simp [hsingle])
  induction hhangs with
  | @self q hq hsingle hne =>
      obtain ⟨p, hp, hheader, _⟩ := hforth hne hq
      refine Or.inl (.listed ?_ hp (by rw [hheader, hunpinned hq hsingle]))
      rw [List.mem_filter, List.mem_singleton, isSingle_iff]
      exact ⟨rfl, p, hp, by rw [hheader, hsingle]⟩
  | @next y z q q' hhangs hq hmem hq' hsingle hne ih =>
      rcases ih with hfalls | howner
      · by_cases heq : y = s.owner
        · exact Or.inr (heq ▸ hfalls)
        · obtain ⟨p, hp, _, hsame⟩ := hforth hhangs.ne hq
          cases hsame heq
          obtain ⟨p', hp', hheader, _⟩ := hforth hne hq'
          exact Or.inl (hfalls.held hp hmem hp' (by rw [hheader, hunpinned hq' hsingle])
            (by rw [hheader, hsingle]))
      · exact Or.inr howner

end Action

namespace World

variable {settings : Settings} {w w' : World} {s : Slot} {old value : Option Handle} {o : Object}

/-- The object that a slot is in hangs on what the slot holds. Another value in the slot
frees it. -/
def Undercuts (w : World) (s : Slot) (value : Option Handle) : Prop :=
  ∃ x, w.read s = .ok (some x) ∧ w.objects.Hangs value x s.owner

/-- A slot holds a value that is live, and writing the value once more changes nothing. -/
structure Stored (w : World) (s : Slot) (value : Option Handle) : Prop where
  owner_live : ∃ o, w.objects.get? s.owner = some o
  read_eq : w.read s = .ok value
  value_live : ∀ x, value = some x → ∃ o, w.objects.get? x = some o
  set_eq : (Action.set s value).perform w = (.ok (), w)

theorem read_eq_ok_of_peek? (ho : w.objects.get? s.owner = some o) (hs : s.peek? o = some value) :
    w.read s = .ok value := by
  rw [read, object_eq_ok ho]
  exact (Slot.readIn_eq_ok_iff (Slot.isWritable_of_peek? hs)).2 hs

theorem stored_of_peek? (hcoherent : w.Coherent) (ho : w.objects.get? s.owner = some o)
    (hs : s.peek? o = some value) : w.Stored s value where
  owner_live := ⟨o, ho⟩
  read_eq := read_eq_ok_of_peek? ho hs
  value_live x hx := hcoherent.linked.held_live s x ⟨o, ho, hx ▸ hs⟩
  set_eq := by
    unfold Action.set
    split
    · next x => exact absurd rfl (Slot.isWritable_of_peek? hs x)
    · rw [Action.perform_query_bind, read_eq_ok_of_peek? ho hs]
      simp

/-- An exchange stores the new value, unless it frees the object that the slot is in. -/
theorem exchange_stores (hcoherent : w.Coherent) (ho : w.objects.get? s.owner = some o)
    (hs : s.peek? o = some old) (hne : old ≠ value)
    (hlive : ∀ x, value = some x → w.objects.Live x)
    (hperform : (Action.exchange s old value).perform w = (.ok (), w')) :
    (w.Undercuts s value → w'.objects.get? s.owner = none) ∧
      (¬ w.Undercuts s value → w'.Stored s value) := by
  obtain ⟨w₁, _, hclaims, hexchange, hevolves⟩ :=
    Action.exchange_spec hcoherent ho hs hne hlive
  cases hexchange.symm.trans hperform
  have hread : w.read s = .ok old := read_eq_ok_of_peek? ho hs
  have hiff : w.Undercuts s value ↔ (w₁.store s value).objects.Falls
      (old.toList.filter (isSingle (w₁.store s value).objects)) s.owner := by
    constructor
    · rintro ⟨x, hx, hhangs⟩
      cases hread.symm.trans hx
      exact (hclaims.falls_of_hangs hcoherent hhangs).elim id id
    · intro hfalls
      cases old with
      | none => exact absurd hfalls Arena.not_falls_nil
      | some x =>
          exact ⟨x, hread, (hclaims.hangs_of_falls (Ne.symm hne) hfalls).elim id id⟩
  constructor
  · intro hundercuts
    refine Option.eq_none_iff_forall_ne_some.2 fun p hp => ?_
    exact (get?_reclaim.1 hp).2 (hiff.1 hundercuts)
  · intro hspared
    obtain ⟨h, ho₁, _⟩ := hclaims.header _ o ho
    have hstays := get?_reclaim.2 ⟨(Arena.puts_modify ho₁).self,
      fun hfalls => hspared (hiff.2 hfalls)⟩
    exact stored_of_peek? hevolves.coherent hstays (hclaims.peek?_written ho hs hstays)

/-- A write that succeeds stores the value, unless it frees the object that the slot
is in. -/
theorem stores_of_set (hcoherent : w.Coherent)
    (hset : (Action.set s value).perform w = (.ok (), w')) :
    (w.Undercuts s value → w'.objects.get? s.owner = none) ∧
      (¬ w.Undercuts s value → w'.Stored s value) := by
  rcases Action.set_spec w s value with ⟨e, hfails, _⟩ | ⟨o, old, ho, hs, hcases⟩
  · cases hfails.symm.trans hset
  · rcases hcases with ⟨rfl, hsame⟩ | ⟨hne, hlive, hexchange⟩
    · cases hsame.symm.trans hset
      have hspared : ¬ w.Undercuts s old := by
        rintro ⟨x, hx, hhangs⟩
        cases (read_eq_ok_of_peek? ho hs).symm.trans hx
        exact hhangs.start_ne rfl
      exact ⟨fun hundercuts => absurd hundercuts hspared,
        fun _ => stored_of_peek? hcoherent ho hs⟩
    · exact exchange_stores hcoherent ho hs hne hlive (hexchange.symm.trans hset)

/-- In every world that respectful operations lead to, a write that succeeds stores the
value, whatever the slot, unless it frees the object that the slot is in. -/
theorem Respectful.set_stores (hrespectful : Respectful settings w) (hfits : w.Fits)
    (hset : (Operation.set s value).perform w = (.ok (), w')) :
    (w.Undercuts s value → w'.objects.get? s.owner = none) ∧
      (¬ w.Undercuts s value → w'.Stored s value) :=
  stores_of_set (hrespectful.coherent hfits).1 hset

/-- A new world in which a scope was opened and three objects were made: two vectors that
hold each other, which nothing else holds, and a number. -/
def withRing : World :=
  let w := (Operation.openScope.perform initial).2
  let w := ((Operation.objectVector 1).perform w).2
  let w := ((Operation.objectVector 1).perform w).2
  let w := ((Operation.realVector 1).perform w).2
  let w := ((Operation.set (.element (Builtin.nth 25) 0) (some (Builtin.nth 26))).perform w).2
  ((Operation.set (.element (Builtin.nth 26) 0) (some (Builtin.nth 25))).perform w).2

theorem respectful_withRing : Respectful {} withRing := by
  have hmade := (((respectful_initial.step .openScope trivial).step (.objectVector 1) trivial).step
    (.objectVector 1) trivial).step (.realVector 1) trivial
  exact (hmade.step (.set (.element (Builtin.nth 25) 0) (some (Builtin.nth 26))) trivial).step
    (.set (.element (Builtin.nth 26) 0) (some (Builtin.nth 25))) trivial

/-- The vector that holds the other one hangs on it. -/
theorem undercuts_withRing :
    withRing.Undercuts (.element (Builtin.nth 25) 0) (some (Builtin.nth 27)) := by
  have hread : withRing.read (.element (Builtin.nth 25) 0) = .ok (some (Builtin.nth 26)) := by
    decide +kernel
  have hsecond : (withRing.objects.get? (Builtin.nth 26)).any (fun o =>
      o.header.ownership == .single && o.ownedRefs.contains (Builtin.nth 25)) = true := by
    decide +kernel
  have hfirst : (withRing.objects.get? (Builtin.nth 25)).any (·.header.ownership == .single) =
      true := by decide +kernel
  obtain ⟨o, ho, hall⟩ := (Option.any_eq_true _ _).1 hsecond
  obtain ⟨hsingle, hholds⟩ := Bool.and_eq_true_iff.1 hall
  obtain ⟨p, hp, hsingle'⟩ := (Option.any_eq_true _ _).1 hfirst
  exact ⟨Builtin.nth 26, hread, .next (.self ho (beq_iff_eq.1 hsingle) (by decide)) ho
    (List.contains_iff_mem.1 hholds) hp (beq_iff_eq.1 hsingle') (by decide)⟩

/-- The number can be written where nothing was before. Written into one of the vectors
that hold each other, it takes the place of the other one, which frees them both. -/
theorem Respectful.set_stores_ring :
    ((Operation.set (.attr Builtin.globalEnv 1) (some (Builtin.nth 27))).perform withRing).2.Stored
        (.attr Builtin.globalEnv 1) (some (Builtin.nth 27)) ∧
      ((Operation.set (.element (Builtin.nth 25) 0) (some (Builtin.nth 27))).perform
        withRing).2.objects.get? (Builtin.nth 25) = none := by
  have hfits : withRing.Fits := ⟨by decide +kernel, by decide +kernel⟩
  have hok : ∀ s ∈ [Slot.attr Builtin.globalEnv 1, .element (Builtin.nth 25) 0],
      ((Operation.set s (some (Builtin.nth 27))).perform withRing).1 = .ok () := by
    decide +kernel
  have hset : ∀ s ∈ [Slot.attr Builtin.globalEnv 1, .element (Builtin.nth 25) 0],
      (Operation.set s (some (Builtin.nth 27))).perform withRing =
        (.ok (), ((Operation.set s (some (Builtin.nth 27))).perform withRing).2) :=
    fun s hs => Prod.fst_eq_iff.1 (hok s hs)
  have hempty : withRing.read (.attr Builtin.globalEnv 1) = .ok none := by decide +kernel
  obtain ⟨_, hstored⟩ := respectful_withRing.set_stores hfits
    (hset (.attr Builtin.globalEnv 1) List.mem_cons_self)
  obtain ⟨hgone, _⟩ := respectful_withRing.set_stores hfits
    (hset (.element (Builtin.nth 25) 0) (List.mem_cons_of_mem _ List.mem_cons_self))
  refine ⟨hstored ?_, hgone undercuts_withRing⟩
  rintro ⟨x, hx, _⟩
  cases hempty.symm.trans hx

end World

end ObjectSystem

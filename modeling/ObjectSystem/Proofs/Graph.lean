/-
# The graph of references

The objects of an arena refer to each other by what their slots hold and by the
classes that they name. `Linked` says what holds between references and headers
at all times: no reference is stale, all classes that objects name are pinned,
one slot at most holds an object that a slot answers for, and no slot holds an
object that a pool answers for.

While an object is copied, what it holds is held once more than its header says.
`Linked` lists the objects of which this is so.
-/

import ObjectSystem.Proofs.Arena
import ObjectSystem.Proofs.Slot

namespace ObjectSystem

namespace Arena

variable {a a' : Arena Object} {s t : Slot} {x y : Handle} {o : Object}

/-- A handle names an object. -/
def Live (a : Arena Object) (x : Handle) : Prop :=
  ∃ o, a.get? x = some o

/-- A slot of an object in the arena holds a reference. -/
def Holds (a : Arena Object) (s : Slot) (x : Handle) : Prop :=
  ∃ o, a.get? s.owner = some o ∧ s.peek? o = some (some x)

/-- Two arenas are the same but for the object under one handle. -/
def Puts (a a' : Arena Object) (x : Handle) (o : Object) : Prop :=
  ∀ y, a'.get? y = if y = x then some o else a.get? y

theorem Puts.self (hputs : a.Puts a' x o) : a'.get? x = some o := by
  rw [hputs, if_pos rfl]

theorem Puts.other (hputs : a.Puts a' x o) (hne : y ≠ x) : a'.get? y = a.get? y := by
  rw [hputs, if_neg hne]

/-- What is under a handle afterwards is the exchanged object, or was there before. -/
theorem Puts.back {p : Object} (hputs : a.Puts a' x o) (hp : a'.get? y = some p) :
    y = x ∧ p = o ∨ y ≠ x ∧ a.get? y = some p := by
  by_cases heq : y = x
  · subst heq
    exact Or.inl ⟨rfl, Option.some.inj (hp.symm.trans hputs.self)⟩
  · exact Or.inr ⟨heq, (hputs.other heq).symm.trans hp⟩

theorem Puts.live (hputs : a.Puts a' x o) (hy : a.Live y) : a'.Live y := by
  by_cases heq : y = x
  · exact ⟨o, heq ▸ hputs.self⟩
  · obtain ⟨o', ho'⟩ := hy
    exact ⟨o', by rw [hputs.other heq, ho']⟩

theorem puts_modify {change : Object → Object} (hx : a.get? x = some o) :
    a.Puts (a.modify x change) x (change o) := by
  intro y
  rw [get?_modify]
  split
  · next heq => rw [heq, hx, Option.map_some]
  · rfl

theorem modify_of_stale {change : Object → Object} (hx : a.get? x = none) (y : Handle) :
    (a.modify x change).get? y = a.get? y := by
  rw [get?_modify]
  split
  · next heq => rw [heq, hx, Option.map_none]
  · rfl

/-- What the slots hold when one object was exchanged. -/
theorem Puts.holds_iff (hputs : a.Puts a' x o) :
    a'.Holds s y ↔
      if s.owner = x then s.peek? o = some (some y) else a.Holds s y := by
  unfold Holds
  rw [hputs]
  split
  · simp
  · rfl

/-- What the slots hold after storing into one of them. -/
theorem Puts.holds_store_iff {old value : Option Handle} (ho : a.get? s.owner = some o)
    (hs : s.peek? o = some old) (hputs : a.Puts a' s.owner (s.storeIn value o)) :
    a'.Holds t y ↔ if t = s then value = some y else a.Holds t y := by
  rw [hputs.holds_iff]
  by_cases howner : t.owner = s.owner
  · rw [if_pos howner, Slot.peek?_storeIn hs howner]
    by_cases heq : t = s
    · simp [heq]
    · rw [if_neg heq, if_neg heq, Holds, howner, ho]
      simp
  · rw [if_neg howner, if_neg]
    exact fun heq => howner (by rw [heq])

end Arena

/-- An object with a second state in which it answers for no more references than
before, apart from classes that are known anyway. -/
structure Object.ReducesTo (known : Handle → Prop) (o o' : Object) : Prop where
  ownership_eq : o'.header.ownership = o.header.ownership
  pinned_eq : o'.header.pinned = o.header.pinned
  classes_known : ∀ c ∈ o'.classRefs, known c
  held : ∀ (s : Slot) (y : Handle), s.peek? o' = some (some y) → s.peek? o = some (some y)
  isClass : o.IsClass → o'.IsClass

/-- References and headers of an arena agree. -/
structure Linked (a : Arena Object) (known : Handle → Prop) (loose : List Handle) : Prop where
  held_live : ∀ s y, a.Holds s y → a.Live y
  classes_known : ∀ x o, a.get? x = some o → ∀ c ∈ o.classRefs, known c
  known_class : ∀ c, known c → ∃ o, a.get? c = some o ∧ o.header.pinned = true ∧ o.IsClass
  pinned_shared : ∀ x o, a.get? x = some o → o.header.pinned = true →
    o.header.ownership = .shared
  single_held_once : ∀ x o, a.get? x = some o → o.header.ownership = .single → x ∉ loose →
    ∀ s t, a.Holds s x → a.Holds t x → s = t
  pool_unheld : ∀ x o id, a.get? x = some o → o.header.ownership = .pool id →
    ∀ s, ¬ a.Holds s x

namespace Linked

variable {a a' : Arena Object} {known : Handle → Prop} {loose : List Handle} {s : Slot}
  {x y : Handle} {o o' : Object}

theorem known_live (hlinked : Linked a known loose) (hx : known x) : a.Live x := by
  obtain ⟨o, ho, _⟩ := hlinked.known_class x hx
  exact ⟨o, ho⟩

/-- What is pinned is shared, so what is not shared is not pinned. -/
theorem unpinned (hlinked : Linked a known loose) (hx : a.get? x = some o)
    (hown : o.header.ownership ≠ .shared) : o.header.pinned = false := by
  rw [← Bool.not_eq_true]
  exact fun hpinned => hown (hlinked.pinned_shared x o hx hpinned)

/-- Every reference of an object leads to an object. -/
theorem ref_live (hlinked : Linked a known loose) (hx : a.get? x = some o)
    (hy : y ∈ o.refs) : a.Live y := by
  rcases (Object.mem_refs_iff (x := x)).1 hy with hclass | ⟨s, rfl, hs⟩
  · exact hlinked.known_live (hlinked.classes_known x o hx y hclass)
  · exact hlinked.held_live s y ⟨o, hx, hs⟩

/-- Of the references of an object, the classes are shared and the others are
held. -/
theorem ref_shared_or_held (hlinked : Linked a known loose) (hx : a.get? x = some o)
    (hy : y ∈ o.refs) (ho' : a.get? y = some o') :
    o'.header.ownership = .shared ∨ ∃ s, s.owner = x ∧ a.Holds s y := by
  rcases (Object.mem_refs_iff (x := x)).1 hy with hclass | ⟨s, rfl, hs⟩
  · obtain ⟨c, hc, hpinned, _⟩ := hlinked.known_class y (hlinked.classes_known x o hx y hclass)
    cases hc.symm.trans ho'
    exact Or.inl (hlinked.pinned_shared y _ ho' hpinned)
  · exact Or.inr ⟨s, rfl, o, hx, hs⟩

theorem empty : Linked ({} : Arena Object) (fun _ => False) [] := by
  constructor <;> simp [Arena.Holds, Arena.get?_def]

/-- Objects may go, and the ones that stay may let references go, as long as all
that is still held or known stays. -/
theorem reduce (hlinked : Linked a known loose)
    (hold : ∀ x o', a'.get? x = some o' → ∃ o, a.get? x = some o ∧ o.ReducesTo known o')
    (hheld : ∀ s y, a'.Holds s y → a'.Live y) (hknown : ∀ c, known c → a'.Live c) :
    Linked a' known loose := by
  have hholds : ∀ s y, a'.Holds s y → a.Holds s y := by
    rintro s y ⟨o', ho', hs⟩
    obtain ⟨o, ho, hreduces⟩ := hold _ _ ho'
    exact ⟨o, ho, hreduces.held s y hs⟩
  constructor
  case held_live => exact hheld
  case classes_known =>
      intro x o' ho'
      obtain ⟨o, _, hreduces⟩ := hold x o' ho'
      exact hreduces.classes_known
  case known_class =>
      intro c hc
      obtain ⟨o', ho'⟩ := hknown c hc
      obtain ⟨o, ho, hreduces⟩ := hold c o' ho'
      obtain ⟨p, hp, hpinned, hclass⟩ := hlinked.known_class c hc
      cases hp.symm.trans ho
      exact ⟨o', ho', hreduces.pinned_eq.trans hpinned, hreduces.isClass hclass⟩
  case pinned_shared =>
      intro x o' ho' hpinned
      obtain ⟨o, ho, hreduces⟩ := hold x o' ho'
      rw [hreduces.ownership_eq]
      exact hlinked.pinned_shared x o ho (hreduces.pinned_eq ▸ hpinned)
  case single_held_once =>
      intro x o' ho' hsingle hloose s t hs ht
      obtain ⟨o, ho, hreduces⟩ := hold x o' ho'
      exact hlinked.single_held_once x o ho (hreduces.ownership_eq ▸ hsingle) hloose s t
        (hholds s x hs) (hholds t x ht)
  case pool_unheld =>
      intro x o' id ho' hpool s hs
      obtain ⟨o, ho, hreduces⟩ := hold x o' ho'
      exact hlinked.pool_unheld x o id ho (hreduces.ownership_eq ▸ hpool) s (hholds s x hs)

theorem reducesTo_self (hlinked : Linked a known loose) (hx : a.get? x = some o) :
    o.ReducesTo known o :=
  ⟨rfl, rfl, hlinked.classes_known x o hx, fun _ _ => id, id⟩

/-- One object may let references go. -/
theorem amend (hlinked : Linked a known loose) (hx : a.get? x = some o)
    (hputs : a.Puts a' x o') (hreduces : o.ReducesTo known o') : Linked a' known loose := by
  have hold : ∀ y p', a'.get? y = some p' → ∃ p, a.get? y = some p ∧ p.ReducesTo known p' := by
    intro y p' hp'
    rcases hputs.back hp' with ⟨rfl, rfl⟩ | ⟨_, hp'⟩
    · exact ⟨o, hx, hreduces⟩
    · exact ⟨p', hp', hlinked.reducesTo_self hp'⟩
  refine hlinked.reduce hold (fun s y hs => ?_) fun c hc => hputs.live (hlinked.known_live hc)
  obtain ⟨p', hp', hpeek⟩ := hs
  obtain ⟨p, hp, hp'reduces⟩ := hold _ _ hp'
  exact hputs.live (hlinked.held_live s y ⟨p, hp, hp'reduces.held s y hpeek⟩)

/-- An object that no slot holds may go, unless it is pinned. -/
theorem remove (hlinked : Linked a known loose) (hx : a.get? x = some o)
    (hpinned : o.header.pinned = false) (hunheld : ∀ s, ¬ a.Holds s x) :
    Linked (a.remove x) known loose := by
  have hget : ∀ y p, (a.remove x).get? y = some p → a.get? y = some p :=
    fun _ _ => Arena.get?_of_get?_remove
  have hlive : ∀ y, y ≠ x → a.Live y → (a.remove x).Live y := by
    rintro y hne ⟨p, hp⟩
    exact ⟨p, by rw [Arena.get?_remove, if_neg hne, hp]⟩
  refine hlinked.reduce (fun y p hp => ⟨p, hget y p hp, hlinked.reducesTo_self (hget y p hp)⟩)
    ?_ ?_
  · rintro s y ⟨p, hp, hs⟩
    have hholds : a.Holds s y := ⟨p, hget _ p hp, hs⟩
    refine hlive y ?_ (hlinked.held_live s y hholds)
    rintro rfl
    exact hunheld s hholds
  · intro c hc
    obtain ⟨p, hp, hcpinned, _⟩ := hlinked.known_class c hc
    refine hlive c ?_ ⟨p, hp⟩
    rintro rfl
    cases hp.symm.trans hx
    rw [hpinned] at hcpinned
    cases hcpinned

/-- A new object may hold objects that a slot answers for already if these count as
loose from then on. If it is a pinned class it may become known. -/
theorem insert {known' : Handle → Prop} {loose' : List Handle} (hlinked : Linked a known loose)
    (hnew : a.get? x = none) (hputs : a.Puts a' x o)
    (hknown : ∀ c, known c → known' c) (hclasses : ∀ c ∈ o.classRefs, known' c)
    (hheld : ∀ (s : Slot) (y : Handle), s.peek? o = some (some y) → ∃ p, a.get? y = some p ∧
      (∀ id, p.header.ownership ≠ .pool id) ∧ (p.header.ownership = .single → y ∈ loose'))
    (hpinned : o.header.pinned = true → o.header.ownership = .shared)
    (hclass : ∀ c, known' c → known c ∨ c = x ∧ o.header.pinned = true ∧ o.IsClass)
    (hloose : ∀ y ∈ loose, y ∈ loose') : Linked a' known' loose' := by
  have hstale : ∀ s, ¬ a.Holds s x := by
    intro s hs
    obtain ⟨p, hp⟩ := hlinked.held_live s x hs
    cases hnew.symm.trans hp
  have hfresh : ∀ s, a'.Holds s x → False := by
    intro s hs
    rw [hputs.holds_iff] at hs
    split at hs
    · obtain ⟨p, hp, _⟩ := hheld s x hs
      cases hnew.symm.trans hp
    · exact hstale s hs
  constructor
  case held_live =>
      intro s y hs
      rw [hputs.holds_iff] at hs
      split at hs
      · obtain ⟨p, hp, _⟩ := hheld s y hs
        exact hputs.live ⟨p, hp⟩
      · exact hputs.live (hlinked.held_live s y hs)
  case classes_known =>
      intro y p hp
      rcases hputs.back hp with ⟨_, rfl⟩ | ⟨_, hp⟩
      · exact hclasses
      · exact fun c hc => hknown c (hlinked.classes_known y p hp c hc)
  case known_class =>
      intro c hc
      rcases hclass c hc with hc | ⟨rfl, hpin, hisClass⟩
      · obtain ⟨p, hp, hpin, hisClass⟩ := hlinked.known_class c hc
        refine ⟨p, ?_, hpin, hisClass⟩
        rw [hputs.other, hp]
        rintro rfl
        cases hnew.symm.trans hp
      · exact ⟨o, hputs.self, hpin, hisClass⟩
  case pinned_shared =>
      intro y p hp hpin
      rcases hputs.back hp with ⟨_, rfl⟩ | ⟨_, hp⟩
      · exact hpinned hpin
      · exact hlinked.pinned_shared y p hp hpin
  case single_held_once =>
      intro y p hp hsingle hnot s t hs ht
      rcases hputs.back hp with ⟨rfl, _⟩ | ⟨_, hp⟩
      · exact (hfresh s hs).elim
      · have hkeep : ∀ u, a'.Holds u y → a.Holds u y := by
          intro u hu
          rw [hputs.holds_iff] at hu
          split at hu
          · obtain ⟨q, hq, _, hin⟩ := hheld u y hu
            cases hq.symm.trans hp
            exact absurd (hin hsingle) hnot
          · exact hu
        exact hlinked.single_held_once y p hp hsingle (fun hmem => hnot (hloose y hmem)) s t
          (hkeep s hs) (hkeep t ht)
  case pool_unheld =>
      intro y p id hp hpool s hs
      rcases hputs.back hp with ⟨rfl, _⟩ | ⟨_, hp⟩
      · exact hfresh s hs
      · rw [hputs.holds_iff] at hs
        split at hs
        · obtain ⟨q, hq, hnot, _⟩ := hheld s y hs
          cases hq.symm.trans hp
          exact hnot id hpool
        · exact hlinked.pool_unheld y p id hp hpool s hs

/-- An object may get another header. For an object that a slot is to answer for,
one slot at most may hold it; for one that a pool is to answer for, none may. An
object that becomes shared is no longer loose. -/
theorem setHeader {loose' : List Handle} {h : Header} (hlinked : Linked a known loose)
    (hx : a.get? x = some o) (hputs : a.Puts a' x { o with header := h })
    (hpinned : h.pinned = true → h.ownership = .shared)
    (hkeep : o.header.pinned = true → h.pinned = true)
    (hsingle : h.ownership = .single → x ∉ loose' → ∀ s t, a.Holds s x → a.Holds t x → s = t)
    (hpool : ∀ id, h.ownership = .pool id → ∀ s, ¬ a.Holds s x)
    (hloose : ∀ y ∈ loose, y ∈ loose' ∨ y = x ∧ h.ownership = .shared) :
    Linked a' known loose' := by
  have hholds : ∀ s y, a'.Holds s y ↔ a.Holds s y := by
    intro s y
    rw [hputs.holds_iff]
    split
    · next heq =>
        rw [Arena.Holds, heq, hx]
        cases s <;> simp [Slot.peek?]
    · rfl
  constructor
  case held_live =>
      exact fun s y hs => hputs.live (hlinked.held_live s y ((hholds s y).1 hs))
  case classes_known =>
      intro y p hp
      rcases hputs.back hp with ⟨_, rfl⟩ | ⟨_, hp⟩
      · exact hlinked.classes_known x o hx
      · exact hlinked.classes_known y p hp
  case known_class =>
      intro c hc
      obtain ⟨p, hp, hpin, hclass⟩ := hlinked.known_class c hc
      by_cases heq : c = x
      · subst heq
        cases hp.symm.trans hx
        exact ⟨_, hputs.self, hkeep hpin, hclass⟩
      · exact ⟨p, by rw [hputs.other heq, hp], hpin, hclass⟩
  case pinned_shared =>
      intro y p hp hpin
      rcases hputs.back hp with ⟨_, rfl⟩ | ⟨_, hp⟩
      · exact hpinned hpin
      · exact hlinked.pinned_shared y p hp hpin
  case single_held_once =>
      intro y p hp hown hnot s t hs ht
      rw [hholds] at hs ht
      rcases hputs.back hp with ⟨rfl, rfl⟩ | ⟨hne, hp⟩
      · exact hsingle hown hnot s t hs ht
      · refine hlinked.single_held_once y p hp hown (fun hmem => ?_) s t hs ht
        rcases hloose y hmem with hmem | ⟨heq, _⟩
        · exact hnot hmem
        · exact hne heq
  case pool_unheld =>
      intro y p id hp hown s hs
      rw [hholds] at hs
      rcases hputs.back hp with ⟨rfl, rfl⟩ | ⟨_, hp⟩
      · exact hpool id hown s hs
      · exact hlinked.pool_unheld y p id hp hown s hs

/-- A slot may take up an object that is shared, or that a slot is to answer for but
none holds yet. -/
theorem store {old value : Option Handle} (hlinked : Linked a known [])
    (ho : a.get? s.owner = some o) (hs : s.peek? o = some old)
    (hputs : a.Puts a' s.owner (s.storeIn value o))
    (hvalue : ∀ y, value = some y → ∃ p, a.get? y = some p ∧
      (p.header.ownership = .shared ∨ p.header.ownership = .single ∧ ∀ t, ¬ a.Holds t y)) :
    Linked a' known [] := by
  have hholds : ∀ t y, a'.Holds t y ↔ if t = s then value = some y else a.Holds t y :=
    fun t y => hputs.holds_store_iff ho hs
  have hold : ∀ y p', a'.get? y = some p' → ∃ p, a.get? y = some p ∧ p'.header = p.header ∧
      p'.classRefs = p.classRefs ∧ (p'.IsClass ↔ p.IsClass) := by
    intro y p' hp'
    rcases hputs.back hp' with ⟨rfl, rfl⟩ | ⟨_, hp'⟩
    · exact ⟨o, ho, Slot.header_storeIn o s value, Object.classRefs_storeIn o s value,
        Object.isClass_storeIn o s value⟩
    · exact ⟨p', hp', rfl, rfl, Iff.rfl⟩
  -- What the slot takes up is held by no other one, unless it is shared.
  have hfirst : ∀ y p, a.get? y = some p → value = some y → p.header.ownership ≠ .shared →
      p.header.ownership = .single ∧ ∀ t, ¬ a.Holds t y := by
    intro y p hp heq hunshared
    obtain ⟨q, hq, hcases⟩ := hvalue y heq
    cases hq.symm.trans hp
    exact hcases.resolve_left hunshared
  constructor
  case held_live =>
      intro t y ht
      rw [hholds] at ht
      split at ht
      · obtain ⟨p, hp, _⟩ := hvalue y ht
        exact hputs.live ⟨p, hp⟩
      · exact hputs.live (hlinked.held_live t y ht)
  case classes_known =>
      intro y p' hp' c hc
      obtain ⟨p, hp, _, hclasses, _⟩ := hold y p' hp'
      exact hlinked.classes_known y p hp c (hclasses ▸ hc)
  case known_class =>
      intro c hc
      obtain ⟨p, hp, hpin, hclass⟩ := hlinked.known_class c hc
      obtain ⟨p', hp'⟩ := hputs.live ⟨p, hp⟩
      obtain ⟨q, hq, hheader, _, hiff⟩ := hold c p' hp'
      cases hq.symm.trans hp
      exact ⟨p', hp', hheader ▸ hpin, hiff.2 hclass⟩
  case pinned_shared =>
      intro y p' hp' hpin
      obtain ⟨p, hp, hheader, _⟩ := hold y p' hp'
      rw [hheader] at hpin ⊢
      exact hlinked.pinned_shared y p hp hpin
  case single_held_once =>
      intro y p' hp' hsingle hnot t u ht hu
      obtain ⟨p, hp, hheader, _⟩ := hold y p' hp'
      rw [hheader] at hsingle
      have hunheld : value = some y → ∀ v, ¬ a.Holds v y := fun heq =>
        (hfirst y p hp heq (by simp [hsingle])).2
      rw [hholds] at ht hu
      split at ht
      · next htv =>
          split at hu
          · next huv => exact htv.trans huv.symm
          · exact absurd hu (hunheld ht u)
      · split at hu
        · exact absurd ht (hunheld hu t)
        · exact hlinked.single_held_once y p hp hsingle hnot t u ht hu
  case pool_unheld =>
      intro y p' id hp' hpool t ht
      obtain ⟨p, hp, hheader, _⟩ := hold y p' hp'
      rw [hheader] at hpool
      rw [hholds] at ht
      split at ht
      · have hsingle := (hfirst y p hp ht (by simp [hpool])).1
        rw [hpool] at hsingle
        cases hsingle
      · exact hlinked.pool_unheld y p id hp hpool t ht

end Linked

end ObjectSystem

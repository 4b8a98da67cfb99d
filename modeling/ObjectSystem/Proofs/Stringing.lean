/-
# Building lists

A list is built from its last item to its first, each time with a new cell that takes over
the item and the rest of the list. `World.Builds` says what the new cells have taken over so
far, and that all else that a collection keeps is as it was. It is kept by each step, and so
it holds wherever the building stops.

What a list has taken over from a pool is reached through the list from then on. As long as
all that it takes over is kept without it, the cells form a chain that nothing else holds, and
all that was kept is kept. A handle that is not live may come to name one of the new cells,
though. A list that takes itself over like this can be cut off from the scope, and then a
collection takes away what was reached through its items and from nowhere else.
-/

import ObjectSystem.Proofs.Building
import ObjectSystem.Proofs.ScopeBalance

namespace ObjectSystem

namespace Arena

section Taken

variable (a : Arena Object) (taken : List Handle)

/-- A pool has given the object up to a list. -/
def Moved (x : Handle) : Prop :=
  x ∈ taken ∧ ∃ o id, a.get? x = some o ∧ o.header.ownership = .pool id

/-- The object is reached from what pools have given up to a list. -/
def Under (x : Handle) : Prop :=
  a.Reaches (a.Moved taken) x

/-- What goes with a list: what pools have given up to it and no slot holds beside, and what
this alone answered for. -/
inductive Lost : Handle → Prop where
  | moved {x : Handle} {o : Object} {id : PoolId} (hx : a.get? x = some o)
      (hown : o.header.ownership = .pool id) (honce : taken.count x = 1) : Lost x
  | held {x y : Handle} {o p : Object} (hlost : Lost x) (hx : a.get? x = some o)
      (hy : y ∈ o.ownedRefs) (hp : a.get? y = some p)
      (hsingle : p.header.ownership = .single) (hnot : y ∉ taken) : Lost y

end Taken

variable {a : Arena Object} {taken taken' : List Handle} {x y : Handle}

theorem Under.mono (hsub : ∀ y ∈ taken', y ∈ taken) (hunder : a.Under taken' x) :
    a.Under taken x := by
  induction hunder with
  | start hmoved hlive => exact .start ⟨hsub _ hmoved.1, hmoved.2⟩ hlive
  | ref _ ho hy hlive ih => exact .ref ih ho hy hlive

theorem under_of_lost (hlost : a.Lost taken x) : a.Under taken x := by
  induction hlost with
  | moved hx hown honce =>
      have hmem := List.count_pos_iff.1 (honce ▸ Nat.one_pos)
      exact .start ⟨hmem, _, _, hx, hown⟩ ⟨_, hx⟩
  | held _ hx hy hp _ _ ih => exact .ref ih hx (List.mem_cons_of_mem _ hy) ⟨_, hp⟩

theorem not_lost_nil : ¬ a.Lost [] x := by
  intro hlost
  induction hlost with
  | moved _ _ honce => cases honce
  | held _ _ _ _ _ _ ih => exact ih

end Arena

namespace World

/-- The object is kept, and it stays so whatever the list comes to hold. -/
def Safe (w : World) (taken : List Handle) (x : Handle) : Prop :=
  w.Keeps [] x ∧ ((∀ y ∈ taken, w.Keeps [] y) ∨ ¬ w.objects.Under taken x)

variable {w w' w₁ w₂ : World} {P Q : Handle → Prop} {taken taken' cells : List Handle}
  {ids : List PoolId} {c x y v : Handle} {o : Object}

/-- The less a list takes over, the more is safe. -/
theorem Safe.mono (hsub : ∀ y ∈ taken', y ∈ taken) (hsafe : w.Safe taken x) :
    w.Safe taken' x :=
  ⟨hsafe.1, hsafe.2.imp (fun hkept y hy => hkept y (hsub y hy)) fun hnot hunder =>
    hnot (hunder.mono hsub)⟩

/-- What leads to safe objects is safe if it is kept. -/
theorem Safe.pred (hsafe : w.Safe taken y) (hx : w.Keeps [] x) (ho : w.objects.get? x = some o)
    (hy : y ∈ o.refs) : w.Safe taken x :=
  ⟨hx, hsafe.2.imp id fun hnot hunder => hnot (.ref hunder ho hy hsafe.1.live)⟩

/-- If all that the list takes over is kept, so is all that goes with it. -/
theorem keeps_of_lost (hlost : w.objects.Lost taken x) (hkept : ∀ y ∈ taken, w.Keeps [] y) :
    w.Keeps [] x := by
  induction hlost with
  | moved hx hown honce => exact hkept _ (List.count_pos_iff.1 (honce ▸ Nat.one_pos))
  | held _ hx hy hp _ _ ih => exact .ref ih hx (List.mem_cons_of_mem _ hy) ⟨_, hp⟩

/-- What building a list has done so far to objects that have a property: the new cells have
taken some handles over, and all else is as it was. -/
structure Builds (w w' : World) (P : Handle → Prop) (taken cells : List Handle) : Prop where
  roots_eq : w'.roots = w.roots
  stays : ∀ x o, w.objects.get? x = some o → P x →
    w'.objects.get? x = some (o.claimed (taken.count x))
  /-- Nothing else has come into the world. -/
  back : ∀ x o', w'.objects.get? x = some o' → x ∈ cells ∨
    ∃ o, w.objects.get? x = some o ∧ o' = o.claimed (taken.count x)
  refs : ∀ c ∈ cells, ∀ o, w'.objects.get? c = some o → ∀ y ∈ o.ownedRefs,
    y ∈ taken ∨ y ∈ cells ∨ y = Builtin.null
  new : ∀ c ∈ cells, ¬ P c

theorem Builds.start (w : World) (P : Handle → Prop) : Builds w w P [] [] where
  roots_eq := rfl
  stays _ _ ho _ := ho
  back _ o' ho' := Or.inr ⟨o', ho', rfl⟩
  refs _ hc := absurd hc List.not_mem_nil
  new _ hc := absurd hc List.not_mem_nil

theorem Builds.mono (hbuilds : Builds w w' P taken cells) (himp : ∀ x, Q x → P x) :
    Builds w w' Q taken cells where
  roots_eq := hbuilds.roots_eq
  stays x o ho hx := hbuilds.stays x o ho (himp x hx)
  back := hbuilds.back
  refs := hbuilds.refs
  new c hc hx := hbuilds.new c hc (himp c hx)

/-- Only the objects and the roots that a list is built from matter. -/
theorem Builds.of_eq {start : World} (hbuilds : Builds w w' P taken cells)
    (hobjects : w.objects = start.objects) (hroots : w.roots = start.roots) :
    Builds start w' P taken cells where
  roots_eq := hbuilds.roots_eq.trans hroots
  stays := hobjects ▸ hbuilds.stays
  back := hobjects ▸ hbuilds.back
  refs := hbuilds.refs
  new := hbuilds.new

/-- A collection takes away nothing that has the property, if all of this is kept. -/
theorem Builds.relieve (hbuilds : Builds w w₁ P taken cells) (htidy : w₁.Tidy)
    (hkeeps : ∀ x, P x → w₁.Keeps [] x) : Builds w w₁.relieved P taken cells := by
  have hback : ∀ {x o}, w₁.relieved.objects.get? x = some o → w₁.objects.get? x = some o :=
    fun ho => (htidy.get?_relieved_iff.1 ho).1
  constructor
  case roots_eq =>
    rcases w₁.relieved_cases with heq | heq <;> rw [heq]
    · exact hbuilds.roots_eq
    · exact hbuilds.roots_eq
  case stays =>
    intro x o ho hx
    rw [htidy.get?_relieved (hkeeps x hx)]
    exact hbuilds.stays x o ho hx
  case back => exact fun x o' ho' => hbuilds.back x o' (hback ho')
  case refs => exact fun c hc o ho => hbuilds.refs c hc o (hback ho)
  case new => exact hbuilds.new

theorem ownedRefs_new {n : Nat} {own : Ownership} :
    ((Object.new c n .none 0 .shared).setOwnership own).ownedRefs = [] := by
  simp [Object.ownedRefs, Object.setOwnership, Object.new, Payload.refs]

/-- A new cell holds nothing. -/
theorem Builds.make (hbuilds : Builds w w₁ P taken cells) (htidy : w₁.Tidy)
    (hlive : ∀ x, P x → w.objects.Live x) (hkeeps : ∀ x, P x → w₁.Keeps [] x)
    (hmakes : Action.Makes w₁ w₂ c x) : Builds w w₂ P taken (x :: cells) := by
  obtain ⟨d, _, htakes⟩ := hmakes.takes
  have hrelieved := hbuilds.relieve htidy hkeeps
  have hne : ∀ {y o}, w₁.relieved.objects.get? y = some o → y ≠ x := by
    rintro y o ho rfl
    exact htakes.new ⟨o, (htidy.get?_relieved_iff.1 ho).1⟩
  constructor
  case roots_eq => exact hmakes.moves.roots_eq.trans hbuilds.roots_eq
  case stays =>
    intro y o ho hy
    have hstays := hrelieved.stays y o ho hy
    rw [htakes.other y (hne hstays), hstays]
  case back =>
    intro y o' ho'
    by_cases heq : y = x
    · exact Or.inl (heq ▸ List.mem_cons_self)
    · rw [htakes.other y heq] at ho'
      exact (hrelieved.back y o' ho').imp_left (List.mem_cons_of_mem _)
  case refs =>
    intro c' hc' o ho y hy
    by_cases heq : c' = x
    · subst heq
      cases htakes.get?_eq.symm.trans ho
      rw [ownedRefs_new] at hy
      cases hy
    · rw [htakes.other c' heq] at ho
      have hmem := (List.mem_cons.1 hc').resolve_left heq
      exact (hrelieved.refs c' hmem o ho y hy).imp_right
        (Or.imp_left (List.mem_cons_of_mem _))
  case new =>
    intro c' hc' hP
    obtain ⟨o, ho⟩ := hlive c' hP
    rcases List.mem_cons.1 hc' with rfl | hmem
    · exact hne (hrelieved.stays c' o ho hP) rfl
    · exact hbuilds.new c' hmem hP

/-- An attribute that is written adds at most its new value. -/
theorem mem_ownedRefs_storeIn_attr {n : Nat}
    (hy : y ∈ ((Slot.attr x n).storeIn (some v) o).ownedRefs) : y = v ∨ y ∈ o.ownedRefs := by
  cases n with
  | zero => exact Or.inr hy
  | succ index =>
      rcases List.mem_append.1 hy with hy | hy
      · obtain ⟨i, hi⟩ := Object.exists_getElem?_iff.1 hy
        simp only [Slot.storeIn, Object.setAttr] at hi
        rcases Array.mem_or_eq_of_mem_setIfInBounds (Array.mem_of_getElem? hi) with hmem | heq
        · obtain ⟨k, hk⟩ := Array.mem_iff_getElem?.1 hmem
          exact Or.inr (List.mem_append_left _ (Object.exists_getElem?_iff.2 ⟨k, hk⟩))
        · exact Or.inl (Option.some.inj heq)
      · exact Or.inr (List.mem_append_right _ hy)

/-- A cell takes a value over. -/
theorem Builds.take {n : Nat} (hbuilds : Builds w w₁ P taken cells) (hx : x ∈ cells)
    (htakes : w₁.TakesUp w₂ (.attr x n) v) : Builds w w₂ P (v :: taken) cells := by
  have hcount : ∀ y, (v :: taken).count y = taken.count y + [v].count y := by
    intro y
    rw [List.count_cons, List.count_singleton]
  constructor
  case roots_eq => exact htakes.moves.roots_eq.trans hbuilds.roots_eq
  case stays =>
    intro y o ho hy
    have hne : y ≠ x := fun heq => hbuilds.new x hx (heq ▸ hy)
    rw [htakes.other y hne, hbuilds.stays y o ho hy, Option.map_some, Object.claimed_claimed,
      hcount, Nat.add_comm]
  case back =>
    intro y o' ho'
    by_cases heq : y = x
    · exact Or.inl (heq ▸ hx)
    · rw [htakes.other y heq] at ho'
      obtain ⟨o, ho, rfl⟩ := Option.map_eq_some_iff.1 ho'
      refine (hbuilds.back y o ho).imp_right ?_
      rintro ⟨p, hp, rfl⟩
      exact ⟨p, hp, by rw [Object.claimed_claimed, hcount, Nat.add_comm]⟩
  case refs =>
    intro c hc o ho y hy
    by_cases heq : c = x
    · subst heq
      obtain ⟨p, hp, _⟩ := htakes.empty
      cases (htakes.owner p hp).symm.trans ho
      rcases mem_ownedRefs_storeIn_attr hy with rfl | hy
      · exact Or.inl List.mem_cons_self
      · exact (hbuilds.refs c hc p hp y hy).imp_left (List.mem_cons_of_mem _)
    · rw [htakes.other c heq] at ho
      obtain ⟨p, hp, rfl⟩ := Option.map_eq_some_iff.1 ho
      exact (hbuilds.refs c hc p hp y hy).imp_left (List.mem_cons_of_mem _)
  case new => exact hbuilds.new

/-- It does not matter that the cells hold each other and the null object. -/
theorem Builds.forget (hbuilds : Builds w w' P (v :: taken) cells)
    (hnull : ∀ o, w.objects.get? Builtin.null = some o → o.header.ownership = .shared)
    (hv : v ∈ cells ∨ v = Builtin.null) : Builds w w' P taken cells := by
  have hcount : ∀ y o, w.objects.get? y = some o → y ∉ cells →
      o.claimed ((v :: taken).count y) = o.claimed (taken.count y) := by
    intro y o ho hy
    by_cases heq : y = v
    · have hshared := hnull o (by rw [← hv.resolve_left (heq ▸ hy), ← heq, ho])
      rw [Object.claimed_of_shared hshared, Object.claimed_of_shared hshared]
    · rw [List.count_cons_of_ne (Ne.symm heq)]
  constructor
  case roots_eq => exact hbuilds.roots_eq
  case stays =>
    intro y o ho hy
    rw [hbuilds.stays y o ho hy, hcount y o ho fun hmem => hbuilds.new y hmem hy]
  case back =>
    intro y o' ho'
    by_cases hy : y ∈ cells
    · exact Or.inl hy
    · obtain ⟨o, ho, rfl⟩ := (hbuilds.back y o' ho').resolve_left hy
      exact Or.inr ⟨o, ho, hcount y o ho hy⟩
  case refs =>
    intro c hc o ho y hy
    rcases hbuilds.refs c hc o ho y hy with hmem | hmem
    · rcases List.mem_cons.1 hmem with rfl | hmem
      · exact Or.inr hv
      · exact Or.inl hmem
    · exact Or.inr hmem
  case new => exact hbuilds.new

/-- What has the property is kept, if all that leads to it has the property, and if what pools
have given up to the list is kept. -/
theorem Builds.keeps (hbuilds : Builds w w₁ P taken cells) (hcoherent : w.Coherent)
    (hcoherent₁ : w₁.Coherent)
    (hpred : ∀ y z o, P z → w.Keeps [] y → w.objects.get? y = some o → z ∈ o.refs → P y)
    (hmoved : ∀ y, P y → w.objects.Moved taken y → w₁.Keeps [] y) (hkeeps : w.Keeps [] x)
    (hx : P x) : w₁.Keeps [] x := by
  induction hkeeps with
  | @start x hroot hlive =>
      obtain ⟨o, ho⟩ := hlive
      have hstays := hbuilds.stays x o ho hx
      cases hroot with
      | pinned hp hpinned =>
          cases ho.symm.trans hp
          exact .start (.pinned hstays hpinned) ⟨_, hstays⟩
      | builtin hmem => exact .start (.builtin hmem) ⟨_, hstays⟩
      | root hmem => exact .start (.root (hbuilds.roots_eq ▸ hmem)) ⟨_, hstays⟩
      | scope hp hmem =>
          obtain ⟨o', ho', hown⟩ := Action.ownership_of_mem_scope hcoherent hp hmem
          by_cases htaken : x ∈ taken
          · exact hmoved x hx ⟨htaken, o', _, ho', hown⟩
          · cases ho.symm.trans ho'
            rw [List.count_eq_zero.2 htaken] at hstays
            exact keeps_of_pool hcoherent₁ hstays hown
      | extra hmem => cases hmem
  | @ref y z o hreach ho hz hlive ih =>
      have hy := hpred y z o hx hreach ho hz
      obtain ⟨p, hp⟩ := hlive
      exact .ref (ih hy) (hbuilds.stays y o ho hy) hz ⟨_, hbuilds.stays z p hp hx⟩

/-! ## Chains of cells -/

/-- Cells that are strung together: each holds an item and leads to the next one. -/
inductive Strung (d : Class) (w : World) : Handle → List Handle → List Handle → Prop where
  | null : Strung d w Builtin.null [] []
  | cell {x next item : Handle} {items cells : List Handle} {p q : UInt32}
      (hclass : ∃ o, w.objects.get? x = some o ∧ o.classRef = Builtin.pairlistClass)
      (hp : d.slot Symbol.head = .inInstance p) (hitem : w.objects.Holds (.attr x p.toNat) item)
      (hq : d.slot Symbol.next = .inInstance q) (hnext : w.objects.Holds (.attr x q.toNat) next)
      (hrest : Strung d w next items cells) : Strung d w x (item :: items) (x :: cells)

/-- Different cells that are strung together. Each is held by the one before it alone. -/
structure Chain (d : Class) (w : World) (own : Ownership) (l : Handle)
    (items cells : List Handle) : Prop where
  strung : Strung d w l items cells
  nodup : cells.Nodup
  owned : ∀ x ∈ cells, ∀ o, w.objects.get? x = some o →
    o.header.ownership = if x = l then own else .single

variable {d : Class} {own : Ownership} {l : Handle} {items : List Handle} {id : PoolId}

theorem Strung.carry (hstrung : Strung d w l items cells)
    (hcarry : ∀ x ∈ cells, ∀ o, w.objects.get? x = some o →
      ∃ own, w'.objects.get? x = some (o.setOwnership own)) : Strung d w' l items cells := by
  induction hstrung with
  | null => exact .null
  | @cell x _ _ _ cells _ _ hclass hp hitem hq hnext _ ih =>
      have hself := hcarry x List.mem_cons_self
      have hholds : ∀ {n : Nat} {y}, w.objects.Holds (.attr x n) y →
          w'.objects.Holds (.attr x n) y := by
        rintro n y ⟨o, ho, hs⟩
        obtain ⟨own, ho'⟩ := hself o ho
        refine ⟨_, ho', ?_⟩
        cases n <;> exact hs
      obtain ⟨o, ho, hc⟩ := hclass
      obtain ⟨own, ho'⟩ := hself o ho
      exact .cell ⟨_, ho', hc⟩ hp (hholds hitem) hq (hholds hnext)
        (ih fun y hy => hcarry y (List.mem_cons_of_mem _ hy))

theorem Strung.get? (hstrung : Strung d w l items cells) (hx : x ∈ cells) :
    ∃ o, w.objects.get? x = some o ∧ o.classRef = Builtin.pairlistClass := by
  induction hstrung with
  | null => cases hx
  | cell hclass _ _ _ _ _ ih =>
      rcases List.mem_cons.1 hx with rfl | hx
      · exact hclass
      · exact ih hx

theorem Strung.live (hstrung : Strung d w l items cells) (hx : x ∈ cells) :
    w.objects.Live x := by
  obtain ⟨o, ho, _⟩ := hstrung.get? hx
  exact ⟨o, ho⟩

theorem Strung.front (hstrung : Strung d w l items cells) :
    l ∈ cells ∨ l = Builtin.null := by
  cases hstrung with
  | null => exact Or.inr rfl
  | cell => exact Or.inl List.mem_cons_self

theorem Chain.carry (hchain : Chain d w own l items cells)
    (hsame : ∀ x ∈ cells, w'.objects.get? x = w.objects.get? x) :
    Chain d w' own l items cells where
  strung := hchain.strung.carry fun x hx o ho =>
    ⟨o.header.ownership, by rw [hsame x hx, ho]; rfl⟩
  nodup := hchain.nodup
  owned x hx o ho := hchain.owned x hx o (hsame x hx ▸ ho)

/-- What is strung together is kept with its first cell. -/
theorem Strung.keeps (hstrung : Strung d w l items cells) (hcoherent : w.Coherent)
    (hl : w.Keeps [] l) : (∀ x ∈ cells, w.Keeps [] x) ∧ ∀ y ∈ items, w.Keeps [] y := by
  induction hstrung with
  | null => exact ⟨by simp, by simp⟩
  | @cell x _ _ _ _ p q _ _ hitem _ hnext _ ih =>
      obtain ⟨hcells, hitems⟩ := ih (Keeps.held (s := .attr x q.toNat) hcoherent hl hnext)
      have hitem' := Keeps.held (s := .attr x p.toNat) hcoherent hl hitem
      exact ⟨List.forall_mem_cons.2 ⟨hl, hcells⟩, List.forall_mem_cons.2 ⟨hitem', hitems⟩⟩

/-- A chain whose first cell a scope answers for is kept. -/
theorem Chain.keeps (hchain : Chain d w (.pool id) l items cells) (hready : w.Ready) :
    (∀ x ∈ cells, w.Keeps [] x) ∧ ∀ y ∈ items, w.Keeps [] y := by
  refine hchain.strung.keeps hready.coherent ?_
  rcases hchain.strung.front with hl | rfl
  · obtain ⟨o, ho⟩ := hchain.strung.live hl
    exact keeps_of_pool hready.coherent ho ((hchain.owned l hl o ho).trans (if_pos rfl))
  · exact hready.keeps_null

/-- The cells of a list are freed one after the other, from the first to the last. -/
theorem Strung.falls (hstrung : Strung d w l items cells) (hcoherent : w.Coherent)
    {pending : List Handle} (hnodup : cells.Nodup) (hl : l ∈ cells → w.objects.Falls pending l)
    (hsingle : ∀ x ∈ cells, x ≠ l → ∀ o, w.objects.get? x = some o →
      o.header.ownership = .single) : ∀ x ∈ cells, w.objects.Falls pending x := by
  induction hstrung with
  | null => simp
  | @cell x next _ _ cells _ _ _ _ _ _ hnext hrest ih =>
      have hfalls := hl List.mem_cons_self
      obtain ⟨hx, hnodup⟩ := List.nodup_cons.1 hnodup
      have hsingle' : ∀ y ∈ cells, ∀ o, w.objects.get? y = some o →
          o.header.ownership = .single := fun y hy =>
        hsingle y (List.mem_cons_of_mem _ hy) fun heq => hx (heq ▸ hy)
      refine List.forall_mem_cons.2 ⟨hfalls, ih hnodup (fun hmem => ?_) fun y hy _ =>
        hsingle' y hy⟩
      obtain ⟨o, ho⟩ := hrest.live hmem
      obtain ⟨p, hp, hs⟩ := hnext
      have hown := hsingle' next hmem o ho
      exact hfalls.held hp ((Object.mem_ownedRefs_iff (x := x)).2 (Or.inr ⟨_, rfl, hs⟩)) ho
        (hcoherent.linked.unpinned ho (by simp [hown])) hown

/-- Of the given handles, each is held by something that goes when scopes are closed. -/
def Doomed (w : World) (ids : List PoolId) (taken : List Handle) : Prop :=
  ∀ y ∈ taken, ∃ x o, w.objects.Falls (w.pools.listedBeside ids) x ∧
    w.objects.get? x = some o ∧ y ∈ o.ownedRefs

theorem Strung.held (hstrung : Strung d w l items cells) (hy : y ∈ items) :
    ∃ x ∈ cells, ∃ o, w.objects.get? x = some o ∧ y ∈ o.ownedRefs := by
  induction hstrung with
  | null => cases hy
  | @cell x _ _ _ _ _ _ _ _ hitem _ _ _ ih =>
      rcases List.mem_cons.1 hy with rfl | hy
      · obtain ⟨o, ho, hs⟩ := hitem
        exact ⟨x, List.mem_cons_self, o, ho,
          (Object.mem_ownedRefs_iff (x := x)).2 (Or.inr ⟨_, rfl, hs⟩)⟩
      · obtain ⟨z, hz, hheld⟩ := ih hy
        exact ⟨z, List.mem_cons_of_mem _ hz, hheld⟩

/-- The items of a list go with the scope that answers for its first cell. -/
theorem Chain.doomed (hchain : Chain d w (.pool id) l items cells) (hcoherent : w.Coherent)
    (hid : id ∉ ids) : w.Doomed ids items := by
  intro y hy
  obtain ⟨x, hx, o, ho, href⟩ := hchain.strung.held hy
  refine ⟨x, o, hchain.strung.falls hcoherent hchain.nodup (fun hl => ?_) (fun z hz hne p hp => ?_)
    x hx, ho, href⟩
  · obtain ⟨p, hp⟩ := hchain.strung.live hl
    exact Action.falls_of_pool hcoherent hp ((hchain.owned l hl p hp).trans (if_pos rfl)) hid
  · exact (hchain.owned z hz p hp).trans (if_neg hne)

/-- A collection takes no cell of a chain away. -/
theorem Chain.relieve (hchain : Chain d w (.pool id) l items cells) (hready : w.Ready) :
    Chain d w.relieved (.pool id) l items cells :=
  hchain.carry fun x hx => hready.tidy.get?_relieved ((hchain.keeps hready).1 x hx)

/-- Neither does an allocation. -/
theorem Chain.make (hchain : Chain d w (.pool id) l items cells) (hready : w.Ready)
    (hmakes : Action.Makes w w' c x) : Chain d w' (.pool id) l items cells := by
  obtain ⟨_, _, htakes⟩ := hmakes.takes
  exact hchain.carry fun y hy => htakes.kept y ((hchain.keeps hready).1 y hy)

/-- Neither does an object beside the chain that takes up a value from beside it. -/
theorem Chain.take {n : Nat} (hchain : Chain d w own l items cells)
    (htakes : w.TakesUp w' (.attr x n) v) (hx : x ∉ cells) (hv : v ∉ cells) :
    Chain d w' own l items cells := by
  refine hchain.carry fun y hy => ?_
  have hcount : [v].count y = 0 := by
    rw [List.count_eq_zero, List.mem_singleton]
    exact fun heq => hv (heq ▸ hy)
  rw [htakes.other y (by rintro rfl; exact hx hy), hcount]
  simp

/-- An object beside the chain that takes up the first cell becomes the first cell itself. -/
theorem Chain.cons {head : Handle} {p q : UInt32} (hchain : Chain d w (.pool id) l items cells)
    (hx : x ∉ cells) (hne : l ≠ x) (ho : w.objects.get? x = some o)
    (hclass : o.classRef = Builtin.pairlistClass) (hp : d.slot Symbol.head = .inInstance p)
    (hhead : (Slot.attr x p.toNat).peek? o = some (some head))
    (hq : d.slot Symbol.next = .inInstance q) (hpq : p ≠ q)
    (htakes : w.TakesUp w' (.attr x q.toNat) l) :
    Chain d w' o.header.ownership x (head :: items) (x :: cells) := by
  obtain ⟨o', ho', hheader, hclass', hslots⟩ := htakes.stored hne ho
  have hslot : (Slot.attr x p.toNat) ≠ .attr x q.toNat := by
    intro heq
    exact hpq (UInt32.toNat_inj.1 (Slot.attr.inj heq).2)
  have hother : ∀ y ∈ cells, w'.objects.get? y =
      (w.objects.get? y).map (·.claimed ([l].count y)) := by
    intro y hy
    exact htakes.other y (by rintro rfl; exact hx hy)
  constructor
  case strung =>
    refine .cell ⟨o', ho', hclass'.trans hclass⟩ hp ⟨o', ho', ?_⟩ hq ⟨o', ho', ?_⟩
      (hchain.strung.carry fun y hy p hp => ⟨_, by rw [hother y hy, hp]; rfl⟩)
    · exact (hslots (.attr x p.toNat) rfl).trans ((if_neg hslot).trans hhead)
    · exact (hslots (.attr x q.toNat) rfl).trans (if_pos rfl)
  case nodup => exact List.nodup_cons.2 ⟨hx, hchain.nodup⟩
  case owned =>
    refine List.forall_mem_cons.2 ⟨fun p hp => ?_, fun y hy p hp => ?_⟩
    · cases ho'.symm.trans hp
      rw [if_pos rfl, hheader]
    · have hyx : y ≠ x := fun heq => hx (heq ▸ hy)
      rw [hother y hy] at hp
      obtain ⟨o, ho, rfl⟩ := Option.map_eq_some_iff.1 hp
      have hown := hchain.owned y hy o ho
      rw [if_neg hyx, Object.ownership_claimed, Ownership.iterate_claimed_eq_single_iff]
      by_cases heq : y = l
      · subst heq
        rw [if_pos rfl] at hown
        exact Or.inr ⟨by simp, _, hown⟩
      · rw [if_neg heq] at hown
        exact Or.inl ⟨List.count_eq_zero.2 (by simpa using heq), hown⟩

/-! ## Lists under construction -/

/-- The cells of a list have been made. If all of its items are kept without it, they form a
chain that the scope answers for. -/
structure Strings (d : Class) (w w₁ : World) (items : List Handle) (l : Handle)
    (cells : List Handle) : Prop where
  resumes : w.Resumes w₁
  builds : Builds w w₁ (w.Safe items) items cells
  front : l ∈ cells ∨ l = Builtin.null
  chain : (∀ y ∈ items, w.Keeps [] y) → Chain d w₁ (.ofPool w.pools.current) l items cells

/-- A list has been given up. If all that it has taken over is kept without it, its cells go
with the scope and hold all of this until then. -/
structure Breaks (ids : List PoolId) (w w₁ : World) (taken cells : List Handle) : Prop where
  resumes : w.Resumes w₁
  builds : Builds w w₁ (w.Safe taken) taken cells
  doomed : (∀ y ∈ taken, w.Keeps [] y) → w₁.Doomed ids taken

theorem Ready.null_shared (hready : w.Ready) (ho : w.objects.get? Builtin.null = some o) :
    o.header.ownership = .shared := by
  obtain ⟨p, hp, hpinned⟩ := hready.equipped.null
  cases ho.symm.trans hp
  exact hready.coherent.linked.pinned_shared _ o ho hpinned

theorem Strings.start (hready : w.Ready) : Strings d w w [] Builtin.null [] where
  resumes := hready.refl
  builds := .start w _
  front := Or.inr rfl
  chain _ := ⟨.null, List.nodup_nil, fun _ hx => absurd hx List.not_mem_nil⟩

/-- Before the cells that there are, another cell comes out in one of its ways. -/
theorem Strings.cellRun {head next c : Handle} {d' : Class}
    (hstrings : Strings d w w₁ items next cells) (hready : w.Ready) (hsturdy : w₁.Sturdy)
    (hc : c ∈ w.classes) (hpairs : d'.Pairs) (hwithin : w.PlacesWithin c d')
    (hfits : ((Action.cell c head next).perform w₁).2.Fits) :
    Action.CellRun w₁ c head next ((Action.cell c head next).perform w₁).1
      ((Action.cell c head next).perform w₁).2 :=
  Action.cellRun (hready.resume hstrings.resumes) hsturdy (hstrings.resumes.evolves.classes _ hc)
    ⟨d', hpairs, hwithin.evolve hstrings.resumes.evolves⟩ hfits

theorem Strings.pooled (hstrings : Strings d w w₁ items l cells) (hready : w.Ready)
    (hkept : ∀ y ∈ items, w.Keeps [] y) : Chain d w₁ (.pool w.pools.current) l items cells :=
  Ownership.ofPool_of_ne hready.current_ne_collector ▸ hstrings.chain hkept

theorem Strings.keeps (hstrings : Strings d w w₁ items l cells) (hready : w.Ready)
    (hx : w.Safe items x) : w₁.Keeps [] x := by
  refine hstrings.builds.keeps hready.coherent hstrings.resumes.evolves.coherent
    (fun y z o hz hy ho href => hz.pred hy ho href) (fun y hy hmoved => ?_) hx.1 hx
  rcases hy.2 with hkept | hnot
  · exact ((hstrings.pooled hready hkept).keeps (hready.resume hstrings.resumes)).2 y hmoved.1
  · exact absurd (.start hmoved hy.1.live) hnot

/-- What is kept without the list is none of its cells, nor a new one. -/
theorem Strings.not_new {z : Handle} (hstrings : Strings d w w₁ items l cells) (hready : w.Ready)
    (hkept : ∀ y ∈ items, w.Keeps [] y) (hmakes : Action.Makes w₁ w₂ c x) (hz : w.Keeps [] z) :
    z ∉ cells ∧ z ≠ x := by
  have hsafe : w.Safe items z := ⟨hz, Or.inl hkept⟩
  obtain ⟨_, _, htakes⟩ := hmakes.takes
  refine ⟨fun hmem => hstrings.builds.new z hmem hsafe, ?_⟩
  rintro rfl
  exact htakes.new (hstrings.keeps hready hsafe).live

/-- A new cell is none of those in the chain. -/
theorem Chain.not_mem (hchain : Chain d w own l items cells) (hmakes : Action.Makes w w' c x) :
    x ∉ cells := by
  obtain ⟨_, _, htakes⟩ := hmakes.takes
  exact fun hmem => htakes.new (hchain.strung.live hmem)

theorem Strings.make (hstrings : Strings d w w₁ items l cells) (hready : w.Ready)
    (hmakes : Action.Makes w₁ w₂ c x) : Builds w w₂ (w.Safe items) items (x :: cells) :=
  hstrings.builds.make hstrings.resumes.tidy (fun _ hy => hy.1.live)
    (fun _ hy => hstrings.keeps hready hy) hmakes

/-- The new cell takes its item over. -/
theorem Strings.take {head : Handle} {n : Nat} (hstrings : Strings d w w₁ items l cells)
    (hready : w.Ready) (hmakes : Action.Makes w₁ w₂ c x)
    (htakes : w₂.TakesUp w' (.attr x n) head) :
    Builds w w' (w.Safe (head :: items)) (head :: items) (x :: cells) :=
  ((hstrings.make hready hmakes).mono fun _ hy =>
    hy.mono fun _ hz => List.mem_cons_of_mem _ hz).take List.mem_cons_self htakes

/-- The chain stays as it is when the new cell takes its item over, and the new cell is beside
it, and beside the item and the rest of the list. -/
theorem Strings.chain_take {head next : Handle} {n : Nat}
    (hstrings : Strings d w w₁ items next cells) (hready : w.Ready)
    (hkept : ∀ y ∈ head :: items, w.Keeps [] y) (hmakes : Action.Makes w₁ w₂ c x)
    (htakes : w₂.TakesUp w' (.attr x n) head) :
    Chain d w' (.pool w.pools.current) next items cells ∧ x ∉ cells ∧ head ≠ x ∧ next ≠ x := by
  obtain ⟨hhead, hitems⟩ := List.forall_mem_cons.1 hkept
  obtain ⟨hcells, hne⟩ := hstrings.not_new hready hitems hmakes hhead
  have hchain := hstrings.pooled hready hitems
  have hnew := hchain.not_mem hmakes
  refine ⟨(hchain.make (hready.resume hstrings.resumes) hmakes).take htakes hnew hcells, hnew, hne,
    ?_⟩
  rcases hstrings.front with hmem | rfl
  · exact fun heq => hnew (heq ▸ hmem)
  · exact (hstrings.not_new hready hitems hmakes hready.keeps_null).2

/-- What the new cell is like when it has taken its item over. -/
theorem Strings.get?_take {head next : Handle} {n : Nat}
    (hstrings : Strings d w w₁ items next cells) (hmakes : Action.Makes w₁ w₂ c x) (hne : head ≠ x)
    (htakes : w₂.TakesUp w' (.attr x n) head) :
    ∃ d' o, w₁.Describes c d' ∧ w'.objects.get? x = some o ∧
      o.header.ownership = .ofPool w.pools.current ∧ o.classRef = c ∧ ∀ t : Slot, t.owner = x →
        t.peek? o = if t = .attr x n then some (some head) else
          t.peek? ((Object.new c d'.attrCount .none 0 .shared).setOwnership
            (.ofPool w.pools.current)) := by
  obtain ⟨d', hd', htaken⟩ := hmakes.takes
  obtain ⟨o, ho, hheader, hclass, hslots⟩ := htakes.stored hne htaken.get?_eq
  rw [hstrings.resumes.current_eq] at hheader hclass hslots
  exact ⟨d', o, hd', ho, by rw [hheader]; rfl, hclass, hslots⟩

/-- If a cell fails, the list has taken over its items up to this one, with or without it. -/
theorem Strings.breaks {head next : Handle} {e : Error}
    (hstrings : Strings d w w₁ items next cells) (hready : w.Ready)
    (hid : w.pools.current ∉ ids) (hrun : Action.CellRun w₁ c head next (.error e) w₂) :
    ∃ taken cells', taken <:+ head :: items ∧ Breaks ids w w₂ taken cells' := by
  have hready₁ := hready.resume hstrings.resumes
  cases hrun with
  | full =>
      have hrelieved := resumes_relieved hready₁
      refine ⟨items, cells, List.suffix_cons _ _, hstrings.resumes.trans hrelieved,
        hstrings.builds.relieve hready₁.tidy fun _ hy => hstrings.keeps hready hy, fun hkept => ?_⟩
      exact ((hstrings.pooled hready hkept).relieve hready₁).doomed hrelieved.evolves.coherent hid
  | bare hmakes _ =>
      have hmade := hmakes.resumes hready₁
      refine ⟨items, _, List.suffix_cons _ _, hstrings.resumes.trans hmade,
        hstrings.make hready hmakes, fun hkept => ?_⟩
      exact ((hstrings.pooled hready hkept).make hready₁ hmakes).doomed hmade.evolves.coherent hid
  | @loose x _ _ _ p hmakes _ hhead _ =>
      have hmade := hmakes.resumes hready₁
      have htaken := hhead.resumes (hready₁.resume hmade)
      have hcoherent := htaken.evolves.coherent
      refine ⟨head :: items, _, List.suffix_rfl, (hstrings.resumes.trans hmade).trans htaken,
        hstrings.take hready hmakes hhead, fun hkept => ?_⟩
      obtain ⟨hchain, _, hne, _⟩ := hstrings.chain_take hready hkept hmakes hhead
      obtain ⟨_, o, _, ho, hown, _, hslots⟩ := hstrings.get?_take hmakes hne hhead
      rw [Ownership.ofPool_of_ne hready.current_ne_collector] at hown
      have hholds : head ∈ o.ownedRefs :=
        (Object.mem_ownedRefs_iff (x := x)).2 (Or.inr ⟨.attr x p.toNat, rfl, by
          rw [hslots _ rfl, if_pos rfl]⟩)
      refine List.forall_mem_cons.2 ⟨?_, hchain.doomed hcoherent hid⟩
      exact ⟨x, o, Action.falls_of_pool hcoherent ho hown hid, ho, hholds⟩

/-- A cell that is made becomes the first one of the chain. -/
theorem Strings.cell {head next : Handle} (hstrings : Strings d w w₁ items next cells)
    (hready : w.Ready) (hpairs : d.Pairs) (hwithin : w.PlacesWithin Builtin.pairlistClass d)
    (hrun : Action.CellRun w₁ Builtin.pairlistClass head next (.ok x) w₂) :
    Strings d w w₂ (head :: items) x (x :: cells) := by
  have hready₁ := hready.resume hstrings.resumes
  have hresumes := hstrings.resumes.trans (hrun.resumes hready₁)
  cases hrun with
  | @done _ wa wb _ p q hmakes hplaces hhead hplaces' hnext =>
  have hmade := hstrings.resumes.trans (hmakes.resumes hready₁)
  have hfirst := hmade.trans (hhead.resumes (hready.resume hmade))
  have hnextMem : next ∈ x :: cells ∨ next = Builtin.null :=
    hstrings.front.imp_left (List.mem_cons_of_mem _)
  refine ⟨hresumes, ?_, Or.inl List.mem_cons_self, fun hkept => ?_⟩
  · exact ((hstrings.take hready hmakes hhead).take List.mem_cons_self hnext).forget
      (fun o ho => hready.null_shared ho) hnextMem
  obtain ⟨hchain, hnew, hne, hnextNe⟩ := hstrings.chain_take hready hkept hmakes hhead
  obtain ⟨_, o, _, ho, hown, hclass, hslots⟩ := hstrings.get?_take hmakes hne hhead
  have hp := (hwithin.evolve hmade.evolves).slot_eq hplaces
  have hq := (hwithin.evolve hfirst.evolves).slot_eq hplaces'
  have hpq : p ≠ q := by
    rintro rfl
    exact hpairs p hp hq
  rw [← hown]
  exact hchain.cons hnew hnextNe ho hclass hp ((hslots _ rfl).trans (if_pos rfl)) hq hpq hnext

end World

end ObjectSystem

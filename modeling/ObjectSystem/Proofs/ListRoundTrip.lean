/-
# Lists give back their items

As long as the classes that are declared for the attributes of linked lists are the first ones,
a list of objects that collections keep can only fail to be made for want of room. When it is
read, it has the items that it was made of, and it consists of just as many new cells. The pool
around answers for the first of them, and each of the others is held by the one before it.

A new cell takes any object as its item, since all classes lie below the class of all objects,
and it takes a list of cells as its rest. That is why no write can be refused.
-/

import ObjectSystem.Proofs.ListFailure

namespace ObjectSystem

/-- The instances can be the cells of lists of any objects. -/
structure Class.Cellular (d : Class) : Prop where
  wellLaid : d.WellLaid
  head : ∃ p, d.slot Symbol.head = .inInstance p ∧
    d.attrClass? p.toNat = some Builtin.objectClass
  next : ∃ q, d.slot Symbol.next = .inInstance q ∧
    d.attrClass? q.toNat = some Builtin.pairlistClass

namespace World

variable {w w' w₁ w₂ : World} {c l x v next : Handle} {d : Class} {o : Object} {s : Symbol}
  {place : UInt32} {items cells : List Handle} {P : Handle → Prop} {taken : List Handle}

/-- The places of the first attributes of linked lists. -/
theorem Derived.cellular
    (hderived : w.Derived Builtin.pairlistClass Builtin.objectClass
      [Symbol.next, Symbol.head, Symbol.tag]) (hordered : w.Ordered)
    (hd : w.Describes Builtin.pairlistClass d)
    (hdeclared : d.attrClasses = #[Builtin.pairlistClass, Builtin.objectClass,
      Builtin.objectClass]) : d.Cellular := by
  obtain ⟨hc, _, above, d', _, hd', hextends⟩ := hderived
  cases hd.unique hd'
  obtain ⟨inst, own, hlaid⟩ := (hordered.orders hc hd).laid
  have hwell := hlaid.wellLaid
  have hsize := hwell.attrClasses_size
  rw [hdeclared, hextends.attrCount_eq] at hsize
  have hnone : above.attrCount = 0 := by simpa using hsize
  refine ⟨hwell, ?_, ?_⟩
  · obtain ⟨p, hp, hplace⟩ := hextends.added 1 Symbol.head rfl
    rw [hnone] at hplace
    exact ⟨p, hp, by rw [hplace, Class.attrClass?, hdeclared]; rfl⟩
  · obtain ⟨q, hq, hplace⟩ := hextends.added 0 Symbol.next rfl
    rw [hnone] at hplace
    exact ⟨q, hq, by rw [hplace, Class.attrClass?, hdeclared]; rfl⟩

/-- Linked lists are among the classes that every world starts with. -/
theorem derived_pairlist : Annals.initial.derived Builtin.pairlistClass Builtin.objectClass
    [Symbol.next, Symbol.head, Symbol.tag] := by
  show ∃ p ∈ ClassPlan.builtin.zipIdx 2, _
  decide

/-! ## Reading lists -/

theorem getAttr_eq (hx : w.objects.get? x = some o) (hd : w.Describes o.classRef d)
    (hs : s ≠ Symbol.ofClass) (hslot : d.slot s = .inInstance place)
    (hholds : w.objects.Holds (.attr x place.toNat) v) : w.getAttr x s = .ok (some v) := by
  obtain ⟨p, hp, hpeek⟩ := hholds
  rw [getAttr, classOf_eq_ok hx]
  simp only [bind, Except.bind, hd.resolveAttr_eq hs hslot]
  exact read_eq_ok_of_peek? (s := .attr x place.toNat) hp hpeek

/-- An object passes the subtype test for its own class. -/
theorem isAssignable_self (hordered : w.Ordered) (hx : w.objects.get? x = some o)
    (hc : o.classRef ∈ w.classes) : w.isAssignable x o.classRef = .ok true := by
  obtain ⟨below, hbelow, hiff⟩ := hordered.isAssignableClass_eq hc o.classRef
  rw [isAssignable, classOf_eq_ok hx]
  rw [hiff.2 .refl] at hbelow
  exact hbelow

/-- Cells that are strung together are read one after the other. -/
theorem Strung.itemsWithin_eq (hstrung : Strung d w l items cells) (hordered : w.Ordered)
    (hc : Builtin.pairlistClass ∈ w.classes) (hd : w.Describes Builtin.pairlistClass d)
    (hnull : Builtin.null ∉ cells) {fuel : Nat} (hfuel : cells.length ≤ fuel) :
    w.itemsWithin fuel l = .ok items := by
  induction hstrung generalizing fuel with
  | null => cases fuel <;> rfl
  | @cell x next item items cells p q hclass hp hitem hq hnext _ ih =>
      obtain ⟨o, ho, hclass⟩ := hclass
      rw [← hclass] at hc hd
      cases fuel with
      | zero => cases hfuel
      | succ fuel =>
          have hx : isNull x = false := by
            rw [isNull, beq_eq_false_iff_ne]
            rintro rfl
            exact hnull List.mem_cons_self
          have hrest := ih (fun hmem => hnull (List.mem_cons_of_mem _ hmem))
            (Nat.le_of_succ_le_succ hfuel)
          have hassignable := isAssignable_self hordered ho hc
          rw [hclass] at hassignable
          rw [itemsWithin]
          simp only [hx, hassignable, getAttr_eq ho hd (by decide) hp hitem,
            getAttr_eq ho hd (by decide) hq hnext, hrest, bind, Except.bind, pure, Except.pure]
          simp

/-! ## Cells are not refused -/

/-- The null object and objects below a declared class may stand at a place. -/
theorem checkAttr_eq_ok (hd : w.Describes c d) {t : Handle} {n : Nat}
    (hdeclared : d.attrClass? n = some t)
    (hvalue : v = Builtin.null ∨ w.isAssignable v t = .ok true) :
    w.checkAttr c n (some v) = .ok () := by
  unfold checkAttr
  simp only [hd.descriptor_eq, bind, Except.bind, hdeclared]
  rcases hvalue with rfl | hvalue
  · rfl
  · rw [hvalue]
    simp [pure, Except.pure]

/-- An empty place takes a value that may stand there. -/
theorem setAttr_not_refused (hcoherent : w.Coherent) (hx : w.objects.get? x = some o)
    (hclass : o.classRef = c) (hd : w.Describes c d) (hs : s ≠ Symbol.ofClass)
    (hslot : d.slot s = .inInstance place)
    (hempty : (Slot.attr x place.toNat).peek? o = some none) (hlive : w.objects.Live v)
    (hcheck : w.checkAttr c place.toNat (some v) = .ok ()) {e : Error} :
    (Action.setAttr x s (some v)).perform w ≠ (.error e, w') := by
  subst hclass
  obtain ⟨w₁, hset, _⟩ := Action.takesUp_set (s := .attr x place.toNat) hcoherent hx hempty hlive
  have hperform : (Action.setAttr x s (some v)).perform w = (.ok (), w₁) := by
    unfold Action.setAttr
    rw [Action.perform_query_bind, classOf_eq_ok hx]
    simp only
    rw [Action.perform_query_bind, hd.resolveAttr_eq hs hslot]
    simp only
    rw [Action.perform_query_bind, hcheck]
    exact hset
  rw [hperform]
  exact fun heq => nomatch (Prod.mk.inj heq).1

/-- The places of a new object are empty. -/
theorem peek?_new_eq {own : Ownership} {n : Nat} (hpos : 1 ≤ n) (hle : n ≤ d.attrCount) :
    (Slot.attr x n).peek? ((Object.new c d.attrCount .none 0 .shared).setOwnership own) =
      some none := by
  obtain ⟨index, rfl⟩ := Nat.exists_eq_add_of_le' hpos
  simp only [Slot.peek?, Object.setOwnership, Object.new, Array.getElem?_replicate]
  exact if_pos hle

/-- The class of what is kept passes every test for the class of all objects. -/
theorem isAssignable_object (hordered : w.Ordered) (hrooted : w.Rooted)
    (hx : w.objects.get? x = some o) (hc : o.classRef ∈ w.classes) :
    w.isAssignable x Builtin.objectClass = .ok true := by
  obtain ⟨below, hbelow, hiff⟩ := hordered.isAssignableClass_eq hc Builtin.objectClass
  rw [isAssignable, classOf_eq_ok hx]
  rw [hiff.2 (hrooted.reaches _ hc)] at hbelow
  exact hbelow

/-- What describes a class goes on describing it while a list is built. -/
theorem Builds.describes (hbuilds : Builds w w' P taken cells) (hd : w.Describes c d) (hc : P c) :
    w'.Describes c d := by
  obtain ⟨o, ho, hpinned, hpayload⟩ := hd
  exact ⟨_, hbuilds.stays c o ho hc, hpinned, hpayload⟩

theorem Describes.keeps (hd : w.Describes c d) : w.Keeps [] c := by
  obtain ⟨o, ho, hpinned, _⟩ := hd
  exact .start (.pinned ho hpinned) ⟨o, ho⟩

section Refused

variable {head : Handle} {e : Error} (hstrings : Strings d w w₁ items next cells)
  (hready : w.Ready) (hkept : ∀ y ∈ head :: items, w.Keeps [] y)
  (hd : w.Describes Builtin.pairlistClass d) (hcellular : d.Cellular) (hordered : w₂.Ordered)
include hstrings hready hkept hd hcellular hordered

/-- The item of a new cell is not refused. -/
theorem Strings.head_not_refused (hmakes : Action.Makes w₁ w₂ Builtin.pairlistClass x)
    (hregistered : ∀ x o, w.objects.get? x = some o → o.classRef ∈ w.classes)
    (hrooted : w₂.Rooted) :
    (Action.setAttr x Symbol.head (some head)).perform w₂ ≠ (.error e, w') := by
  obtain ⟨hhead, hitems⟩ := List.forall_mem_cons.1 hkept
  have hbuilds := hstrings.make hready hmakes
  have hevolves := hstrings.resumes.evolves.trans hmakes.evolves
  have hd₁ := hstrings.builds.describes hd ⟨hd.keeps, Or.inl hitems⟩
  have hd₂ := hbuilds.describes hd ⟨hd.keeps, Or.inl hitems⟩
  obtain ⟨d', hd', htakes⟩ := hmakes.takes
  cases hd₁.unique hd'
  obtain ⟨p, hp, hdeclared⟩ := hcellular.head
  obtain ⟨hpos, hle⟩ := hcellular.wellLaid.place_mem _ p hp
  obtain ⟨o, ho⟩ := hhead.live
  have ho' := hbuilds.stays head o ho ⟨hhead, Or.inl hitems⟩
  have hobject := isAssignable_object hordered hrooted ho'
    (hevolves.classes _ (hregistered head o ho))
  exact setAttr_not_refused hevolves.coherent htakes.get?_eq rfl hd₂ (by decide) hp
    (peek?_new_eq hpos hle) ⟨_, ho'⟩ (checkAttr_eq_ok hd₂ hdeclared (Or.inr hobject))

/-- The rest of a new cell, which is a cell or the null object, is not refused. -/
theorem Strings.next_not_refused {w₃ : World} {p : UInt32}
    (hmakes : Action.Makes w₁ w₃ Builtin.pairlistClass x)
    (hplaces : w₃.Places Builtin.pairlistClass Symbol.head p)
    (hfirst : w₃.TakesUp w₂ (.attr x p.toNat) head) :
    (Action.setAttr x Symbol.next (some next)).perform w₂ ≠ (.error e, w') := by
  obtain ⟨_, hitems⟩ := List.forall_mem_cons.1 hkept
  have hbuilds := hstrings.take hready hmakes hfirst
  have hevolves := (hstrings.resumes.evolves.trans hmakes.evolves).trans hfirst.evolves
  have hd₁ := hstrings.builds.describes hd ⟨hd.keeps, Or.inl hitems⟩
  have hd₂ := hbuilds.describes hd ⟨hd.keeps, Or.inl hkept⟩
  have hd₃ := (hstrings.make hready hmakes).describes hd ⟨hd.keeps, Or.inl hitems⟩
  obtain ⟨hchain, _, hne, _⟩ := hstrings.chain_take hready hkept hmakes hfirst
  obtain ⟨d', o, hd', ho, _, hclass, hslots⟩ := hstrings.get?_take hmakes hne hfirst
  cases hd₁.unique hd'
  obtain ⟨q, hq, hdeclared⟩ := hcellular.next
  obtain ⟨hpos, hle⟩ := hcellular.wellLaid.place_mem _ q hq
  have hempty : (Slot.attr x q.toNat).peek? o = some none := by
    rw [hslots _ rfl, if_neg, peek?_new_eq hpos hle]
    intro heq
    have hplace : q = p := UInt32.toNat_inj.1 (Slot.attr.inj heq).2
    exact hcellular.wellLaid.pairs p (hd₃.placesWithin.slot_eq hplaces) (hplace ▸ hq)
  have hnext : w₂.objects.Live next ∧
      (next = Builtin.null ∨ w₂.isAssignable next Builtin.pairlistClass = .ok true) := by
    rcases hstrings.front with hmem | rfl
    · obtain ⟨o', ho', hcell⟩ := hchain.strung.get? hmem
      refine ⟨⟨o', ho'⟩, Or.inr ?_⟩
      rw [← hcell]
      apply isAssignable_self hordered ho'
      rw [hcell]
      exact hevolves.classes _ (hready.equipped.classes _ (by decide))
    · obtain ⟨o', ho'⟩ := hready.keeps_null.live
      exact ⟨⟨_, hbuilds.stays _ o' ho' ⟨hready.keeps_null, Or.inl hkept⟩⟩, Or.inl rfl⟩
  exact setAttr_not_refused hevolves.coherent ho hclass hd₂ (by decide) hq hempty hnext.1
    (checkAttr_eq_ok hd₂ hdeclared hnext.2)

/-- A cell that takes over what is kept fails only for want of room. -/
theorem Strings.outOfMemory
    (hregistered : ∀ x o, w.objects.get? x = some o → o.classRef ∈ w.classes)
    (hrooted : w₂.Rooted)
    (hrun : Action.CellRun w₁ Builtin.pairlistClass head next (.error e) w₂) :
    ∃ limit, e = .outOfMemory limit := by
  cases hrun with
  | full => exact ⟨_, rfl⟩
  | bare hmakes hrefused =>
      exact absurd hrefused (hstrings.head_not_refused hready hkept hd hcellular hordered hmakes
        hregistered hrooted)
  | loose hmakes hplaces hfirst hrefused =>
      exact absurd hrefused (hstrings.next_not_refused hready hkept hd hcellular hordered hmakes
        hplaces hfirst)

end Refused

/-! ## Cells are new -/

/-- Different objects that are live are no more than all that are live. -/
theorem Tidy.length_le_population (htidy : w.Tidy) (hcounted : w.objects.Counted)
    (hnodup : cells.Nodup) (hlive : ∀ x ∈ cells, w.objects.Live x) :
    cells.length ≤ w.population := by
  rw [population, ← hcounted.length_handles]
  have hsub : ∀ x ∈ cells, x ∈ w.objects.handles := fun x hx =>
    (Arena.mem_handles_iff htidy.addressed).2 (hlive x hx)
  exact (hnodup.subperm hsub).length_le

/-- As `Strings`, and one object for each cell has been put in, which was not there before. -/
structure Prolongs (d : Class) (w w₁ : World) (items : List Handle) (l : Handle)
    (cells : List Handle) : Prop extends Strings d w w₁ items l cells where
  sturdy : w₁.Sturdy
  spends : w.Spends w₁
  grows : w.Extends w₁
  inserted_eq : w₁.objects.inserted = w.objects.inserted + cells.length
  new : ∀ x ∈ cells, ¬ w.objects.Live x

/-- The next cell is not the handle of an object that was there before: so few objects have been
taken out since that no cell of the arena has come back to its generation. -/
theorem Prolongs.not_live (hprolongs : Prolongs d w w₁ items next cells) (hready : w.Ready)
    (hsturdy : w.Sturdy) (hcells : w.objects.cells.size ≤ 2 ^ 32)
    (hkept : ∀ y ∈ items, w.Keeps [] y) (hmakes : Action.Makes w₁ w₂ c x) :
    ¬ w.objects.Live x := by
  rintro ⟨p, hp⟩
  have hready₁ := hready.resume hprolongs.resumes
  obtain ⟨_, _, htakes⟩ := hmakes.takes
  have hchain := hprolongs.pooled hready hkept
  have hchain₂ := hchain.make hready₁ hmakes
  obtain ⟨hnull, hne⟩ := hprolongs.not_new hready hkept hmakes hready.keeps_null
  have hnodup : (x :: Builtin.null :: cells).Nodup :=
    List.nodup_cons.2 ⟨by simp [hne.symm, hchain.not_mem hmakes],
      List.nodup_cons.2 ⟨hnull, hchain.nodup⟩⟩
  have hlive : ∀ y ∈ x :: Builtin.null :: cells, w₂.objects.Live y := by
    obtain ⟨o, ho, _⟩ := ((hready₁.resume (hmakes.resumes hready₁)).equipped.null)
    exact List.forall_mem_cons.2 ⟨⟨_, htakes.get?_eq⟩,
      List.forall_mem_cons.2 ⟨⟨o, ho⟩, fun y hy => hchain₂.strung.live hy⟩⟩
  have hcounted := hmakes.sturdy.counted
  have hfew : w₂.objects.removed < w.objects.inserted := by
    have hlength := (hmakes.moves.tidy hready₁.tidy).length_le_population hcounted hnodup hlive
    have hsize := hcounted.length_handles
    rw [Arena.length_handles] at hsize
    have hinserted := hprolongs.inserted_eq
    have hinserted₂ := hmakes.inserted_eq
    unfold Arena.Counted at hcounted
    simp only [population, List.length_cons] at hlength
    omega
  obtain ⟨q, hq⟩ := hsturdy.counted.get?_between hcells hprolongs.spends.turns
    hmakes.moves.turns hp htakes.get?_eq hfew
  exact htakes.new ⟨q, hq⟩

theorem Prolongs.start (hready : w.Ready) (hsturdy : w.Sturdy) (hordered : w.Ordered) :
    Prolongs d w w [] Builtin.null [] where
  toStrings := .start hready
  sturdy := hsturdy
  spends := refl_of Spends w
  grows := .refl hordered
  inserted_eq := rfl
  new _ hx := absurd hx List.not_mem_nil

/-- A list of what is kept gets one cell more, or there is no room for it. -/
theorem Prolongs.cons {head : Handle} (hprolongs : Prolongs d w w₁ items next cells)
    (hready : w.Ready) (hsturdy : w.Sturdy) (hrooted : w.Rooted)
    (hregistered : ∀ x o, w.objects.get? x = some o → o.classRef ∈ w.classes)
    (hd : w.Describes Builtin.pairlistClass d) (hcellular : d.Cellular)
    (hkept : ∀ y ∈ head :: items, w.Keeps [] y)
    (hfits : ((Action.cons head next).perform w₁).2.Fits) :
    (∀ x w₂, (Action.cons head next).perform w₁ = (.ok x, w₂) →
      Prolongs d w w₂ (head :: items) x (x :: cells)) ∧
      ∀ e w₂, (Action.cons head next).perform w₁ = (.error e, w₂) →
        w.Resumes w₂ ∧ ∃ limit, e = .outOfMemory limit := by
  have hready₁ := hready.resume hprolongs.resumes
  have hpairs := hcellular.wellLaid.pairs
  have hwithin := hd.placesWithin
  have hclass := hready₁.equipped.classes Builtin.pairlistClass (by decide)
  have hrun := hprolongs.cellRun hready hprolongs.sturdy
    (hready.equipped.classes _ (by decide)) hpairs hwithin hfits
  have hsustains : w₁.Sustains ((Action.cons head next).perform w₁).2 :=
    Action.routine_cell_anything.composite.keeps steps_sustains w₁
  have hroutine : Action.Routine w₁.naming (Action.cons head next) :=
    Action.routine_cell hclass head next
  have hgrows := (hroutine.develops hprolongs.grows.ordered w₁.names_naming
    hfits.cells_le).toExtends
  have hcells : w.objects.cells.size ≤ 2 ^ 32 :=
    (hprolongs.spends.cells_le.trans hsustains.cells_le).trans hfits.cells_le
  constructor
  · intro x w₂ hperform
    rw [Action.cons] at hperform hsustains hfits hgrows
    rw [hperform] at hrun hsustains hfits hgrows
    have hstrings := hprolongs.cell hready hpairs hwithin hrun
    cases hrun with
    | done hmakes _ hhead _ hnext =>
        refine ⟨hstrings, hsustains.sturdy hfits hprolongs.sturdy,
          trans_of Spends hprolongs.spends hsustains.toSpends, hprolongs.grows.trans hgrows,
          ?_, ?_⟩
        · rw [hnext.counts, hhead.counts, hmakes.inserted_eq, hprolongs.inserted_eq]
          rfl
        · exact List.forall_mem_cons.2 ⟨hprolongs.not_live hready hsturdy hcells
            (fun y hy => hkept y (List.mem_cons_of_mem _ hy)) hmakes, hprolongs.new⟩
  · intro e w₂ hperform
    rw [Action.cons] at hperform hgrows
    rw [hperform] at hrun hgrows
    exact ⟨hprolongs.resumes.trans (hrun.resumes hready₁),
      hprolongs.outOfMemory hready hkept hd hcellular hgrows.ordered hregistered
        (hgrows.rooted (hprolongs.grows.rooted hrooted)) hrun⟩

/-! ## Whole lists -/

/-- The classes that are declared for the attributes of linked lists are the first ones. -/
def ListsDeclared (w : World) : Prop :=
  ∃ d, w.descriptor Builtin.pairlistClass = .ok d ∧
    d.attrClasses = #[Builtin.pairlistClass, Builtin.objectClass, Builtin.objectClass]

instance (w : World) : Decidable w.ListsDeclared :=
  match h : w.descriptor Builtin.pairlistClass with
  | .ok d => decidable_of_iff
      (d.attrClasses = #[Builtin.pairlistClass, Builtin.objectClass, Builtin.objectClass])
      (by simp [ListsDeclared, h])
  | .error _ => isFalse (by simp [ListsDeclared, h])

example : initial.ListsDeclared := by decide +kernel

/-- A list has been made of new cells, and it gives back the items that it was made of. -/
structure Lists (w w' : World) (items : List Handle) (l : Handle) (cells : List Handle) :
    Prop where
  items_eq : w'.items l = .ok items
  scopes_eq : w'.pools.scopeIds = w.pools.scopeIds
  /-- The list is its first cell, or the null object. -/
  first : l = cells.head?.getD Builtin.null
  length_eq : cells.length = items.length
  nodup : cells.Nodup
  new : ∀ x, x ∈ cells ↔ w'.objects.Live x ∧ ¬ w.objects.Live x
  owned : ∀ x ∈ cells, ∀ o, w'.objects.get? x = some o →
    o.header.ownership = if x = l then .ofPool w.pools.current else .single
  registered : ∀ x ∈ cells, ∀ id, w'.pools.entries.count (id, x) =
    if x = l ∧ id = w.pools.current then 1 else 0

theorem Strung.length_eq (hstrung : Strung d w l items cells) : cells.length = items.length := by
  induction hstrung with
  | null => rfl
  | cell _ _ _ _ _ _ ih => rw [List.length_cons, List.length_cons, ih]

theorem Strung.first (hstrung : Strung d w l items cells) : l = cells.head?.getD Builtin.null := by
  cases hstrung <;> rfl

/-- What has come of a list whose items were kept. -/
theorem Strings.lists (hstrings : Strings d w w' items l cells)
    (hkept : ∀ y ∈ items, w.Keeps [] y) (hnull : w.Keeps [] Builtin.null)
    (hd : w.Describes Builtin.pairlistClass d) (hordered : w'.Ordered)
    (hc : Builtin.pairlistClass ∈ w'.classes) (hnew : ∀ x ∈ cells, ¬ w.objects.Live x) :
    Lists w w' items l cells := by
  have hchain := hstrings.chain hkept
  have hcoherent := hstrings.resumes.evolves.coherent
  have hlive : ∀ x ∈ cells, w'.objects.Live x := fun x hx => hchain.strung.live hx
  constructor
  case items_eq =>
    apply hchain.strung.itemsWithin_eq hordered hc
    · exact hstrings.builds.describes hd ⟨hd.keeps, Or.inl hkept⟩
    · exact fun hmem => hstrings.builds.new _ hmem ⟨hnull, Or.inl hkept⟩
    · exact (hstrings.resumes.tidy.length_le_population hordered.counted hchain.nodup
        hlive).trans (Nat.le_succ _)
  case scopes_eq => exact hstrings.resumes.scopes_eq
  case first => exact hchain.strung.first
  case length_eq => exact hchain.strung.length_eq
  case nodup => exact hchain.nodup
  case new =>
    refine fun x => ⟨fun hx => ⟨hlive x hx, hnew x hx⟩, ?_⟩
    rintro ⟨⟨o, ho⟩, hnone⟩
    rcases hstrings.builds.back x o ho with hx | ⟨p, hp, _⟩
    · exact hx
    · exact absurd ⟨p, hp⟩ hnone
  case owned => exact hchain.owned
  case registered =>
    intro x hx id
    obtain ⟨o, ho⟩ := hlive x hx
    rw [hcoherent.count_entries ho, hchain.owned x hx o ho]
    by_cases heq : x = l
    · rw [if_pos heq]
      refine if_congr ⟨fun hown => ⟨heq, (Ownership.ofPool_injective hown).symm⟩, ?_⟩ rfl rfl
      rintro ⟨_, rfl⟩
      rfl
    · rw [if_neg heq, if_neg (Ownership.ofPool_ne_single id).symm, if_neg fun h => heq h.1]

end World

namespace Action

open World

variable {w : World} {d : Class} {items : List Handle}

/-- A list of what is kept is built cell by cell, or there is no room for it. -/
theorem prolongs_foldrM (hready : w.Ready) (hsturdy : w.Sturdy) (hordered : w.Ordered)
    (hrooted : w.Rooted) (hregistered : ∀ x o, w.objects.get? x = some o → o.classRef ∈ w.classes)
    (hd : w.Describes Builtin.pairlistClass d) (hcellular : d.Cellular)
    (hkept : ∀ y ∈ items, w.Keeps [] y)
    (hfits : ((items.foldrM cons Builtin.null).perform w).2.Fits) :
    (∃ l w' cells, (items.foldrM cons Builtin.null).perform w = (.ok l, w') ∧
      Prolongs d w w' items l cells) ∨
      ∃ limit w', (items.foldrM cons Builtin.null).perform w =
        (.error (.outOfMemory limit), w') ∧ w.Resumes w' := by
  have houtcome := foldrM_outcome
    (I := fun items l w' => (∀ y ∈ items, w.Keeps [] y) → ∃ cells, Prolongs d w w' items l cells)
    (E := fun e rest w' => (∀ y ∈ rest, w.Keeps [] y) →
      w.Resumes w' ∧ ∃ limit, e = .outOfMemory limit)
    (fun _ _ => advances_cell) (fun _ => ⟨[], .start hready hsturdy hordered⟩)
    (fun head rest next w₁ hrest hfits => by
      have hstep : ∀ (hkept : ∀ y ∈ head :: rest, w.Keeps [] y), ∃ cells,
          Prolongs d w w₁ rest next cells := fun hkept =>
        hrest fun y hy => hkept y (List.mem_cons_of_mem _ hy)
      refine ⟨fun x w' hperform hkept => ?_, fun e w' hperform hkept => ?_⟩
      · obtain ⟨cells, hprolongs⟩ := hstep hkept
        exact ⟨_, (hprolongs.cons hready hsturdy hrooted hregistered hd hcellular hkept hfits).1
          x w' hperform⟩
      · obtain ⟨cells, hprolongs⟩ := hstep hkept
        exact (hprolongs.cons hready hsturdy hrooted hregistered hd hcellular hkept hfits).2
          e w' hperform) hfits
  rcases houtcome with ⟨l, w', hbuilt, hprolongs⟩ | ⟨e, w', rest, hbuilt, hsuffix, hfull⟩
  · obtain ⟨cells, hprolongs⟩ := hprolongs hkept
    exact Or.inl ⟨l, w', cells, hbuilt, hprolongs⟩
  · obtain ⟨hresumes, limit, rfl⟩ := hfull fun y hy => hkept y (hsuffix.subset hy)
    exact Or.inr ⟨limit, w', hbuilt, hresumes⟩

end Action

namespace World.Respectful

variable {settings : Settings} {w : World} {items : List Handle}

end World.Respectful

end ObjectSystem

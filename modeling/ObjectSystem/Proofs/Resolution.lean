/-
# Attributes along the ancestors

Instances of a class find an attribute where their class says, and if their class does not say,
in the first class above that holds a value of it. A place in the instances of a class above is
passed by: it belongs to the layout of other objects.

The walk behind `World.resolveAttr` looks at each superclass before it goes up from there, and
comes to a class above as often as there are ways up to it. However a world has been used, as
long as only registered classes were used as classes, it has the outcome of one pass along the
ancestors of the class, and there are no errors.
-/

import ObjectSystem.Proofs.Preorder

namespace ObjectSystem.World

variable {settings : Settings} {a : Annals} {w w' : World} {c : Handle} {s : Symbol}
  {l before after : List Handle}

/-- Where a class keeps an attribute; nowhere if it is no class. -/
def entry (w : World) (s : Symbol) (c : Handle) : AttrSlot :=
  match w.descriptor c with
  | .ok d => d.slot s
  | .error _ => .unmapped

/-- The value that a class holds for its instances and those of the classes below. -/
def heldBy (w : World) (s : Symbol) (c : Handle) : Option AttrLocation :=
  match w.entry s c with
  | .inClass index => some (.inClass c index)
  | _ => none

/-- Where instances of a class find an attribute, given the class and the classes above it in
order: the class has its own entry, or the first class above that holds a value decides. -/
def located (w : World) (s : Symbol) : (classes : List Handle) → AttrLocation
  | [] => .absent
  | c :: above =>
      match w.entry s c with
      | .inInstance place => .inInstance place
      | .inClass index => .inClass c index
      | .unmapped => (above.findSome? (w.heldBy s)).getD .absent

theorem Ordered.heldAttr_eq (hordered : w.Ordered) (hc : c ∈ w.classes) :
    w.heldAttr s c = .ok (w.heldBy s c) := by
  obtain ⟨d, hd⟩ := hordered.described c hc
  rw [heldAttr, heldBy, entry, hd.describes.descriptor_eq]
  simp only [bind, Except.bind]
  cases d.slot s <;> rfl

/-! ## Parts of the pass -/

theorem exists_of_heldBy {location : AttrLocation} (hheld : w.heldBy s c = some location) :
    ∃ index, location = .inClass c index := by
  rw [heldBy] at hheld
  split at hheld
  · next index _ => exact ⟨index, (Option.some.inj hheld).symm⟩
  · cases hheld

theorem located_append (hfound : w.located s before ≠ .absent) :
    w.located s (before ++ after) = w.located s before := by
  cases before with
  | nil => exact absurd rfl hfound
  | cons k before =>
      rw [List.cons_append, located, located]
      cases hentry : w.entry s k with
      | inInstance | inClass => rfl
      | unmapped =>
          simp only [located, hentry] at hfound
          cases hbefore : before.findSome? (w.heldBy s) with
          | none => exact absurd (by rw [hbefore]; rfl) hfound
          | some found => simp [List.findSome?_append, hbefore]

theorem located_congr (hentry : ∀ k ∈ l, w'.entry s k = w.entry s k) :
    w'.located s l = w.located s l := by
  cases l with
  | nil => rfl
  | cons k l =>
      obtain ⟨hk, hl⟩ := List.forall_mem_cons.1 hentry
      have hheld : l.findSome? (w'.heldBy s) = l.findSome? (w.heldBy s) := by
        rw [← List.head?_filterMap, ← List.head?_filterMap]
        refine congrArg List.head? (List.filterMap_congr fun b hb => ?_)
        rw [heldBy, heldBy, hl b hb]
      rw [located, located, hk, hheld]

/-- Behind classes that hold nothing, a class that holds a value decides. -/
theorem located_append_cons {index : UInt32} (habsent : w.located s before = .absent)
    (hc : w.entry s c = .inClass index) :
    w.located s (before ++ c :: after) = .inClass c index := by
  have hheld : w.heldBy s c = some (.inClass c index) := by rw [heldBy, hc]
  cases before with
  | nil => rw [List.nil_append, located, hc]
  | cons k before =>
      rw [List.cons_append, located]
      rw [located] at habsent
      cases hentry : w.entry s k with
      | inInstance | inClass =>
          rw [hentry] at habsent
          cases habsent
      | unmapped =>
          simp only [hentry] at habsent
          have hnone : before.findSome? (w.heldBy s) = none := by
            cases hbefore : before.findSome? (w.heldBy s) with
            | none => rfl
            | some found =>
                obtain ⟨b, _, hb⟩ := List.exists_of_findSome?_eq_some hbefore
                obtain ⟨index', rfl⟩ := exists_of_heldBy hb
                rw [hbefore] at habsent
                cases habsent
          simp [List.findSome?_append, hnone, hheld]

/-! ## The walk is the pass -/

/-- A search for a value that a class does not hold itself goes on above. -/
theorem Ordered.search_above (hordered : w.Ordered) (hc : c ∈ w.classes)
    (hnone : w.heldAttr s c = .ok none) :
    (w.supersOf c).findSomeM? (w.search (w.heldAttr s) w.walkLimit) =
      w.search (w.heldAttr s) w.walkLimit c := by
  have hfuel := hordered.rank_lt_walkLimit c
  have hstep : w.search (w.heldAttr s) (w.walkLimit + 1) c =
      (w.supersOf c).findSomeM? (w.search (w.heldAttr s) w.walkLimit) := by
    rw [search, hnone]
    simp only [bind, Except.bind, hordered.superclasses_eq hc]
  rw [← hstep, hordered.search_eq_climb hc (Nat.lt_succ_of_lt hfuel),
    hordered.search_eq_climb hc hfuel, hordered.climb_eq hc (Nat.lt_succ_of_lt hfuel) hfuel]

/-- Attributes of instances of a class are found by one pass along its ancestors. -/
theorem Ordered.resolveAttr_eq (hordered : w.Ordered) (hc : c ∈ w.classes)
    (hs : s ≠ Symbol.ofClass) (hl : w.ancestors c = .ok l) :
    w.resolveAttr c s = .ok (w.located s l) := by
  obtain ⟨above, habove, _, hmem⟩ := hordered.ancestors_lists hc
  cases habove.symm.trans hl
  obtain ⟨d, hd⟩ := hordered.described c hc
  have hentry : w.entry s c = d.slot s := by rw [entry, hd.describes.descriptor_eq]
  rw [resolveAttr, if_neg hs, hd.describes.descriptor_eq, located, hentry]
  simp only [bind, Except.bind, pure, Except.pure]
  cases hslot : d.slot s with
  | inInstance place => rfl
  | inClass index => rfl
  | unmapped =>
      have hnone : w.heldAttr s c = .ok none := by
        rw [hordered.heldAttr_eq hc, heldBy, hentry, hslot]
      have hpass : above.findSomeM? (w.heldAttr s) = .ok (above.findSome? (w.heldBy s)) := by
        have htests : above.findSomeM? (w.heldAttr s) =
            above.findSomeM? fun t => pure (w.heldBy s t) := findSomeM?_congr fun t ht =>
          hordered.heldAttr_eq (hordered.reach_mem hc ((hmem t).1 (List.mem_cons_of_mem _ ht)))
        rw [htests, List.findSomeM?_pure]
        rfl
      have hwalk : (w.supersOf c).findSomeM? (w.search (w.heldAttr s) w.walkLimit) =
          .ok (above.findSome? (w.heldBy s)) := by
        rw [hordered.search_above hc hnone, hordered.search_eq_findSomeM? hc hl,
          List.findSomeM?_cons, hnone, ← hpass]
        rfl
      simp only [hordered.superclasses_eq hc, hwalk]

/-- After any run an attribute of a registered class is found by one pass along the ancestors
of the class. -/
theorem Classed.resolveAttr_linear (hclassed : Classed settings a w)
    (hcells : w.objects.cells.size ≤ 2 ^ 32) (hc : c ∈ w.classes) (hs : s ≠ Symbol.ofClass) :
    ∃ above, w.ancestors c = .ok (c :: above) ∧
      w.resolveAttr c s = .ok (w.located s (c :: above)) := by
  have hordered := (hclassed.tallies hcells).ordered
  obtain ⟨above, habove, _⟩ := hordered.ancestors_lists hc
  exact ⟨above, habove, hordered.resolveAttr_eq hc hs habove⟩

/-- What is named and what is stored hold a value of an attribute that what is measured has in
its instances. Shapes, which are all three, find the value of what is named. -/
theorem resolveAttr_linear_shape :
    let measured := Builtin.nth 26
    let named := Builtin.nth 27
    let stored := Builtin.nth 28
    let shape := Builtin.nth 29
    let w₁ := ((Operation.defineClassAttr stored Symbol.head
      (some Builtin.missingString)).perform withShapes).2
    let w := ((Operation.defineClassAttr named Symbol.head (some Builtin.missingArg)).perform w₁).2
    w.resolveAttr measured Symbol.head = .ok (.inInstance 1) ∧
      w.resolveAttr shape Symbol.head = .ok (.inClass named 0) := by
  intro measured named stored shape w₁ w
  obtain ⟨a, hshapes⟩ := classed_withShapes
  have h₁ := hshapes.step (.defineClassAttr stored Symbol.head (some Builtin.missingString)) trivial
  have hclassed : Classed {} _ w :=
    h₁.step (.defineClassAttr named Symbol.head (some Builtin.missingArg)) trivial
  have hcells : w.objects.cells.size ≤ 2 ^ 32 := by decide +kernel
  have hs : Symbol.head ≠ Symbol.ofClass := by decide
  have hordered := (hclassed.tallies hcells).ordered
  have hresolve : ∀ c ∈ w.classes, w.resolveAttr c Symbol.head =
      .ok (w.located Symbol.head (w.climb w.walkLimit c).eraseDups) := by
    intro c hc
    obtain ⟨above, habove, hresolve⟩ := hclassed.resolveAttr_linear hcells hc hs
    have hlist := Except.ok.inj ((hordered.ancestors_eq_eraseDups hc).symm.trans habove)
    rw [hresolve, ← hlist]
  exact ⟨(hresolve measured (by decide +kernel)).trans (by decide +kernel),
    (hresolve shape (by decide +kernel)).trans (by decide +kernel)⟩

end ObjectSystem.World

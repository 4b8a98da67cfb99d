/-
# The subtype order

However a world has been used, as long as only registered classes were used as classes and the
numbers of cells have not run out, its registered classes are ordered by their superclasses,
with the class of all objects above all others. The subtype test comes to an end and decides
that order. A superclass is refused if it would close a circle, and for no other reason; so
operations only ever add to the order.

The walk behind the test does not look for circles. That it ends is due to the order alone.
-/

import ObjectSystem.Proofs.Bootstrap

namespace ObjectSystem

open Relation

/-- The row and what stands behind it are all superclasses. -/
theorem Superclasses.row_append_overflow (l : Superclasses) :
    l.row.filterMap id ++ l.overflow = l.toList := by
  rcases l with ⟨_ | ⟨a, _ | ⟨b, _ | ⟨c, l⟩⟩⟩⟩ <;> rfl

namespace World

variable {settings : Settings} {a : Annals} {w w' : World} {c s t : Handle} {d : Class}

/-- One class passes the subtype test for another. -/
def Below (w : World) (c t : Handle) : Prop :=
  w.isAssignableClass c t = .ok true

/-- What comes of making one class a superclass of another. -/
structure Links (w : World) (c s : Handle) : Prop where
  /-- A link that would close a circle is refused. -/
  refused : ReflTransGen w.Above s c → ∃ below above,
    w.descriptor c = .ok below ∧ w.descriptor s = .ok above ∧
      (Action.addSuperclass c s).perform w =
        (.error (.cyclicHierarchy below.name above.name), w)
  /-- Any other link is made, behind those that are there. -/
  linked : ¬ ReflTransGen w.Above s c → ∃ w' l,
    (Action.addSuperclass c s).perform w = (.ok (), w') ∧ w.superclasses c = .ok l ∧
      w'.superclasses c = .ok (if s ∈ l then l else l ++ [s]) ∧
      (∀ t ∈ w.classes, t ≠ c → w'.superclasses t = w.superclasses t) ∧ (s ∈ l → w' = w)

/-- The registered classes are partially ordered, and the subtype test decides the order. -/
structure Subtypes (w : World) : Prop where
  classes_nodup : w.classes.toList.Nodup
  superclasses : ∀ c ∈ w.classes, ∃ d, w.descriptor c = .ok d ∧
    w.superclasses c = .ok (d.supers.row.filterMap id ++ d.supers.overflow) ∧
      d.supers.toList.Nodup ∧ ∀ s ∈ d.supers.toList, s ∈ w.classes
  acyclic : ∀ c ∈ w.classes, ¬ TransGen w.Above c c
  reaches : ∀ c ∈ w.classes, ReflTransGen w.Above c Builtin.objectClass
  decides : ∀ c ∈ w.classes, ∀ t, ∃ below, w.isAssignableClass c t = .ok below ∧
    (below = true ↔ ReflTransGen w.Above c t)
  refl : ∀ c ∈ w.classes, w.Below c c
  trans : ∀ c ∈ w.classes, ∀ s t, w.Below c s → w.Below s t → w.Below c t
  antisymm : ∀ c ∈ w.classes, ∀ t, w.Below c t → w.Below t c → c = t
  links : ∀ c ∈ w.classes, ∀ s ∈ w.classes, w.Links c s

theorem Ordered.below_iff (hordered : w.Ordered) (hc : c ∈ w.classes) :
    w.Below c t ↔ ReflTransGen w.Above c t := by
  obtain ⟨below, hbelow, hiff⟩ := hordered.isAssignableClass_eq hc t
  rw [Below, hbelow, ← hiff, Except.ok.injEq]

/-- No two registered classes lie above each other. -/
theorem Ordered.reach_antisymm (hordered : w.Ordered) (hc : c ∈ w.classes)
    (hup : ReflTransGen w.Above c t) (hback : ReflTransGen w.Above t c) : c = t := by
  rcases reflTransGen_iff_eq_or_transGen.1 hup with heq | hup
  · exact heq.symm
  · exact absurd (hup.trans_left hback) (hordered.acyclic c hc)

/-- Adding a superclass that is there already changes nothing. -/
theorem Describes.addSuperclass_eq (hd : w.Describes c d) (hs : s ∈ d.supers.toList) :
    w.modifyDescriptor c (·.addSuperclass s) = w := by
  obtain ⟨o, ho, _, hpayload⟩ := hd
  have hlisted : d.supers.contains s = true := List.contains_iff_mem.2 hs
  have hsame : d.addSuperclass s = d := by rw [Class.addSuperclass, if_pos hlisted]
  rw [modifyDescriptor, modifyPayload, modifyObject, Arena.modify_eq_self ho]
  rw [hpayload]
  simp only [hsame]
  rw [← hpayload]

theorem Ordered.links (hordered : w.Ordered) (hc : c ∈ w.classes) (hs : s ∈ w.classes) :
    w.Links c s := by
  obtain ⟨d, hd⟩ := hordered.described c hc
  obtain ⟨hrefused, hlinked⟩ := Action.addSuperclass_spec hordered hs hd.describes
  refine ⟨fun hreach => ?_, fun hnone => ?_⟩
  · obtain ⟨above, habove, hperform⟩ := hrefused hreach
    exact ⟨d, above, hd.describes.descriptor_eq, habove.descriptor_eq, hperform⟩
  · refine ⟨_, d.supers.toList, hlinked hnone, hd.describes.superclasses_eq, ?_, ?_,
      hd.describes.addSuperclass_eq⟩
    · have hchanged := describes_modifyDescriptor (c := c) (·.addSuperclass s) hd.describes
      rw [hchanged.superclasses_eq, if_pos rfl, d.supers_addSuperclass]
    · intro t ht hne
      obtain ⟨d', hd'⟩ := hordered.described t ht
      have hkept := describes_modifyDescriptor (c := c) (·.addSuperclass s) hd'.describes
      rw [hkept.superclasses_eq, if_neg hne, hd'.describes.superclasses_eq]

theorem Tallies.subtypes (htallies : w.Tallies a) : w.Subtypes := by
  have hordered := htallies.ordered
  refine ⟨hordered.nodup, fun c hc => ?_, hordered.acyclic, htallies.rooted.reaches,
    fun c hc t => hordered.isAssignableClass_eq hc t, fun c hc => (hordered.below_iff hc).2 .refl,
    fun c hc s t hcs hst => ?_, fun c hc t hct htc => ?_, fun c hc s hs => hordered.links hc hs⟩
  · obtain ⟨d, hd⟩ := hordered.described c hc
    refine ⟨d, hd.describes.descriptor_eq, ?_, hd.supers_nodup, hd.supers_mem⟩
    rw [hd.describes.superclasses_eq, d.supers.row_append_overflow]
  · rw [hordered.below_iff hc] at hcs ⊢
    rw [hordered.below_iff (hordered.reach_mem hc hcs)] at hst
    exact hcs.trans hst
  · rw [hordered.below_iff hc] at hct
    rw [hordered.below_iff (hordered.reach_mem hc hct)] at htc
    exact hordered.reach_antisymm hc hct htc

/-- What passes the subtype test goes on passing it. -/
theorem Extends.below (hextends : w.Extends w') (hordered : w.Ordered) (hc : c ∈ w.classes)
    (hbelow : w.Below c t) : w'.Below c t :=
  (hextends.ordered.below_iff (hextends.classes c hc)).2
    (hextends.reach hordered hc ((hordered.below_iff hc).1 hbelow))

/-- After any run the registered classes are partially ordered and the subtype test decides
the order. Every further operation keeps it so and only extends the order. -/
theorem Classed.subtyping (hclassed : Classed settings a w)
    (hcells : w.objects.cells.size ≤ 2 ^ 32) :
    w.Subtypes ∧ ∀ {α : Type} (op : Operation α), op.NamesRegistered w →
      (op.perform w).2.objects.cells.size ≤ 2 ^ 32 →
        (op.perform w).2.Subtypes ∧ ∀ c ∈ w.classes, c ∈ (op.perform w).2.classes ∧
          ∀ t, w.Below c t → (op.perform w).2.Below c t := by
  have htallies := hclassed.tallies hcells
  refine ⟨htallies.subtypes, fun op hnames hcells' => ?_⟩
  obtain ⟨hafter, hextends⟩ := htallies.perform op hnames hcells'
  exact ⟨hafter.subtypes, fun c hc => ⟨hextends.classes c hc,
    fun _ hbelow => hextends.below htallies.ordered hc hbelow⟩⟩

/-- Lists cannot be put below a class that was made below them. That class may be put below
linked lists as well, and stays below lists. -/
theorem subtyping_stack :
    let stack := Builtin.nth 25
    let w := ((Operation.subclass Builtin.listClass "stack" [] none).perform initial).2
    let w' := ((Operation.addSuperclass stack Builtin.pairlistClass).perform w).2
    (Action.addSuperclass Builtin.listClass stack).perform w =
        (.error (.cyclicHierarchy "list" "stack"), w) ∧
      w'.superclasses stack = .ok [Builtin.listClass, Builtin.pairlistClass] ∧
      w'.Below stack Builtin.listClass ∧ ¬ w'.Below Builtin.listClass stack := by
  intro stack w w'
  have hclassed := Classed.step (.create create_default)
    (.subclass Builtin.listClass "stack" [] none) ⟨by decide +kernel, nofun⟩
  obtain ⟨hsubtypes, hkeeps⟩ := hclassed.subtyping (by decide +kernel)
  have hlist : Builtin.listClass ∈ w.classes := by decide +kernel
  have hpairlist : Builtin.pairlistClass ∈ w.classes := by decide +kernel
  have hstack : stack ∈ w.classes := by decide +kernel
  have hbelow : w.Below stack Builtin.listClass := by
    unfold Below
    decide +kernel
  obtain ⟨hsubtypes', hextends⟩ :=
    hkeeps (.addSuperclass stack Builtin.pairlistClass) hpairlist (by decide +kernel)
  obtain ⟨hstack', hbelow'⟩ := hextends stack hstack
  refine ⟨?_, ?_, hbelow' _ hbelow, fun hback => ?_⟩
  · obtain ⟨reached, hreached, hiff⟩ := hsubtypes.decides stack hstack Builtin.listClass
    cases hreached.symm.trans hbelow
    obtain ⟨below, above, hlower, hupper, hperform⟩ :=
      (hsubtypes.links Builtin.listClass hlist stack hstack).refused (hiff.1 rfl)
    have hnames : (w.descriptor Builtin.listClass).map (·.name) = .ok "list" ∧
        (w.descriptor stack).map (·.name) = .ok "stack" := by decide +kernel
    rw [hlower, hupper] at hnames
    have hlowerName : below.name = "list" := Except.ok.inj hnames.1
    have hupperName : above.name = "stack" := Except.ok.inj hnames.2
    rw [hperform, hlowerName, hupperName]
  · obtain ⟨reached, hreached, hiff⟩ := hsubtypes.decides Builtin.pairlistClass hpairlist stack
    have hfalse : w.isAssignableClass Builtin.pairlistClass stack = .ok false := by
      decide +kernel
    cases hreached.symm.trans hfalse
    obtain ⟨w₂, l, hperform, hl, hl', _⟩ :=
      (hsubtypes.links stack hstack Builtin.pairlistClass hpairlist).linked fun hreach =>
        Bool.noConfusion (hiff.2 hreach)
    have hbefore : w.superclasses stack = .ok [Builtin.listClass] := by decide +kernel
    cases hl.symm.trans hbefore
    have hafter : w' = w₂ := congrArg Prod.snd hperform
    rw [hafter, hl']
    decide
  · have heq := hsubtypes'.antisymm stack hstack' Builtin.listClass (hbelow' _ hbelow) hback
    revert heq
    decide

end World

end ObjectSystem

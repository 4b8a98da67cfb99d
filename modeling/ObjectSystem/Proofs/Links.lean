/-
# Walks along references

Looking up a name and reading a list follow references that are ordinary attributes, and these may
be set to whatever their class admits: an environment may be its own parent. So such a walk may come
back to an object that it has met, and then it goes round for ever: however many steps it is
granted, they do not suffice. Otherwise it comes to an object from which no link leads on, and has
followed no more links than there are live objects, since it has met none of them twice.

There the walk ends, if what it asks of the class of that object is answered.
-/

import ObjectSystem.Proofs.Tangles

namespace ObjectSystem

namespace World

variable {settings : Settings} {w : World} {name : Symbol} {env outer cell rest last : Handle}
  {n : Nat}

/-! ## Environments -/

/-- The environment around one in which a name is not bound. -/
def outward (w : World) (name : Symbol) (env : Handle) : Option Handle :=
  match w.lookupLocal env name, w.getAttr env Symbol.parent with
  | .ok none, .ok outer => outer
  | _, _ => none

theorem outward_eq_some_iff : w.outward name env = some outer ↔
    w.lookupLocal env name = .ok none ∧ w.getAttr env Symbol.parent = .ok (some outer) := by
  unfold outward
  split
  · next hlocal hparent => simp [hlocal, hparent]
  · next hother =>
      refine ⟨nofun, fun ⟨hlocal, hparent⟩ => ?_⟩
      exact absurd hparent (hother _ hlocal)

/-- Looking up a name walks outwards and brings along nothing. -/
theorem isWalk_lookupWithin (w : World) (name : Symbol) :
    IsWalk (w.outward name) (fun _ => id) (w.lookupWithin name) where
  cut _ _ _ := rfl
  pass env outer n houter := by
    obtain ⟨hlocal, hparent⟩ := outward_eq_some_iff.1 houter
    rw [lookupWithin, hlocal]
    simp only [bind, Except.bind, hparent]
    cases w.lookupWithin name n outer <;> rfl
  stop env n hstops := by
    rw [lookupWithin, lookupWithin]
    cases hlocal : w.lookupLocal env name with
    | error e => rfl
    | ok value =>
        cases value with
        | some x => rfl
        | none =>
            simp only [bind, Except.bind]
            cases hparent : w.getAttr env Symbol.parent with
            | error e => rfl
            | ok outer =>
                cases outer with
                | none => rfl
                | some outer =>
                    cases hstops.symm.trans (outward_eq_some_iff.2 ⟨hlocal, hparent⟩)

/-! ## Lists -/

/-- The cell after one, if nothing is wrong with this one. -/
def onward (w : World) (cell : Handle) : Option Handle :=
  if isNull cell then none
  else
    match w.isAssignable cell Builtin.pairlistClass, w.getAttr cell Symbol.head,
      w.getAttr cell Symbol.next with
    | .ok true, .ok _, .ok rest => rest
    | _, _, _ => none

/-- The item in a cell. -/
def itemOf (w : World) (cell : Handle) : Handle :=
  (w.getAttr cell Symbol.head).toOption.join.getD Builtin.null

theorem onward_eq_some_iff : w.onward cell = some rest ↔
    isNull cell = false ∧ w.isAssignable cell Builtin.pairlistClass = .ok true ∧
      (∃ item, w.getAttr cell Symbol.head = .ok item) ∧
        w.getAttr cell Symbol.next = .ok (some rest) := by
  unfold onward
  split
  · next hnull => simp [hnull]
  · next hnull =>
      split
      · next hclass hhead hnext => simp [hnull, hclass, hhead, hnext]
      · next hother =>
          refine ⟨nofun, fun ⟨_, hclass, ⟨item, hhead⟩, hnext⟩ => ?_⟩
          exact absurd hnext (hother _ _ hclass hhead)

/-- Reading a list walks from cell to cell and collects the items. -/
theorem isWalk_itemsWithin (w : World) :
    IsWalk w.onward (fun cell => (w.itemOf cell :: ·)) w.itemsWithin where
  cut cell rest hrest := by
    rw [itemsWithin, (onward_eq_some_iff.1 hrest).1]
    rfl
  pass cell rest n hrest := by
    obtain ⟨hnull, hclass, ⟨item, hhead⟩, hnext⟩ := onward_eq_some_iff.1 hrest
    have hitem : w.itemOf cell = item.getD Builtin.null := by
      rw [itemOf, hhead]
      rfl
    rw [itemsWithin, hnull, hclass, hhead, hitem]
    simp only [bind, Except.bind, hnext]
    cases w.itemsWithin n rest <;> rfl
  stop cell n hstops := by
    rw [itemsWithin, itemsWithin]
    cases hnull : isNull cell with
    | true => rfl
    | false =>
        simp only [Bool.false_eq_true, if_false, bind, Except.bind]
        cases hclass : w.isAssignable cell Builtin.pairlistClass with
        | error e => rfl
        | ok below =>
            cases below with
            | false => rfl
            | true =>
                cases hhead : w.getAttr cell Symbol.head with
                | error e => rfl
                | ok item =>
                    cases hnext : w.getAttr cell Symbol.next with
                    | error e => rfl
                    | ok rest =>
                        cases rest with
                        | none => rfl
                        | some rest =>
                            cases hstops.symm.trans
                              (onward_eq_some_iff.2 ⟨hnull, hclass, ⟨item, hhead⟩, hnext⟩)

/-! ## How walks go -/

theorem live_of_getAttr {x : Handle} {s : Symbol} {value : Option Handle}
    (hvalue : w.getAttr x s = .ok value) : w.objects.Live x := by
  obtain ⟨c, hc, _⟩ := exists_of_bind_eq_ok hvalue
  exact live_of_classOf hc

section Ends

variable (hreachable : Reachable settings w)

include hreachable

theorem Reachable.straight_lookupWithin (hstops : w.outward name env = none)
    (htangled : ¬ w.Tangled env) : Straight (w.lookupWithin name 1 env) := by
  have hlocal : Straight (w.lookupLocal env name) :=
    straight_bind (hreachable.straight_frame htangled) fun _ _ => nofun
  refine straight_bind hlocal fun value hvalue => ?_
  cases value with
  | some x => exact nofun
  | none =>
      refine straight_bind (hreachable.straight_getAttr htangled _) fun outer hparent => ?_
      cases outer with
      | none => exact nofun
      | some outer => cases hstops.symm.trans (outward_eq_some_iff.2 ⟨hvalue, hparent⟩)

theorem Reachable.straight_itemsWithin (hstops : w.onward cell = none)
    (htangled : ¬ w.Tangled cell) : Straight (w.itemsWithin 1 cell) := by
  rw [itemsWithin]
  cases hnull : isNull cell with
  | true => exact nofun
  | false =>
      refine straight_bind (hreachable.straight_isAssignable htangled _) fun below hclass => ?_
      cases below with
      | false => exact hreachable.straight_mismatch (not_winds_of_not_tangled htangled) _
      | true =>
          refine straight_bind (hreachable.straight_getAttr htangled _) fun item hhead => ?_
          refine straight_bind (hreachable.straight_getAttr htangled _) fun rest hnext => ?_
          cases rest with
          | none => exact nofun
          | some rest =>
              cases hstops.symm.trans
                (onward_eq_some_iff.2 ⟨hnull, hclass, ⟨item, hhead⟩, hnext⟩)

theorem Reachable.goes_lookup (name : Symbol) (start : Handle) :
    Goes (w.outward name) (fun _ => id) (w.lookupWithin name) w.population w.Tangled start := by
  have hlive : ∀ x y, w.outward name x = some y → w.objects.Live x :=
    fun _ _ houter => live_of_getAttr (outward_eq_some_iff.1 houter).2
  refine (w.isWalk_lookupWithin name).goes (hreachable.ends_or_winds hlive start) ?_
  intro last hstops hendless
  by_contra htangled
  exact hreachable.straight_lookupWithin hstops htangled hendless

theorem Reachable.goes_items (start : Handle) :
    Goes w.onward (fun cell => (w.itemOf cell :: ·)) w.itemsWithin w.population w.Tangled
      start := by
  have hlive : ∀ x y, w.onward x = some y → w.objects.Live x :=
    fun _ _ hrest => live_of_getAttr (onward_eq_some_iff.1 hrest).2.2.2
  refine w.isWalk_itemsWithin.goes (hreachable.ends_or_winds hlive start) ?_
  intro last hstops hendless
  by_contra htangled
  exact hreachable.straight_itemsWithin hstops htangled hendless

end Ends

/-- Looking up a name from anywhere in any world that operations lead to follows no more links than
there are objects and ends there, or goes round in a circle and does not end, or does not get done
with the object that it comes to, because what it asks of the class there goes round in a circle.
The same is true of reading a list. If only registered classes are used as classes, nothing but a
circle of links keeps them from ending. -/
theorem Reachable.walks_end_or_wind (hreachable : Reachable settings w) (start : Handle)
    (name : Symbol) :
    Goes (w.outward name) (fun _ => id) (w.lookupWithin name) w.population w.Tangled start ∧
    Goes w.onward (fun cell => (w.itemOf cell :: ·)) w.itemsWithin w.population w.Tangled start ∧
    ∀ a, Classed settings a w → w.Fits →
      (w.lookup start name = .error .endlessWalk ↔ Winds (w.outward name) start) ∧
      (w.items start = .error .endlessWalk ↔ Winds w.onward start) := by
  have hlookup := hreachable.goes_lookup name start
  have hitems := hreachable.goes_items start
  refine ⟨hlookup, hitems, fun a hclassed hfits => ?_⟩
  have htallies := hclassed.tallies hfits.cells_le
  exact ⟨hlookup.endless_iff (Nat.lt_succ_self _) htallies.not_tangled,
    hitems.endless_iff (Nat.lt_succ_self _) htallies.not_tangled⟩

/-- An environment can be made its own parent, and then no name is found in it that is not bound
there. An object can be handed over that is its own class, and then no name is found in it either,
because there is no end to telling what it is. -/
theorem Reachable.walks_end_or_wind_around :
    let env := Builtin.nth 25
    let w := ((Operation.setAttr env Symbol.parent (some env)).perform
      ((Operation.newEnvironment none).perform initial).2).2
    let odd := ((Operation.allocate (.new env 0 .none 0 .single)).perform initial).2
    (Reachable {} w ∧ Winds (w.outward Symbol.tag) env ∧
      (∀ steps, w.lookupWithin Symbol.tag steps env = .error .endlessWalk) ∧
      w.lookup Builtin.globalEnv Symbol.tag = .ok none) ∧
    Reachable {} odd ∧ odd.classOf env = .ok env ∧ odd.Tangled env ∧
      ∀ steps, 0 < steps → odd.lookupWithin Symbol.tag steps env = .error .endlessWalk := by
  intro env w odd
  have hreachable : Reachable {} w :=
    (respectful_initial.reachable.step (.newEnvironment none)).step
      (.setAttr env Symbol.parent (some env))
  have houtward : w.outward Symbol.tag env = some env := by decide +kernel
  have hwinds : Winds (w.outward Symbol.tag) env :=
    ⟨0, 1, env, Nat.zero_lt_one, rfl, (follow_succ rfl).trans houtward⟩
  have hodd : Reachable {} odd := respectful_initial.reachable.step (.allocate _)
  have hstays : odd.outward Symbol.tag env = none ∧
      odd.lookupWithin Symbol.tag 1 env = .error .endlessWalk := by decide +kernel
  refine ⟨⟨hreachable, hwinds, ?_, by decide +kernel⟩, hodd, by decide +kernel, ?_⟩
  · cases (hreachable.walks_end_or_wind env Symbol.tag).1 with
    | ends _ _ _ hends => exact absurd hwinds hends.not_winds
    | sticks _ _ _ hends => exact absurd hwinds hends.not_winds
    | winds _ hendless => exact hendless
  · have hends : Ends (odd.outward Symbol.tag) env 0 env := ⟨rfl, hstays.1⟩
    cases (hodd.walks_end_or_wind env Symbol.tag).1 with
    | ends n _ last hlast hclear =>
        obtain ⟨rfl, rfl⟩ := hlast.eq_of_stops hstays.1
        exact absurd hstays.2 hclear
    | sticks n _ last hlast htangled hendless =>
        obtain ⟨rfl, rfl⟩ := hlast.eq_of_stops hstays.1
        exact ⟨htangled, hendless⟩
    | winds hwinds => exact absurd hwinds hends.not_winds

end World

end ObjectSystem

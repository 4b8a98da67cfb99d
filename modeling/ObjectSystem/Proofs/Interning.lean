/-
# Symbols and their objects

No name enters the table of names twice and none leaves it, so names and symbols correspond one
to one. Some symbols have an object. Which one is kept in a second table, and what counts is that
this table and the heap agree: the handle that it gives for a symbol is that of an object that
carries the symbol and is pinned. Then no release and no collection takes the object away, its
handle is never given out again, and two symbols never have the same object.

Operations may be misused. All that they do to an object is `World.Strides`, and none of this
changes which symbol an object carries.
-/

import ObjectSystem.Proofs.Generics
import ObjectSystem.Proofs.Strides

namespace ObjectSystem

namespace World

variable {settings : Settings} {w w' : World} {x : Handle} {s : Symbol} {name : String}

/-! ## Pinned objects of symbols -/

/-- The object under a handle is never freed and carries a symbol. -/
def Carries (w : World) (x : Handle) (s : Symbol) : Prop :=
  ∃ o, w.objects.get? x = some o ∧ o.header.pinned = true ∧ o.payload = .symbol s

theorem Carries.unique {s' : Symbol} (hcarries : w.Carries x s) (hcarries' : w.Carries x s') :
    s = s' := by
  obtain ⟨o, ho, _, hpayload⟩ := hcarries
  obtain ⟨o', ho', _, hpayload'⟩ := hcarries'
  cases ho.symm.trans ho'
  exact Payload.symbol.inj (hpayload.symm.trans hpayload')

/-- As long as the cells do not run out, objects go on carrying their symbols. -/
structure CarriesOn (w w' : World) : Prop where
  cells_le : w.objects.cells.size ≤ w'.objects.cells.size
  tight : w.objects.Tight → w'.objects.Tight
  carries : w'.objects.cells.size ≤ 2 ^ 32 → w.objects.Tight →
    ∀ x s, w.Carries x s → w'.Carries x s

instance : IsPreorder World CarriesOn where
  refl _ := ⟨Nat.le_refl _, id, fun _ _ _ _ => id⟩
  trans _ _ _ hfirst hsecond := ⟨hfirst.cells_le.trans hsecond.cells_le,
    hsecond.tight ∘ hfirst.tight, fun hcells htight x s hcarries =>
      hsecond.carries hcells (hfirst.tight htight) x s
        (hfirst.carries (hsecond.cells_le.trans hcells) htight x s hcarries)⟩

theorem carriesOn_modifyDescriptor (w : World) (c : Handle) (change : Class → Class) :
    w.CarriesOn (w.modifyDescriptor c change) where
  cells_le := Nat.le_of_eq (Arena.size_cells_modify ..).symm
  tight htight := htight.modify _ _
  carries _ _ x s := by
    rintro ⟨o, ho, hpinned, hpayload⟩
    unfold Carries
    simp only [modifyDescriptor, modifyPayload, modifyObject, Arena.get?_modify, ho]
    split
    · exact ⟨_, rfl, hpinned, by simp [hpayload]⟩
    · exact ⟨o, rfl, hpinned, hpayload⟩

theorem strides_carriesOn : Strides (fun _ => True) CarriesOn where
  trim htrims := by
    refine ⟨Nat.le_of_eq htrims.objects.cells_eq.symm, htrims.objects.tight, fun _ _ x s => ?_⟩
    rintro ⟨o, ho, hpinned, hpayload⟩
    obtain ⟨o', ho', hstays⟩ := htrims.objects.get? ho hpinned
    exact ⟨o', ho', hstays.pinned hpinned, hstays.symbol s hpayload⟩
  link w c _ := w.carriesOn_modifyDescriptor c _
  widen w c _ _ _ _ _ := w.carriesOn_modifyDescriptor c _
  put w value _ := by
    refine ⟨w.objects.size_cells_le_insertWith value, fun htight => htight.insertWith value,
      fun hcells htight x s => ?_⟩
    rintro ⟨o, ho, hpinned, hpayload⟩
    obtain ⟨hnew, hget⟩ := Arena.get?_insertWith htight value hcells
    refine ⟨o, (hget x).trans ?_, hpinned, hpayload⟩
    rw [if_neg, ho]
    rintro rfl
    cases hnew.symm.trans ho
  register _ _ := ⟨Nat.le_refl _, id, fun _ _ _ _ => id⟩

theorem carriesOn_perform {α : Type} (op : Operation α) (w : World) :
    w.CarriesOn (op.perform w).2 :=
  op.strides strides_carriesOn (fun _ _ => trivial) (fun _ _ _ => trivial)
    fun _ _ _ _ _ _ _ _ _ _ => trivial

theorem Reachable.tight (hreachable : Reachable settings w) : w.objects.Tight := by
  induction hreachable with
  | create hcreate =>
      obtain ⟨hcapacity, w', hclasses, hobjects⟩ := exists_of_create hcreate
      obtain ⟨hprimed, _⟩ := Action.primed_makeClasses (founded_empty hcapacity)
        (ordered_empty settings) rfl hclasses
      have htight := (strides_carriesOn.makeObjects w').tight hprimed.ordered.tight
      rwa [hobjects] at htight
  | step _ op ih => exact (carriesOn_perform op _).tight ih

/-! ## The objects of symbols -/

/-- The same symbols have the same objects. -/
def SameNotes (w w' : World) : Prop :=
  w'.symbolObjects = w.symbolObjects

instance : IsPreorder World SameNotes where
  refl _ := rfl
  trans _ _ _ hfirst hsecond := hsecond.trans hfirst

theorem steps_sameNotes : Steps SameNotes where
  same _ _ _ hnotes := hnotes
  enter _ _ _ := rfl
  leave _ _ _ _ _ _ _ := rfl
  change _ _ _ _ _ := rfl
  reclaim _ _ := rfl
  sweep _ _ := rfl
  put _ _ _ := rfl
  push _ := rfl
  pop _ _ _ _ _ := rfl

/-- A symbol that had no object has got one, which carries it. -/
structure Notes (w w' : World) (s : Symbol) (x : Handle) : Prop where
  new : w.symbolObjects.lookup s = none
  symbolObjects_eq : w'.symbolObjects = (s, x) :: w.symbolObjects
  carries : w.objects.Tight → w'.objects.cells.size ≤ 2 ^ 32 → w'.Carries x s

theorem Notes.lookup_eq (hnotes : w.Notes w' s x) (t : Symbol) :
    w'.symbolObjects.lookup t = if t = s then some x else w.symbolObjects.lookup t := by
  rw [hnotes.symbolObjects_eq, List.lookup_cons]
  by_cases heq : t = s
  · simp [heq]
  · rw [beq_eq_false_iff_ne.2 heq, if_neg heq]

end World

namespace Action

open World

variable {w w' : World} {x : Handle} {s : Symbol} {attrCount : Nat}

theorem carries_allocatePinned {c : Handle} {length : Nat}
    (hallocate : (allocatePinned (.new c attrCount (.symbol s) length .shared)).perform w =
      (.ok x, w')) (htight : w.objects.Tight) (hcells : w'.objects.cells.size ≤ 2 ^ 32) :
    w'.Carries x s := by
  let o : Object := .new c attrCount (.symbol s) length .shared
  have hrest : (do
      pin (w.objects.insert o).1
      return (w.objects.insert o).1 : Action Handle).perform
        { w with objects := (w.objects.insert o).2 } = (.ok x, w') := hallocate
  obtain ⟨_, w'', hpin, hreturn⟩ := perform_bind_eq_ok_iff.1 hrest
  cases hreturn
  have htrims : Trims { w with objects := (w.objects.insert o).2 } w' := by
    have h := trims_pin (S := fun _ => Object.Stays) (w.objects.insert o).1
      { w with objects := (w.objects.insert o).2 }
    rwa [hpin] at h
  rw [htrims.objects.cells_eq] at hcells
  obtain ⟨_, hget⟩ := Arena.get?_insertWith htight (fun _ => o) hcells
  have ho : (w.objects.insert o).2.get? (w.objects.insert o).1 = some o := by
    rw [Arena.insert, hget, if_pos rfl]
  obtain ⟨pools, hpinned⟩ := perform_pin_of_shared
    (w := { w with objects := (w.objects.insert o).2 }) ho rfl
  cases hpin.symm.trans hpinned
  refine ⟨{ o with header := .permanent }, ?_, rfl, rfl⟩
  rw [World.modifyObject, Arena.get?_modify, if_pos rfl, ho, Option.map_some]

/-- An object is noted once it is there; where this fails nothing is noted. -/
theorem notes_represent (s : Symbol) (attrCount : Nat) (w : World)
    (hnone : w.symbolObjects.lookup s = none) :
    (w.SameNotes ((represent s attrCount).perform w).2 ∧
        ∃ e, ((represent s attrCount).perform w).1 = .error e) ∨
      ∃ x, ((represent s attrCount).perform w).1 = .ok x ∧
        w.Notes ((represent s attrCount).perform w).2 s x := by
  have hsame := steps_sameNotes.allocatePinned
    (o := .new Builtin.symbolClass attrCount (.symbol s) 0 .shared) rfl w
  unfold represent
  rw [perform_bind]
  split
  · next x w' hallocate =>
      rw [hallocate] at hsame
      refine Or.inr ⟨x, rfl, hnone, congrArg _ hsame, fun htight hcells => ?_⟩
      have hcarries : w'.Carries x s := carries_allocatePinned hallocate htight hcells
      exact hcarries
  · next e w' hallocate =>
      rw [hallocate] at hsame
      exact Or.inl ⟨hsame, e, rfl⟩

end Action

namespace World

variable {settings : Settings} {w w' w₁ w₂ : World} {x y : Handle} {s t : Symbol}
  {name name' : String}

/-- Installing a name gives its symbol an object if it has none, and returns the object. -/
theorem install_cases (name : String) (w : World) :
    (w.SameNotes ((Action.install name).perform w).2 ∧
        ∀ x, ((Action.install name).perform w).1 = .ok x →
          w.symbolObjects.lookup (w.intern name).1 = some x) ∨
      ∃ x, ((Action.install name).perform w).1 = .ok x ∧
        w.Notes ((Action.install name).perform w).2 (w.intern name).1 x := by
  obtain ⟨x, hlookup, hperform⟩ | ⟨hnone, ⟨e, _, hperform⟩ | ⟨attrCount, hperform⟩⟩ :=
    Action.perform_install name w
  · rw [hperform]
    exact Or.inl ⟨rfl, fun y hy => Except.ok.inj hy ▸ hlookup⟩
  · rw [hperform]
    exact Or.inl ⟨rfl, nofun⟩
  · rw [hperform]
    obtain ⟨hsame, e, herror⟩ | ⟨x, hok, hnotes⟩ :=
      Action.notes_represent (w.intern name).1 attrCount (w.intern name).2 hnone
    · exact Or.inl ⟨hsame, fun y hy => nomatch herror.symm.trans hy⟩
    · exact Or.inr ⟨x, hok, hnone, hnotes.symbolObjects_eq, hnotes.carries⟩

theorem remembers_install (name : String) (w : World) :
    (w.intern name).2.Remembers ((Action.install name).perform w).2 := by
  obtain ⟨x, _, hperform⟩ | ⟨_, ⟨e, _, hperform⟩ | ⟨attrCount, hperform⟩⟩ :=
    Action.perform_install name w
  · exact hperform ▸ refl_of Remembers _
  · exact hperform ▸ refl_of Remembers _
  · have hrepresent : (Action.represent (w.intern name).1 attrCount).Keeps Remembers :=
      Action.keeps_bind (steps_remembers.allocatePinned rfl) fun x =>
        Action.keeps_bind (Action.keeps_modify fun w => steps_remembers.note w _) fun _ =>
          Action.keeps_pure x
    exact hperform ▸ hrepresent _

/-- An operation may give one symbol an object that had none. -/
theorem sameNotes_or_notes {α : Type} (op : Operation α) (w : World) :
    w.SameNotes (op.perform w).2 ∨ ∃ s x, w.Notes (op.perform w).2 s x := by
  by_cases hop : op.IsInstall
  · cases op with
    | install name =>
        obtain ⟨hsame, _⟩ | ⟨x, _, hnotes⟩ := install_cases name w
        · exact Or.inl hsame
        · exact Or.inr ⟨_, x, hnotes⟩
    | _ => exact hop.elim
  · exact Or.inl (op.keepsBy steps_sameNotes (fun h => absurd h hop) (fun _ _ _ => rfl) w)

/-- A symbol keeps its object. -/
theorem lookup_perform {α : Type} (op : Operation α) (hlookup : w.symbolObjects.lookup s = some x) :
    (op.perform w).2.symbolObjects.lookup s = some x := by
  obtain hsame | ⟨t, y, hnotes⟩ := w.sameNotes_or_notes op
  · rw [hsame, hlookup]
  · rw [hnotes.lookup_eq, if_neg, hlookup]
    rintro rfl
    cases hnotes.new.symm.trans hlookup

theorem precedes_perform {α : Type} (op : Operation α) (w : World) :
    w.Precedes (op.perform w).2 :=
  .single ⟨α, op, rfl⟩

theorem Precedes.lookup_eq (hprecedes : w.Precedes w')
    (hlookup : w.symbolObjects.lookup s = some x) : w'.symbolObjects.lookup s = some x := by
  induction hprecedes with
  | refl => exact hlookup
  | tail _ hstep ih =>
      obtain ⟨_, op, rfl⟩ := hstep
      exact lookup_perform op ih

/-- The objects of symbols carry them. -/
theorem Reachable.carries (hreachable : Reachable settings w)
    (hcells : w.objects.cells.size ≤ 2 ^ 32) (hlookup : w.symbolObjects.lookup s = some x) :
    w.Carries x s := by
  induction hreachable with
  | create hcreate =>
      have hnone := steps_sameNotes.create hcreate
      rw [hnone] at hlookup
      cases hlookup
  | @step w hreachable _ op ih =>
      have hcarriesOn := carriesOn_perform op w
      obtain hsame | ⟨t, y, hnotes⟩ := w.sameNotes_or_notes op
      · rw [hsame] at hlookup
        exact hcarriesOn.carries hcells hreachable.tight x s
          (ih (hcarriesOn.cells_le.trans hcells) hlookup)
      · rw [hnotes.lookup_eq] at hlookup
        split at hlookup
        · next heq =>
            cases hlookup
            exact heq ▸ hnotes.carries hreachable.tight hcells
        · exact hcarriesOn.carries hcells hreachable.tight x s
            (ih (hcarriesOn.cells_le.trans hcells) hlookup)

/-! ## What runs come to -/

theorem nodup_standard : SymbolTable.standard.names.toList.Nodup := by decide

/-- No name is in the table twice. -/
theorem Reachable.nodup (hreachable : Reachable settings w) : w.symbols.names.toList.Nodup :=
  (hreachable.along steps_remembers).nodup nodup_standard

/-- The reserved names have the symbols that are reserved for them. -/
theorem Reachable.find?_reserved (hreachable : Reachable settings w) :
    w.symbols.find? "" = some Symbol.empty ∧ w.symbols.find? "class" = some Symbol.ofClass := by
  have hstandard : SymbolTable.standard.find? "" = some Symbol.empty ∧
      SymbolTable.standard.find? "class" = some Symbol.ofClass := by decide +kernel
  have hremembers := hreachable.along steps_remembers
  exact ⟨hremembers.find?_eq hstandard.1, hremembers.find?_eq hstandard.2⟩

/-- On the way to the world an action was performed, and returned a value. -/
def Yielded (settings : Settings) (w : World) {α : Type} (action : Action α) (a : α) : Prop :=
  ∃ w₀ w₁, Reachable settings w₀ ∧ action.perform w₀ = (.ok a, w₁) ∧ w₁.Precedes w

theorem yielded_perform {α : Type} {a : α} (op : Operation α) (hreachable : Reachable settings w₁)
    (hok : (op.perform w₁).1 = .ok a) (hprecedes : (op.perform w₁).2.Precedes w) :
    Yielded settings w op.action a :=
  ⟨w₁, _, hreachable, Prod.ext hok rfl, hprecedes⟩

theorem Yielded.find?_eq (hyielded : Yielded settings w (Action.intern name) s) :
    w.symbols.find? name = some s := by
  obtain ⟨w₀, w₁, _, hperform, hprecedes⟩ := hyielded
  cases hperform
  exact hprecedes.remembers.find?_eq (w₀.symbols.find?_intern name)

theorem Yielded.find?_methodName (hyielded : Yielded settings w (Action.methodSymbol name) s) :
    w.symbols.find? (methodName name) = some s :=
  have hintern : Yielded settings w (Action.intern (methodName name)) s := hyielded
  hintern.find?_eq

theorem Yielded.lookup_eq (hyielded : Yielded settings w (Action.install name) x) :
    ∃ s, w.symbols.find? name = some s ∧ w.symbolObjects.lookup s = some x := by
  obtain ⟨w₀, w₁, _, hperform, hprecedes⟩ := hyielded
  have hremembers := remembers_install name w₀
  have hcases := install_cases name w₀
  rw [hperform] at hremembers hcases
  refine ⟨(w₀.intern name).1, hprecedes.remembers.find?_eq
    (hremembers.find?_eq (w₀.symbols.find?_intern name)), hprecedes.lookup_eq ?_⟩
  obtain ⟨hsame, hlookup⟩ | ⟨y, hok, hnotes⟩ := hcases
  · exact hsame ▸ hlookup x rfl
  · cases hok
    rw [hnotes.lookup_eq, if_pos rfl]

/-- Whenever a name is installed, it is the object of its symbol that is returned. -/
theorem Yielded.unique (hx : Yielded settings w (Action.install name) x)
    (hy : Yielded settings w (Action.install name) y) : x = y := by
  obtain ⟨s, hfind, hlookup⟩ := hx.lookup_eq
  obtain ⟨t, hfind', hlookup'⟩ := hy.lookup_eq
  cases hfind.symm.trans hfind'
  exact Option.some.inj (hlookup.symm.trans hlookup')

/-- What a name was installed as is still its object, and carries its symbol. -/
theorem Reachable.installed (hreachable : Reachable settings w)
    (hcells : w.objects.cells.size ≤ 2 ^ 32)
    (hyielded : Yielded settings w (Action.install name) x) :
    ∃ s, w.symbols.find? name = some s ∧ w.Carries x s := by
  obtain ⟨s, hfind, hlookup⟩ := hyielded.lookup_eq
  exact ⟨s, hfind, hreachable.carries hcells hlookup⟩

/-- What a run has come to as regards names, their symbols and the objects of these. -/
structure Interns (settings : Settings) (w : World) : Prop where
  find?_iff : ∀ name s, w.symbols.find? name = some s ↔ w.symbols.name? s = some name
  /-- The symbols are those with the numbers below the number of names. -/
  dense : ∀ n, n < w.symbols.size ↔ ∃ name s, w.symbols.find? name = some s ∧ s.index.toNat = n
  empty : w.symbols.find? "" = some ⟨0⟩
  ofClass : w.symbols.find? "class" = some ⟨1⟩
  /-- A name that is used for the first time gets the next symbol. -/
  next : ∀ name, w.symbols.find? name = none →
    (w.intern name).1.index.toNat = w.symbols.size ∧
      (w.intern name).2.symbols.size = w.symbols.size + 1
  /-- A name has kept the symbol that it had at any time before. -/
  kept : ∀ w₀ : World, w₀.Precedes w → ∀ name s, w₀.symbols.find? name = some s →
    w.symbols.find? name = some s
  /-- A name that was not there at some time before has got its symbol behind those that were. -/
  later : ∀ w₀ : World, Reachable settings w₀ → w₀.Precedes w → ∀ name s,
    w₀.symbols.find? name = none → w.symbols.find? name = some s → w₀.symbols.size ≤ s.index.toNat
  intern : ∀ name s, Yielded settings w (Action.intern name) s → w.symbols.find? name = some s
  /-- The symbol under which overloads are kept is not that of the name itself. -/
  methodSymbol_ne : ∀ name s t, Yielded settings w (Action.methodSymbol name) s →
    Yielded settings w (Action.intern name) t → s ≠ t
  methodSymbol_iff : ∀ name name' s t, Yielded settings w (Action.methodSymbol name) s →
    Yielded settings w (Action.methodSymbol name') t → (s = t ↔ name = name')
  /-- A name is installed once. -/
  install_unique : ∀ name x y, Yielded settings w (Action.install name) x →
    Yielded settings w (Action.install name) y → x = y
  /-- The objects of symbols are the same if and only if the names are, as long as every cell
  has a handle of its own. -/
  install_iff : w.objects.cells.size ≤ 2 ^ 32 → ∀ name name' x y,
    Yielded settings w (Action.install name) x → Yielded settings w (Action.install name') y →
      (x = y ↔ name = name')
  /-- The object of a symbol is still there, is pinned and carries the symbol of the name. -/
  install_carries : w.objects.cells.size ≤ 2 ^ 32 → ∀ name x,
    Yielded settings w (Action.install name) x →
      ∃ s, w.symbols.find? name = some s ∧ w.Carries x s

/-- Interning is a stable correspondence, and the objects of symbols are unique, as long as the
symbols do not run out. -/
theorem Reachable.interning_stable (hreachable : Reachable settings w)
    (hsymbols : w.symbols.size < 2 ^ 32) : w.Interns settings := by
  have hle : w.symbols.size ≤ 2 ^ 32 := Nat.le_of_lt hsymbols
  have heq : ∀ {name name' : String} {s : Symbol}, w.symbols.find? name = some s →
      w.symbols.find? name' = some s → name = name' := SymbolTable.eq_of_find?_eq hle
  refine {
    find?_iff := fun name s => SymbolTable.find?_eq_some_iff hreachable.nodup hle
    dense := fun n => SymbolTable.lt_size_iff hreachable.nodup hle
    empty := hreachable.find?_reserved.1
    ofClass := hreachable.find?_reserved.2
    next := fun name hnew => SymbolTable.intern_of_not_find? hsymbols hnew
    kept := fun w₀ hprecedes name s hfind => hprecedes.remembers.find?_eq hfind
    later := fun w₀ hreachable₀ hprecedes name s hnew hfind =>
      hprecedes.remembers.size_le_index hle hreachable₀.nodup hnew hfind
    intern := fun name s hyielded => hyielded.find?_eq
    methodSymbol_ne := ?_
    methodSymbol_iff := ?_
    install_unique := fun name x y hx hy => hx.unique hy
    install_iff := ?_
    install_carries := ?_ }
  · rintro name s _ hs ht rfl
    exact methodName_ne name (heq hs.find?_methodName ht.find?_eq)
  · intro name name' s t hs ht
    constructor
    · rintro rfl
      exact methodName_injective (heq hs.find?_methodName ht.find?_methodName)
    · rintro rfl
      exact Option.some.inj (hs.find?_methodName.symm.trans ht.find?_methodName)
  · intro hcells name name' x y hx hy
    constructor
    · rintro rfl
      obtain ⟨s, hfind, hcarries⟩ := hreachable.installed hcells hx
      obtain ⟨t, hfind', hcarries'⟩ := hreachable.installed hcells hy
      cases hcarries.unique hcarries'
      exact heq hfind hfind'
    · rintro rfl
      exact hx.unique hy
  · exact fun hcells name x hx => hreachable.installed hcells hx

/-- Two names get objects, and a collection takes neither away. -/
theorem Reachable.interning_stable_collected :
    let alpha := Builtin.nth 25
    let beta := Builtin.nth 26
    let w₁ := ((Operation.install "alpha").perform initial).2
    let w₂ := ((Operation.install "beta").perform w₁).2
    let w := ((Operation.collect []).perform w₂).2
    (Reachable {} w ∧ w.symbols.size < 2 ^ 32 ∧ w.objects.cells.size ≤ 2 ^ 32 ∧
        Yielded {} w (Action.install "alpha") alpha ∧ Yielded {} w (Action.install "beta") beta) ∧
      alpha ≠ beta ∧ ∃ s, w.symbols.find? "alpha" = some s ∧ w.Carries alpha s := by
  intro alpha beta w₁ w₂ w
  have h₀ := respectful_initial.reachable
  have h₁ : Reachable {} w₁ := h₀.step (.install "alpha")
  have h₂ : Reachable {} w₂ := h₁.step (.install "beta")
  have hreachable : Reachable {} w := h₂.step (.collect [])
  have hsizes : w₂.symbols.size < 2 ^ 32 ∧ w₂.objects.cells.size ≤ 2 ^ 32 := by decide +kernel
  have hcollect : ∀ v : World,
      ((Operation.collect []).perform v).2.symbols.size = v.symbols.size ∧
        ((Operation.collect []).perform v).2.objects.cells.size = v.objects.cells.size :=
    fun v => ⟨rfl, (v.trims_collect (S := fun _ => Object.Stays) []).objects.cells_eq⟩
  have hsymbols : w.symbols.size < 2 ^ 32 := (hcollect w₂).1.trans_lt hsizes.1
  have hcells : w.objects.cells.size ≤ 2 ^ 32 := (hcollect w₂).2.trans_le hsizes.2
  have hfirst : ((Operation.install "alpha").perform initial).1 = .ok alpha := by decide +kernel
  have hsecond : ((Operation.install "beta").perform w₁).1 = .ok beta := by decide +kernel
  have hcollected : w₂.Precedes w := precedes_perform (.collect []) w₂
  have halpha : Yielded {} w (Action.install "alpha") alpha :=
    yielded_perform (.install "alpha") h₀ hfirst
      ((precedes_perform (.install "beta") w₁).trans hcollected)
  have hbeta : Yielded {} w (Action.install "beta") beta :=
    yielded_perform (.install "beta") h₁ hsecond hcollected
  have hinterns := hreachable.interning_stable hsymbols
  refine ⟨⟨hreachable, hsymbols, hcells, halpha, hbeta⟩, fun heq => ?_,
    hinterns.install_carries hcells "alpha" alpha halpha⟩
  exact absurd ((hinterns.install_iff hcells "alpha" "beta" alpha beta halpha hbeta).1 heq)
    (by decide)

end World

end ObjectSystem

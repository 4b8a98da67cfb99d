/-
# What failed definitions leave

A method gets a further overload, or a class an attribute of its own, before the value is taken
over. If the value turns out to be stale the definition fails, but what was made for the value
stays. The overload without a value counts from then on, and the attribute without a value is
found by every search that comes to the class, in place of what was found further up.

In every world that respectful operations lead to, definitions fail in this way and in one other:
they are refused, and then the world is what it was.
-/

import ObjectSystem.Proofs.Atomicity
import ObjectSystem.Proofs.Defining
import ObjectSystem.Proofs.Resolution
import ObjectSystem.Proofs.Soundness

namespace ObjectSystem

namespace World

variable {w w' : World} {c k x holder : Handle} {s t : Symbol} {d : Class}

/-! ## An attribute without a value -/

theorem get?_openAttr (w : World) (c : Handle) (s : Symbol) (x : Handle) :
    (w.openAttr c s).objects.get? x = (w.objects.get? x).map fun o =>
      { o with payload := endows c (·.addClassAttr s) x o.payload } := by
  rw [openAttr, modifyDescriptor, modifyPayload, modifyObject, Arena.get?_modify]
  cases w.objects.get? x with
  | none => simp
  | some o =>
      rcases o with ⟨_, _, _, _, payload⟩
      split <;> cases payload <;> simp_all [endows]

theorem sameOwners_openAttr (w : World) (c : Handle) (s : Symbol) :
    w.SameOwners (w.openAttr c s) := by
  unfold openAttr modifyDescriptor modifyPayload
  refine sameOwners_modifyObject ?_ c
  exact fun _ => rfl

@[simp]
theorem classOf_openAttr (w : World) (c : Handle) (s : Symbol) (x : Handle) :
    (w.openAttr c s).classOf x = w.classOf x := by
  rw [classOf, classOf, object, object, get?_openAttr]
  cases w.objects.get? x <;> rfl

theorem classNameWithin_openAttr (w : World) (c : Handle) (s : Symbol) (fuel : Nat) (x : Handle) :
    (w.openAttr c s).classNameWithin fuel x = w.classNameWithin fuel x := by
  induction fuel generalizing x with
  | zero => rfl
  | succ fuel ih =>
      rw [classNameWithin, classNameWithin, classOf_openAttr]
      cases w.classOf x with
      | error e => rfl
      | ok k =>
          simp only [object, get?_openAttr]
          cases w.objects.get? k with
          | none => rfl
          | some p =>
              rcases p with ⟨_, _, _, _, payload⟩
              cases payload <;> simp only [endows, Option.map_some, Functor.map, Except.map, ih]
              split <;> rfl

@[simp]
theorem className_openAttr (w : World) (c : Handle) (s : Symbol) (x : Handle) :
    (w.openAttr c s).className x = w.className x :=
  w.classNameWithin_openAttr c s _ x

/-- Only the one class has changed, and objects that are no classes are told as before. -/
theorem descriptor_openAttr (w : World) (c : Handle) (s : Symbol) (k : Handle) :
    (w.openAttr c s).descriptor k =
      (w.descriptor k).map fun d => if k = c then d.addClassAttr s else d := by
  rw [descriptor, descriptor, object, object, get?_openAttr]
  cases w.objects.get? k with
  | none => rfl
  | some o =>
      rcases o with ⟨_, _, _, _, payload⟩
      cases payload <;> simp [endows, mismatch, bind, Except.bind, Except.map, pure, Except.pure,
        throw, throwThe, MonadExceptOf.throw]

theorem superclasses_openAttr (w : World) (c : Handle) (s : Symbol) (k : Handle) :
    (w.openAttr c s).superclasses k = w.superclasses k := by
  rw [superclasses, superclasses, descriptor_openAttr]
  cases w.descriptor k with
  | error e => rfl
  | ok d =>
      simp only [Except.map, bind, Except.bind]
      split <;> rfl

theorem noSuchAttribute_openAttr (w : World) (c : Handle) (s : Symbol) (k : Handle) (t : Symbol) :
    (w.openAttr c s).noSuchAttribute k t = w.noSuchAttribute k t := by
  have hlabel : (w.openAttr c s).classLabel k = w.classLabel k := by
    rw [classLabel, classLabel, descriptor_openAttr]
    cases w.descriptor k with
    | error e => rfl
    | ok d =>
        simp only [Except.map]
        split <;> rfl
  rw [noSuchAttribute, hlabel]
  rfl

theorem ancestors_openAttr (w : World) (c : Handle) (s : Symbol) (k : Handle) :
    (w.openAttr c s).ancestors k = w.ancestors k :=
  ancestorsFrom_congr (w.superclasses_openAttr c s) [] [k]

/-- Other attributes are found where they were. -/
theorem resolveAttr_openAttr (hne : t ≠ s) (c k : Handle) :
    (w.openAttr c s).resolveAttr k t = w.resolveAttr k t := by
  have hslot : ∀ (k : Handle) (d : Class),
      (if k = c then d.addClassAttr s else d).slot t = d.slot t := fun k d => by
    split
    · rw [Class.slot_addClassAttr_eq, if_neg hne]
    · rfl
  have hheld : ∀ k, (w.openAttr c s).heldAttr t k = w.heldAttr t k := fun k => by
    rw [heldAttr, heldAttr, descriptor_openAttr]
    cases w.descriptor k with
    | error e => rfl
    | ok d => simp only [Except.map, bind, Except.bind, hslot]
  have hsearch : (w.openAttr c s).search ((w.openAttr c s).heldAttr t) (w.openAttr c s).walkLimit =
      w.search (w.heldAttr t) w.walkLimit :=
    funext (search_congr (w.superclasses_openAttr c s) hheld w.walkLimit)
  rw [resolveAttr, resolveAttr, hsearch, superclasses_openAttr, descriptor_openAttr]
  cases w.descriptor k with
  | error e => rfl
  | ok d => simp only [Except.map, bind, Except.bind, hslot]

theorem entry_openAttr_of_ne (hne : k ≠ c) : (w.openAttr c s).entry s k = w.entry s k := by
  rw [entry, entry, descriptor_openAttr]
  cases w.descriptor k with
  | error e => rfl
  | ok d => simp only [Except.map, if_neg hne]

theorem entry_openAttr_self (hd : w.descriptor c = .ok d) :
    (w.openAttr c s).entry s c = .inClass (UInt32.ofNat d.classAttrs.size) := by
  rw [entry, descriptor_openAttr, hd]
  simp [Except.map, Class.slot_addClassAttr_eq]

/-- Attributes in objects do not change, and those in classes are still there. -/
theorem read_attr_openAttr (w : World) (c : Handle) (s : Symbol) (x : Handle) (n : Nat) :
    (w.openAttr c s).read (.attr x n) = w.read (.attr x n) := by
  rw [read, read, Slot.owner, object, object, get?_openAttr]
  cases w.objects.get? x <;> rfl

theorem read_classAttr_openAttr {n : Nat} {v : Option Handle}
    (hread : w.read (.classAttr holder n) = .ok v) :
    (w.openAttr c s).read (.classAttr holder n) = .ok v := by
  cases ho : w.objects.get? holder with
  | none =>
      rw [read, Slot.owner, object_eq_error ho] at hread
      cases hread
  | some o =>
      rw [read, Slot.owner, object_eq_ok ho] at hread
      have hwritable : (Slot.classAttr holder n).IsWritable := fun _ h => by cases h
      have hpeek := (Slot.readIn_eq_ok_iff hwritable).1 hread
      refine read_eq_ok_of_peek? ((w.get?_openAttr c s holder).trans (congrArg _ ho)) ?_
      rcases o with ⟨_, _, _, _, payload⟩
      cases payload with
      | descriptor d =>
          simp only [Slot.peek?, endows] at hpeek ⊢
          have hlt := (Array.getElem?_eq_some_iff.1 hpeek).1
          split
          · simp [Class.addClassAttr, Array.getElem?_push, hlt.ne, hpeek]
          · exact hpeek
      | _ => cases hpeek

/-! ## Who sees the attribute -/

/-- A search for an attribute from a class comes to another class before anything is found. -/
def ComesTo (w : World) (s : Symbol) (c k : Handle) : Prop :=
  ∃ before after, w.ancestors k = .ok (before ++ c :: after) ∧ w.located s before = .absent

/-- Along classes that the class is not among nothing has changed. -/
theorem located_openAttr {l : List Handle} (w : World) (s : Symbol) (hc : c ∉ l) :
    (w.openAttr c s).located s l = w.located s l :=
  located_congr fun _ hb => entry_openAttr_of_ne (ne_of_mem_of_not_mem hb hc)

/-- In a list without repetitions what stands between others stands nowhere in front. -/
theorem not_mem_of_nodup_append_cons {before after : List Handle}
    (hnodup : (before ++ c :: after).Nodup) : c ∉ before := fun hc =>
  (List.nodup_append.1 hnodup).2.2 c hc c List.mem_cons_self rfl

section Seen

variable (hordered : w.Ordered) (hordered' : (w.openAttr c s).Ordered) (hs : s ≠ Symbol.ofClass)
  (hk : k ∈ w.classes)
include hordered hordered' hs hk

/-- Where a search comes to the class it finds the new attribute there. -/
theorem resolveAttr_openAttr_of_comesTo (hd : w.descriptor c = .ok d) (hcomes : w.ComesTo s c k) :
    (w.openAttr c s).resolveAttr k s = .ok (.inClass c (UInt32.ofNat d.classAttrs.size)) := by
  obtain ⟨before, after, hl, habsent⟩ := hcomes
  obtain ⟨above, habove, hnodup, _⟩ := hordered.ancestors_lists hk
  rw [← Except.ok.inj (hl.symm.trans habove)] at hnodup
  have hbefore := w.located_openAttr s (not_mem_of_nodup_append_cons hnodup)
  rw [hordered'.resolveAttr_eq hk hs ((w.ancestors_openAttr c s k).trans hl),
    located_append_cons (hbefore.trans habsent) (entry_openAttr_self hd)]

/-- Where no search comes to the class nothing has changed. -/
theorem resolveAttr_openAttr_of_not (hcomes : ¬ w.ComesTo s c k) :
    (w.openAttr c s).resolveAttr k s = w.resolveAttr k s := by
  obtain ⟨above, hl, hnodup, _⟩ := hordered.ancestors_lists hk
  rw [hordered'.resolveAttr_eq hk hs ((w.ancestors_openAttr c s k).trans hl),
    hordered.resolveAttr_eq hk hs hl]
  by_cases hc : c ∈ k :: above
  · obtain ⟨before, after, heq⟩ := List.append_of_mem hc
    rw [heq] at hl hnodup ⊢
    have hfound : w.located s before ≠ .absent := fun habsent =>
      hcomes ⟨before, after, hl, habsent⟩
    have hbefore := w.located_openAttr s (not_mem_of_nodup_append_cons hnodup)
    rw [located_append (hbefore ▸ hfound), located_append hfound, hbefore]
  · rw [w.located_openAttr s hc]

end Seen

/-- An attribute of an object that is found where it was has the value that it had. -/
theorem Ordered.getAttr_openAttr (hordered : w.Ordered) (hcoherent : w.Coherent)
    (hresolve : ∀ k, w.classOf x = .ok k → (w.openAttr c s).resolveAttr k t = w.resolveAttr k t) :
    (w.openAttr c s).getAttr x t = w.getAttr x t := by
  rw [getAttr, getAttr, classOf_openAttr]
  cases hx : w.classOf x with
  | error e => rfl
  | ok k =>
      obtain ⟨hk, _⟩ := (answers_classOf hcoherent x).ok hx
      obtain ⟨location, hlocation, hlocates⟩ := hordered.resolveAttr_locates hk t
      simp only [bind, Except.bind, hresolve k hx, hlocation, noSuchAttribute_openAttr]
      cases hlocates with
      | absent | ofClass => rfl
      | inInstance => exact read_attr_openAttr ..
      | inClass hreach hd hslot =>
          obtain ⟨inst, own, hlaid⟩ := (hordered.orders (hordered.reach_mem hk hreach) hd).laid
          obtain ⟨v, hv⟩ := hd.exists_read hlaid.wellLaid hslot
          exact (read_classAttr_openAttr hv).trans hv.symm

/-- An attribute that is found at the new place is there, without a value. -/
theorem getAttr_openAttr_of_resolve {inst own : List Symbol} (hlaid : d.LaidAs inst own)
    (hs : s.isReserved = false) (hd : w.descriptor c = .ok d) (hfree : d.slot s = .unmapped)
    (hx : w.classOf x = .ok k) (hresolve : (w.openAttr c s).resolveAttr k t =
      .ok (.inClass c (UInt32.ofNat d.classAttrs.size))) :
    (w.openAttr c s).getAttr x t = .ok none := by
  have hlast : (own ++ [s])[d.classAttrs.size]? = some s := by simp [hlaid.classAttrs_size]
  have hindex := UInt32.toNat_ofNat_of_lt' ((hlaid.addClassAttr hs hfree).lays.lt_of_own hlast)
  obtain ⟨o, ho, hpayload⟩ := payload?_eq_some_iff.1 (descriptor_eq_ok_iff.1 hd)
  rw [getAttr, classOf_openAttr, hx]
  simp only [bind, Except.bind, hresolve, hindex]
  refine read_eq_ok_of_peek? ((w.get?_openAttr c s c).trans (congrArg _ ho)) ?_
  simp [Slot.peek?, hpayload, endows, Class.addClassAttr]

/-! ## An overload without a value -/

variable {m v : Handle} {argClass value : Option Handle} {signatures : Array Signature} {e : Error}

theorem sameOwners_openOverload (w : World) (m : Handle) (argClass : Option Handle)
    (index : Nat) : w.SameOwners (w.openOverload m argClass index) := by
  unfold openOverload
  refine sameOwners_modifyObject ?_ m
  exact fun _ => rfl

theorem signatures_openOverload (w : World) (argClass : Option Handle)
    (hl : w.signatures m = .ok signatures) (index : Nat) :
    (w.openOverload m argClass index).signatures m =
      .ok (signatures.push { argClass := argClass, value := none }) := by
  rw [signatures_eq_ok_iff] at hl ⊢
  rw [(w.rewrites_openOverload m argClass index).payload?_eq, hl]
  simp [appends]

theorem length_openOverload (hl : w.signatures m = .ok signatures) (index : Nat) :
    Object.length <$> (w.openOverload m argClass index).object m = .ok (index + 1) := by
  obtain ⟨o, ho, _⟩ := payload?_eq_some_iff.1 (signatures_eq_ok_iff.1 hl)
  rw [object_eq_ok (Arena.puts_modify ho).self]
  rfl

/-! ## Definitions that fail -/

/-- A class has an attribute neither in its instances nor as its own, and may get it. -/
def HasRoom (w : World) (c : Handle) (s : Symbol) : Prop :=
  s.isReserved = false ∧ ∃ d, w.descriptor c = .ok d ∧ d.slot s = .unmapped

/-- The overload that was to be added is there, without a value. -/
structure LeavesOverload (w w' : World) (m : Handle) (argClass : Option Handle)
    (l : Array Signature) : Prop where
  before : w.signatures m = .ok l
  eq : w' = w.openOverload m argClass l.size
  signatures_eq : w'.signatures m = .ok (l.push { argClass := argClass, value := none })
  length_eq : Object.length <$> w'.object m = .ok (l.size + 1)

/-- The attribute that was to be defined is there, without a value: it is found wherever a
search for it comes to the class, and hides what was found before. -/
structure LeavesAttr (w w' : World) (c : Handle) (s : Symbol) (index : UInt32) : Prop where
  eq : w' = w.openAttr c s
  comes : c ∈ w.classes → w.ComesTo s c c
  found : ∀ k ∈ w.classes, w.ComesTo s c k → w'.resolveAttr k s = .ok (.inClass c index)
  hidden : ∀ k ∈ w.classes, w.resolveAttr k s ≠ .ok (.inClass c index)
  unset : ∀ x k, w.classOf x = .ok k → w.ComesTo s c k → w'.getAttr x s = .ok none
  spares : ∀ k ∈ w.classes, ¬ w.ComesTo s c k → w'.resolveAttr k s = w.resolveAttr k s
  spares_objects : ∀ x, (∀ k, w.classOf x = .ok k → ¬ w.ComesTo s c k) →
    w'.getAttr x s = w.getAttr x s
  others : ∀ t, t ≠ s → (∀ k, w'.resolveAttr k t = w.resolveAttr k t) ∧
    ∀ x, w'.getAttr x t = w.getAttr x t

theorem ne_ofClass_of_not_reserved (hs : s.isReserved = false) : s ≠ Symbol.ofClass := by
  rintro rfl
  cases hs

theorem Ordered.comesTo_self (hordered : w.Ordered) (hc : c ∈ w.classes) : w.ComesTo s c c := by
  obtain ⟨above, hl, _⟩ := hordered.ancestors_lists hc
  exact ⟨[], above, hl, rfl⟩

/-- Searches come to classes above only. -/
theorem Ordered.mem_of_comesTo (hordered : w.Ordered) (hk : k ∈ w.classes)
    (hcomes : w.ComesTo s c k) : c ∈ w.classes := by
  obtain ⟨before, after, hl, _⟩ := hcomes
  obtain ⟨above, habove, _, hmem⟩ := hordered.ancestors_lists hk
  have hc : c ∈ k :: above := by
    rw [← Except.ok.inj (hl.symm.trans habove)]
    simp
  exact hordered.reach_mem hk ((hmem c).1 hc)

theorem leavesOverload (hl : w.signatures m = .ok signatures) (argClass : Option Handle) :
    w.LeavesOverload (w.openOverload m argClass signatures.size) m argClass signatures where
  before := hl
  eq := rfl
  signatures_eq := w.signatures_openOverload argClass hl _
  length_eq := length_openOverload hl _

theorem leavesAttr (hcoherent : w.Coherent) (hordered : w.Ordered) (hs : s.isReserved = false)
    (hd : w.descriptor c = .ok d) (hfree : d.slot s = .unmapped) :
    w.LeavesAttr (w.openAttr c s) c s (UInt32.ofNat d.classAttrs.size) := by
  have hofClass := ne_ofClass_of_not_reserved hs
  have hfree' : ∀ d', w.Describes c d' → d'.slot s = .unmapped := fun d' hd' => by
    cases hd.symm.trans hd'.descriptor_eq
    exact hfree
  have hordered' : (w.openAttr c s).Ordered := (hordered.addClassAttr hs hfree').ordered
  have hclass : ∀ {x k}, w.classOf x = .ok k → k ∈ w.classes := fun hx =>
    ((answers_classOf hcoherent _).ok hx).1
  have hfound : ∀ k ∈ w.classes, w.ComesTo s c k → (w.openAttr c s).resolveAttr k s =
      .ok (.inClass c (UInt32.ofNat d.classAttrs.size)) := fun k hk hcomes =>
    resolveAttr_openAttr_of_comesTo hordered hordered' hofClass hk hd hcomes
  have hspares : ∀ k ∈ w.classes, ¬ w.ComesTo s c k →
      (w.openAttr c s).resolveAttr k s = w.resolveAttr k s := fun k hk hcomes =>
    resolveAttr_openAttr_of_not hordered hordered' hofClass hk hcomes
  constructor
  case eq => rfl
  case comes => exact hordered.comesTo_self
  case found => exact hfound
  case spares => exact hspares
  case hidden =>
      -- What was found at the new place would have been mapped in the class before.
      intro k hk hheld
      obtain ⟨location, hlocation, hlocates⟩ := hordered.resolveAttr_locates hk s
      cases hlocation.symm.trans hheld
      cases hlocates with
      | inClass _ hd' hslot => cases (hfree' _ hd').symm.trans hslot
  case unset =>
      intro x k hx hcomes
      have hc := hordered.mem_of_comesTo (hclass hx) hcomes
      obtain ⟨d', hd'⟩ := hordered.described c hc
      cases hd.symm.trans hd'.describes.descriptor_eq
      obtain ⟨inst, own, hlaid⟩ := hd'.laid
      exact getAttr_openAttr_of_resolve hlaid hs hd hfree hx (hfound k (hclass hx) hcomes)
  case spares_objects =>
      exact fun x hcomes => hordered.getAttr_openAttr hcoherent fun k hx =>
        hspares k (hclass hx) (hcomes k hx)
  case others =>
      exact fun t ht => ⟨resolveAttr_openAttr ht c, fun x =>
        hordered.getAttr_openAttr hcoherent fun k _ => resolveAttr_openAttr ht c k⟩

end World

namespace Action

open World

variable {w w' : World} {m v c : Handle} {s : Symbol} {argClass value : Option Handle} {d : Class}
  {e : Error}

theorem perform_classAttrIndex (hd : w.descriptor c = .ok d) (hfree : d.slot s = .unmapped) :
    (classAttrIndex c s).perform w = (.ok d.classAttrs.size, w.openAttr c s) := by
  unfold classAttrIndex
  rw [perform_query_bind, hd]
  simp only [hfree]
  rfl

/-- An overload that cannot be added is refused, or its value is stale. -/
theorem failed_addSignature (hcoherent : w.Coherent)
    (hfails : (addSignature m argClass v).perform w = (.error e, w')) :
    ¬ w.TakesOverloads m argClass ∧ w' = w ∨
      w.TakesOverloads m argClass ∧ ¬ w.objects.Live v ∧ e = .dangling v ∧
        ∃ l, w.LeavesOverload w' m argClass l := by
  rcases addSignature_cases m argClass v w with
    ⟨_, hrefuses, hsame⟩ | ⟨l, htakes, hl, hpush⟩
  · cases hsame.symm.trans hfails
    exact Or.inl ⟨hrefuses, rfl⟩
  · have hl' := w.signatures_openOverload argClass hl l.size
    obtain ⟨o, ho, hpayload⟩ := payload?_eq_some_iff.1 (signatures_eq_ok_iff.1 hl')
    have hempty : (Slot.signature m l.size).peek? o = some none := by
      simp [Slot.peek?, hpayload]
    have hsame := w.sameOwners_openOverload m argClass l.size
    rcases set_made hcoherent hsame (.signature m l.size) ho hempty (some v) with
      ⟨w₁, hset⟩ | ⟨x, hx, hstale, hset⟩
    · cases (hpush.trans hset).symm.trans hfails
    · cases hx
      cases (hpush.trans hset).symm.trans hfails
      exact Or.inr ⟨htakes, hstale, rfl, l, leavesOverload hl argClass⟩

theorem failed_defineClassAttr (hcoherent : w.Coherent) (hordered : w.Ordered)
    (hfails : (defineClassAttr c s value).perform w = (.error e, w')) :
    ¬ w.HasRoom c s ∧ w' = w ∨
      w.HasRoom c s ∧ ∃ x index, value = some x ∧ ¬ w.objects.Live x ∧ e = .dangling x ∧
        w.LeavesAttr w' c s index := by
  by_cases hroom : w.HasRoom c s
  · right
    obtain ⟨hs, d, hd, hfree⟩ := hroom
    have hperform : (defineClassAttr c s value).perform w =
        (set (.classAttr c d.classAttrs.size) value).perform (w.openAttr c s) := by
      unfold defineClassAttr
      rw [hs]
      exact perform_bind_ok (perform_classAttrIndex hd hfree)
    obtain ⟨o, ho, hpayload⟩ := payload?_eq_some_iff.1 (descriptor_eq_ok_iff.1 hd)
    have ho' := (w.get?_openAttr c s c).trans (congrArg _ ho)
    have hempty : (Slot.classAttr c d.classAttrs.size).peek?
        { o with payload := endows c (·.addClassAttr s) c o.payload } = some none := by
      simp [Slot.peek?, hpayload, endows, Class.addClassAttr]
    rcases set_made hcoherent (w.sameOwners_openAttr c s) (.classAttr c d.classAttrs.size) ho'
      hempty value with
      ⟨w₁, hset⟩ | ⟨x, hx, hstale, hset⟩
    · cases (hperform.trans hset).symm.trans hfails
    · cases (hperform.trans hset).symm.trans hfails
      exact ⟨⟨hs, d, hd, hfree⟩, x, _, hx, hstale, rfl, leavesAttr hcoherent hordered hs hd hfree⟩
  · refine Or.inl ⟨hroom, ?_⟩
    unfold defineClassAttr at hfails
    split at hfails
    · cases hfails
      rfl
    · next hs =>
        have hs := Bool.eq_false_iff.2 hs
        rcases classAttrIndex_cases c s w with
          ⟨_, hindex⟩ | ⟨d, hd, ⟨index, _, hindex⟩ | ⟨hfree, _⟩⟩
        · cases (perform_bind_error hindex).symm.trans hfails
          rfl
        · rw [perform_bind_ok hindex] at hfails
          exact (atomic_set hcoherent (.classAttr c index.toNat) value _ _ hfails).1
        · exact absurd ⟨hs, d, hd, hfree⟩ hroom

end Action

namespace World

variable {settings : Settings} {w : World}

/-- In every world that respectful operations lead to, a definition that fails was refused and
left the world as it was, or its value is stale and it left an entry without a value. -/
theorem Respectful.failed_definition (hrespectful : Respectful settings w) (hfits : w.Fits) :
    (∀ m argClass v e w', (Operation.addSignature m argClass v).perform w = (.error e, w') →
        ¬ w.TakesOverloads m argClass ∧ w' = w ∨
          w.TakesOverloads m argClass ∧ ¬ w.objects.Live v ∧ e = .dangling v ∧
            ∃ l, w.LeavesOverload w' m argClass l) ∧
      ∀ c s value e w', (Operation.defineClassAttr c s value).perform w = (.error e, w') →
        ¬ w.HasRoom c s ∧ w' = w ∨
          w.HasRoom c s ∧ ∃ x index, value = some x ∧ ¬ w.objects.Live x ∧ e = .dangling x ∧
            w.LeavesAttr w' c s index := by
  obtain ⟨hcoherent, _⟩ := hrespectful.coherent hfits
  obtain ⟨a, hclassed, _⟩ := hrespectful.exists_classed
  have hordered := (hclassed.tallies hfits.cells_le).ordered
  exact ⟨fun _ _ _ _ _ hfails => Action.failed_addSignature hcoherent hfails,
    fun _ _ _ _ _ hfails => Action.failed_defineClassAttr hcoherent hordered hfails⟩

/-- Lists have the tag of all objects, until one of their own fails to be defined: then they have
none. A method keeps the overload that was to be added. -/
theorem Respectful.failed_definition_stale :
    let stale := Builtin.nth 99
    let list := Builtin.nth 25
    let method := Builtin.nth 26
    let w₁ := ((Operation.defineClassAttr Builtin.objectClass Symbol.tag
      (some Builtin.missingString)).perform initial).2
    let w₂ := ((Operation.objectVector 1).perform w₁).2
    let w := (Operation.newMethod.perform w₂).2
    let attr := Operation.defineClassAttr Builtin.listClass Symbol.tag (some stale)
    let overload := Operation.addSignature method none stale
    (w.getAttr list Symbol.tag = .ok (some Builtin.missingString) ∧
        attr.perform w = (.error (.dangling stale), (attr.perform w).2) ∧
        (attr.perform w).2.getAttr list Symbol.tag = .ok none) ∧
      w.signatures method = .ok #[] ∧
        overload.perform w = (.error (.dangling stale), (overload.perform w).2) ∧
        (overload.perform w).2.signatures method =
          .ok #[{ argClass := none, value := none }] := by
  intro stale list method w₁ w₂ w attr overload
  have hrespectful : Respectful {} w :=
    ((respectful_initial.step (.defineClassAttr Builtin.objectClass Symbol.tag
      (some Builtin.missingString)) trivial).step (.objectVector 1) trivial).step .newMethod trivial
  have hfits : w.Fits := ⟨by decide +kernel, by decide +kernel⟩
  obtain ⟨hoverload, hattr⟩ := hrespectful.failed_definition hfits
  have hattrFails : attr.perform w = (.error (.dangling stale), (attr.perform w).2) :=
    Action.outcome_eq (by decide +kernel)
  have hoverloadFails : overload.perform w = (.error (.dangling stale), (overload.perform w).2) :=
    Action.outcome_eq (by decide +kernel)
  refine ⟨⟨by decide +kernel, hattrFails, ?_⟩, by decide +kernel, hoverloadFails, ?_⟩
  · have hchanged : (attr.perform w).2.entry Symbol.tag Builtin.listClass ≠
        w.entry Symbol.tag Builtin.listClass := by decide +kernel
    rcases hattr _ _ _ _ _ hattrFails with ⟨_, hsame⟩ | ⟨_, _, _, _, _, _, hleaves⟩
    · exact absurd (by rw [hsame]) hchanged
    · exact hleaves.unset list Builtin.listClass (by decide +kernel)
        (hleaves.comes (by decide +kernel))
  · have hchanged : (overload.perform w).2.signatures method ≠ w.signatures method := by
      decide +kernel
    rcases hoverload _ _ _ _ _ hoverloadFails with ⟨_, hsame⟩ | ⟨_, _, _, l, hleaves⟩
    · exact absurd (by rw [hsame]) hchanged
    · have hl : w.signatures method = .ok #[] := by decide +kernel
      cases hl.symm.trans hleaves.before
      exact hleaves.signatures_eq

end World

end ObjectSystem

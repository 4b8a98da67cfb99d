/-
# How classes lay out attributes

A class keeps some attributes in its instances, at the places from one on, and others in
itself, at the indices from zero on. The slots of a class are read off two lists of symbols
here, one for each kind: `Class.Lays` says that they are, and what it says survives making
a subclass and giving a class an attribute of its own.

Places and indices are 32-bit words. They do not wrap around, because each belongs to a
symbol of its own, symbols are 32-bit words too, and the two reserved ones have no slot.
-/

import Mathlib.Data.List.Nodup
import Mathlib.Data.List.Perm.Subperm
import ObjectSystem.Proofs.Genesis
import ObjectSystem.Proofs.Trimming

namespace ObjectSystem

namespace Symbol

/-- Different symbols that are not reserved are at least two fewer than there are words. -/
theorem length_add_two_le {l : List Symbol} (hnodup : l.Nodup)
    (hfair : ∀ s ∈ l, s.isReserved = false) : l.length + 2 ≤ 2 ^ 32 := by
  have hreserved : empty.isReserved = true ∧ ofClass.isReserved = true := by decide
  have hall : ((empty :: ofClass :: l).map fun s => s.index.toNat).Nodup := by
    refine List.Nodup.map (fun s t heq => ?_) ?_
    · cases s
      cases t
      exact congrArg _ (UInt32.toNat_inj.1 heq)
    · refine List.nodup_cons.2 ⟨fun hmem => ?_, List.nodup_cons.2 ⟨fun hmem => ?_, hnodup⟩⟩
      · rcases List.mem_cons.1 hmem with heq | hmem
        · exact absurd heq (by decide)
        · cases hreserved.1.symm.trans (hfair _ hmem)
      · cases hreserved.2.symm.trans (hfair _ hmem)
  have hwords : ∀ n ∈ (empty :: ofClass :: l).map fun s => s.index.toNat,
      n ∈ List.range (2 ^ 32) := fun n hn => by
    obtain ⟨s, _, rfl⟩ := List.mem_map.1 hn
    exact List.mem_range.2 s.index.toNat_lt
  have hle := (hall.subperm hwords).length_le
  rwa [List.length_map, List.length_range] at hle

end Symbol

namespace Class

variable {slots : Array AttrSlot} {inst own l : List Symbol} {s t : Symbol} {d d' d'' : Class}

/-- Where slots keep an attribute. -/
def slotIn (slots : Array AttrSlot) (s : Symbol) : AttrSlot :=
  slots[s.index.toNat]?.getD .unmapped

theorem slot_eq_slotIn (d : Class) (s : Symbol) : d.slot s = slotIn d.slots s := rfl

theorem slotIn_widen (slots : Array AttrSlot) (size : Nat) (s : Symbol) :
    slotIn (widen slots size) s = slotIn slots s :=
  getD_widen slots size s.index.toNat

theorem slotIn_set (hroom : s.index.toNat < slots.size) (a : AttrSlot) (t : Symbol) :
    slotIn (slots.setIfInBounds s.index.toNat a) t = if t = s then a else slotIn slots t := by
  unfold slotIn
  by_cases heq : t = s
  · subst heq
    rw [if_pos rfl, Array.getElem?_setIfInBounds_self_of_lt hroom, Option.getD_some]
  · rw [if_neg heq, Array.getElem?_setIfInBounds_ne]
    intro hindex
    refine heq ?_
    cases s
    cases t
    exact congrArg _ (UInt32.toNat_inj.1 hindex).symm

/-- One attribute may get a slot, whatever its number, and the others keep theirs. -/
theorem slotIn_set_widen (slots : Array AttrSlot) (s : Symbol) (a : AttrSlot) (t : Symbol) :
    slotIn ((widen slots (s.index.toNat + 1)).setIfInBounds s.index.toNat a) t =
      if t = s then a else slotIn slots t := by
  have hroom : s.index.toNat < (widen slots (s.index.toNat + 1)).size := by
    simp only [widen, Array.size_append, Array.size_replicate]
    omega
  rw [slotIn_set hroom, slotIn_widen]

theorem slotIn_map_inherited (slots : Array AttrSlot) (s : Symbol) :
    slotIn (slots.map AttrSlot.inherited) s = (slotIn slots s).inherited := by
  unfold slotIn
  rw [Array.getElem?_map]
  cases slots[s.index.toNat]? <;> rfl

/-- The slots keep the attributes on one list in instances and those on the other in the
class, in the order of the lists, and no others. -/
structure Lays (slots : Array AttrSlot) (inst own : List Symbol) : Prop where
  nodup : (inst ++ own).Nodup
  fair : ∀ s ∈ inst ++ own, s.isReserved = false
  inInstance : ∀ i s, inst[i]? = some s → slotIn slots s = .inInstance (UInt32.ofNat (i + 1))
  inClass : ∀ i s, own[i]? = some s → slotIn slots s = .inClass (UInt32.ofNat i)
  unmapped : ∀ s, s ∉ inst ++ own → slotIn slots s = .unmapped
  size_le : slots.size ≤ 2 ^ 32

namespace Lays

theorem empty : Lays #[] [] [] where
  nodup := List.nodup_nil
  fair := by simp
  inInstance := by simp
  inClass := by simp
  unmapped _ _ := rfl
  size_le := by simp

theorem length_add_two_le (hlays : Lays slots inst own) : (inst ++ own).length + 2 ≤ 2 ^ 32 :=
  Symbol.length_add_two_le hlays.nodup hlays.fair

theorem not_mem (hlays : Lays slots inst own) (hs : slotIn slots s = .unmapped) :
    s ∉ inst ++ own := by
  intro hmem
  rcases List.mem_append.1 hmem with hmem | hmem
  · obtain ⟨i, hi⟩ := List.mem_iff_getElem?.1 hmem
    cases hs.symm.trans (hlays.inInstance i s hi)
  · obtain ⟨i, hi⟩ := List.mem_iff_getElem?.1 hmem
    cases hs.symm.trans (hlays.inClass i s hi)

/-- One more attribute may get the next place in instances. -/
theorem addInst (hlays : Lays slots inst []) (hs : s.isReserved = false)
    (hfree : slotIn slots s = .unmapped) (hroom : s.index.toNat < slots.size) :
    Lays (slots.setIfInBounds s.index.toNat (.inInstance (UInt32.ofNat (inst.length + 1))))
      (inst ++ [s]) [] := by
  have hnew := hlays.not_mem hfree
  rw [List.append_nil] at hnew
  constructor
  · have hnodup := hlays.nodup
    rw [List.append_nil] at hnodup ⊢
    exact List.nodup_append_comm.1 (List.nodup_cons.2 ⟨hnew, hnodup⟩)
  · intro t ht
    rw [List.append_nil] at ht
    rcases List.mem_append.1 ht with ht | ht
    · exact hlays.fair t (List.mem_append_left _ ht)
    · rwa [List.mem_singleton.1 ht]
  · intro i t hi
    rw [slotIn_set hroom]
    rcases Nat.lt_or_ge i inst.length with hlt | hge
    · rw [List.getElem?_append_left hlt] at hi
      rw [if_neg, hlays.inInstance i t hi]
      rintro rfl
      exact hnew (List.mem_iff_getElem?.2 ⟨i, hi⟩)
    · rw [List.getElem?_append_right hge, List.getElem?_singleton] at hi
      split at hi
      · next hzero =>
          cases hi
          rw [if_pos rfl, show i = inst.length by omega]
      · cases hi
  · simp
  · intro t ht
    rw [List.append_nil, List.mem_append, List.mem_singleton, not_or] at ht
    rw [slotIn_set hroom, if_neg ht.2]
    exact hlays.unmapped t (by simpa using ht.1)
  · simpa using hlays.size_le

/-- One more attribute may get the next index in the class. -/
theorem addOwn (hlays : Lays slots inst own) (hs : s.isReserved = false)
    (hfree : slotIn slots s = .unmapped) :
    Lays ((widen slots (s.index.toNat + 1)).setIfInBounds s.index.toNat
      (.inClass (UInt32.ofNat own.length))) inst (own ++ [s]) := by
  have hnew := hlays.not_mem hfree
  have hset := slotIn_set_widen slots s (.inClass (UInt32.ofNat own.length))
  constructor
  · rw [← List.append_assoc]
    exact List.nodup_append_comm.1 (List.nodup_cons.2 ⟨hnew, hlays.nodup⟩)
  · intro t ht
    rw [← List.append_assoc] at ht
    rcases List.mem_append.1 ht with ht | ht
    · exact hlays.fair t ht
    · rwa [List.mem_singleton.1 ht]
  · intro i t hi
    rw [hset, if_neg, hlays.inInstance i t hi]
    rintro rfl
    exact hnew (List.mem_append_left _ (List.mem_iff_getElem?.2 ⟨i, hi⟩))
  · intro i t hi
    rw [hset]
    rcases Nat.lt_or_ge i own.length with hlt | hge
    · rw [List.getElem?_append_left hlt] at hi
      rw [if_neg, hlays.inClass i t hi]
      rintro rfl
      exact hnew (List.mem_append_right _ (List.mem_iff_getElem?.2 ⟨i, hi⟩))
    · rw [List.getElem?_append_right hge, List.getElem?_singleton] at hi
      split at hi
      · next hzero =>
          cases hi
          rw [if_pos rfl, show i = own.length by omega]
      · cases hi
  · intro t ht
    rw [← List.append_assoc, List.mem_append, List.mem_singleton, not_or] at ht
    rw [hset, if_neg ht.2, hlays.unmapped t ht.1]
  · simp only [Array.size_setIfInBounds, widen, Array.size_append, Array.size_replicate]
    have := hlays.size_le
    have := s.index.toNat_lt
    omega

/-- What subclasses take over are the attributes of instances. -/
theorem inherit (hlays : Lays slots inst own) {size : Nat} (hsize : size ≤ 2 ^ 32) :
    Lays (widen (slots.map AttrSlot.inherited) size) inst [] := by
  have hslot : ∀ t, slotIn (widen (slots.map AttrSlot.inherited) size) t =
      (slotIn slots t).inherited := fun t => by
    rw [slotIn_widen, slotIn_map_inherited]
  constructor
  · rw [List.append_nil]
    exact (List.nodup_append.1 hlays.nodup).1
  · intro t ht
    rw [List.append_nil] at ht
    exact hlays.fair t (List.mem_append_left _ ht)
  · intro i t hi
    rw [hslot, hlays.inInstance i t hi, AttrSlot.inherited]
  · simp
  · intro t ht
    rw [List.append_nil] at ht
    rw [hslot]
    by_cases hown : t ∈ own
    · obtain ⟨i, hi⟩ := List.mem_iff_getElem?.1 hown
      rw [hlays.inClass i t hi, AttrSlot.inherited]
      exact fun _ => nofun
    · rw [hlays.unmapped t (by simp [ht, hown]), AttrSlot.inherited]
      exact fun _ => nofun
  · simp only [widen, Array.size_append, Array.size_replicate, Array.size_map]
    have := hlays.size_le
    omega

/-- The places in instances are those of the attributes on the list. -/
theorem inInstance_iff (hlays : Lays slots inst own) {place : UInt32} :
    slotIn slots s = .inInstance place ↔
      ∃ i, inst[i]? = some s ∧ place = UInt32.ofNat (i + 1) := by
  constructor
  · intro hplace
    have hmem : s ∈ inst ++ own := by
      by_contra hnone
      cases (hlays.unmapped s hnone).symm.trans hplace
    rcases List.mem_append.1 hmem with hmem | hmem
    · obtain ⟨i, hi⟩ := List.mem_iff_getElem?.1 hmem
      cases (hlays.inInstance i s hi).symm.trans hplace
      exact ⟨i, hi, rfl⟩
    · obtain ⟨i, hi⟩ := List.mem_iff_getElem?.1 hmem
      cases (hlays.inClass i s hi).symm.trans hplace
  · rintro ⟨i, hi, rfl⟩
    exact hlays.inInstance i s hi

/-- The indices in the class are those of its own attributes. -/
theorem inClass_iff (hlays : Lays slots inst own) {index : UInt32} :
    slotIn slots s = .inClass index ↔ ∃ i, own[i]? = some s ∧ index = UInt32.ofNat i := by
  constructor
  · intro hindex
    have hmem : s ∈ inst ++ own := by
      by_contra hnone
      cases (hlays.unmapped s hnone).symm.trans hindex
    rcases List.mem_append.1 hmem with hmem | hmem
    · obtain ⟨i, hi⟩ := List.mem_iff_getElem?.1 hmem
      cases (hlays.inInstance i s hi).symm.trans hindex
    · obtain ⟨i, hi⟩ := List.mem_iff_getElem?.1 hmem
      cases (hlays.inClass i s hi).symm.trans hindex
      exact ⟨i, hi, rfl⟩
  · rintro ⟨i, hi, rfl⟩
    exact hlays.inClass i s hi

theorem lt_of_inst (hlays : Lays slots inst own) {i : Nat} (hi : inst[i]? = some s) :
    i + 1 < 2 ^ 32 := by
  have hle := hlays.length_add_two_le
  have hlt := (List.getElem?_eq_some_iff.1 hi).1
  rw [List.length_append] at hle
  omega

theorem lt_of_own (hlays : Lays slots inst own) {i : Nat} (hi : own[i]? = some s) :
    i < 2 ^ 32 := by
  have hle := hlays.length_add_two_le
  have hlt := (List.getElem?_eq_some_iff.1 hi).1
  rw [List.length_append] at hle
  omega

/-- New attributes get the next places, in their order. -/
theorem foldlM_addAttr {className : String} {symbols : SymbolTable} {newAttrs : List Symbol}
    {slots' : Array AttrSlot} {count : Nat} (hlays : Lays slots inst [])
    (hroom : ∀ s ∈ newAttrs, s.index.toNat < slots.size)
    (hadd : newAttrs.foldlM (addAttr className symbols) (slots, inst.length) =
      .ok (slots', count)) :
    Lays slots' (inst ++ newAttrs) [] ∧ count = (inst ++ newAttrs).length := by
  induction newAttrs generalizing slots inst with
  | nil =>
      cases hadd
      rw [List.append_nil]
      exact ⟨hlays, rfl⟩
  | cons s newAttrs ih =>
      rw [List.foldlM_cons] at hadd
      obtain ⟨layout, hfirst, hadd⟩ := exists_of_bind_eq_ok hadd
      have hlayout := eq_of_addAttr hfirst
      unfold addAttr at hfirst
      simp only at hfirst
      split at hfirst
      · cases hfirst
      · next hs =>
          split at hfirst
          · cases hfirst
          · next hfree =>
              subst hlayout
              have hnext := hlays.addInst (Bool.eq_false_iff.2 hs) (not_not.1 hfree)
                (hroom s List.mem_cons_self)
              have hrest := ih hnext (fun t ht => by
                rw [Array.size_setIfInBounds]
                exact hroom t (List.mem_cons_of_mem _ ht)) (by
                rw [List.length_append, List.length_singleton]
                exact hadd)
              rwa [List.append_assoc, List.singleton_append] at hrest

end Lays

/-- A class keeps the attributes on one list in instances and those on the other in itself,
with a declared class for each of the first and a value, or none, for each of the second. -/
structure LaidAs (d : Class) (inst own : List Symbol) : Prop where
  lays : Lays d.slots inst own
  attrCount_eq : d.attrCount = inst.length
  attrClasses_size : d.attrClasses.size = inst.length
  classAttrs_size : d.classAttrs.size = own.length

/-- The slots of a class can be read off two lists of attributes. -/
def Laid (d : Class) : Prop :=
  ∃ inst own, d.LaidAs inst own

theorem laid_root (name : String) (behavior : Behavior) : (root name behavior).Laid :=
  ⟨[], [], .empty, rfl, rfl, rfl⟩

theorem lt_foldl_highest (l : List Symbol) (n : Nat) :
    n ≤ l.foldl (fun n s => max n (s.index.toNat + 1)) n ∧
      ∀ s ∈ l, s.index.toNat < l.foldl (fun n s => max n (s.index.toNat + 1)) n := by
  induction l generalizing n with
  | nil => simp
  | cons s l ih =>
      obtain ⟨hle, hlt⟩ := ih (max n (s.index.toNat + 1))
      rw [List.foldl_cons]
      refine ⟨by omega, fun t ht => ?_⟩
      rcases List.mem_cons.1 ht with rfl | ht
      · omega
      · exact hlt t ht

theorem foldl_highest_le (l : List Symbol) {n : Nat} (hn : n ≤ 2 ^ 32) :
    l.foldl (fun n s => max n (s.index.toNat + 1)) n ≤ 2 ^ 32 := by
  induction l generalizing n with
  | nil => exact hn
  | cons s l ih =>
      have hword := s.index.toNat_lt
      exact ih (Nat.max_le.2 ⟨hn, hword⟩)

section Derive

variable {parent : Class} {parentHandle defaultClass : Handle} {name : String}
  {newAttrs : List Symbol} {newClasses : Option (List Handle)} {symbols : SymbolTable}

/-- A subclass keeps the attributes of the instances of its parent, and the new ones behind
them. -/
theorem LaidAs.derive (hlaid : parent.LaidAs inst own)
    (hderive : parent.derive parentHandle name newAttrs newClasses defaultClass symbols = .ok d) :
    d.LaidAs (inst ++ newAttrs) [] ∧ d.supers = .push .empty parentHandle := by
  obtain ⟨⟨slots, count⟩, declared, hlayout, hlength, rfl⟩ := exists_of_derive hderive
  rw [hlaid.attrCount_eq] at hlayout
  have hroom : ∀ s ∈ newAttrs, s.index.toNat < (widen (parent.slots.map AttrSlot.inherited)
      (newAttrs.foldl (fun n s => max n (s.index.toNat + 1)) 0)).size := by
    intro s hs
    have := (lt_foldl_highest newAttrs 0).2 s hs
    simp only [widen, Array.size_append, Array.size_replicate, Array.size_map]
    omega
  have hinherit := hlaid.lays.inherit (foldl_highest_le newAttrs (Nat.zero_le _))
  obtain ⟨hlays, rfl⟩ := hinherit.foldlM_addAttr hroom hlayout
  refine ⟨⟨hlays, rfl, ?_, rfl⟩, rfl⟩
  simp [hlaid.attrClasses_size, hlength]

end Derive

/-- What every class keeps to: the attributes with a place in instances correspond to the
places from one up to their number, each with a declared class, the attributes of the class
itself correspond to its values, and the reserved symbols have no slot. The slots do not
reach beyond the numbers of symbols. -/
structure WellLaid (d : Class) : Prop where
  attrClasses_size : d.attrClasses.size = d.attrCount
  place_mem : ∀ s place, d.slot s = .inInstance place →
    1 ≤ place.toNat ∧ place.toNat ≤ d.attrCount
  place_unique : ∀ n, 1 ≤ n → n ≤ d.attrCount →
    ∃! s, ∃ place, d.slot s = .inInstance place ∧ place.toNat = n
  index_mem : ∀ s index, d.slot s = .inClass index → index.toNat < d.classAttrs.size
  index_unique : ∀ n, n < d.classAttrs.size →
    ∃! s, ∃ index, d.slot s = .inClass index ∧ index.toNat = n
  empty_unmapped : d.slot Symbol.empty = .unmapped
  ofClass_unmapped : d.slot Symbol.ofClass = .unmapped
  slots_size_le : d.slots.size ≤ 2 ^ 32

/-- Which attribute has a number can be read off a list in which they stand once each. -/
theorem existsUnique_getElem? {l : List Symbol} {i : Nat} (hi : i < l.length) :
    ∃! s, l[i]? = some s :=
  ⟨l[i], List.getElem?_eq_getElem hi, fun _ hs => Option.some.inj
    (hs.symm.trans (List.getElem?_eq_getElem hi))⟩

theorem LaidAs.wellLaid (hlaid : d.LaidAs inst own) : d.WellLaid := by
  have hplace : ∀ s n, (∃ place, d.slot s = .inInstance place ∧ place.toNat = n) ↔
      ∃ i, inst[i]? = some s ∧ n = i + 1 := by
    intro s n
    simp only [slot_eq_slotIn, hlaid.lays.inInstance_iff]
    constructor
    · rintro ⟨_, ⟨i, hi, rfl⟩, rfl⟩
      exact ⟨i, hi, UInt32.toNat_ofNat_of_lt' (hlaid.lays.lt_of_inst hi)⟩
    · rintro ⟨i, hi, rfl⟩
      exact ⟨_, ⟨i, hi, rfl⟩, UInt32.toNat_ofNat_of_lt' (hlaid.lays.lt_of_inst hi)⟩
  have hindex : ∀ s n, (∃ index, d.slot s = .inClass index ∧ index.toNat = n) ↔
      own[n]? = some s := by
    intro s n
    simp only [slot_eq_slotIn, hlaid.lays.inClass_iff]
    constructor
    · rintro ⟨_, ⟨i, hi, rfl⟩, rfl⟩
      rwa [UInt32.toNat_ofNat_of_lt' (hlaid.lays.lt_of_own hi)]
    · intro hi
      exact ⟨_, ⟨n, hi, rfl⟩, UInt32.toNat_ofNat_of_lt' (hlaid.lays.lt_of_own hi)⟩
  have hreserved : ∀ s : Symbol, s.isReserved = true → d.slot s = .unmapped := by
    intro s hs
    refine hlaid.lays.unmapped s fun hmem => ?_
    cases hs.symm.trans (hlaid.lays.fair s hmem)
  refine ⟨by rw [hlaid.attrClasses_size, hlaid.attrCount_eq], fun s place hs => ?_,
    fun n hpos hle => ?_, fun s index hs => ?_, fun n hlt => ?_, hreserved _ (by decide),
    hreserved _ (by decide), hlaid.lays.size_le⟩
  · obtain ⟨i, hi, hn⟩ := (hplace s _).1 ⟨place, hs, rfl⟩
    have := (List.getElem?_eq_some_iff.1 hi).1
    rw [hlaid.attrCount_eq, hn]
    omega
  · rw [hlaid.attrCount_eq] at hle
    obtain ⟨s, hs, hunique⟩ := existsUnique_getElem? (l := inst) (i := n - 1) (by omega)
    refine ⟨s, (hplace s n).2 ⟨n - 1, hs, by omega⟩, fun t ht => ?_⟩
    obtain ⟨i, hi, rfl⟩ := (hplace t n).1 ht
    exact hunique t hi
  · rw [hlaid.classAttrs_size]
    exact (List.getElem?_eq_some_iff.1 ((hindex s _).1 ⟨index, hs, rfl⟩)).1
  · rw [hlaid.classAttrs_size] at hlt
    simp only [hindex]
    exact existsUnique_getElem? hlt

/-- A class has the attributes of instances of another where that one has them, and further
ones behind them. -/
structure Extends (parent d : Class) (newAttrs : List Symbol) : Prop where
  attrCount_eq : d.attrCount = parent.attrCount + newAttrs.length
  inherited : ∀ s place, parent.slot s = .inInstance place → d.slot s = .inInstance place
  added : ∀ i s, newAttrs[i]? = some s →
    ∃ place, d.slot s = .inInstance place ∧ place.toNat = parent.attrCount + (i + 1)

theorem LaidAs.extends {parent : Class} {newAttrs own' : List Symbol}
    (hparent : parent.LaidAs inst own) (hlaid : d.LaidAs (inst ++ newAttrs) own') :
    parent.Extends d newAttrs where
  attrCount_eq := by rw [hlaid.attrCount_eq, hparent.attrCount_eq, List.length_append]
  inherited s place hs := by
    obtain ⟨i, hi, rfl⟩ := hparent.lays.inInstance_iff.1 hs
    exact hlaid.lays.inInstance i s
      ((List.getElem?_append_left (List.getElem?_eq_some_iff.1 hi).1).trans hi)
  added i s hi := by
    have happend : (inst ++ newAttrs)[inst.length + i]? = some s := by
      rw [List.getElem?_append_right (Nat.le_add_right _ _), Nat.add_sub_cancel_left, hi]
    refine ⟨_, hlaid.lays.inInstance _ s happend, ?_⟩
    rw [UInt32.toNat_ofNat_of_lt' (hlaid.lays.lt_of_inst happend), hparent.attrCount_eq]
    rfl

/-- Two states of a class between which it has got at most further superclasses, behind
those that it had, and further attributes of its own. -/
structure Grows (d d' : Class) : Prop where
  attrCount_eq : d'.attrCount = d.attrCount
  supers : d.supers.toList <+: d'.supers.toList
  inInstance_iff : ∀ s place, d'.slot s = .inInstance place ↔ d.slot s = .inInstance place
  laid : d.Laid → d'.Laid

theorem Grows.refl (d : Class) : d.Grows d :=
  ⟨rfl, List.prefix_rfl, fun _ _ => Iff.rfl, id⟩

theorem Grows.trans (hfirst : d.Grows d') (hsecond : d'.Grows d'') : d.Grows d'' where
  attrCount_eq := hsecond.attrCount_eq.trans hfirst.attrCount_eq
  supers := hfirst.supers.trans hsecond.supers
  inInstance_iff s place := (hsecond.inInstance_iff s place).trans (hfirst.inInstance_iff s place)
  laid hlaid := hsecond.laid (hfirst.laid hlaid)

theorem Stays.grows (hstays : d.Stays d') : d.Grows d' where
  attrCount_eq := hstays.attrCount_eq
  supers := hstays.supers_eq ▸ List.prefix_rfl
  inInstance_iff s place := by rw [slot_eq_slotIn, slot_eq_slotIn, hstays.slots_eq]
  laid := fun ⟨inst, own, hlaid⟩ => ⟨inst, own, by rw [hstays.slots_eq]; exact hlaid.lays,
    hstays.attrCount_eq.trans hlaid.attrCount_eq,
    hstays.attrClasses_size.trans hlaid.attrClasses_size,
    hstays.classAttrs_size.trans hlaid.classAttrs_size⟩

/-- A superclass is added at the end, unless it is there already. -/
theorem supers_addSuperclass (d : Class) (superclass : Handle) :
    (d.addSuperclass superclass).supers.toList =
      if superclass ∈ d.supers.toList then d.supers.toList
      else d.supers.toList ++ [superclass] := by
  unfold addSuperclass Superclasses.contains
  by_cases hmem : superclass ∈ d.supers.toList
  · rw [if_pos (List.contains_iff_mem.2 hmem), if_pos hmem]
  · rw [if_neg (fun h => hmem (List.contains_iff_mem.1 h)), if_neg hmem]
    exact d.supers.toList_push superclass

theorem grows_addSuperclass (d : Class) (superclass : Handle) :
    d.Grows (d.addSuperclass superclass) := by
  unfold addSuperclass
  split
  · exact .refl d
  · exact ⟨rfl, d.supers.toList_push _ ▸ List.prefix_append _ _, fun _ _ => Iff.rfl,
      fun ⟨inst, own, hlaid⟩ => ⟨inst, own, hlaid.lays, hlaid.attrCount_eq,
        hlaid.attrClasses_size, hlaid.classAttrs_size⟩⟩

theorem LaidAs.addClassAttr (hlaid : d.LaidAs inst own) (hs : s.isReserved = false)
    (hfree : d.slot s = .unmapped) : (d.addClassAttr s).LaidAs inst (own ++ [s]) where
  lays := by
    have hlays := hlaid.lays.addOwn hs hfree
    rwa [← hlaid.classAttrs_size] at hlays
  attrCount_eq := hlaid.attrCount_eq
  attrClasses_size := hlaid.attrClasses_size
  classAttrs_size := by
    simp [Class.addClassAttr, hlaid.classAttrs_size]

theorem slot_addClassAttr_eq (d : Class) (s t : Symbol) : (d.addClassAttr s).slot t =
    if t = s then .inClass (UInt32.ofNat d.classAttrs.size) else d.slot t := by
  rw [slot_eq_slotIn, addClassAttr, slotIn_set_widen, slot_eq_slotIn]

theorem grows_addClassAttr (hs : s.isReserved = false) (hfree : d.slot s = .unmapped) :
    d.Grows (d.addClassAttr s) where
  attrCount_eq := rfl
  supers := List.prefix_rfl
  inInstance_iff t place := by
    refine ⟨slot_addClassAttr, fun hplace => ?_⟩
    rw [slot_addClassAttr_eq, if_neg]
    · exact hplace
    · rintro rfl
      cases hfree.symm.trans hplace
  laid := fun ⟨inst, own, hlaid⟩ => ⟨inst, _, hlaid.addClassAttr hs hfree⟩

/-- A class goes on extending its parent while both grow. -/
theorem Extends.grow {parent parent' : Class} {newAttrs : List Symbol}
    (hextends : parent.Extends d newAttrs) (hparent : parent.Grows parent') (hgrows : d.Grows d') :
    parent'.Extends d' newAttrs where
  attrCount_eq := by rw [hgrows.attrCount_eq, hparent.attrCount_eq, hextends.attrCount_eq]
  inherited s place hs :=
    (hgrows.inInstance_iff s place).2 (hextends.inherited s place
      ((hparent.inInstance_iff s place).1 hs))
  added i s hi := by
    obtain ⟨place, hs, hplace⟩ := hextends.added i s hi
    exact ⟨place, (hgrows.inInstance_iff s place).2 hs, by rw [hplace, hparent.attrCount_eq]⟩

end Class

end ObjectSystem

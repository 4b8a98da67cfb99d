/-
# Names and their symbols

A table of names only ever grows at its end, so a symbol goes on meaning the name that it was
made for. That holds as long as the table is not longer than there are numbers for symbols.
-/

import Mathlib.Algebra.Group.Nat.Defs
import Mathlib.Data.List.Nodup
import ObjectSystem.Symbol

namespace ObjectSystem

/-- Different names have different names for their overloads. -/
theorem methodName_injective {name name' : String} (heq : methodName name = methodName name') :
    name = name' := by
  have hlist := congrArg String.toList heq
  simp only [methodName, String.toList_ofList, List.cons.injEq, true_and] at hlist
  exact String.toList_injective hlist

/-- The name for the overloads is longer by the mark. -/
theorem methodName_ne (name : String) : methodName name ≠ name := by
  intro heq
  have hlength := congrArg (fun name : String => name.toList.length) heq
  simp [methodName] at hlength

namespace SymbolTable

variable {t t' t'' : SymbolTable} {s : Symbol} {name : String}

/-- The second table has further names behind those of the first, none of them a second time. -/
structure Grows (t t' : SymbolTable) : Prop where
  isPrefix : t.names.toList <+: t'.names.toList
  nodup : t.names.toList.Nodup → t'.names.toList.Nodup

theorem Grows.refl (t : SymbolTable) : t.Grows t :=
  ⟨List.prefix_refl _, id⟩

theorem Grows.trans (hfirst : t.Grows t') (hsecond : t'.Grows t'') : t.Grows t'' :=
  ⟨hfirst.isPrefix.trans hsecond.isPrefix, fun hnodup => hsecond.nodup (hfirst.nodup hnodup)⟩

theorem Grows.size_le (hgrows : t.Grows t') : t.size ≤ t'.size :=
  hgrows.isPrefix.length_le

/-- A symbol keeps its name. -/
theorem Grows.name?_eq (hgrows : t.Grows t') (hname : t.name? s = some name) :
    t'.name? s = some name := by
  rw [name?, ← Array.getElem?_toList] at hname ⊢
  obtain ⟨rest, hrest⟩ := hgrows.isPrefix
  rw [← hrest, List.getElem?_append_left (List.getElem?_eq_some_iff.1 hname).1, hname]

theorem findIdx?_of_find? (hfind : t.find? name = none) :
    t.names.findIdx? (· == name) = none :=
  Option.map_eq_none_iff.1 ((t.find?_eq name).symm.trans hfind)

theorem grows_intern (t : SymbolTable) (name : String) : t.Grows (t.intern name).2 := by
  unfold intern
  split
  · exact .refl t
  · next hfind =>
      refine ⟨⟨[name], (Array.toList_push ..).symm⟩, fun hnodup => ?_⟩
      show (t.names.push name).toList.Nodup
      rw [Array.toList_push]
      refine List.nodup_append_comm.1 (List.nodup_cons.2 ⟨fun hmem => ?_, hnodup⟩)
      have hnew := findIdx?_of_find? hfind
      simpa using Array.findIdx?_eq_none_iff.1 hnew name (Array.mem_toList_iff.1 hmem)

/-- A number within the table is the number of a symbol. -/
theorem name?_ofIndex {i : Nat} (hsize : t.size ≤ 2 ^ 32) (hname : t.names[i]? = some name) :
    t.name? (Symbol.ofIndex i) = some name := by
  have hlt := (Array.getElem?_eq_some_iff.1 hname).1
  have hi : (UInt32.ofNat i).toNat = i := UInt32.toNat_ofNat_of_lt (Nat.lt_of_lt_of_le hlt hsize)
  rw [name?, Symbol.ofIndex, hi, hname]

theorem name?_of_find? (hsize : t.size ≤ 2 ^ 32) (hfind : t.find? name = some s) :
    t.name? s = some name := by
  obtain ⟨i, hi, rfl⟩ := Option.map_eq_some_iff.1 ((t.find?_eq name).symm.trans hfind)
  obtain ⟨hlt, heq, _⟩ := Array.findIdx?_eq_some_iff_getElem.1 hi
  exact name?_ofIndex hsize (Array.getElem?_eq_some_iff.2 ⟨hlt, beq_iff_eq.1 heq⟩)

/-- A name that has been interned is in the table, with its symbol. -/
theorem find?_intern (t : SymbolTable) (name : String) :
    (t.intern name).2.find? name = some (t.intern name).1 := by
  unfold intern
  split
  · next hfind => exact hfind
  · exact List.lookup_cons_self

theorem name?_intern (hsize : (t.intern name).2.size ≤ 2 ^ 32) :
    (t.intern name).2.name? (t.intern name).1 = some name :=
  name?_of_find? hsize (t.find?_intern name)

/-- A name that is in the table keeps its symbol. -/
theorem Grows.find?_eq (hgrows : t.Grows t') (hfind : t.find? name = some s) :
    t'.find? name = some s := by
  obtain ⟨i, hi, rfl⟩ := Option.map_eq_some_iff.1 ((t.find?_eq name).symm.trans hfind)
  obtain ⟨rest, hrest⟩ := hgrows.isPrefix
  have hnames : t'.names = t.names ++ rest.toArray := Array.toList_inj.1 (by simp [← hrest])
  rw [find?_eq, hnames, Array.findIdx?_append, hi]
  rfl

theorem intern_of_find? (hfind : t.find? name = some s) : t.intern name = (s, t) := by
  unfold intern
  split
  · next hfind' => rw [Option.some.inj (hfind'.symm.trans hfind)]
  · next hnone => cases hnone.symm.trans hfind

/-- A name that is new gets the next symbol. -/
theorem intern_of_not_find? (hsize : t.size < 2 ^ 32) (hfind : t.find? name = none) :
    (t.intern name).1.index.toNat = t.size ∧ (t.intern name).2.size = t.size + 1 := by
  unfold intern
  split
  · next hfind' => cases hfind'.symm.trans hfind
  · exact ⟨UInt32.toNat_ofNat_of_lt hsize, Array.size_push _⟩

/-- A symbol that a name is about to get is not in the table yet. -/
theorem name?_intern_of_not_find? (hsize : t.size < 2 ^ 32) (hfind : t.find? name = none) :
    t.name? (t.intern name).1 = none := by
  rw [name?, (intern_of_not_find? hsize hfind).1]
  exact Array.getElem?_eq_none (Nat.le_refl _)

/-- The symbols of two names differ if the names do. -/
theorem eq_of_find?_eq {name' : String} (hsize : t.size ≤ 2 ^ 32) (hfind : t.find? name = some s)
    (hfind' : t.find? name' = some s) : name = name' :=
  Option.some.inj ((name?_of_find? hsize hfind).symm.trans (name?_of_find? hsize hfind'))

/-- A further name does not get the symbol of one that is in the table. -/
theorem eq_of_intern_eq {name' : String} (hsize : t.size < 2 ^ 32) (hfind : t.find? name = some s)
    (hintern : (t.intern name').1 = s) : name' = name := by
  cases hfind' : t.find? name' with
  | none =>
      have hnone := name?_intern_of_not_find? hsize hfind'
      rw [hintern, name?_of_find? (Nat.le_of_lt hsize) hfind] at hnone
      cases hnone
  | some s' =>
      rw [intern_of_find? hfind'] at hintern
      exact eq_of_find?_eq (Nat.le_of_lt hsize) (hintern ▸ hfind') hfind

/-- If no name is in the table twice, its symbol can be read off the name and the name off the
symbol. -/
theorem find?_eq_some_iff (hnodup : t.names.toList.Nodup) (hsize : t.size ≤ 2 ^ 32) :
    t.find? name = some s ↔ t.name? s = some name := by
  refine ⟨name?_of_find? hsize, fun hname => ?_⟩
  obtain ⟨hlt, hget⟩ := Array.getElem?_eq_some_iff.1 hname
  have hnone : t.find? name ≠ none := fun hnone => by
    have hnew := Array.findIdx?_eq_none_iff.1 (findIdx?_of_find? hnone) name
      (hget ▸ Array.getElem_mem hlt)
    simp at hnew
  obtain ⟨s', hfind⟩ := Option.ne_none_iff_exists'.1 hnone
  obtain ⟨hlt', hget'⟩ := Array.getElem?_eq_some_iff.1 (name?_of_find? hsize hfind)
  have hindex : s'.index.toNat = s.index.toNat :=
    (List.Nodup.getElem_inj_iff hnodup).1 (hget'.trans hget.symm)
  rw [hfind]
  cases s
  cases s'
  exact congrArg (some ∘ Symbol.mk) (UInt32.toNat_inj.1 hindex)

/-- The symbols in the table are those with the numbers below its size. -/
theorem lt_size_iff (hnodup : t.names.toList.Nodup) (hsize : t.size ≤ 2 ^ 32) {i : Nat} :
    i < t.size ↔ ∃ name s, t.find? name = some s ∧ s.index.toNat = i := by
  simp only [find?_eq_some_iff hnodup hsize]
  constructor
  · intro hlt
    exact ⟨t.names[i], Symbol.ofIndex i, name?_ofIndex hsize (Array.getElem?_eq_getElem hlt),
      UInt32.toNat_ofNat_of_lt (Nat.lt_of_lt_of_le hlt hsize)⟩
  · rintro ⟨name, s, hname, rfl⟩
    exact (Array.getElem?_eq_some_iff.1 hname).1

/-- A name that is not in the table yet gets a symbol behind all those that are. -/
theorem Grows.size_le_index (hgrows : t.Grows t') (hsize : t'.size ≤ 2 ^ 32)
    (hnodup : t.names.toList.Nodup) (hnew : t.find? name = none)
    (hfind : t'.find? name = some s) : t.size ≤ s.index.toNat := by
  refine Nat.le_of_not_lt fun hlt => ?_
  have hname : t.name? s = some t.names[s.index.toNat] := Array.getElem?_eq_getElem hlt
  have hsame := (hgrows.name?_eq hname).symm.trans (name?_of_find? hsize hfind)
  rw [Option.some.inj hsame] at hname
  cases hnew.symm.trans ((find?_eq_some_iff hnodup (Nat.le_trans hgrows.size_le hsize)).2 hname)

end SymbolTable

end ObjectSystem

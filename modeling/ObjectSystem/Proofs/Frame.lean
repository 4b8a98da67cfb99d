/-
# Laws of frames

A frame is a map that remembers in which order it got its names. `Frame.bind` is what an
assignment does to it, and `Frame.Records` says that it is what a list of assignments, the
last one in front, has left: its names are those assigned to, in the order of their first
assignments, and each has the value that it was given last.
-/

import Mathlib.Data.List.Nodup
import ObjectSystem.Frame

namespace ObjectSystem

namespace Frame

variable {f : Frame} {log : List (Symbol × Handle)} {name other : Symbol} {value : Handle}
  {index : Nat}

/-- Give a name a value, as a new name if it is one. -/
def bind (f : Frame) (name : Symbol) (value : Handle) : Frame :=
  match f.find? name with
  | some index => f.setValue index (some value)
  | none => (f.addName name).setValue f.size (some value)

/-- Giving a name the value that it has changes nothing. -/
theorem setValue_eq_self {content : Option Handle}
    (hcontent : f.bindings[index]?.map Prod.snd = some content) :
    f.setValue index content = f := by
  obtain ⟨binding, hbinding, rfl⟩ := Option.map_eq_some_iff.1 hcontent
  have hbindings : f.bindings.modify index (fun entry => (entry.1, binding.2)) = f.bindings := by
    apply Array.ext_getElem?
    intro j
    rw [Array.getElem?_modify]
    split
    · next heq =>
        subst heq
        simp [hbinding]
    · rfl
  rw [setValue, hbindings]

/-- The names that were assigned to, in the order of their first assignments. -/
def assigned (log : List (Symbol × Handle)) : List Symbol :=
  (log.map Prod.fst).reverse.eraseDups

theorem mem_assigned_iff : name ∈ assigned log ↔ name ∈ log.map Prod.fst := by
  rw [assigned, List.mem_eraseDups, List.mem_reverse]

theorem assigned_cons_of_mem (hname : name ∈ assigned log) :
    assigned ((name, value) :: log) = assigned log := by
  have hmem : name ∈ (log.map Prod.fst).reverse := List.mem_reverse.2 (mem_assigned_iff.1 hname)
  rw [assigned, List.map_cons, List.reverse_cons, List.eraseDups_append]
  simp [List.removeAll, hmem, assigned]

theorem assigned_cons_of_not_mem (hname : name ∉ assigned log) :
    assigned ((name, value) :: log) = assigned log ++ [name] := by
  have hmem : name ∉ (log.map Prod.fst).reverse := fun hmem =>
    hname (mem_assigned_iff.2 (List.mem_reverse.1 hmem))
  rw [assigned, List.map_cons, List.reverse_cons, List.eraseDups_append]
  simp [List.removeAll, hmem, assigned, List.eraseDups_cons]

theorem nodup_assigned (log : List (Symbol × Handle)) : (assigned log).Nodup := by
  induction log with
  | nil => exact List.nodup_nil
  | cons entry log ih =>
      obtain ⟨name, value⟩ := entry
      by_cases hname : name ∈ assigned log
      · rw [assigned_cons_of_mem hname]
        exact ih
      · rw [assigned_cons_of_not_mem hname]
        exact List.nodup_append_comm.1 (List.nodup_cons.2 ⟨hname, ih⟩)

/-- The bindings are what assignments have left, the last of which is in front. -/
def Records (f : Frame) (log : List (Symbol × Handle)) : Prop :=
  f.bindings.toList = (assigned log).map fun name => (name, log.lookup name)

theorem records_empty (capacity : Nat) : Records { capacity := capacity } [] := rfl

namespace Records

theorem names_eq (hrecords : f.Records log) : f.names = assigned log := by
  rw [names, hrecords, List.map_map]
  exact List.map_id _

theorem size_eq (hrecords : f.Records log) : f.size = (assigned log).length := by
  rw [size, ← Array.length_toList, hrecords, List.length_map]

theorem getElem?_bindings (hrecords : f.Records log) (index : Nat) :
    f.bindings[index]? = (assigned log)[index]?.map fun name => (name, log.lookup name) := by
  rw [← Array.getElem?_toList, hrecords, List.getElem?_map]

theorem find?_eq (hrecords : f.Records log) (name : Symbol) :
    f.find? name = (assigned log).findIdx? (· == name) := by
  have hbindings : f.bindings =
      ((assigned log).map fun name => (name, log.lookup name)).toArray := by
    rw [← hrecords, Array.toArray_toList]
  rw [find?, hbindings, List.findIdx?_toArray, List.findIdx?_map]
  rfl

theorem find?_eq_none_iff (hrecords : f.Records log) :
    f.find? name = none ↔ name ∉ assigned log := by
  rw [hrecords.find?_eq, List.findIdx?_eq_none_iff]
  exact ⟨fun hnone hmem => by simpa using hnone name hmem, fun hname other hother =>
    beq_eq_false_iff_ne.2 fun heq => hname (heq ▸ hother)⟩

theorem getElem?_of_find? (hrecords : f.Records log) (hfind : f.find? name = some index) :
    (assigned log)[index]? = some name := by
  rw [hrecords.find?_eq, List.findIdx?_eq_some_iff_getElem] at hfind
  obtain ⟨hlt, hname, _⟩ := hfind
  rw [List.getElem?_eq_getElem hlt, beq_iff_eq.1 hname]

/-- A name has the value that was assigned to it last. -/
theorem get?_eq (hrecords : f.Records log) (name : Symbol) : f.get? name = log.lookup name := by
  rw [get?]
  cases hfind : f.find? name with
  | none =>
      have hname := hrecords.find?_eq_none_iff.1 hfind
      refine (List.lookup_eq_none_iff.2 fun entry hentry => ?_).symm
      exact bne_iff_ne.2 fun heq =>
        hname (mem_assigned_iff.2 (heq ▸ List.mem_map_of_mem hentry))
  | some index =>
      rw [Option.bind_some, hrecords.getElem?_bindings, hrecords.getElem?_of_find? hfind]
      rfl

/-- An assignment is recorded in front. -/
theorem bind (hrecords : f.Records log) (name : Symbol) (value : Handle) :
    (f.bind name value).Records ((name, value) :: log) := by
  have hother : ∀ other, other ≠ name → ((name, value) :: log).lookup other = log.lookup other :=
    fun other hne => by rw [List.lookup_cons, beq_eq_false_iff_ne.2 hne]
  have hself : ((name, value) :: log).lookup name = some value := by simp
  rw [Frame.bind]
  cases hfind : f.find? name with
  | some index =>
      have hindex := hrecords.getElem?_of_find? hfind
      rw [Records, assigned_cons_of_mem (List.mem_of_getElem? hindex)]
      apply List.ext_getElem?
      intro j
      simp only [setValue, Array.toList_modify, List.getElem?_modify, List.getElem?_map,
        Array.getElem?_toList, hrecords.getElem?_bindings]
      by_cases hj : index = j
      · subst hj
        simp [hindex]
      · cases hname : (assigned log)[j]? with
        | none => simp
        | some other =>
            have hne : other ≠ name := by
              rintro rfl
              exact hj ((List.getElem?_inj (List.getElem?_eq_some_iff.1 hindex).1
                (nodup_assigned log)).1 (hindex.trans hname.symm))
            simp [hj, hother other hne]
  | none =>
      have hname := hrecords.find?_eq_none_iff.1 hfind
      have hbindings : ((f.addName name).setValue f.size (some value)).bindings.toList =
          f.bindings.toList ++ [(name, some value)] := by
        apply List.ext_getElem?
        intro j
        simp only [setValue, addName, Array.toList_modify, List.getElem?_modify, Array.toList_push,
          size, List.getElem?_append, Array.length_toList]
        by_cases hj : j < f.bindings.size
        · simp [hj, (Nat.ne_of_lt hj).symm]
        · by_cases heq : f.bindings.size = j
          · subst heq
            simp
          · have hlast : j - f.bindings.size ≠ 0 := by omega
            simp [hj, heq, hlast]
      rw [Records, hbindings, hrecords, assigned_cons_of_not_mem hname, List.map_append,
        List.map_singleton, hself]
      congr 1
      refine List.map_congr_left fun other hmem => ?_
      rw [hother other]
      rintro rfl
      exact hname hmem

end Records

@[simp]
theorem capacity_bind (f : Frame) (name : Symbol) (value : Handle) :
    (f.bind name value).capacity = f.capacity := by
  rw [bind]
  cases f.find? name <;> rfl

/-- A frame does not outgrow its capacity by a name that it has or has room for. -/
theorem size_bind_le (hsize : f.size ≤ f.capacity)
    (hroom : f.find? name ≠ none ∨ f.isFull = false) : (f.bind name value).size ≤ f.capacity := by
  rw [bind]
  cases hfind : f.find? name with
  | some index => simpa [setValue, size] using hsize
  | none =>
      have hfull := hroom.resolve_left (absurd hfind)
      simp only [isFull, decide_eq_false_iff_not, Nat.not_le] at hfull
      simp only [setValue, addName, size, Array.size_modify, Array.size_push] at hfull ⊢
      omega

end Frame

end ObjectSystem

/-
# Coherent worlds

A world is coherent when its arena lists its empty cells correctly, its pools
are in order, its references and headers agree and so do its pools and headers.
The laws here say that the write barrier leads from coherent worlds to coherent
worlds, and what it does on the way.
-/

import ObjectSystem.Proofs.Registry
import ObjectSystem.Proofs.Tidy

namespace ObjectSystem

namespace Object

variable {o o' o'' : Object}

/-- If the second state of an object is a class, the first is a class that gives its
instances at least the same places. -/
def NoNewPlaces (o o' : Object) : Prop :=
  ∀ d', o'.payload = .descriptor d' → ∃ d, o.payload = .descriptor d ∧
    ∀ s place, d'.slot s = .inInstance place → d.slot s = .inInstance place

theorem noNewPlaces_of_payload_eq (hpayload : o'.payload = o.payload) : o.NoNewPlaces o' :=
  fun d' hd' => ⟨d', hpayload ▸ hd', fun _ _ hplace => hplace⟩

theorem NoNewPlaces.trans (hfirst : o.NoNewPlaces o') (hsecond : o'.NoNewPlaces o'') :
    o.NoNewPlaces o'' := by
  intro d'' hd''
  obtain ⟨d', hd', hplaces'⟩ := hsecond d'' hd''
  obtain ⟨d, hd, hplaces⟩ := hfirst d' hd'
  exact ⟨d, hd, fun s place hplace => hplaces s place (hplaces' s place hplace)⟩

theorem noNewPlaces_storeIn (o : Object) (s : Slot) (value : Option Handle) :
    o.NoNewPlaces (s.storeIn value o) := by
  cases s with
  | attr x index =>
      cases index <;> exact noNewPlaces_of_payload_eq rfl
  | classAttr x index =>
      cases hpayload : o.payload with
      | descriptor d =>
          intro d' hd'
          simp only [Slot.storeIn, hpayload, Payload.descriptor.injEq] at hd'
          subst hd'
          exact ⟨d, hpayload, fun _ _ hplace => hplace⟩
      | _ => exact noNewPlaces_of_payload_eq (by simp only [Slot.storeIn, hpayload])
  | element x index =>
      cases hpayload : o.payload with
      | elements values =>
          intro d' hd'
          simp [Slot.storeIn, hpayload] at hd'
      | _ => exact noNewPlaces_of_payload_eq (by simp only [Slot.storeIn, hpayload])
  | binding x index =>
      cases hpayload : o.payload with
      | environment f =>
          intro d' hd'
          simp [Slot.storeIn, hpayload] at hd'
      | _ => exact noNewPlaces_of_payload_eq (by simp only [Slot.storeIn, hpayload])
  | signature x index =>
      cases hpayload : o.payload with
      | method l =>
          intro d' hd'
          simp [Slot.storeIn, hpayload] at hd'
      | _ => exact noNewPlaces_of_payload_eq (by simp only [Slot.storeIn, hpayload])

/-- A pinned object stays pinned, and the instances of a pinned class get no new
places. -/
structure Lasts (o o' : Object) : Prop where
  pinned : o'.header.pinned = true
  places : o.NoNewPlaces o'

theorem lasts_self (hpinned : o.header.pinned = true) : o.Lasts o :=
  ⟨hpinned, noNewPlaces_of_payload_eq rfl⟩

theorem Lasts.trans (hfirst : o.Lasts o') (hsecond : o'.Lasts o'') : o.Lasts o'' :=
  ⟨hsecond.pinned, hfirst.places.trans hsecond.places⟩

theorem lasts_setOwnership {own : Ownership} (hpinned : o.header.pinned = true) :
    o.Lasts (o.setOwnership own) :=
  ⟨hpinned, noNewPlaces_of_payload_eq rfl⟩

end Object

namespace World

variable {w w' w'' : World}

/-- The numbers of cells and scopes have not run out. -/
structure Fits (w : World) : Prop where
  cells_le : w.objects.cells.size ≤ 2 ^ 32
  opened_lt : w.pools.opened < 2 ^ 32

/-- Numbers that have not run out had not run out before. -/
theorem Spends.fits (hspends : w.Spends w') (hfits : w'.Fits) : w.Fits :=
  ⟨hspends.cells_le.trans hfits.cells_le, hspends.opened_le.trans_lt hfits.opened_lt⟩

/-- The parts of a world agree, except that the listed objects may be held by more
slots than their headers say. -/
structure CoherentBut (w : World) (loose : List Handle) : Prop where
  tight : w.objects.Tight
  pools : w.pools.Valid
  linked : Linked w.objects (· ∈ w.classes) loose
  registered : Registered w.objects w.pools.entries

/-- The parts of a world agree. -/
abbrev Coherent (w : World) : Prop :=
  w.CoherentBut []

/-- What is kept on the way from one coherent world to another. -/
structure Evolves (w w' : World) : Prop where
  coherent : w'.Coherent
  classes : ∀ c ∈ w.classes, c ∈ w'.classes
  pinned : ∀ x o, w.objects.get? x = some o → o.header.pinned = true →
    ∃ o', w'.objects.get? x = some o' ∧ o.Lasts o'

theorem Evolves.refl (hcoherent : w.Coherent) : w.Evolves w :=
  ⟨hcoherent, fun _ => id, fun _ o ho hpinned => ⟨o, ho, Object.lasts_self hpinned⟩⟩

theorem Evolves.trans (hfirst : w.Evolves w') (hsecond : w'.Evolves w'') : w.Evolves w'' where
  coherent := hsecond.coherent
  classes c hc := hsecond.classes c (hfirst.classes c hc)
  pinned x o ho hpinned := by
    obtain ⟨o', ho', hlasts⟩ := hfirst.pinned x o ho hpinned
    obtain ⟨o'', ho'', hlasts'⟩ := hsecond.pinned x o' ho' hlasts.pinned
    exact ⟨o'', ho'', hlasts.trans hlasts'⟩

/-- A pinned class gives its instances at most the places that a descriptor has for
them. -/
def PlacesWithin (w : World) (c : Handle) (d : Class) : Prop :=
  ∃ o, w.objects.get? c = some o ∧ o.header.pinned = true ∧
    ∀ d', o.payload = .descriptor d' →
      ∀ s place, d'.slot s = .inInstance place → d.slot s = .inInstance place

theorem PlacesWithin.evolve {c : Handle} {d : Class} (hplaces : w.PlacesWithin c d)
    (hevolves : w.Evolves w') : w'.PlacesWithin c d := by
  obtain ⟨o, ho, hpinned, hwithin⟩ := hplaces
  obtain ⟨o', ho', hlasts⟩ := hevolves.pinned c o ho hpinned
  refine ⟨o', ho', hlasts.pinned, fun d'' hd'' s place hplace => ?_⟩
  obtain ⟨d', hd', hplaces⟩ := hlasts.places d'' hd''
  exact hwithin d' hd' s place (hplaces s place hplace)

/-- Only objects, pools and classes matter. -/
theorem CoherentBut.of_eq {loose : List Handle} (hcoherent : w.CoherentBut loose)
    (hobjects : w'.objects = w.objects) (hpools : w'.pools = w.pools)
    (hclasses : w'.classes = w.classes) : w'.CoherentBut loose where
  tight := hobjects ▸ hcoherent.tight
  pools := hpools ▸ hcoherent.pools
  linked := by rw [hobjects, hclasses]; exact hcoherent.linked
  registered := by rw [hobjects, hpools]; exact hcoherent.registered

theorem Evolves.of_eq (hcoherent : w.Coherent) (hobjects : w'.objects = w.objects)
    (hpools : w'.pools = w.pools) (hclasses : w'.classes = w.classes) : w.Evolves w' where
  coherent := hcoherent.of_eq hobjects hpools hclasses
  classes := by rw [hclasses]; exact fun _ => id
  pinned x o ho hpinned := ⟨o, by rw [hobjects, ho], Object.lasts_self hpinned⟩

/-- One object was exchanged for another in which it lasts if it was pinned. -/
theorem Evolves.of_puts {x : Handle} {o p : Object} (hcoherent : w'.Coherent)
    (hclasses : w'.classes = w.classes) (hx : w.objects.get? x = some o)
    (hputs : w.objects.Puts w'.objects x p)
    (hlasts : o.header.pinned = true → o.Lasts p) : w.Evolves w' where
  coherent := hcoherent
  classes := by rw [hclasses]; exact fun _ => id
  pinned y q hq hqpinned := by
    by_cases heq : y = x
    · subst heq
      cases hq.symm.trans hx
      exact ⟨p, hputs.self, hlasts hqpinned⟩
    · exact ⟨q, by rw [hputs.other heq, hq], Object.lasts_self hqpinned⟩

theorem object_eq_ok {x : Handle} {o : Object} (hx : w.objects.get? x = some o) :
    w.object x = .ok o := by
  rw [object, hx]

theorem object_eq_error {x : Handle} (hx : w.objects.get? x = none) :
    w.object x = .error (.dangling x) := by
  rw [object, hx]

theorem ownership_eq_ok {x : Handle} {o : Object} (hx : w.objects.get? x = some o) :
    w.ownership x = .ok o.header.ownership := by
  rw [ownership, object_eq_ok hx]
  rfl

theorem ownership_eq_error {x : Handle} (hx : w.objects.get? x = none) :
    w.ownership x = .error (.dangling x) := by
  rw [ownership, object_eq_error hx]
  rfl

theorem classOf_eq_ok {x : Handle} {o : Object} (hx : w.objects.get? x = some o) :
    w.classOf x = .ok o.classRef := by
  rw [classOf, object_eq_ok hx]
  rfl

end World

namespace World

variable {w : World} {given given' : List Handle} {x : Handle} {o : Object} {e : Error}

/-- What an operation on given handles may report: no fault of the world, and a stale
handle only if it was given. -/
def Blames (w : World) (given : List Handle) : Error → Prop
  | .poolCorruption _ _ => False
  | .dangling x => x ∈ given ∧ w.objects.get? x = none
  | _ => True

theorem Blames.mono (hblames : w.Blames given e) (hsub : ∀ x ∈ given, x ∈ given') :
    w.Blames given' e := by
  cases e with
  | poolCorruption => exact hblames
  | dangling x => exact ⟨hsub x hblames.1, hblames.2⟩
  | _ => trivial

/-- An error that tells a name blames no handle if it does not do so for any name. -/
theorem blames_telling {name : Option String} {error : String → Error}
    (hblames : ∀ name, w.Blames given (error name)) : w.Blames given (telling name error) := by
  cases name with
  | none => trivial
  | some name => exact hblames name

/-- An error that tells a name is one that is about a name, or that there is no end to asking. -/
theorem telling_ne {name : Option String} {error : String → Error} {e : Error}
    (hendless : Error.endlessWalk ≠ e) (herror : ∀ name, error name ≠ e) :
    telling name error ≠ e := by
  cases name with
  | none => exact hendless
  | some name => exact herror name

theorem Blames.ne_poolCorruption (hblames : w.Blames given e) (y : Handle) (id : PoolId) :
    e ≠ .poolCorruption y id := by
  rintro rfl
  exact hblames

/-- Live handles are not to blame. -/
theorem Blames.ne_dangling (hblames : w.Blames given e) (hlive : ∀ x ∈ given, w.objects.Live x)
    (y : Handle) : e ≠ .dangling y := by
  rintro rfl
  obtain ⟨hmem, hstale⟩ := hblames
  obtain ⟨o, ho⟩ := hlive y hmem
  cases hstale.symm.trans ho

end World

/-- Stacks with the same scopes have pools with the same numbers. -/
theorem PoolStack.get?_eq_none_congr {s s' : PoolStack} {id : PoolId}
    (hscopes : s'.scopeIds = s.scopeIds) : s'.get? id = none ↔ s.get? id = none := by
  have hnone : ∀ t : PoolStack, t.get? id = none ↔ id ≠ PoolId.collector ∧ id ∉ t.scopeIds := by
    intro t
    rw [get?_eq_none_iff, scopeIds, List.mem_reverse, List.mem_map]
    simp only [not_exists, not_and, ne_eq]
  rw [hnone, hnone, hscopes]

namespace Arena

variable {a : Arena Object} {x y : Handle} {o : Object} {s : Slot}

theorem holds_of_holds_remove (hholds : (a.remove x).Holds s y) :
    a.Holds s y ∧ s.owner ≠ x := by
  obtain ⟨p, hp, hpeek⟩ := hholds
  refine ⟨⟨p, get?_of_get?_remove hp, hpeek⟩, ?_⟩
  rintro rfl
  rw [get?_remove, if_pos rfl] at hp
  cases hp

end Arena

namespace World

variable {objects : Arena Object} {known : Handle → Prop} {entries : List (PoolId × Handle)}
  {pending : List Handle} {x : Handle} {o : Object}

theorem isSingle_iff : isSingle objects x = true ↔
    ∃ o, objects.get? x = some o ∧ o.header.ownership = .single := by
  unfold isSingle
  cases objects.get? x <;> simp

/-- What is still to be freed is held by no slot, and no pool answers for it. -/
def Reclaimable (objects : Arena Object) (x : Handle) : Prop :=
  (∀ s, ¬ objects.Holds s x) ∧
    ∀ o, objects.get? x = some o → o.header.ownership = .single

/-- When an object is freed, what it alone held may be freed too. -/
theorem reclaimable_children (pending : List Handle) (hlinked : Linked objects known [])
    (hx : objects.get? x = some o) (hpending : ∀ y ∈ pending, Reclaimable objects y) :
    ∀ y ∈ (o.ownedRefs.filter (isSingle (objects.remove x))).reverse ++ pending,
      Reclaimable (objects.remove x) y := by
  intro y hy
  rcases List.mem_append.1 hy with hy | hy
  · rw [List.mem_reverse, List.mem_filter, isSingle_iff] at hy
    obtain ⟨href, p, hp, hsingle⟩ := hy
    have hyget := Arena.get?_of_get?_remove hp
    have hrefs : y ∈ o.refs := List.mem_cons_of_mem _ href
    rcases hlinked.ref_shared_or_held hx hrefs hyget with hshared | ⟨s, howner, hs⟩
    · rw [hsingle] at hshared
      cases hshared
    · refine ⟨fun t ht => ?_, fun q hq => ?_⟩
      · obtain ⟨ht, hne⟩ := Arena.holds_of_holds_remove ht
        have heq := hlinked.single_held_once y p hyget hsingle List.not_mem_nil t s ht hs
        exact hne (heq ▸ howner)
      · cases hp.symm.trans hq
        exact hsingle
  · obtain ⟨hunheld, hsingle⟩ := hpending y hy
    refine ⟨fun s hs => hunheld s (Arena.holds_of_holds_remove hs).1, fun p hp => ?_⟩
    exact hsingle p (Arena.get?_of_get?_remove hp)

/-- Reclaiming keeps references, headers and entries in agreement, and it frees
nothing that a pool answers for or that is shared. -/
theorem reclaim_spec (htight : objects.Tight) (hlinked : Linked objects known [])
    (hregistered : Registered objects entries)
    (hpending : ∀ x ∈ pending, Reclaimable objects x) :
    (reclaim objects pending).Tight ∧ Linked (reclaim objects pending) known [] ∧
      Registered (reclaim objects pending) entries ∧
      ∀ x o, objects.get? x = some o → o.header.ownership ≠ .single →
        (reclaim objects pending).get? x = some o := by
  fun_induction reclaim objects pending with
  | case1 => exact ⟨htight, hlinked, hregistered, fun _ _ ho _ => ho⟩
  | case2 objects x pending hx ih =>
      exact ih htight hlinked hregistered fun y hy => hpending y (List.mem_cons_of_mem _ hy)
  | case3 objects x pending o hx hpinned ih =>
      exact ih htight hlinked hregistered fun y hy => hpending y (List.mem_cons_of_mem _ hy)
  | case4 objects x pending o hx hpinned objects' ih =>
      obtain ⟨hunheld, hsingle⟩ := hpending x List.mem_cons_self
      have hrest : ∀ y ∈ pending, Reclaimable objects y :=
        fun y hy => hpending y (List.mem_cons_of_mem _ hy)
      obtain ⟨htight', hlinked', hregistered', hkept⟩ := ih (htight.remove x)
        (hlinked.remove hx (Bool.eq_false_iff.2 hpinned) hunheld)
        (hregistered.remove_single hx (hsingle o hx))
        (reclaimable_children pending hlinked hx hrest)
      refine ⟨htight', hlinked', hregistered', fun y p hp hown => hkept y p ?_ hown⟩
      rw [Arena.get?_remove, if_neg, hp]
      rintro rfl
      cases hx.symm.trans hp
      exact hown (hsingle _ hx)

theorem get?_of_get?_reclaim (hx : (reclaim objects pending).get? x = some o) :
    objects.get? x = some o := by
  apply reclaim_induction (P := fun a => a.get? x = some o → objects.get? x = some o) _ _ hx
  · exact fun h => h
  · exact fun a y ha hget => ha (Arena.get?_of_get?_remove hget)

end World

end ObjectSystem

/-
# Classes in order

In an ordered world every registered class is a pinned object that holds a descriptor, its
superclasses are registered, and no class lies above itself. Classes are only ever added
below others, and get superclasses only where no circle closes, so operations lead from
ordered worlds to ordered worlds, and `World.Extends` says that what a class has it keeps:
its superclasses, the places of its attributes and their number.

Nothing here rests on who owns an object. Classes are pinned, and a pinned object is not
freed, however objects are moved between pools.
-/

import Mathlib.Logic.Relation
import ObjectSystem.Proofs.Layout

namespace ObjectSystem

open Relation

section Paths

variable {α : Type} {r r' : α → α → Prop} {S : α → Prop} {a b c s : α}

/-- A path that starts in a set that steps do not leave is a path for every relation that
agrees there. -/
theorem transGen_within (hstep : ∀ a b, S a → r a b → S b ∧ r' a b) (ha : S a)
    (hpath : TransGen r a b) : S b ∧ TransGen r' a b := by
  induction hpath with
  | single hab => exact ⟨(hstep _ _ ha hab).1, .single (hstep _ _ ha hab).2⟩
  | tail _ hbc ih => exact ⟨(hstep _ _ ih.1 hbc).1, ih.2.tail (hstep _ _ ih.1 hbc).2⟩

theorem reflTransGen_within (hstep : ∀ a b, S a → r a b → S b ∧ r' a b) (ha : S a)
    (hpath : ReflTransGen r a b) : S b ∧ ReflTransGen r' a b := by
  rcases reflTransGen_iff_eq_or_transGen.1 hpath with rfl | hpath
  · exact ⟨ha, .refl⟩
  · obtain ⟨hb, hpath⟩ := transGen_within hstep ha hpath
    exact ⟨hb, hpath.to_reflTransGen⟩

/-- A path in a graph with at most one more edge takes the edge or does not. -/
theorem transGen_edge (hstep : ∀ a b, S a → r' a b → S b ∧ (r a b ∨ a = c ∧ b = s)) (ha : S a)
    (hpath : TransGen r' a b) :
    S b ∧ (TransGen r a b ∨ ReflTransGen r a c ∧ ReflTransGen r s b) := by
  induction hpath with
  | single hab =>
      obtain ⟨hb, hab | ⟨rfl, rfl⟩⟩ := hstep _ _ ha hab
      · exact ⟨hb, Or.inl (.single hab)⟩
      · exact ⟨hb, Or.inr ⟨.refl, .refl⟩⟩
  | tail _ hbc ih =>
      obtain ⟨hb, hpath⟩ := ih
      obtain ⟨hc, hbc | ⟨rfl, rfl⟩⟩ := hstep _ _ hb hbc
      · rcases hpath with hab | ⟨hac, hsb⟩
        · exact ⟨hc, Or.inl (hab.tail hbc)⟩
        · exact ⟨hc, Or.inr ⟨hac, hsb.tail hbc⟩⟩
      · rcases hpath with hab | ⟨hac, _⟩
        · exact ⟨hc, Or.inr ⟨hab.to_reflTransGen, .refl⟩⟩
        · exact ⟨hc, Or.inr ⟨hac, .refl⟩⟩

/-- An edge closes a circle only if there is a way back from its end to its start. -/
theorem acyclic_edge (hstep : ∀ a b, S a → r' a b → S b ∧ (r a b ∨ a = c ∧ b = s)) (ha : S a)
    (hacyclic : ¬ TransGen r a a) (hback : ¬ ReflTransGen r s c) : ¬ TransGen r' a a := by
  intro hcircle
  rcases (transGen_edge hstep ha hcircle).2 with hcircle | ⟨hac, hsa⟩
  · exact hacyclic hcircle
  · exact hback (hsa.trans hac)

end Paths

namespace World

variable {w w' w'' : World} {c s t x y : Handle} {d d' : Class} {o : Object}

/-- A class is a pinned object that holds a descriptor. -/
def Describes (w : World) (c : Handle) (d : Class) : Prop :=
  ∃ o, w.objects.get? c = some o ∧ o.header.pinned = true ∧ o.payload = .descriptor d

theorem Describes.descriptor_eq (hd : w.Describes c d) : w.descriptor c = .ok d := by
  obtain ⟨o, ho, _, hpayload⟩ := hd
  simp [descriptor, object, ho, hpayload, bind, Except.bind, pure, Except.pure]

theorem Describes.superclasses_eq (hd : w.Describes c d) :
    w.superclasses c = .ok d.supers.toList := by
  simp [superclasses, hd.descriptor_eq, bind, Except.bind, pure, Except.pure]

theorem Describes.unique (hd : w.Describes c d) (hd' : w.Describes c d') : d = d' :=
  Except.ok.inj (hd.descriptor_eq.symm.trans hd'.descriptor_eq)

/-- The second class is a direct superclass of the first. -/
def Above (w : World) (c s : Handle) : Prop :=
  ∃ l, w.superclasses c = .ok l ∧ s ∈ l

theorem Describes.above_iff (hd : w.Describes c d) : w.Above c s ↔ s ∈ d.supers.toList := by
  constructor
  · rintro ⟨l, hl, hs⟩
    cases hd.superclasses_eq.symm.trans hl
    exact hs
  · exact fun hs => ⟨_, hd.superclasses_eq, hs⟩

/-- The descriptor of a class of which others may be registered classes. -/
structure Orders (w : World) (c : Handle) (d : Class) : Prop where
  describes : w.Describes c d
  laid : d.Laid
  supers_nodup : d.supers.toList.Nodup
  supers_mem : ∀ s ∈ d.supers.toList, s ∈ w.classes

/-- Every registered class has a descriptor that names registered classes, and no class lies
above itself. -/
structure Ordered (w : World) : Prop where
  tight : w.objects.Tight
  counted : w.objects.Counted
  nodup : w.classes.toList.Nodup
  described : ∀ c ∈ w.classes, ∃ d, w.Orders c d
  acyclic : ∀ c ∈ w.classes, ¬ TransGen w.Above c c

/-- A registered class whose instances have no attributes. -/
structure Bare (w : World) (c : Handle) : Prop where
  registered : c ∈ w.classes
  attrCount_eq : ∀ d, w.Describes c d → d.attrCount = 0

/-- All registered classes lie below the class of all objects. -/
structure Rooted (w : World) : Prop where
  objectClass : Builtin.objectClass ∈ w.classes
  reaches : ∀ c ∈ w.classes, ReflTransGen w.Above c Builtin.objectClass

/-- Every object belongs to a registered class, and has as many attributes as the class says
if it is not one of the odd ones. -/
def Shapely (w : World) (odd : Handle → Prop) : Prop :=
  ∀ x o, w.objects.get? x = some o → o.classRef ∈ w.classes ∧
    (¬ odd x → ∀ d, w.Describes o.classRef d → o.attrs.size = d.attrCount)

theorem Ordered.orders (hordered : w.Ordered) (hc : c ∈ w.classes) (hd : w.Describes c d) :
    w.Orders c d := by
  obtain ⟨d', hd'⟩ := hordered.described c hc
  cases hd.unique hd'.describes
  exact hd'

theorem Ordered.above_mem (hordered : w.Ordered) (hc : c ∈ w.classes) (hs : w.Above c s) :
    s ∈ w.classes := by
  obtain ⟨d, hd⟩ := hordered.described c hc
  exact hd.supers_mem s (hd.describes.above_iff.1 hs)

theorem Ordered.reach_mem (hordered : w.Ordered) (hc : c ∈ w.classes)
    (hreach : ReflTransGen w.Above c t) : t ∈ w.classes :=
  (reflTransGen_within (S := (· ∈ w.classes))
    (fun _ _ ha hab => ⟨hordered.above_mem ha hab, hab⟩) hc hreach).1

/-- A second world after the first in which the classes are still in order and have kept
what they had. -/
structure Extends (w w' : World) : Prop where
  ordered : w'.Ordered
  classes : ∀ c ∈ w.classes, c ∈ w'.classes
  described : ∀ c ∈ w.classes, ∀ d, w.Describes c d → ∃ d', w'.Describes c d' ∧ d.Grows d'
  rooted : w.Rooted → w'.Rooted

/-- As `World.Extends`, and no further objects have become odd. -/
structure Develops (w w' : World) : Prop extends Extends w w' where
  shapely : ∀ odd, w.Shapely odd → w'.Shapely odd

theorem Extends.refl (hordered : w.Ordered) : w.Extends w where
  ordered := hordered
  classes _ hc := hc
  described _ _ d hd := ⟨d, hd, .refl d⟩
  rooted hrooted := hrooted

theorem Extends.trans (hfirst : w.Extends w') (hsecond : w'.Extends w'') : w.Extends w'' where
  ordered := hsecond.ordered
  classes c hc := hsecond.classes c (hfirst.classes c hc)
  described c hc d hd := by
    obtain ⟨d', hd', hgrows⟩ := hfirst.described c hc d hd
    obtain ⟨d'', hd'', hgrows'⟩ := hsecond.described c (hfirst.classes c hc) d' hd'
    exact ⟨d'', hd'', hgrows.trans hgrows'⟩
  rooted hrooted := hsecond.rooted (hfirst.rooted hrooted)

theorem Develops.refl (hordered : w.Ordered) : w.Develops w :=
  ⟨.refl hordered, fun _ hshapely => hshapely⟩

theorem Develops.trans (hfirst : w.Develops w') (hsecond : w'.Develops w'') : w.Develops w'' :=
  ⟨hfirst.toExtends.trans hsecond.toExtends,
    fun odd hshapely => hsecond.shapely odd (hfirst.shapely odd hshapely)⟩

/-- What lies above a class goes on lying above it while descriptors grow. -/
theorem Ordered.reach_of_grows (hordered : w.Ordered)
    (hgrows : ∀ c ∈ w.classes, ∀ d, w.Describes c d → ∃ d', w'.Describes c d' ∧ d.Grows d')
    (hc : c ∈ w.classes) (hreach : ReflTransGen w.Above c t) : ReflTransGen w'.Above c t := by
  refine (reflTransGen_within (S := (· ∈ w.classes)) (fun a b ha hab => ?_) hc hreach).2
  obtain ⟨d, hd⟩ := hordered.described a ha
  obtain ⟨d', hd', hgrows⟩ := hgrows a ha d hd.describes
  have hb := hd.describes.above_iff.1 hab
  exact ⟨hd.supers_mem b hb, hd'.above_iff.2 (hgrows.supers.subset hb)⟩

theorem Extends.reach (hextends : w.Extends w') (hordered : w.Ordered) (hc : c ∈ w.classes)
    (hreach : ReflTransGen w.Above c t) : ReflTransGen w'.Above c t :=
  hordered.reach_of_grows hextends.described hc hreach

/-- Instances do not get attributes later. -/
theorem Bare.extend (hbare : w.Bare c) (hordered : w.Ordered) (hextends : w.Extends w') :
    w'.Bare c := by
  refine ⟨hextends.classes _ hbare.registered, fun d' hd' => ?_⟩
  obtain ⟨d, hd⟩ := hordered.described _ hbare.registered
  obtain ⟨d'', hd'', hgrows⟩ := hextends.described _ hbare.registered d hd.describes
  cases hd'.unique hd''
  rw [hgrows.attrCount_eq, hbare.attrCount_eq d hd.describes]

/-- Objects that keep their classes and the numbers of their attributes stay as shapely as
they were. -/
theorem Ordered.shapely_of_grows (hordered : w.Ordered) (hclasses : ∀ c ∈ w.classes, c ∈ w'.classes)
    (hgrows : ∀ c ∈ w.classes, ∀ d, w.Describes c d → ∃ d', w'.Describes c d' ∧ d.Grows d')
    {odd : Handle → Prop} (hshapely : w.Shapely odd) {o' : Object}
    (ho : w.objects.get? x = some o) (hclassRef : o'.classRef = o.classRef)
    (hsize : o'.attrs.size = o.attrs.size) : o'.classRef ∈ w'.classes ∧
      (¬ odd x → ∀ d, w'.Describes o'.classRef d → o'.attrs.size = d.attrCount) := by
  obtain ⟨hmem, hshape⟩ := hshapely x o ho
  rw [hclassRef, hsize]
  refine ⟨hclasses _ hmem, fun hodd d' hd' => ?_⟩
  obtain ⟨d, hd⟩ := hordered.described _ hmem
  obtain ⟨d'', hd'', hgrows⟩ := hgrows _ hmem d hd.describes
  cases hd'.unique hd''
  rw [hgrows.attrCount_eq, hshape hodd d hd.describes]

/-! ## The same classes -/

/-- Registered classes may change while none is added, if superclasses are registered ones
and no circle closes. -/
theorem Ordered.extends (hordered : w.Ordered) (htight : w'.objects.Tight)
    (hcounted : w'.objects.Counted) (hclasses : w'.classes = w.classes)
    (hdescribed : ∀ c ∈ w.classes, ∀ d, w.Orders c d → ∃ d', w'.Describes c d' ∧ d.Grows d' ∧
      d'.supers.toList.Nodup ∧ ∀ s ∈ d'.supers.toList, s ∈ w.classes)
    (hacyclic : ∀ c ∈ w.classes, ¬ TransGen w'.Above c c) : w.Extends w' := by
  have hgrows : ∀ c ∈ w.classes, ∀ d, w.Describes c d → ∃ d', w'.Describes c d' ∧ d.Grows d' := by
    intro c hc d hd
    obtain ⟨d', hd', hgrows, _⟩ := hdescribed c hc d (hordered.orders hc hd)
    exact ⟨d', hd', hgrows⟩
  have hordered' : w'.Ordered := by
    refine ⟨htight, hcounted, hclasses ▸ hordered.nodup, fun c hc => ?_, hclasses ▸ hacyclic⟩
    rw [hclasses] at hc
    obtain ⟨d, hd⟩ := hordered.described c hc
    obtain ⟨d', hd', hgrows, hnodup, hmem⟩ := hdescribed c hc d hd
    exact ⟨d', hd', hgrows.laid hd.laid, hnodup, hclasses ▸ hmem⟩
  refine ⟨hordered', fun c hc => hclasses ▸ hc, hgrows, fun hrooted => ⟨?_, ?_⟩⟩
  · exact hclasses ▸ hrooted.objectClass
  · rw [hclasses]
    exact fun c hc => hordered.reach_of_grows hgrows hc (hrooted.reaches c hc)

/-- Registered classes may change while none is added, if they keep their superclasses. -/
theorem Ordered.extends_of_supers_eq (hordered : w.Ordered) (htight : w'.objects.Tight)
    (hcounted : w'.objects.Counted) (hclasses : w'.classes = w.classes)
    (hdescribed : ∀ c ∈ w.classes, ∀ d, w.Describes c d → ∃ d', w'.Describes c d' ∧ d.Grows d' ∧
      d'.supers = d.supers) : w.Extends w' := by
  refine hordered.extends htight hcounted hclasses (fun c hc d hd => ?_) fun c hc hcircle => ?_
  · obtain ⟨d', hd', hgrows, hsupers⟩ := hdescribed c hc d hd.describes
    exact ⟨d', hd', hgrows, hsupers ▸ hd.supers_nodup, hsupers ▸ hd.supers_mem⟩
  · refine hordered.acyclic c hc (transGen_within (S := (· ∈ w.classes)) ?_ hc hcircle).2
    intro a b ha hab
    obtain ⟨d, hd⟩ := hordered.described a ha
    obtain ⟨d', hd', _, hsupers⟩ := hdescribed a ha d hd.describes
    rw [hd'.above_iff, hsupers] at hab
    exact ⟨hd.supers_mem b hab, hd.describes.above_iff.2 hab⟩

theorem Describes.trim (hd : w.Describes c d) (htrims : w.Trims w') :
    ∃ d', w'.Describes c d' ∧ d.Stays d' := by
  obtain ⟨o, ho, hpinned, hpayload⟩ := hd
  obtain ⟨o', ho', hstays⟩ := htrims.objects.get? ho hpinned
  obtain ⟨d', hd', hstays'⟩ := hstays.descriptor d hpayload
  exact ⟨d', ⟨o', ho', hstays.pinned hpinned, hd'⟩, hstays'⟩

/-- What trims a world leaves its classes in order. -/
theorem Ordered.trim (hordered : w.Ordered) (htrims : w.Trims w') : w.Develops w' := by
  have hdescribed : ∀ c ∈ w.classes, ∀ d, w.Describes c d →
      ∃ d', w'.Describes c d' ∧ d.Grows d' ∧ d'.supers = d.supers := by
    intro c _ d hd
    obtain ⟨d', hd', hstays⟩ := hd.trim htrims
    exact ⟨d', hd', hstays.grows, hstays.supers_eq⟩
  have hextends := hordered.extends_of_supers_eq (htrims.objects.tight hordered.tight)
    (htrims.objects.counted hordered.counted) htrims.classes_eq hdescribed
  refine ⟨hextends, fun odd hshapely x o' ho' => ?_⟩
  obtain ⟨o, ho, hstays⟩ := htrims.objects.back x o' ho'
  exact hordered.shapely_of_grows hextends.classes hextends.described hshapely ho
    hstays.classRef_eq hstays.attrs_size

/-! ## One descriptor changes -/

theorem describes_modifyDescriptor (change : Class → Class) (hd : w.Describes x d) :
    (w.modifyDescriptor c change).Describes x (if x = c then change d else d) := by
  obtain ⟨o, ho, hpinned, hpayload⟩ := hd
  unfold Describes
  simp only [modifyDescriptor, modifyPayload, modifyObject, Arena.get?_modify]
  by_cases heq : x = c
  · simp [heq, heq ▸ ho, hpinned, hpayload]
  · simp [heq, ho, hpinned, hpayload]

theorem Ordered.shapely_modifyDescriptor {change : Class → Class} (hordered : w.Ordered)
    (hextends : w.Extends (w.modifyDescriptor c change)) (odd : Handle → Prop)
    (hshapely : w.Shapely odd) : (w.modifyDescriptor c change).Shapely odd := by
  intro x o' ho'
  rw [modifyDescriptor, modifyPayload, modifyObject, Arena.get?_modify] at ho'
  split at ho'
  · obtain ⟨o, ho, rfl⟩ := Option.map_eq_some_iff.1 ho'
    exact hordered.shapely_of_grows hextends.classes hextends.described hshapely ho rfl rfl
  · exact hordered.shapely_of_grows hextends.classes hextends.described hshapely ho' rfl rfl

/-- A class may get an attribute of its own. -/
theorem Ordered.addClassAttr {s : Symbol} (hordered : w.Ordered) (hs : s.isReserved = false)
    (hfree : ∀ d, w.Describes c d → d.slot s = .unmapped) :
    w.Develops (w.modifyDescriptor c (·.addClassAttr s)) := by
  have hextends : w.Extends (w.modifyDescriptor c (·.addClassAttr s)) := by
    refine hordered.extends_of_supers_eq (hordered.tight.modify _ _) (hordered.counted.modify _ _)
      rfl fun x _ d hd => ⟨_, describes_modifyDescriptor _ hd, ?_⟩
    by_cases heq : x = c
    · subst heq
      rw [if_pos rfl]
      exact ⟨Class.grows_addClassAttr hs (hfree d hd), rfl⟩
    · rw [if_neg heq]
      exact ⟨.refl d, rfl⟩
  exact ⟨hextends, hordered.shapely_modifyDescriptor hextends⟩

/-- A class may get a superclass that does not lie below it. -/
theorem Ordered.addSuperclass (hordered : w.Ordered) (hs : s ∈ w.classes)
    (hback : ¬ ReflTransGen w.Above s c) :
    w.Develops (w.modifyDescriptor c (·.addSuperclass s)) := by
  have hextends : w.Extends (w.modifyDescriptor c (·.addSuperclass s)) := by
    refine hordered.extends (hordered.tight.modify _ _) (hordered.counted.modify _ _) rfl
      (fun x _ d hd => ⟨_, describes_modifyDescriptor _ hd.describes, ?_⟩) fun x hx => ?_
    · by_cases heq : x = c
      · rw [if_pos heq]
        refine ⟨d.grows_addSuperclass s, ?_⟩
        rw [d.supers_addSuperclass]
        split
        · exact ⟨hd.supers_nodup, hd.supers_mem⟩
        · next hnew =>
            refine ⟨List.nodup_append_comm.1 (List.nodup_cons.2 ⟨hnew, hd.supers_nodup⟩), ?_⟩
            exact List.forall_mem_append.2 ⟨hd.supers_mem, by simpa using hs⟩
      · rw [if_neg heq]
        exact ⟨.refl d, hd.supers_nodup, hd.supers_mem⟩
    · refine acyclic_edge (S := (· ∈ w.classes)) (c := c) (s := s) (fun a b ha hab => ?_) hx
        (hordered.acyclic x hx) hback
      obtain ⟨d, hd⟩ := hordered.described a ha
      rw [(describes_modifyDescriptor _ hd.describes).above_iff] at hab
      rw [hd.describes.above_iff]
      split at hab
      · next heq =>
          rw [d.supers_addSuperclass] at hab
          split at hab
          · exact ⟨hd.supers_mem b hab, Or.inl hab⟩
          · rcases List.mem_append.1 hab with hab | hab
            · exact ⟨hd.supers_mem b hab, Or.inl hab⟩
            · cases List.mem_singleton.1 hab
              exact ⟨hs, Or.inr ⟨heq, rfl⟩⟩
      · exact ⟨hd.supers_mem b hab, Or.inl hab⟩
  exact ⟨hextends, hordered.shapely_modifyDescriptor hextends⟩

/-! ## New objects -/

/-- An object has been put into the world. -/
structure Admits (w w' : World) (x : Handle) (o : Object) : Prop where
  new : w.objects.get? x = none
  puts : w.objects.Puts w'.objects x o
  tight : w'.objects.Tight
  counted : w'.objects.Counted
  inserted_eq : w'.objects.inserted = w.objects.inserted + 1
  classes_eq : w'.classes = w.classes

/-- An object may be put into the arena, whoever answers for it. -/
theorem Ordered.admits_insertWith (hordered : w.Ordered) (value : Handle → Object)
    (hcells : (w.objects.insertWith value).2.cells.size ≤ 2 ^ 32) :
    w.Admits { w with objects := (w.objects.insertWith value).2 } (w.objects.insertWith value).1
      (value (w.objects.insertWith value).1) where
  new := (Arena.get?_insertWith hordered.tight value hcells).1
  puts := (Arena.get?_insertWith hordered.tight value hcells).2
  tight := hordered.tight.insertWith value
  counted := hordered.counted.insertWith hordered.tight value hcells
  inserted_eq := w.objects.inserted_insertWith value
  classes_eq := rfl

theorem Admits.ne (hadmits : w.Admits w' x o) (hd : w.Describes c d) : c ≠ x := by
  rintro rfl
  obtain ⟨p, hp, _⟩ := hd
  cases hadmits.new.symm.trans hp

theorem Admits.describes (hadmits : w.Admits w' x o) (hd : w.Describes c d) :
    w'.Describes c d := by
  have hne := hadmits.ne hd
  obtain ⟨p, hp, hpinned, hpayload⟩ := hd
  exact ⟨p, (hadmits.puts.other hne).trans hp, hpinned, hpayload⟩

theorem Admits.extends (hadmits : w.Admits w' x o) (hordered : w.Ordered) : w.Extends w' :=
  hordered.extends_of_supers_eq hadmits.tight hadmits.counted hadmits.classes_eq
    fun _ _ d hd => ⟨d, hadmits.describes hd, .refl d, rfl⟩

/-- A new object is as shapely as it is made. -/
theorem Admits.shapely {odd : Handle → Prop} (hadmits : w.Admits w' x o) (hordered : w.Ordered)
    (hclass : o.classRef ∈ w.classes)
    (hshape : ¬ odd x → ∀ d, w.Describes o.classRef d → o.attrs.size = d.attrCount)
    (hshapely : w.Shapely odd) : w'.Shapely odd := by
  have hextends := hadmits.extends hordered
  intro y p hp
  rcases hadmits.puts.back hp with ⟨rfl, rfl⟩ | ⟨_, hp⟩
  · refine ⟨hextends.classes _ hclass, fun hodd d' hd' => ?_⟩
    obtain ⟨d, hd⟩ := hordered.described _ hclass
    cases hd'.unique (hadmits.describes hd.describes)
    exact hshape hodd d' hd.describes
  · exact hordered.shapely_of_grows hextends.classes hextends.described hshapely hp rfl rfl

/-- A world with one more registered class. -/
def register (w : World) (c : Handle) : World :=
  { w with classes := w.classes.push c }

/-- A pinned object that has just been put into the world may be registered as a class below
classes that are there. -/
theorem Admits.register (hadmits : w.Admits w' x o) (hordered : w.Ordered)
    (hpinned : o.header.pinned = true) (hpayload : o.payload = .descriptor d) (hlaid : d.Laid)
    (hnodup : d.supers.toList.Nodup) (hmem : ∀ s ∈ d.supers.toList, s ∈ w.classes)
    (hsupers : w.Rooted → d.supers.toList ≠ []) :
    x ∉ w.classes ∧ (w'.register x).Describes x d ∧ w.Extends (w'.register x) := by
  have hnew : x ∉ w.classes := by
    intro hx
    obtain ⟨_, hd⟩ := hordered.described x hx
    exact hadmits.ne hd.describes rfl
  have hx : (w'.register x).Describes x d := ⟨o, hadmits.puts.self, hpinned, hpayload⟩
  have hclasses : ∀ c, c ∈ (w'.register x).classes ↔ c ∈ w.classes ∨ c = x := by
    intro c
    rw [World.register, hadmits.classes_eq, Array.mem_push]
  have hdescribes : ∀ c d, w.Describes c d → (w'.register x).Describes c d :=
    fun c d hd => hadmits.describes hd
  have habove : ∀ a b, a ∈ w.classes → (w'.register x).Above a b → b ∈ w.classes ∧ w.Above a b := by
    intro a b ha hab
    obtain ⟨d, hd⟩ := hordered.described a ha
    rw [(hdescribes a d hd.describes).above_iff] at hab
    exact ⟨hd.supers_mem b hab, hd.describes.above_iff.2 hab⟩
  have hgrows : ∀ c ∈ w.classes, ∀ d, w.Describes c d →
      ∃ d', (w'.register x).Describes c d' ∧ d.Grows d' :=
    fun c _ d hd => ⟨d, hdescribes c d hd, .refl d⟩
  refine ⟨hnew, hx, ⟨hadmits.tight, hadmits.counted, ?_, fun c hc => ?_, fun c hc => ?_⟩,
    fun c hc => (hclasses c).2 (Or.inl hc), hgrows, fun hrooted => ⟨?_, fun c hc => ?_⟩⟩
  · rw [World.register, hadmits.classes_eq, Array.toList_push]
    exact List.nodup_append_comm.1
      (List.nodup_cons.2 ⟨fun h => hnew (Array.mem_toList_iff.1 h), hordered.nodup⟩)
  · rcases (hclasses c).1 hc with hc | rfl
    · obtain ⟨d, hd⟩ := hordered.described c hc
      exact ⟨d, hdescribes c d hd.describes, hd.laid, hd.supers_nodup,
        fun s hs => (hclasses s).2 (Or.inl (hd.supers_mem s hs))⟩
    · exact ⟨d, hx, hlaid, hnodup, fun s hs => (hclasses s).2 (Or.inl (hmem s hs))⟩
  · rcases (hclasses c).1 hc with hc | rfl
    · exact fun hcircle => hordered.acyclic c hc (transGen_within habove hc hcircle).2
    · -- A way back to the new class would have to end in a class that was there before.
      intro hcircle
      obtain ⟨s, hs, hpath⟩ := TransGen.head'_iff.1 hcircle
      exact hnew (reflTransGen_within habove (hmem s (hx.above_iff.1 hs)) hpath).1
  · exact (hclasses _).2 (Or.inl hrooted.objectClass)
  · rcases (hclasses c).1 hc with hc | rfl
    · exact hordered.reach_of_grows hgrows hc (hrooted.reaches c hc)
    · obtain ⟨s, hs⟩ := List.exists_mem_of_ne_nil _ (hsupers hrooted)
      exact .head (hx.above_iff.2 hs)
        (hordered.reach_of_grows hgrows (hmem s hs) (hrooted.reaches s (hmem s hs)))

end World

end ObjectSystem

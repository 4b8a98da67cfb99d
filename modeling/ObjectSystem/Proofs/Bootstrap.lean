/-
# New worlds are in order

While a new world is filled the class of all objects is not there at first, and the class of
classes gets it as its superclass only afterwards. From then on every class is made as a
subclass of one that is there. So the annals of a new world are right, and by induction those
of every run are.
-/

import ObjectSystem.Proofs.Lineage

namespace ObjectSystem

open Relation

namespace World

variable {w w' : World} {k : Nat} {settings : Settings} {a : Annals}

theorem ordered_empty (settings : Settings) : (empty settings).Ordered where
  tight := Arena.tight_empty
  counted := Arena.counted_empty
  nodup := List.nodup_nil
  described c hc := absurd hc (by simp [empty])
  acyclic c hc := absurd hc (by simp [empty])

/-- What holds while classes are made. -/
structure Primed (w : World) (k : Nat) : Prop where
  founded : w.Founded k
  ordered : w.Ordered
  bare : w.Bare Builtin.classClass
  shapely : w.Shapely fun _ => False

theorem Founded.cells_le (hfounded : w.Founded k) (hk : k < 2 ^ 32) :
    w.objects.cells.size ≤ 2 ^ 32 :=
  (hfounded.fits hk).cells_le

/-- A class that is registered next gets the next handle. -/
theorem Founded.eq_nth {c : Handle} (hfounded : w.Founded k) (hfounded' : w'.Founded (k + 1))
    (hclasses : w'.classes = w.classes.push c) : c = Builtin.nth k := by
  have hlist := hfounded'.classes_eq
  rw [hclasses, Array.toList_push, hfounded.classes_eq, map_nth_succ] at hlist
  simpa using hlist

theorem Primed.develop (hprimed : w.Primed k) (hfounded : w'.Founded k)
    (hdevelops : w.Develops w') : w'.Primed k where
  founded := hfounded
  ordered := hdevelops.ordered
  bare := hprimed.bare.extend hprimed.ordered hdevelops.toExtends
  shapely := hdevelops.shapely _ hprimed.shapely

end World

namespace Action

open World

variable {w w' : World} {k : Nat}

/-- The class of classes has no attributes, and belongs to itself. -/
theorem primed_makeClassClass (hfounded : w.Founded 0) (hordered : w.Ordered)
    (hempty : w.objects = {}) (hmake : makeClassClass.perform w = (.ok (), w')) :
    w'.Primed 1 := by
  obtain ⟨w'', hperform, hfounded'⟩ := founded_makeClassClass hfounded
  cases hperform.symm.trans hmake
  let value : Handle → Object := fun c =>
    .new c 0 (.descriptor (.root "class" .noCopy)) 0 .shared
  have hcells : (w.objects.insertWith value).2.cells.size ≤ 2 ^ 32 := by
    rw [hempty]
    decide
  obtain ⟨w₁, hpin, hadmits⟩ := admits_pin_inserted hordered _ hcells fun _ => rfl
  have hregister : makeClassClass.perform w =
      (.ok (), w₁.register (w.objects.insertWith value).1) := by
    unfold makeClassClass
    rw [perform_bind, perform_modifyGet]
    simp only
    rw [perform_bind_ok hpin]
    rfl
  cases hregister.symm.trans hmake
  let c := (w.objects.insertWith value).1
  obtain ⟨_, hd, hextends⟩ := hadmits.register hordered (d := .root "class" .noCopy) rfl rfl
    (Class.laid_root _ _) (by simp [Class.root]) (by simp [Class.root])
    fun hrooted => absurd (hfounded.mem_classes_iff.1 hrooted.objectClass) (by simp)
  have hc : Builtin.classClass = c :=
    (hfounded.eq_nth hfounded' (by rw [World.register, hadmits.classes_eq])).symm
  have hregistered : c ∈ (w₁.register c).classes := Array.mem_push_self
  have hroot : ∀ d, (w₁.register c).Describes c d → d.attrCount = 0 := by
    intro d hd'
    cases hd'.unique hd
    rfl
  refine ⟨hfounded', hextends.ordered, ⟨?_, ?_⟩, fun x o ho => ?_⟩
  · rw [hc]
    exact hregistered
  · rw [hc]
    exact hroot
  · have hx : x = c := by
      by_contra hne
      rw [show (w₁.register c).objects = w₁.objects from rfl, hadmits.puts.other hne, hempty] at ho
      cases ho
    subst hx
    cases hadmits.puts.self.symm.trans ho
    exact ⟨hregistered, fun _ d hd' => (hroot d hd').symm⟩

/-- The class of all objects comes second. -/
theorem primed_registerClass {c : Handle} (hprimed : w.Primed 1)
    (hmake : (registerClass (.root "object" .default)).perform w = (.ok c, w')) :
    w'.Primed 2 ∧ w'.Bare Builtin.objectClass := by
  obtain ⟨w₁, hperform, hfounded, _⟩ := founded_registerClass (d := .root "object" .default)
    hprimed.founded (by decide) (by decide) rfl
  cases hperform.symm.trans hmake
  have hcells : ((registerClass (.root "object" .default)).perform w).2.objects.cells.size ≤
      2 ^ 32 := by
    rw [hperform]
    exact hfounded.cells_le (by decide)
  obtain ⟨c, w₂, hperform', hnew, hclasses, hd, hextends, hshapely⟩ :=
    registerClass_extends hprimed.ordered hcells (Class.laid_root _ _) (by simp [Class.root])
      (by simp [Class.root])
      fun hrooted => absurd (hprimed.founded.mem_classes_iff.1 hrooted.objectClass) (by decide)
  cases hperform'.symm.trans hmake
  refine ⟨⟨hfounded, hextends.ordered, hprimed.bare.extend hprimed.ordered hextends,
    hshapely hprimed.bare _ hprimed.shapely⟩, hfounded.mem_classes_iff.2 (by decide),
    fun d hd' => ?_⟩
  cases hd'.unique hd
  rfl

/-- Once the class of classes lies below it, the class of all objects is above all others. -/
theorem primed_addSuperclass (hprimed : w.Primed 2) (hbare : w.Bare Builtin.objectClass)
    (hmake : (addSuperclass Builtin.classClass (Builtin.nth 1)).perform w = (.ok (), w')) :
    w'.Primed 2 ∧ w'.Bare Builtin.objectClass ∧ w'.Rooted := by
  have hdevelops := develops_addSuperclass (c := Builtin.classClass) hprimed.ordered
    hbare.registered
  obtain ⟨hfounded, _⟩ := founded_amend hprimed.founded (by decide)
    (.addSuperclass Builtin.classClass (hprimed.founded.mem_classes_iff.2 (by decide)))
    (settles_addSuperclass Builtin.classClass (Builtin.nth 1))
  have hmake' : (addSuperclass Builtin.classClass Builtin.objectClass).perform w = (.ok (), w') :=
    hmake
  rw [hmake] at hfounded
  rw [hmake'] at hdevelops
  obtain ⟨d, hd⟩ := hprimed.ordered.described _ hprimed.bare.registered
  obtain ⟨hcircle, hlink⟩ := addSuperclass_spec hprimed.ordered hbare.registered hd.describes
  have habove : w'.Above Builtin.classClass Builtin.objectClass := by
    by_cases hback : ReflTransGen w.Above Builtin.objectClass Builtin.classClass
    · obtain ⟨above, _, herror⟩ := hcircle hback
      cases herror.symm.trans hmake'
    · cases (hlink hback).symm.trans hmake'
      have hd' := describes_modifyDescriptor (c := Builtin.classClass)
        (·.addSuperclass Builtin.objectClass) hd.describes
      rw [if_pos rfl] at hd'
      rw [hd'.above_iff, d.supers_addSuperclass]
      split
      · assumption
      · exact List.mem_append_right _ (List.mem_singleton.2 rfl)
  refine ⟨hprimed.develop hfounded hdevelops, hbare.extend hprimed.ordered hdevelops.toExtends,
    hfounded.mem_classes_iff.2 (by decide), fun c hc => ?_⟩
  rcases List.mem_cons.1 (hfounded.mem_classes_iff.1 hc) with rfl | hc
  · exact .single habove
  · cases List.mem_singleton.1 hc
    exact .refl

/-- A class may be made once its parent is there. -/
theorem primed_makeClass {plan : ClassPlan} (hprimed : w.Primed k) (hk : k + 1 < 2 ^ 32)
    (htwo : 2 ≤ k) (hparent : plan.parent ∈ (List.range k).map Builtin.nth)
    (hdeclared : ∀ e ∈ plan.declared, e.2.2 ∈ (List.range (k + 1)).map Builtin.nth)
    (hmake : (makeClass plan).perform w = (.ok (), w')) :
    w'.Primed (k + 1) ∧ w.Extends w' ∧ w'.Derived (Builtin.nth k) plan.parent plan.attrs := by
  obtain ⟨hfounded', _⟩ :=
    founded_makeClass hprimed.founded hk htwo hparent hdeclared hmake
  unfold makeClass at hmake
  obtain ⟨c, w₁, hsubclass, hdeclare⟩ := perform_bind_eq_ok_iff.1 hmake
  obtain ⟨hfounded, _⟩ := founded_subclass hprimed.founded hk htwo hparent hsubclass
  have hparent' := hprimed.founded.mem_classes_iff.2 hparent
  have hcells : ((subclass plan.parent plan.name plan.attrs none).perform
      w).2.objects.cells.size ≤ 2 ^ 32 := by
    rw [hsubclass]
    exact hfounded.cells_le hk
  obtain ⟨e, hperform⟩ | ⟨c, w₂, above, d, hperform, hnew, hclasses, habove, hd, hattrs, hextends,
      hshapely⟩ := subclass_extends hprimed.ordered hparent' hcells
  · cases hperform.symm.trans hsubclass
  cases hperform.symm.trans hsubclass
  cases hprimed.founded.eq_nth hfounded hclasses
  have hdevelops : w₁.Develops w' := by
    have hafter := congrArg Prod.snd hdeclare
    rw [← show _ = w' from hafter] at hfounded' ⊢
    refine Routine.develops (routine_forM fun e he => ?_) hextends.ordered w₁.names_naming
      (hfounded'.cells_le hk)
    exact routine_setAttrClass trivial e.1 e.2.1 (hfounded.mem_classes_iff.2 (hdeclared e he))
  have hderived : w₁.Derived (Builtin.nth k) plan.parent plan.attrs := by
    obtain ⟨above', habove', hgrows⟩ := hextends.described _ hparent' above habove
    exact ⟨hclasses ▸ Array.mem_push_self, hextends.classes _ hparent', above', d, habove', hd,
      hattrs.grow hgrows (.refl d)⟩
  have hprimed₁ : w₁.Primed (k + 1) := ⟨hfounded, hextends.ordered,
    hprimed.bare.extend hprimed.ordered hextends, hshapely hprimed.bare _ hprimed.shapely⟩
  exact ⟨hprimed₁.develop hfounded' hdevelops, hextends.trans hdevelops.toExtends,
    hderived.extend hdevelops.toExtends⟩

/-- Classes may be made in an order in which each names classes before it. -/
theorem primed_forM_makeClass {plans : List ClassPlan} (hprimed : w.Primed k)
    (hk : k + plans.length < 2 ^ 32) (htwo : 2 ≤ k)
    (horder : ∀ p ∈ plans.zipIdx k, p.1.parent ∈ (List.range p.2).map Builtin.nth ∧
      ∀ e ∈ p.1.declared, e.2.2 ∈ (List.range (p.2 + 1)).map Builtin.nth)
    (hmake : (plans.forM makeClass).perform w = (.ok ⟨⟩, w')) :
    w'.Primed (k + plans.length) ∧ w.Extends w' ∧
      ∀ p ∈ plans.zipIdx k, w'.Derived (Builtin.nth p.2) p.1.parent p.1.attrs := by
  induction plans generalizing k w with
  | nil =>
      cases hmake
      exact ⟨hprimed, .refl hprimed.ordered, by simp⟩
  | cons plan plans ih =>
      rw [List.zipIdx_cons] at horder ⊢
      rw [List.length_cons] at hk ⊢
      obtain ⟨hparent, hdeclared⟩ := horder _ List.mem_cons_self
      obtain ⟨_, w'', hfirst, hrest⟩ := perform_bind_eq_ok_iff.1 hmake
      obtain ⟨hprimed', hextends, hderived⟩ :=
        primed_makeClass hprimed (by omega) htwo hparent hdeclared hfirst
      obtain ⟨hall, hextends', hderive⟩ := ih hprimed' (by omega) (by omega)
        (fun p hp => horder p (List.mem_cons_of_mem _ hp)) hrest
      rw [Nat.add_assoc, Nat.add_comm 1] at hall
      refine ⟨hall, hextends.trans hextends', fun p hp => ?_⟩
      rcases List.mem_cons.1 hp with rfl | hp
      · exact hderived.extend hextends'
      · exact hderive p hp

/-- Primed worlds may be amended. -/
theorem primed_amend {α : Type} {action : Action α} (hprimed : w.Primed k) (hk : k < 2 ^ 32)
    (hroutine : ∀ π : Policy, Routine π action) (hsettles : action.Keeps World.Settles) :
    (action.perform w).2.Primed k ∧ w.Extends (action.perform w).2 := by
  obtain ⟨hfounded, _⟩ := founded_amend hprimed.founded hk (hroutine _) hsettles
  have hdevelops := (hroutine w.naming).develops hprimed.ordered w.names_naming
    (hfounded.cells_le hk)
  exact ⟨hprimed.develop hfounded hdevelops, hdevelops.toExtends⟩

/-- After the classes have been made they are in order, and derived as planned. -/
theorem primed_makeClasses (hfounded : w.Founded 0) (hordered : w.Ordered)
    (hempty : w.objects = {}) (hmake : makeClasses.perform w = (.ok (), w')) :
    w'.Primed 20 ∧ w'.Rooted ∧ w'.Bare Builtin.objectClass ∧
      ∀ p ∈ ClassPlan.builtin.zipIdx 2, w'.Derived (Builtin.nth p.2) p.1.parent p.1.attrs := by
  unfold makeClasses at hmake
  obtain ⟨_, w₁, hclassClass, hmake⟩ := perform_bind_eq_ok_iff.1 hmake
  obtain ⟨c, w₂, hobjectClass, hmake⟩ := perform_bind_eq_ok_iff.1 hmake
  obtain ⟨_, w₃, habove, hmake⟩ := perform_bind_eq_ok_iff.1 hmake
  obtain ⟨_, w₄, hplans, hmake⟩ := perform_bind_eq_ok_iff.1 hmake
  obtain ⟨_, w₅, hbehaviors, htags⟩ := perform_bind_eq_ok_iff.1 hmake
  have hone := primed_makeClassClass hfounded hordered hempty hclassClass
  obtain ⟨_, hperform, _⟩ := founded_registerClass (d := .root "object" .default) hone.founded
    (by decide) (by decide) rfl
  cases hperform.symm.trans hobjectClass
  obtain ⟨htwo, hbare⟩ := primed_registerClass hone hobjectClass
  obtain ⟨hthree, hbare, hrooted⟩ := primed_addSuperclass htwo hbare habove
  obtain ⟨hfour, hextends, hderived⟩ :=
    primed_forM_makeClass hthree (by decide) (by decide) (by decide) hplans
  obtain ⟨hfive, hextends'⟩ := primed_amend hfour (by decide)
    (fun _ => routine_forM (l := ClassPlan.behaviors) fun e _ => routine_setBehavior e.1 e.2)
    (keeps_forM fun e => settles_setBehavior e.1 e.2)
  rw [hbehaviors] at hfive hextends'
  obtain ⟨hsix, hextends''⟩ := primed_amend hfive (by decide)
    (fun _ => routine_forM (l := ClassPlan.typeTags) fun e _ => routine_setTypeTag e.1 e.2)
    (keeps_forM fun e => settles_setTypeTag e.1 e.2)
  rw [htags] at hsix hextends''
  have hrest := hextends'.trans hextends''
  refine ⟨hsix, hrest.rooted (hextends.rooted hrooted),
    hbare.extend hthree.ordered (hextends.trans hrest), fun p hp => (hderived p hp).extend hrest⟩

/-- The built-in objects have as many attributes as their classes say. -/
theorem develops_makeObjects (hordered : w.Ordered) (hnull : w.Bare Builtin.nullClass)
    (hsymbol : w.Bare Builtin.symbolClass) (hbuiltin : ∀ c ∈ Builtin.classes, c ∈ w.classes)
    (hmake : makeObjects.perform w = (.ok (), w'))
    (hcells : w'.objects.cells.size ≤ 2 ^ 32) : w.Develops w' := by
  unfold makeObjects at hmake
  obtain ⟨_, w₁, hfirst, hrest⟩ := perform_bind_eq_ok_iff.1 hmake
  obtain ⟨_, w₂, hsecond, hthird⟩ := perform_bind_eq_ok_iff.1 hrest
  have hcells₂ : w₂.objects.cells.size ≤ 2 ^ 32 := by
    have hadvances := (routine_furnish Policy.standard_anything trivial).advances w₂
    rw [hthird] at hadvances
    exact hadvances.cells_le.trans hcells
  have hcells₁ : w₁.objects.cells.size ≤ 2 ^ 32 := by
    have hmoves := moves_allocatePinned
      (o := .new Builtin.symbolClass 0 (.symbol Symbol.empty) 0 .shared) rfl w₁
    rw [hsecond] at hmoves
    exact hmoves.cells_le.trans hcells₂
  obtain ⟨_, _, hperform, hadmits⟩ := admits_allocatePinned hordered
    (o := .new Builtin.nullClass 0 .none 0 .shared) (by rw [hfirst]; exact hcells₁) rfl
  cases hperform.symm.trans hfirst
  have hone := hadmits.develops hordered hnull.registered fun d hd =>
    (hnull.attrCount_eq d hd).symm
  have hsymbol₁ := hsymbol.extend hordered hone.toExtends
  obtain ⟨_, _, hperform, hadmits⟩ := admits_allocatePinned hone.ordered
    (o := .new Builtin.symbolClass 0 (.symbol Symbol.empty) 0 .shared)
    (by rw [hsecond]; exact hcells₂) rfl
  cases hperform.symm.trans hsecond
  have htwo := hone.trans
    (hadmits.develops hone.ordered hsymbol₁.registered fun d hd =>
      (hsymbol₁.attrCount_eq d hd).symm)
  have hstandard : w₂.naming.Standard := fun c hc _ _ _ _ => htwo.classes c (hbuiltin c hc)
  have hthree := (routine_furnish hstandard trivial).develops htwo.ordered w₂.names_naming
    (by rw [hthird]; exact hcells)
  rw [hthird] at hthree
  exact htwo.trans hthree

end Action

namespace World

variable {w w' : World} {k : Nat} {settings : Settings} {a : Annals}

/-- A class that adds no attributes to a class without any has none. -/
theorem Derived.bare {c parent : Handle} (hderived : w.Derived c parent [])
    (hparent : w.Bare parent) : w.Bare c := by
  obtain ⟨hc, _, above, d, habove, hd, hattrs⟩ := hderived
  refine ⟨hc, fun d' hd' => ?_⟩
  cases hd'.unique hd
  rw [hattrs.attrCount_eq, hparent.attrCount_eq above habove, List.length_nil]

/-- The annals of a new world are right. -/
theorem tallies_create (hcreate : create settings = .ok w)
    (hcells : w.objects.cells.size ≤ 2 ^ 32) : w.Tallies .initial := by
  obtain ⟨hcapacity, w', hclasses, hobjects⟩ := exists_of_create hcreate
  obtain ⟨hprimed, hrooted, hbare, hderived⟩ := Action.primed_makeClasses
    (founded_empty hcapacity) (ordered_empty settings) rfl hclasses
  have hbuiltin : ∀ c ∈ Builtin.classes, c ∈ w'.classes :=
    fun c hc => hprimed.founded.mem_classes_iff.2 hc
  have hplain : ∀ c, (∃ p ∈ ClassPlan.builtin.zipIdx 2, c = Builtin.nth p.2 ∧
      p.1.parent = Builtin.objectClass ∧ p.1.attrs = []) → w'.Bare c := by
    rintro c ⟨p, hp, rfl, hparent, hattrs⟩
    have h := hderived p hp
    rw [hparent, hattrs] at h
    exact h.bare hbare
  have hdevelops := Action.develops_makeObjects hprimed.ordered (hplain _ (by decide))
    (hplain _ (by decide)) hbuiltin hobjects hcells
  refine ⟨hdevelops.ordered, hdevelops.rooted hrooted,
    hprimed.bare.extend hprimed.ordered hdevelops.toExtends,
    fun c hc => hdevelops.classes c (hbuiltin c hc), hdevelops.shapely _ hprimed.shapely, ?_⟩
  rintro c parent newAttrs ⟨p, hp, rfl, rfl, rfl⟩
  exact (hderived p hp).extend hdevelops.toExtends

/-- The annals of every run are right. -/
theorem Classed.tallies (hclassed : Classed settings a w)
    (hcells : w.objects.cells.size ≤ 2 ^ 32) : w.Tallies a := by
  induction hclassed with
  | create hcreate => exact tallies_create hcreate hcells
  | step _ op hnames ih =>
      exact ((ih ((op.spends _).cells_le.trans hcells)).perform op hnames hcells).1

end World

end ObjectSystem

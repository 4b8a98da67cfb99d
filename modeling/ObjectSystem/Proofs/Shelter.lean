/-
# Shelter

While an expression is evaluated, names of an environment may be bound to other values. An
object is sheltered from this if it is reached from where collections start without the bindings
of these names. Of what pools answer for only some objects count as starting points, since the
others may be handed to slots.

`World.Passes` says what such a time leaves as it was. The bindings of the names may have
changed, and what was given away may have got another owner; all other objects that are sheltered
are there, and lead to what they led to.
-/

import ObjectSystem.Proofs.Sparing
import Mathlib.Data.Set.Basic

namespace ObjectSystem

namespace Frame

variable {f f' f'' : Frame} {names names' : Set Symbol} {name : Symbol}

/-- Two states of a frame between which only certain names were bound. -/
def SameBut (names : Set Symbol) (f f' : Frame) : Prop :=
  ∀ (i : Nat) (name : Symbol) (value : Option Handle), name ∉ names →
    (f'.bindings[i]? = some (name, value) ↔ f.bindings[i]? = some (name, value))

theorem SameBut.mono (hsame : f.SameBut names f') (hsub : names ⊆ names') : f.SameBut names' f' :=
  fun i name value hname => hsame i name value fun hmem => hname (hsub hmem)

theorem SameBut.trans (hfirst : f.SameBut names f') (hsecond : f'.SameBut names f'') :
    f.SameBut names f'' :=
  fun i name value hname => (hsecond i name value hname).trans (hfirst i name value hname)

theorem get?_eq_some_iff {value : Handle} : f.get? name = some value ↔
    ∃ i : Nat, f.bindings[i]? = some (name, some value) ∧
      ∀ j < i, ∀ other, f.bindings[j]? ≠ some (name, other) := by
  have hfind : ∀ i : Nat, f.find? name = some i ↔
      (∃ content, f.bindings[i]? = some (name, content)) ∧
        ∀ j < i, ∀ other, f.bindings[j]? ≠ some (name, other) := by
    intro i
    rw [find?, Array.findIdx?_eq_some_iff_getElem]
    constructor
    · rintro ⟨hi, hname, hbefore⟩
      refine ⟨⟨f.bindings[i].2, ?_⟩, fun j hj other hother => ?_⟩
      · rw [Array.getElem?_eq_getElem hi, ← beq_iff_eq.1 hname]
      · obtain ⟨_, heq⟩ := Array.getElem?_eq_some_iff.1 hother
        exact hbefore j hj (by rw [heq]; exact beq_self_eq_true name)
    · rintro ⟨⟨content, hcontent⟩, hbefore⟩
      obtain ⟨hi, heq⟩ := Array.getElem?_eq_some_iff.1 hcontent
      refine ⟨hi, by rw [heq]; exact beq_self_eq_true name, fun j hj hname => ?_⟩
      refine hbefore j hj f.bindings[j].2 ?_
      rw [Array.getElem?_eq_getElem (hj.trans hi), ← beq_iff_eq.1 hname]
  rw [get?, Option.bind_eq_some_iff]
  constructor
  · rintro ⟨i, hi, hvalue⟩
    obtain ⟨⟨content, hcontent⟩, hbefore⟩ := (hfind i).1 hi
    rw [hcontent] at hvalue
    cases hvalue
    exact ⟨i, hcontent, hbefore⟩
  · rintro ⟨i, hcontent, hbefore⟩
    exact ⟨i, (hfind i).2 ⟨⟨_, hcontent⟩, hbefore⟩, by rw [hcontent]; rfl⟩

theorem SameBut.symm (hsame : f.SameBut names f') : f'.SameBut names f :=
  fun i name value hname => (hsame i name value hname).symm

/-- Other names have the values that they had. -/
theorem SameBut.get?_eq (hsame : f.SameBut names f') (hname : name ∉ names) :
    f'.get? name = f.get? name := by
  refine Option.ext fun value => ?_
  simp only [get?_eq_some_iff, ne_eq, hsame _ name _ hname]

end Frame

namespace Object

variable {o o' o'' : Object} {names names' : Set Symbol} {s : Slot} {y : Handle}

/-- Two states of an object between which only certain names were bound in it, if it is an
environment, and owners may have changed. -/
structure SameBut (names : Set Symbol) (o o' : Object) : Prop where
  classRef_eq : o'.classRef = o.classRef
  attrs_eq : o'.attrs = o.attrs
  pinned_eq : o'.header.pinned = o.header.pinned
  payload : o'.payload = o.payload ∨ ∃ f f', o.payload = .environment f ∧
    o'.payload = .environment f' ∧ f.SameBut names f'

theorem sameBut_setHeader {h : Header} (hpinned : h.pinned = o.header.pinned) :
    o.SameBut names { o with header := h } :=
  ⟨rfl, rfl, hpinned, Or.inl rfl⟩

theorem SameBut.mono (hsame : o.SameBut names o') (hsub : names ⊆ names') :
    o.SameBut names' o' where
  classRef_eq := hsame.classRef_eq
  attrs_eq := hsame.attrs_eq
  pinned_eq := hsame.pinned_eq
  payload := hsame.payload.imp_right fun ⟨f, f', hf, hf', hframe⟩ =>
    ⟨f, f', hf, hf', hframe.mono hsub⟩

theorem SameBut.trans (hfirst : o.SameBut names o') (hsecond : o'.SameBut names o'') :
    o.SameBut names o'' where
  classRef_eq := hsecond.classRef_eq.trans hfirst.classRef_eq
  attrs_eq := hsecond.attrs_eq.trans hfirst.attrs_eq
  pinned_eq := hsecond.pinned_eq.trans hfirst.pinned_eq
  payload := by
    rcases hfirst.payload with heq | ⟨f, f', hf, hf', hframe⟩
    · rw [← heq]
      exact hsecond.payload
    · rcases hsecond.payload with heq | ⟨g, g', hg, hg', hframe'⟩
      · exact Or.inr ⟨f, f', hf, heq.trans hf', hframe⟩
      · cases hf'.symm.trans hg
        exact Or.inr ⟨f, g', hf, hg', hframe.trans hframe'⟩

theorem SameBut.symm (hsame : o.SameBut names o') : o'.SameBut names o where
  classRef_eq := hsame.classRef_eq.symm
  attrs_eq := hsame.attrs_eq.symm
  pinned_eq := hsame.pinned_eq.symm
  payload := hsame.payload.imp Eq.symm fun ⟨f, f', hf, hf', hframe⟩ =>
    ⟨f', f, hf', hf, hframe.symm⟩

/-- An environment is still one, and other names have the values that they had. -/
theorem SameBut.environment (hsame : o.SameBut names o') {f : Frame}
    (hf : o.payload = .environment f) :
    ∃ f', o'.payload = .environment f' ∧ f.SameBut names f' := by
  rcases hsame.payload with heq | ⟨g, g', hg, hg', hframe⟩
  · exact ⟨f, heq.trans hf, fun _ _ _ _ => Iff.rfl⟩
  · cases hf.symm.trans hg
    exact ⟨g', hg', hframe⟩

theorem SameBut.payload_eq (hsame : o.SameBut names o') (hnot : ∀ f, o.payload ≠ .environment f) :
    o'.payload = o.payload :=
  hsame.payload.resolve_right fun ⟨f, _, hf, _⟩ => hnot f hf

/-- A slot holds what it held, unless it is the binding of one of the names. -/
theorem SameBut.peek? (hsame : o.SameBut names o') (hs : s.peek? o = some (some y))
    (hother : ∀ env index f name, s = .binding env index → o.payload = .environment f →
      f.bindings[index]?.map Prod.fst = some name → name ∉ names) :
    s.peek? o' = some (some y) := by
  cases s with
  | attr x index =>
      cases index with
      | zero => cases hs
      | succ index => exact (congrArg (·[index]?) hsame.attrs_eq).trans hs
  | binding env index =>
      cases hf : o.payload with
      | environment f =>
          obtain ⟨f', hf', hframe⟩ := hsame.environment hf
          simp only [Slot.peek?, hf] at hs
          obtain ⟨⟨name, value⟩, hbinding, hvalue⟩ := Option.map_eq_some_iff.1 hs
          have hname := hother env index f name rfl hf (by rw [hbinding]; rfl)
          simp only [Slot.peek?, hf', (hframe index name value hname).2 hbinding]
          exact congrArg some hvalue
      | _ => simp [Slot.peek?, hf] at hs
  | element x index =>
      have hpayload := hsame.payload_eq fun f hf => by simp [Slot.peek?, hf] at hs
      simpa only [Slot.peek?, hpayload] using hs
  | classAttr x index =>
      have hpayload := hsame.payload_eq fun f hf => by simp [Slot.peek?, hf] at hs
      simpa only [Slot.peek?, hpayload] using hs
  | signature x index =>
      have hpayload := hsame.payload_eq fun f hf => by simp [Slot.peek?, hf] at hs
      simpa only [Slot.peek?, hpayload] using hs

end Object

namespace Arena

variable {a a' : Arena Object} {through through' : Slot → Prop} {start start' : Handle → Prop}
  {x : Handle}

/-- What is reached from certain handles if only some of the slots are followed. -/
inductive Attains (a : Arena Object) (through : Slot → Prop) (start : Handle → Prop) :
    Handle → Prop where
  | start {x : Handle} (hstart : start x) : Attains a through start x
  | slot {s : Slot} {y : Handle} (howner : Attains a through start s.owner) (hs : a.Holds s y)
      (hthrough : through s) : Attains a through start y

/-- What is reached stays so if what was started from does, and the slots hold what they held. -/
theorem Attains.carry (hattains : a.Attains through start x)
    (hstart : ∀ y, start y → a'.Attains through' start' y)
    (hslot : ∀ s y, a.Attains through start s.owner → a.Holds s y → through s →
      a'.Holds s y ∧ through' s) : a'.Attains through' start' x := by
  induction hattains with
  | start hx => exact hstart _ hx
  | slot howner hs hthrough ih =>
      obtain ⟨hs', hthrough'⟩ := hslot _ _ howner hs hthrough
      exact .slot ih hs' hthrough'

theorem Attains.mono (hattains : a.Attains through start x) (hstart : ∀ y, start y → start' y)
    (hthrough : ∀ s, through s → through' s) : a.Attains through' start' x :=
  hattains.carry (fun _ hy => .start (hstart _ hy)) fun _ _ _ hs hs' => ⟨hs, hthrough _ hs'⟩

end Arena

namespace World

variable {w w' w'' : World} {base base' : Set Handle} {env x y : Handle} {names names' : Set Symbol}
  {given given' : List Handle} {o : Object} {s : Slot}

/-- A pool answers for the object. -/
def Pooled (w : World) (x : Handle) : Prop :=
  ∃ o id, w.objects.get? x = some o ∧ o.header.ownership = .pool id

def Pinned (w : World) (x : Handle) : Prop :=
  ∃ o, w.objects.get? x = some o ∧ o.header.pinned = true

/-- Collections start from the object, and no slot may let it go. Of what pools answer for only
the objects of a base count. -/
inductive Stands (w : World) (base : Set Handle) (x : Handle) : Prop where
  | shared {o : Object} (hroot : w.IsRoot [] x) (hx : w.objects.get? x = some o)
      (hshared : o.header.ownership = .shared)
  | pooled (hmem : x ∈ base) (hpooled : w.Pooled x)

/-- The slot is the binding of one of the names in an environment. -/
def Exposed (w : World) (env : Handle) (names : Set Symbol) (s : Slot) : Prop :=
  ∃ index f name, s = .binding env index ∧ w.frame env = .ok f ∧
    f.bindings[index]?.map Prod.fst = some name ∧ name ∈ names

/-- The object is kept, whatever the names are bound to in an environment. -/
def Sheltered (w : World) (base : Set Handle) (env : Handle) (names : Set Symbol) (x : Handle) :
    Prop :=
  w.objects.Attains (fun s => ¬ w.Exposed env names s) (w.Stands base) x

/-- The object is kept, whatever all names are bound to in all environments. -/
def Secure (w : World) (x : Handle) : Prop :=
  w.objects.Attains (fun s => ¬ s.IsBinding) (w.Stands Set.univ) x

theorem Exposed.mono (hexposed : w.Exposed env names s) (hsub : names ⊆ names') :
    w.Exposed env names' s := by
  obtain ⟨index, f, name, hs, hf, hname, hmem⟩ := hexposed
  exact ⟨index, f, name, hs, hf, hname, hsub hmem⟩

theorem Exposed.isBinding (hexposed : w.Exposed env names s) : s.IsBinding := by
  obtain ⟨_, _, _, rfl, _⟩ := hexposed
  trivial

/-- Only those objects of a base count that pools answer for. -/
theorem Stands.mono (hx : w.Stands base x) (hbase : ∀ y ∈ base, w.Pooled y → y ∈ base') :
    w.Stands base' x := by
  cases hx with
  | shared hroot ho hshared => exact .shared hroot ho hshared
  | pooled hmem hpooled => exact .pooled (hbase x hmem hpooled) hpooled

/-- An object that is as it was goes on standing for itself. -/
theorem Stands.of_same (hx : w.Stands base x) (hcoherent : w.Coherent) (hroots : w'.roots = w.roots)
    (hsame : w'.objects.get? x = w.objects.get? x) : w'.Stands base x := by
  cases hx with
  | pooled hmem hpooled =>
      obtain ⟨o, id, ho, hown⟩ := hpooled
      exact .pooled hmem ⟨o, id, hsame.trans ho, hown⟩
  | shared hroot ho hshared =>
      refine .shared ?_ (hsame.trans ho) hshared
      cases hroot with
      | pinned hp hpinned => exact .pinned (hsame.trans hp) hpinned
      | builtin hmem => exact .builtin hmem
      | root hmem => exact .root (hroots ▸ hmem)
      | scope hpool hmem =>
          obtain ⟨p, hp, hown⟩ := Action.ownership_of_mem_scope hcoherent hpool hmem
          cases ho.symm.trans hp
          cases hshared.symm.trans hown
      | extra hmem => cases hmem

theorem Sheltered.rebase (hx : w.Sheltered base env names x)
    (hbase : ∀ y ∈ base, w.Pooled y → y ∈ base') : w.Sheltered base' env names x :=
  Arena.Attains.mono hx (fun _ hy => hy.mono hbase) fun _ => id

theorem Sheltered.mono (hx : w.Sheltered base env names x) (hsub : names' ⊆ names) :
    w.Sheltered base env names' x :=
  Arena.Attains.mono hx (fun _ => id) fun _ hs hexposed => hs (hexposed.mono hsub)

/-- What a slot holds is sheltered with the object that it is in, if the slot is not one of those
that may change. -/
theorem Sheltered.slot (hx : w.Sheltered base env names s.owner) (hs : w.objects.Holds s y)
    (hnot : ¬ w.Exposed env names s) : w.Sheltered base env names y :=
  Arena.Attains.slot hx hs hnot

theorem Secure.sheltered (hx : w.Secure x) : w.Sheltered Set.univ env names x :=
  Arena.Attains.mono hx (fun _ => id) fun _ hs hexposed => hs hexposed.isBinding

theorem Pooled.sheltered (hx : w.Pooled x) (hmem : x ∈ base) : w.Sheltered base env names x :=
  .start (.pooled hmem hx)

theorem Pooled.secure (hx : w.Pooled x) : w.Secure x :=
  .start (.pooled trivial hx)

section Coherent

variable (hcoherent : w.Coherent)
include hcoherent

theorem Pooled.keeps (hx : w.Pooled x) : w.Keeps [] x := by
  obtain ⟨o, id, ho, hown⟩ := hx
  exact keeps_of_pool hcoherent ho hown

/-- A pool answers only for what no slot holds. -/
theorem not_pooled_of_holds (hs : w.objects.Holds s x) : ¬ w.Pooled x := by
  rintro ⟨o, id, ho, hown⟩
  exact hcoherent.linked.pool_unheld x o id ho hown s hs

theorem Stands.keeps (hx : w.Stands base x) : w.Keeps [] x := by
  cases hx with
  | shared hroot ho _ => exact .start hroot ⟨_, ho⟩
  | pooled _ hpooled => exact hpooled.keeps hcoherent

theorem keeps_of_attains {through : Slot → Prop}
    (hx : w.objects.Attains through (w.Stands base) x) :
    w.Keeps [] x := by
  induction hx with
  | start hx => exact hx.keeps hcoherent
  | slot _ hs _ ih => exact Keeps.of_holds ih hcoherent hs

theorem Sheltered.keeps (hx : w.Sheltered base env names x) : w.Keeps [] x :=
  keeps_of_attains hcoherent hx

theorem Secure.keeps (hx : w.Secure x) : w.Keeps [] x :=
  keeps_of_attains hcoherent hx

theorem Pinned.stands (hx : w.Pinned x) : w.Stands base x := by
  obtain ⟨o, ho, hpinned⟩ := hx
  exact .shared (.pinned ho hpinned) ho (hcoherent.linked.pinned_shared x o ho hpinned)

theorem Pinned.not_pooled (hx : w.Pinned x) : ¬ w.Pooled x := by
  rintro ⟨o, id, ho, hown⟩
  obtain ⟨p, hp, hpinned⟩ := hx
  cases ho.symm.trans hp
  cases hown.symm.trans (hcoherent.linked.pinned_shared x o ho hpinned)

theorem pinned_of_mem_classes (hx : x ∈ w.classes) : w.Pinned x := by
  obtain ⟨o, ho, hpinned, _⟩ := hcoherent.linked.known_class x hx
  exact ⟨o, ho, hpinned⟩

theorem Pinned.sheltered (hx : w.Pinned x) : w.Sheltered base env names x :=
  .start (hx.stands hcoherent)

theorem Pinned.secure (hx : w.Pinned x) : w.Secure x :=
  .start (hx.stands hcoherent)

end Coherent

theorem Secure.slot (hx : w.Secure s.owner) (hs : w.objects.Holds s y) (hnot : ¬ s.IsBinding) :
    w.Secure y :=
  Arena.Attains.slot hx hs hnot

/-- The object is pinned, or a slot holds it that keeps it, whatever the names are bound to in an
environment. -/
def Housed (w : World) (base : Set Handle) (env : Handle) (names : Set Symbol) (x : Handle) :
    Prop :=
  w.Pinned x ∨ ∃ s : Slot, w.Sheltered base env names s.owner ∧ w.objects.Holds s x ∧
    ¬ w.Exposed env names s

theorem Housed.sheltered (hx : w.Housed base env names x) (hcoherent : w.Coherent) :
    w.Sheltered base env names x := by
  obtain hpinned | ⟨s, howner, hs, hnot⟩ := hx
  · exact hpinned.sheltered hcoherent
  · exact howner.slot hs hnot

theorem Housed.not_pooled (hx : w.Housed base env names x) (hcoherent : w.Coherent) :
    ¬ w.Pooled x := by
  obtain hpinned | ⟨s, _, hs, _⟩ := hx
  · exact hpinned.not_pooled hcoherent
  · exact not_pooled_of_holds hcoherent hs

theorem housed_of_mem_classes (hcoherent : w.Coherent) (hx : x ∈ w.classes) :
    w.Housed base env names x :=
  Or.inl (pinned_of_mem_classes hcoherent hx)

/-- The name is bound to the value in an environment. -/
def Binds (w : World) (env : Handle) (name : Symbol) (y : Handle) : Prop :=
  ∃ (f : Frame) (index : Nat), w.frame env = .ok f ∧ f.bindings[index]? = some (name, some y)

/-- What a name is bound to is kept with the environment, whatever other names are bound to. -/
theorem Binds.housed {e : Handle} {name : Symbol} (hbinds : w.Binds e name y)
    (he : w.Sheltered base env names e) (hname : name ∉ names) : w.Housed base env names y := by
  obtain ⟨f, index, hf, hbinding⟩ := hbinds
  obtain ⟨o, ho, hpayload⟩ := frame_eq_ok_iff.1 hf
  refine Or.inr ⟨.binding e index, he, ⟨o, ho, by simp [Slot.peek?, hpayload, hbinding]⟩, ?_⟩
  rintro ⟨index', f', name', hs, hf', hname', hmem⟩
  cases hs
  cases hf.symm.trans hf'
  rw [hbinding] at hname'
  cases hname'
  exact hname hmem

/-! ## What a time leaves as it was -/

/-- The names may have been bound in an environment, and what was given may have got another
owner. All other objects that are sheltered from this are as they were. -/
structure Passes (env : Handle) (names : Set Symbol) (given : List Handle) (w w' : World) :
    Prop where
  roots_eq : w'.roots = w.roots
  classes_eq : w'.classes = w.classes
  stays : ∀ base, (∀ y ∈ given, y ∉ base) → ∀ x o, w.Sheltered base env names x →
    w.objects.get? x = some o → ∃ o', w'.objects.get? x = some o' ∧
      o.SameBut {name | name ∈ names ∧ x = env} o' ∧
      (x ∉ given → ∀ id, o.header.ownership = .pool id → o'.header.ownership = .pool id) ∧
      (o.header.ownership = .shared → o'.header.ownership = .shared)

theorem Passes.of_eq (hobjects : w'.objects = w.objects) (hroots : w'.roots = w.roots)
    (hclasses : w'.classes = w.classes) : Passes env names given w w' where
  roots_eq := hroots
  classes_eq := hclasses
  stays _ _ _ o _ ho := ⟨o, hobjects ▸ ho, Object.sameBut_setHeader rfl, fun _ _ h => h, id⟩

theorem Passes.refl (env : Handle) (names : Set Symbol) (w : World) : Passes env names [] w w :=
  .of_eq rfl rfl rfl

section Passes

variable (hpasses : Passes env names given w w')
include hpasses

theorem Passes.mono (hsub : names ⊆ names') (hgiven : ∀ x ∈ given, x ∈ given') :
    Passes env names' given' w w' where
  roots_eq := hpasses.roots_eq
  classes_eq := hpasses.classes_eq
  stays base hbase x o hx ho := by
    obtain ⟨o', ho', hsame, hpool, hshared⟩ :=
      hpasses.stays base (fun y hy => hbase y (hgiven y hy)) x o (hx.mono hsub) ho
    exact ⟨o', ho', hsame.mono fun name hname => ⟨hsub hname.1, hname.2⟩,
      fun hmem => hpool fun hx => hmem (hgiven x hx), hshared⟩

/-- What no pool answered for may be given away. -/
theorem Passes.keep (hgiven : ∀ x ∈ given, ¬ w.Pooled x) : Passes env names [] w w' where
  roots_eq := hpasses.roots_eq
  classes_eq := hpasses.classes_eq
  stays base _ x o hx ho := by
    obtain ⟨o', ho', hsame, hpool, hshared⟩ := hpasses.stays {y | y ∈ base ∧ w.Pooled y}
      (fun y hy hmem => hgiven y hy hmem.2) x o (hx.rebase fun y hy hpooled => ⟨hy, hpooled⟩) ho
    exact ⟨o', ho', hsame, fun _ id hown => hpool (fun hmem => hgiven x hmem ⟨o, id, ho, hown⟩)
      id hown, hshared⟩

theorem Passes.pooled (hx : w.Pooled x) (hnot : x ∉ given) : w'.Pooled x := by
  obtain ⟨o, id, ho, hown⟩ := hx
  obtain ⟨o', ho', _, hpool, _⟩ := hpasses.stays {x} (fun y hy heq => hnot (heq ▸ hy)) x o
    (Pooled.sheltered ⟨o, id, ho, hown⟩ rfl) ho
  exact ⟨o', id, ho', hpool hnot id hown⟩

section Base

variable (hbase : ∀ y ∈ given, y ∉ base)
include hbase

theorem Passes.stands (hcoherent : w.Coherent) (hx : w.Stands base x) : w'.Stands base x := by
  cases hx with
  | @shared o hroot ho hshared =>
      obtain ⟨o', ho', hsame, _, hown⟩ :=
        hpasses.stays base hbase x o (.start (.shared hroot ho hshared)) ho
      refine .shared ?_ ho' (hown hshared)
      cases hroot with
      | pinned hp hpinned =>
          cases ho.symm.trans hp
          exact .pinned ho' (hsame.pinned_eq.trans hpinned)
      | builtin hmem => exact .builtin hmem
      | root hmem => exact .root (hpasses.roots_eq ▸ hmem)
      | scope hp hmem =>
          obtain ⟨p, hp', hpool⟩ := Action.ownership_of_mem_scope hcoherent hp hmem
          cases ho.symm.trans hp'
          cases hshared.symm.trans hpool
      | extra hmem => cases hmem
  | pooled hmem hpooled => exact .pooled hmem (hpasses.pooled hpooled fun hx => hbase x hx hmem)

/-- A slot of what is sheltered holds what it held, unless it may change. -/
theorem Passes.holds (hsub : names ⊆ names') (howner : w.Sheltered base env names s.owner)
    (hs : w.objects.Holds s y) (hnot : ¬ w.Exposed env names' s) :
    w'.objects.Holds s y ∧ ¬ w'.Exposed env names' s := by
  obtain ⟨o, ho, hpeek⟩ := hs
  obtain ⟨o', ho', hsame, _⟩ := hpasses.stays base hbase _ o howner ho
  -- A binding of another name has its name and its value as before.
  have hname : ∀ e index f name, s = .binding e index → o.payload = .environment f →
      f.bindings[index]?.map Prod.fst = some name → name ∈ names → e ≠ env := by
    rintro e index f name rfl hf hname hmem rfl
    exact hnot ⟨index, f, name, rfl, frame_eq_ok_iff.2 ⟨o, ho, hf⟩, hname, hsub hmem⟩
  refine ⟨⟨o', ho', hsame.peek? hpeek fun e index f name he hf hname' hmem => ?_⟩, ?_⟩
  · subst he
    exact hname e index f name rfl hf hname' hmem.1 hmem.2
  · rintro ⟨index, f', name, rfl, hf', hname', hmem⟩
    obtain ⟨q, hq, hpayload'⟩ := frame_eq_ok_iff.1 hf'
    cases ho'.symm.trans hq
    cases hpayload : o.payload with
    | environment f =>
        simp only [Slot.peek?, hpayload] at hpeek
        obtain ⟨⟨name₀, value⟩, hbinding, hvalue⟩ := Option.map_eq_some_iff.1 hpeek
        obtain ⟨g, hg, hframe⟩ := hsame.environment hpayload
        cases hpayload'.symm.trans hg
        have hname₀ : f.bindings[index]?.map Prod.fst = some name₀ := by rw [hbinding]; rfl
        have hnot₀ : name₀ ∉ names' := fun hmem₀ =>
          hnot ⟨index, f, name₀, rfl, frame_eq_ok_iff.2 ⟨o, ho, hpayload⟩, hname₀, hmem₀⟩
        have hafter := (hframe index name₀ value fun h => hnot₀ (hsub h.1)).2 hbinding
        rw [hafter] at hname'
        cases hname'
        exact hnot₀ hmem
    | _ => simp [Slot.peek?, hpayload] at hpeek

/-- What is sheltered by objects that are not given away stays so. -/
theorem Passes.sheltered (hcoherent : w.Coherent) (hsub : names ⊆ names')
    (hx : w.Sheltered base env names' x) : w'.Sheltered base env names' x :=
  Arena.Attains.carry hx (fun _ hy => .start (hpasses.stands hbase hcoherent hy))
    fun _ _ howner hs hnot => hpasses.holds hbase hsub (Sheltered.mono howner hsub) hs hnot

end Base

theorem Passes.trans (hcoherent : w.Coherent) (hsecond : Passes env names given' w' w'') :
    Passes env names (given ++ given') w w'' where
  roots_eq := hsecond.roots_eq.trans hpasses.roots_eq
  classes_eq := hsecond.classes_eq.trans hpasses.classes_eq
  stays base hbase x o hx ho := by
    have hbase₁ : ∀ y ∈ given, y ∉ base := fun y hy => hbase y (List.mem_append_left _ hy)
    obtain ⟨o', ho', hsame, hpool, hshared⟩ := hpasses.stays base hbase₁ x o hx ho
    obtain ⟨o'', ho'', hsame', hpool', hshared'⟩ :=
      hsecond.stays base (fun y hy => hbase y (List.mem_append_right _ hy)) x o'
        (hpasses.sheltered hbase₁ hcoherent subset_rfl hx) ho'
    refine ⟨o'', ho'', hsame.trans hsame', fun hmem id hown => ?_, fun h => hshared' (hshared h)⟩
    rw [List.mem_append, not_or] at hmem
    exact hpool' hmem.2 id (hpool hmem.1 id hown)

end Passes

section Through

variable (hpasses : Passes env names [] w w')
include hpasses

/-- If nothing was given away, all objects that pools answer for may stand. -/
theorem Passes.sheltered_univ (hcoherent : w.Coherent) (hsub : names ⊆ names')
    (hx : w.Sheltered Set.univ env names' x) : w'.Sheltered Set.univ env names' x :=
  hpasses.sheltered nofun hcoherent hsub hx

theorem Passes.housed (hcoherent : w.Coherent) (hx : w.Housed Set.univ env names x) :
    w'.Housed Set.univ env names x := by
  obtain ⟨o, ho, hpinned⟩ | ⟨s, howner, hs, hnot⟩ := hx
  · have hstands : w.Sheltered Set.univ env names x := Pinned.sheltered hcoherent ⟨o, ho, hpinned⟩
    obtain ⟨o', ho', hsame, _⟩ := hpasses.stays Set.univ nofun x o hstands ho
    exact Or.inl ⟨o', ho', hsame.pinned_eq.trans hpinned⟩
  · obtain ⟨hs', hnot'⟩ := hpasses.holds nofun subset_rfl howner hs hnot
    exact Or.inr ⟨s, hpasses.sheltered_univ hcoherent subset_rfl howner, hs', hnot'⟩

theorem Passes.body (hx : w.Sheltered Set.univ env names x) (ho : w.objects.get? x = some o) :
    ∃ o', w'.objects.get? x = some o' ∧ o.SameBut {name | name ∈ names ∧ x = env} o' := by
  obtain ⟨o', ho', hsame, _⟩ := hpasses.stays Set.univ nofun x o hx ho
  exact ⟨o', ho', hsame⟩

theorem Passes.pinned_back (hcoherent : w.Coherent) (hx : w.Sheltered Set.univ env names x)
    (hpinned : w'.Pinned x) : w.Pinned x := by
  obtain ⟨o', ho', hpinned⟩ := hpinned
  obtain ⟨o, ho⟩ := (hx.keeps hcoherent).live
  obtain ⟨q, hq, hsame⟩ := hpasses.body hx ho
  cases ho'.symm.trans hq
  exact ⟨o, ho, hsame.pinned_eq.symm.trans hpinned⟩

/-- What pools answer for afterwards, and slots hold, no pool answered for before. -/
theorem Passes.not_pooled (hnot : ¬ w'.Pooled x) : ¬ w.Pooled x :=
  fun hx => hnot (hpasses.pooled hx List.not_mem_nil)

/-- What comes next may give away what no pool answered for at the start. -/
theorem Passes.next (hcoherent : w.Coherent) (hsecond : Passes env names given w' w'')
    (hgiven : ∀ x ∈ given, ¬ w.Pooled x) : Passes env names [] w w'' :=
  (hpasses.trans hcoherent hsecond).keep fun x hx => hgiven x (by simpa using hx)

end Through

/-! ## What is handed on -/

/-- Slots go on holding what they hold, and what is given is kept by slots that do not change. -/
structure Supplies (w w' : World) (given : List Handle) : Prop where
  stands : ∀ x, w.Stands Set.univ x → x ∉ given → w'.Stands Set.univ x
  holds : ∀ s y, w.Keeps [] s.owner → w.objects.Holds s y → w'.objects.Holds s y
  frames : ∀ e f, w.Keeps [] e → w'.frame e = .ok f → w.frame e = .ok f
  secure : ∀ y ∈ given, w'.Secure y

section Supplies

variable (hsupplies : w.Supplies w' given) (hcoherent : w.Coherent)
include hsupplies hcoherent

/-- What was reached through what is given is reached through what it is given to. -/
theorem Supplies.sheltered (hy : w.Sheltered Set.univ env names y) :
    w'.Sheltered Set.univ env names y := by
  refine Arena.Attains.carry hy (fun z hz => ?_) fun s z howner hs hnot => ?_
  · by_cases hmem : z ∈ given
    · exact (hsupplies.secure z hmem).sheltered
    · exact .start (hsupplies.stands z hz hmem)
  · have hkeeps := keeps_of_attains hcoherent howner
    refine ⟨hsupplies.holds s z hkeeps hs, fun hexposed => hnot ?_⟩
    obtain ⟨index, f, name, rfl, hf, hname, hmem⟩ := hexposed
    exact ⟨index, f, name, rfl, hsupplies.frames _ f hkeeps hf, hname, hmem⟩

theorem Supplies.secured (hy : w.Secure y) : w'.Secure y := by
  refine Arena.Attains.carry hy (fun z hz => ?_) fun s z howner hs hnot =>
    ⟨hsupplies.holds s z (keeps_of_attains hcoherent howner) hs, hnot⟩
  by_cases hmem : z ∈ given
  · exact hsupplies.secure z hmem
  · exact .start (hsupplies.stands z hz hmem)

end Supplies

end World

end ObjectSystem

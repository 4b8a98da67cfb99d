/-
# What no operation on objects changes

The write barrier, collections, scopes and pins change the owners, values and contents of
objects, and take objects that are not pinned out of the arena. Whatever they are asked to
do, an object keeps its class and the number of its attributes, and a class that is pinned
stays and keeps its superclasses and the places of all attributes.

What may happen to an object is a parameter of `World.TrimsBy`. It has to allow changes of the
header, and a write has to fit it; all else follows for any `Object.Leeway`.
-/

import ObjectSystem.Proofs.Tidy

namespace ObjectSystem

/-- Two states of a class between which at most values, declared classes, the behavior and
the type tag have changed. -/
structure Class.Stays (d d' : Class) : Prop where
  attrCount_eq : d'.attrCount = d.attrCount
  supers_eq : d'.supers = d.supers
  slots_eq : d'.slots = d.slots
  attrClasses_size : d'.attrClasses.size = d.attrClasses.size
  classAttrs_size : d'.classAttrs.size = d.classAttrs.size

theorem Class.Stays.refl (d : Class) : d.Stays d :=
  ⟨rfl, rfl, rfl, rfl, rfl⟩

theorem Class.Stays.trans {d d' d'' : Class} (hfirst : d.Stays d') (hsecond : d'.Stays d'') :
    d.Stays d'' where
  attrCount_eq := hsecond.attrCount_eq.trans hfirst.attrCount_eq
  supers_eq := hsecond.supers_eq.trans hfirst.supers_eq
  slots_eq := hsecond.slots_eq.trans hfirst.slots_eq
  attrClasses_size := hsecond.attrClasses_size.trans hfirst.attrClasses_size
  classAttrs_size := hsecond.classAttrs_size.trans hfirst.classAttrs_size

theorem Class.stays_setAttrClass (d : Class) (place : Nat) (attrClass : Handle) :
    d.Stays (d.setAttrClass place attrClass) := by
  unfold Class.setAttrClass
  cases place with
  | zero => exact .refl d
  | succ place => exact ⟨rfl, rfl, rfl, by simp, rfl⟩

/-- The payload is neither the descriptor of a class nor a symbol, which tell what an object
is. -/
def Payload.IsContents : Payload → Prop
  | descriptor _ | symbol _ => False
  | _ => True

namespace Payload.IsContents

variable {payload : Payload} (hcontents : payload.IsContents)

include hcontents

theorem ne_descriptor (d : Class) : payload ≠ .descriptor d := by
  rintro rfl
  exact hcontents

theorem ne_symbol (s : Symbol) : payload ≠ .symbol s := by
  rintro rfl
  exact hcontents

end Payload.IsContents

namespace Object

/-- Two states of an object with the same class and as many attributes, that has not been
unpinned in between, has not become a class and was no other symbol before. -/
structure Stays (o o' : Object) : Prop where
  classRef_eq : o'.classRef = o.classRef
  attrs_size : o'.attrs.size = o.attrs.size
  pinned : o.header.pinned = true → o'.header.pinned = true
  descriptor : ∀ d, o.payload = .descriptor d → ∃ d', o'.payload = .descriptor d' ∧ d.Stays d'
  wasClass : ∀ d', o'.payload = .descriptor d' → ∃ d, o.payload = .descriptor d
  symbol : ∀ s, o.payload = .symbol s → o'.payload = .symbol s

variable {o o' o'' : Object}

/-- A class that has stayed comes from one. -/
theorem Stays.described (hstays : o.Stays o') {d' : Class} (hd' : o'.payload = .descriptor d') :
    ∃ d, o.payload = .descriptor d ∧ d.Stays d' := by
  obtain ⟨d, hd⟩ := hstays.wasClass d' hd'
  obtain ⟨d'', hd'', hclass⟩ := hstays.descriptor d hd
  cases hd'.symm.trans hd''
  exact ⟨d, hd, hclass⟩

theorem Stays.trans (hfirst : o.Stays o') (hsecond : o'.Stays o'') : o.Stays o'' where
  classRef_eq := hsecond.classRef_eq.trans hfirst.classRef_eq
  attrs_size := hsecond.attrs_size.trans hfirst.attrs_size
  pinned hpinned := hsecond.pinned (hfirst.pinned hpinned)
  descriptor d hd := by
    obtain ⟨d', hd', hstays⟩ := hfirst.descriptor d hd
    obtain ⟨d'', hd'', hstays'⟩ := hsecond.descriptor d' hd'
    exact ⟨d'', hd'', hstays.trans hstays'⟩
  wasClass d'' hd'' := by
    obtain ⟨d', hd'⟩ := hsecond.wasClass d'' hd''
    exact hfirst.wasClass d' hd'
  symbol s hs := hsecond.symbol s (hfirst.symbol s hs)

/-- The header may change if it does not lose the pin. -/
theorem stays_setHeader (o : Object) (h : Header)
    (hpinned : o.header.pinned = true → h.pinned = true) : o.Stays { o with header := h } :=
  ⟨rfl, rfl, hpinned, fun d hd => ⟨d, hd, .refl d⟩, fun d hd => ⟨d, hd⟩, fun _ hs => hs⟩

theorem Stays.refl (o : Object) : o.Stays o :=
  o.stays_setHeader o.header id

/-- The attributes may change if their number stays. -/
theorem stays_setAttrs (o : Object) {attrs : Array (Option Handle)}
    (hsize : attrs.size = o.attrs.size) : o.Stays { o with attrs := attrs } :=
  ⟨rfl, hsize, id, fun d hd => ⟨d, hd, .refl d⟩, fun d hd => ⟨d, hd⟩, fun _ hs => hs⟩

/-- The length may change, and the payload if it does not tell what the object is. -/
theorem stays_setPayload (o : Object) (length : Nat) (payload : Payload)
    (hpayload : payload = o.payload ∨ o.payload.IsContents ∧ payload.IsContents) :
    o.Stays { o with length := length, payload := payload } := by
  rcases hpayload with rfl | ⟨hbefore, hafter⟩
  · exact ⟨rfl, rfl, id, fun d hd => ⟨d, hd, .refl d⟩, fun d hd => ⟨d, hd⟩, fun _ hs => hs⟩
  · exact ⟨rfl, rfl, id, fun d hd => absurd hd (hbefore.ne_descriptor d),
      fun d hd => absurd hd (hafter.ne_descriptor d), fun s hs => absurd hs (hbefore.ne_symbol s)⟩

/-- A descriptor may change into one that has stayed. -/
theorem stays_setDescriptor {o : Object} {d d' : Class} (hd : o.payload = .descriptor d)
    (hstays : d.Stays d') : o.Stays { o with payload := .descriptor d' } := by
  refine ⟨rfl, rfl, id, fun b hb => ⟨d', rfl, ?_⟩, fun _ _ => ⟨d, hd⟩, fun s hs => ?_⟩
  · cases hd.symm.trans hb
    exact hstays
  · cases hd.symm.trans hs

theorem stays_storeIn (o : Object) (s : Slot) (value : Option Handle) :
    o.Stays (s.storeIn value o) := by
  cases s with
  | attr x index =>
      cases index with
      | zero => exact .refl o
      | succ index => exact o.stays_setAttrs (by simp)
  | classAttr x index =>
      cases hpayload : o.payload with
      | descriptor d =>
          simp only [Slot.storeIn, hpayload]
          exact stays_setDescriptor hpayload ⟨rfl, rfl, rfl, rfl, by simp⟩
      | _ =>
          simp only [Slot.storeIn, hpayload]
          exact .refl o
  | element x index =>
      cases hpayload : o.payload with
      | elements values =>
          simp only [Slot.storeIn, hpayload]
          exact o.stays_setPayload o.length _ (Or.inr ⟨hpayload ▸ trivial, trivial⟩)
      | _ =>
          simp only [Slot.storeIn, hpayload]
          exact .refl o
  | binding x index =>
      cases hpayload : o.payload with
      | environment f =>
          simp only [Slot.storeIn, hpayload]
          exact o.stays_setPayload o.length _ (Or.inr ⟨hpayload ▸ trivial, trivial⟩)
      | _ =>
          simp only [Slot.storeIn, hpayload]
          exact .refl o
  | signature x index =>
      cases hpayload : o.payload with
      | method l =>
          simp only [Slot.storeIn, hpayload]
          exact o.stays_setPayload o.length _ (Or.inr ⟨hpayload ▸ trivial, trivial⟩)
      | _ =>
          simp only [Slot.storeIn, hpayload]
          exact .refl o

/-- What may happen to the object under a handle while a world is trimmed. The header may
change if the object is not unpinned. -/
class Leeway (S : Handle → Object → Object → Prop) : Prop where
  stays : ∀ {x : Handle} {o o' : Object}, S x o o' → o.Stays o'
  trans : ∀ {x : Handle} {o o' o'' : Object}, S x o o' → S x o' o'' → S x o o''
  setHeader : ∀ (x : Handle) (o : Object) (h : Header),
    (o.header.pinned = true → h.pinned = true) → S x o { o with header := h }

theorem Leeway.refl {S : Handle → Object → Object → Prop} [Leeway S] (x : Handle) (o : Object) :
    S x o o :=
  Leeway.setHeader x o o.header id

instance : Leeway fun _ => Stays where
  stays h := h
  trans := Stays.trans
  setHeader _ := stays_setHeader

end Object

namespace Arena

open Object (Leeway)

variable {a a' a'' : Arena Object} {x : Handle} {S : Handle → Object → Object → Prop}

/-- Nothing was put into the arena, nothing that is pinned was taken out, and what is there
has changed as it may. -/
structure TrimsBy (S : Handle → Object → Object → Prop) (a a' : Arena Object) : Prop where
  back : ∀ x o', a'.get? x = some o' → ∃ o, a.get? x = some o ∧ S x o o'
  kept : ∀ x o, a.get? x = some o → o.header.pinned = true → ∃ o', a'.get? x = some o'
  tight : a.Tight → a'.Tight
  counted : a.Counted → a'.Counted
  cells_eq : a'.cells.size = a.cells.size
  inserted_eq : a'.inserted = a.inserted
  removed_le : a.removed ≤ a'.removed

/-- A pinned object has a later state. -/
theorem TrimsBy.get? (htrims : a.TrimsBy S a') {o : Object} (ho : a.get? x = some o)
    (hpinned : o.header.pinned = true) : ∃ o', a'.get? x = some o' ∧ S x o o' := by
  obtain ⟨o', ho'⟩ := htrims.kept x o ho hpinned
  obtain ⟨p, hp, hchange⟩ := htrims.back x o' ho'
  cases hp.symm.trans ho
  exact ⟨o', ho', hchange⟩

variable [Leeway S]

theorem TrimsBy.refl (a : Arena Object) : a.TrimsBy S a :=
  ⟨fun x o' ho' => ⟨o', ho', Leeway.refl x o'⟩, fun _ o ho _ => ⟨o, ho⟩, id, id, rfl, rfl,
    Nat.le_refl _⟩

theorem TrimsBy.trans (hfirst : a.TrimsBy S a') (hsecond : a'.TrimsBy S a'') :
    a.TrimsBy S a'' where
  back x o'' ho'' := by
    obtain ⟨o', ho', hchange'⟩ := hsecond.back x o'' ho''
    obtain ⟨o, ho, hchange⟩ := hfirst.back x o' ho'
    exact ⟨o, ho, Leeway.trans hchange hchange'⟩
  kept x o ho hpinned := by
    obtain ⟨o', ho', hchange⟩ := hfirst.get? ho hpinned
    exact hsecond.kept x o' ho' ((Leeway.stays hchange).pinned hpinned)
  tight htight := hsecond.tight (hfirst.tight htight)
  counted hcounted := hsecond.counted (hfirst.counted hcounted)
  cells_eq := hsecond.cells_eq.trans hfirst.cells_eq
  inserted_eq := hsecond.inserted_eq.trans hfirst.inserted_eq
  removed_le := hfirst.removed_le.trans hsecond.removed_le

theorem trims_modify (a : Arena Object) (x : Handle) {change : Object → Object}
    (hchange : ∀ o : Object, S x o (change o)) : a.TrimsBy S (a.modify x change) where
  back y o' ho' := by
    rw [get?_modify] at ho'
    split at ho'
    · next heq =>
        obtain ⟨o, ho, rfl⟩ := Option.map_eq_some_iff.1 ho'
        exact ⟨o, ho, heq ▸ hchange o⟩
    · exact ⟨o', ho', Leeway.refl y o'⟩
  kept y o ho _ := by
    rw [get?_modify, ho]
    split
    · exact ⟨_, rfl⟩
    · exact ⟨o, rfl⟩
  tight htight := htight.modify x change
  counted hcounted := hcounted.modify x change
  cells_eq := size_cells_modify a x change
  inserted_eq := rfl
  removed_le := Nat.le_refl _

theorem trims_remove (hunpinned : ∀ o, a.get? x = some o → o.header.pinned = false) :
    a.TrimsBy S (a.remove x) where
  back y o' ho' := ⟨o', get?_of_get?_remove ho', Leeway.refl y o'⟩
  kept y o ho hpinned := by
    refine ⟨o, ?_⟩
    rw [get?_remove, if_neg, ho]
    rintro rfl
    rw [hunpinned o ho] at hpinned
    cases hpinned
  tight htight := htight.remove x
  counted hcounted := hcounted.remove x
  cells_eq := size_cells_remove a x
  inserted_eq := inserted_remove a x
  removed_le := (turns_remove a x).removed_le

end Arena

namespace World

open Object (Leeway)

variable {w w' : World} {objects : Arena Object} {S : Handle → Object → Object → Prop}

/-- Nothing was put into the world and no class was registered; nothing that is pinned was
taken out, and what is there has changed as it may. -/
structure TrimsBy (S : Handle → Object → Object → Prop) (w w' : World) : Prop where
  objects : w.objects.TrimsBy S w'.objects
  classes_eq : w'.classes = w.classes
  settings_eq : w'.settings = w.settings

/-- Nothing was put into the world and no class was registered; nothing that is pinned was
taken out, and no class that is pinned has got other superclasses or places. -/
abbrev Trims (w w' : World) : Prop :=
  w.TrimsBy (fun _ => Object.Stays) w'

/-- Whatever else has happened, no class that is pinned has got other superclasses or places. -/
theorem TrimsBy.trims [Leeway S] (htrims : w.TrimsBy S w') : w.Trims w' where
  objects := { htrims.objects with
    back := fun x o' ho' => by
      obtain ⟨o, ho, hchange⟩ := htrims.objects.back x o' ho'
      exact ⟨o, ho, Leeway.stays hchange⟩ }
  classes_eq := htrims.classes_eq
  settings_eq := htrims.settings_eq

section Steps

variable [Leeway S]

theorem trims_reclaim (objects : Arena Object) (pending : List Handle) :
    objects.TrimsBy S (reclaim objects pending) := by
  fun_induction reclaim objects pending with
  | case1 objects => exact .refl objects
  | case2 _ _ _ _ ih => exact ih
  | case3 _ _ _ _ _ _ ih => exact ih
  | case4 objects x pending o hx hpinned objects' ih =>
      refine (Arena.trims_remove fun p hp => ?_).trans ih
      cases hx.symm.trans hp
      exact Bool.eq_false_iff.2 hpinned

theorem trims_mark (objects : Arena Object) (pending : List Handle) :
    objects.TrimsBy S (mark objects pending) := by
  fun_induction mark objects pending with
  | case1 objects => exact .refl objects
  | case2 _ _ _ _ ih => exact ih
  | case3 _ _ _ _ _ _ ih => exact ih
  | case4 objects x _ _ _ _ ih =>
      exact (Arena.trims_modify objects x fun o => Leeway.setHeader x o o.header.mark id).trans ih

theorem trims_foldl_sweep (objects : Arena Object) (l : List Handle) :
    objects.TrimsBy S (l.foldl sweep objects) := by
  induction l generalizing objects with
  | nil => exact .refl objects
  | cons x l ih =>
      refine Arena.TrimsBy.trans ?_ (ih _)
      unfold sweep
      split
      · exact .refl objects
      · next o ho =>
          split
          · exact Arena.trims_modify objects x fun o => Leeway.setHeader x o o.header.unmark id
          · next hsweep =>
              refine Arena.trims_remove fun p hp => ?_
              cases ho.symm.trans hp
              simp only [Bool.or_eq_true, not_or, Bool.not_eq_true] at hsweep
              exact hsweep.2

instance : IsPreorder World (TrimsBy S) where
  refl w := ⟨.refl w.objects, rfl, rfl⟩
  trans _ _ _ hfirst hsecond := ⟨hfirst.objects.trans hsecond.objects,
    hsecond.classes_eq.trans hfirst.classes_eq, hsecond.settings_eq.trans hfirst.settings_eq⟩

theorem TrimsBy.of_eq (hobjects : w'.objects = w.objects) (hclasses : w'.classes = w.classes)
    (hsettings : w'.settings = w.settings) : w.TrimsBy S w' :=
  ⟨by rw [hobjects]; exact .refl w.objects, hclasses, hsettings⟩

theorem trims_modifyObject (w : World) (x : Handle) {change : Object → Object}
    (hchange : ∀ o : Object, S x o (change o)) : w.TrimsBy S (w.modifyObject x change) :=
  ⟨Arena.trims_modify w.objects x hchange, rfl, rfl⟩

theorem trims_free (w : World) (x : Handle) : w.TrimsBy S (w.free x) :=
  ⟨trims_reclaim w.objects [x], rfl, rfl⟩

theorem trims_collect (w : World) (extra : List Handle) : w.TrimsBy S (w.collect extra).2 :=
  ⟨(trims_mark _ _).trans (trims_foldl_sweep _ _), rfl, rfl⟩

end Steps

end World

namespace Action

open World
open Object (Leeway)

variable {S : Handle → Object → Object → Prop} [Leeway S]

theorem trims_setOwnership (x : Handle) (own : Ownership) :
    Keeps (TrimsBy S) (modify (·.setOwnership x own)) :=
  keeps_modify fun w => w.trims_modifyObject x fun o => Leeway.setHeader x o _ id

theorem trims_addToPool (x : Handle) (id : PoolId) : (addToPool x id).Keeps (TrimsBy S) :=
  keeps_addToPool (fun _ => .of_eq rfl rfl rfl) (trims_setOwnership x _)

theorem trims_removeFromPool (x : Handle) (id : PoolId) :
    (removeFromPool x id).Keeps (TrimsBy S) :=
  keeps_removeFromPool fun _ _ _ _ _ => .of_eq rfl rfl rfl

theorem trims_promote (x : Handle) : (promote x).Keeps (TrimsBy S) :=
  keeps_promote (trims_addToPool x _) fun _ => .of_eq rfl rfl rfl

theorem trims_claim (x : Handle) : (claim x).Keeps (TrimsBy S) := by
  unfold claim
  refine keeps_bind (keeps_query _) fun own => ?_
  cases own with
  | pool id => exact keeps_bind (trims_removeFromPool x id) fun _ => trims_setOwnership x _
  | single => exact trims_promote x
  | shared => exact keeps_pure _

theorem trims_share (x : Handle) : (share x).Keeps (TrimsBy S) :=
  keeps_share (trims_removeFromPool x) (trims_promote x)

theorem trims_letGo (x : Handle) : (letGo x).Keeps (TrimsBy S) := by
  unfold letGo
  refine keeps_bind (keeps_query _) fun own => ?_
  split
  · exact keeps_modify fun w => w.trims_free x
  · exact keeps_pure _

theorem trims_set {s : Slot} {value : Option Handle}
    (hstore : ∀ o, S s.owner o (s.storeIn value o)) : (set s value).Keeps (TrimsBy S) :=
  keeps_set trims_claim (fun w => w.trims_modifyObject s.owner hstore) trims_letGo

theorem trims_setAttr {x : Handle} {s : Symbol} {value : Option Handle}
    (hstore : ∀ index o, S x o ((Slot.attr x index).storeIn value o)) :
    (setAttr x s value).Keeps (TrimsBy S) := by
  unfold setAttr
  refine keeps_bind (keeps_query _) fun c => keeps_bind (keeps_query _) fun l => ?_
  split
  · exact keeps_throw _
  · exact keeps_bind (keeps_query _) fun _ => trims_set (hstore _)
  · exact keeps_bind keeps_get fun _ => keeps_throw _

theorem trims_collect (extra : List Handle) : (collect extra).Keeps (TrimsBy S) :=
  keeps_modifyGet fun w => w.trims_collect extra

theorem trims_pin (x : Handle) : (pin x).Keeps (TrimsBy S) :=
  keeps_pin (trims_removeFromPool x) (fun _ => .of_eq rfl rfl rfl) fun w =>
    w.trims_modifyObject x fun o => Leeway.setHeader x o _ fun _ => rfl

theorem trims_handOver (x : Handle) (id : PoolId) : (handOver x id).Keeps (TrimsBy S) :=
  keeps_handOver (trims_removeFromPool x id) (trims_addToPool x) fun _ => .of_eq rfl rfl rfl

theorem trims_saveResult (id : PoolId) (result : Except Error Handle) :
    (saveResult id result).Keeps (TrimsBy S) :=
  keeps_saveResult (fun x => trims_handOver x id) trims_share result

theorem trims_openScope : openScope.Keeps (TrimsBy S) :=
  keeps_modifyGet fun _ => .of_eq rfl rfl rfl

theorem trims_releasePool (id : PoolId) : (releasePool id).Keeps (TrimsBy S) := by
  unfold releasePool
  refine keeps_bind (keeps_query _) fun (closed, pools) => keeps_modifyGet fun w => ?_
  refine trans_of (TrimsBy S) ?_ (World.foldl_along (R := TrimsBy S) _ _ fun w pool =>
    World.foldl_along w _ fun w x => w.trims_free x)
  split
  · exact .of_eq rfl rfl rfl
  · exact .of_eq rfl rfl rfl

theorem trims_closeScope (id : PoolId) (result : Except Error Handle) :
    (closeScope id result).Keeps (TrimsBy S) :=
  keeps_bind (keeps_outcome (trims_saveResult id result)) fun _ =>
    keeps_bind (keeps_outcome (trims_releasePool id)) fun _ =>
      keeps_bind (keeps_query _) fun _ => keeps_bind (keeps_query _) fun _ => keeps_query _

end Action

end ObjectSystem

/-
# Rewriting what objects hold

What the steps of a definition do to the arena comes down to this: what the objects hold is
rewritten, and some empty chains are new. A slot that was empty is written without anything
being freed, so nothing goes but what a collection does not keep.

A rewriting that adds overloads to chains, and chains to classes, is a step by which methods
grow.
-/

import ObjectSystem.Proofs.Approach
import ObjectSystem.Proofs.Exchange

namespace ObjectSystem

open Relation

namespace World

variable {settings : Settings} {a : Annals} {w w' w₁ w₂ : World} {c m n x y v : Handle} {s : Symbol}
  {l : Array Signature} {g : Growth} {payload : Payload}

/-- Every object is still there, and what it holds has been rewritten. -/
structure Rewrites (w w' : World) (rewrite : Handle → Payload → Payload) : Prop where
  classes_eq : w'.classes = w.classes
  inserted_eq : w'.objects.inserted = w.objects.inserted
  classOf_eq : ∀ y, w'.classOf y = w.classOf y
  payload?_eq : ∀ y, w'.payload? y = (w.payload? y).map (rewrite y)

/-- What a collection of a tidy world keeps is still there, and what it holds has been rewritten.
Some chains without overloads are new. -/
structure Redrafts (w w' : World) (isNew : Handle → Prop) (rewrite : Handle → Payload → Payload) :
    Prop where
  classes_eq : w'.classes = w.classes
  classOf_eq : ∀ y, w.objects.Live y → w'.objects.Live y → w'.classOf y = w.classOf y
  class_eq : ∀ c d, w.Describes c d → w'.payload? c = some (rewrite c (.descriptor d))
  kept : w.Tidy → ∀ y, w.Keeps [] y → w'.payload? y = (w.payload? y).map (rewrite y)
  values : w.Tidy → ∀ m l, w.signatures m = .ok l → w'.objects.Live m → ∀ sig ∈ l, ∀ y,
    sig.value = some y → w.objects.Live y → w'.objects.Live y
  back : ∀ y payload', w'.payload? y = some payload' →
    (∃ payload, w.payload? y = some payload ∧ payload' = rewrite y payload) ∨
      isNew y ∧ payload' = .method #[]
  new : ∀ y, isNew y → w'.payload? y = some (.method #[])
  stale : ∀ y, isNew y → ¬ w.objects.Live y

theorem Rewrites.trans {f f' : Handle → Payload → Payload} (hfirst : w.Rewrites w₁ f)
    (hsecond : w₁.Rewrites w' f') : w.Rewrites w' fun y => f' y ∘ f y where
  classes_eq := hsecond.classes_eq.trans hfirst.classes_eq
  inserted_eq := hsecond.inserted_eq.trans hfirst.inserted_eq
  classOf_eq y := (hsecond.classOf_eq y).trans (hfirst.classOf_eq y)
  payload?_eq y := by rw [hsecond.payload?_eq, hfirst.payload?_eq, Option.map_map]

/-- Only what objects hold has to be rewritten as told. -/
theorem Rewrites.congr {f f' : Handle → Payload → Payload} (hrewrites : w.Rewrites w' f)
    (hcongr : ∀ y payload, w.payload? y = some payload → f y payload = f' y payload) :
    w.Rewrites w' f' where
  classes_eq := hrewrites.classes_eq
  inserted_eq := hrewrites.inserted_eq
  classOf_eq := hrewrites.classOf_eq
  payload?_eq y := by
    rw [hrewrites.payload?_eq]
    cases hy : w.payload? y with
    | none => rfl
    | some payload => exact congrArg some (hcongr y payload hy)

theorem Rewrites.live_iff {f : Handle → Payload → Payload} (hrewrites : w.Rewrites w' f) :
    w'.objects.Live y ↔ w.objects.Live y := by
  rw [live_iff_payload?, live_iff_payload?, hrewrites.payload?_eq, Option.isSome_map]

theorem Rewrites.redrafts {f : Handle → Payload → Payload} (hrewrites : w.Rewrites w' f) :
    w.Redrafts w' (fun _ => False) f where
  classes_eq := hrewrites.classes_eq
  classOf_eq y _ _ := hrewrites.classOf_eq y
  class_eq c d hd := by
    rw [hrewrites.payload?_eq, descriptor_eq_ok_iff.1 hd.descriptor_eq, Option.map_some]
  kept _ y _ := hrewrites.payload?_eq y
  values _ _ _ _ _ _ _ _ _ hy := hrewrites.live_iff.2 hy
  back y payload' hy := by
    rw [hrewrites.payload?_eq] at hy
    obtain ⟨payload, hpayload, rfl⟩ := Option.map_eq_some_iff.1 hy
    exact Or.inl ⟨payload, hpayload, rfl⟩
  new _ h := h.elim
  stale _ h := h.elim

/-- A new chain is put in, and then objects are rewritten, but not the new chain. -/
theorem Redrafts.rewrite {isNew : Handle → Prop} {f : Handle → Payload → Payload}
    (hredrafts : w.Redrafts w₁ isNew fun _ => id) (hrewrites : w₁.Rewrites w' f)
    (hnew : ∀ y, isNew y → f y (.method #[]) = .method #[]) : w.Redrafts w' isNew f where
  classes_eq := hrewrites.classes_eq.trans hredrafts.classes_eq
  classOf_eq y hy hy' :=
    (hrewrites.classOf_eq y).trans (hredrafts.classOf_eq y hy (hrewrites.live_iff.1 hy'))
  class_eq c d hd := by rw [hrewrites.payload?_eq, hredrafts.class_eq c d hd]; rfl
  kept htidy y hy := by rw [hrewrites.payload?_eq, hredrafts.kept htidy y hy, Option.map_map]; rfl
  values htidy m l hl hm sig hsig y hy hlive :=
    hrewrites.live_iff.2
      (hredrafts.values htidy m l hl (hrewrites.live_iff.1 hm) sig hsig y hy hlive)
  back y payload' hy := by
    rw [hrewrites.payload?_eq] at hy
    obtain ⟨payload, hpayload, rfl⟩ := Option.map_eq_some_iff.1 hy
    rcases hredrafts.back y payload hpayload with ⟨_, hold, rfl⟩ | ⟨hisNew, rfl⟩
    · exact Or.inl ⟨_, hold, rfl⟩
    · exact Or.inr ⟨hisNew, hnew y hisNew⟩
  new y hy := by rw [hrewrites.payload?_eq, hredrafts.new y hy, Option.map_some, hnew y hy]
  stale := hredrafts.stale

/-- The order of the classes rests on their superclasses. -/
theorem Ordered.below_congr (hordered : w.Ordered) (hordered' : w'.Ordered)
    (hclasses : w'.classes = w.classes)
    (hsupers : ∀ c ∈ w.classes, w'.superclasses c = w.superclasses c) (hc : c ∈ w.classes)
    (k : Handle) : w'.Below c k ↔ w.Below c k := by
  have habove : ∀ {c}, c ∈ w.classes → ∀ k, w'.Above c k ↔ w.Above c k := fun hc k => by
    rw [Above, Above, hsupers _ hc]
  rw [hordered.below_iff hc, hordered'.below_iff (hclasses ▸ hc)]
  constructor
  · exact fun h => (reflTransGen_within (S := (· ∈ w.classes)) (fun a b ha hab =>
      have hab := (habove ha b).1 hab
      ⟨hordered.above_mem ha hab, hab⟩) hc h).2
  · exact fun h => (reflTransGen_within (S := (· ∈ w.classes)) (fun a b ha hab =>
      ⟨hordered.above_mem ha hab, (habove ha b).2 hab⟩) hc h).2

/-- What a rewriting has to do to chains and classes to be a step by which methods grow. -/
structure Growth.Realizes (g : Growth) (w : World) (f : Handle → Payload → Payload) : Prop where
  method : ∀ y l, f y (.method l) = .method (l ++ g.added y)
  back : ∀ y payload l', f y payload = .method l' → ∃ l, payload = .method l
  descriptor : ∀ c d, w.descriptor c = .ok d → ∃ d' : Class,
    f c (.descriptor d) = .descriptor d' ∧ d'.supers = d.supers ∧ d'.name = d.name ∧
      ∀ s m, d'.value? s = some m ↔ d.value? s = some m ∨ g.Gains c s m

theorem Redrafts.regrows {f : Handle → Payload → Payload} (hredrafts : w.Redrafts w' g.IsNew f)
    (hf : g.Realizes w f) (hordered : w.Ordered) (htidy : w.Tidy → w'.Tidy) (hfirm' : w'.Firm)
    (hturns : w.objects.Turns w'.objects)
    (hinserted : w'.objects.inserted = w.objects.inserted + g.chains.length)
    (hvalue : ∀ m argClass v, g = .adds m argClass v → w'.objects.Live v) : w.Regrows w' g := by
  have hclass : ∀ c ∈ w.classes, ∃ d d', w.descriptor c = .ok d ∧ w'.descriptor c = .ok d' ∧
      d'.supers = d.supers ∧ d'.name = d.name ∧
      ∀ s m, d'.value? s = some m ↔ d.value? s = some m ∨ g.Gains c s m := fun c hc => by
    obtain ⟨d, hd⟩ := hordered.described c hc
    have hdescriptor := hd.describes.descriptor_eq
    obtain ⟨d', hf, hrest⟩ := hf.descriptor c d hdescriptor
    refine ⟨d, d', hdescriptor, descriptor_eq_ok_iff.2 ?_, hrest⟩
    rw [hredrafts.class_eq c d hd.describes, hf]
  constructor
  case tidy => exact htidy
  case firm => exact hfirm'
  case classes_eq => exact hredrafts.classes_eq
  case turns => exact hturns
  case inserted_eq => exact hinserted
  case classOf_eq => exact hredrafts.classOf_eq
  case values => exact hredrafts.values
  case below_iff =>
      intro b hb
      refine hordered.below_congr hfirm'.ordered hredrafts.classes_eq (fun c hc => ?_) hb
      obtain ⟨d, d', hd, hd', hsupers, _⟩ := hclass c hc
      rw [superclasses, superclasses, hd, hd']
      simp only [bind, Except.bind, pure, Except.pure, hsupers]
  case name_eq =>
      intro c hc d d' hd hd'
      obtain ⟨_, _, hd₁, hd₁', _, hname, _⟩ := hclass c hc
      cases hd.symm.trans hd₁
      cases hd'.symm.trans hd₁'
      exact hname
  case live =>
      intro htidy y hy
      obtain ⟨o, ho⟩ := hy.live
      have hpayload : w'.payload? y = some (f y o.payload) := by
        rw [hredrafts.kept htidy y hy, payload?, ho]
        rfl
      exact live_of_payload? hpayload
  case kept =>
      intro htidy m l hm hl
      rw [signatures_eq_ok_iff] at hl ⊢
      rw [hredrafts.kept htidy m hm, hl, Option.map_some, hf.method]
  case back =>
      intro m l' hl'
      rcases hredrafts.back m _ (signatures_eq_ok_iff.1 hl') with ⟨payload, hm, heq⟩ | ⟨hm, heq⟩
      · obtain ⟨l, rfl⟩ := hf.back m payload l' heq.symm
        rw [hf.method] at heq
        cases heq
        exact Or.inl ⟨l, signatures_eq_ok_iff.2 hm, rfl⟩
      · cases heq
        exact Or.inr ⟨hm, rfl⟩
  case new => exact fun m hm => signatures_eq_ok_iff.2 (hredrafts.new m hm)
  case stale => exact hredrafts.stale
  case value_live => exact hvalue
  case attr_iff =>
      intro c hc s m
      obtain ⟨d, d', hd, hd', _, _, hvalues⟩ := hclass c hc
      rw [classAttr_eq hd, classAttr_eq hd', Except.ok.injEq, Except.ok.injEq]
      exact hvalues s m

/-! ## Writing into an empty slot -/

theorem classOf_eq_of_modify {change : Object → Object}
    (hobjects : w'.objects = w.objects.modify x change)
    (hclass : ∀ o, (change o).classRef = o.classRef) : w'.classOf y = w.classOf y := by
  have hget : w'.objects.get? y = (w.objects.modify x change).get? y := by rw [hobjects]
  rw [Arena.get?_modify] at hget
  cases ho : w.objects.get? y with
  | none =>
      have hnone : w'.objects.get? y = none := by
        rw [hget, ho]
        split <;> rfl
      rw [classOf, classOf, object_eq_error ho, object_eq_error hnone]
  | some o =>
      obtain ⟨o', ho', heq⟩ : ∃ o', w'.objects.get? y = some o' ∧ o'.classRef = o.classRef := by
        rw [hget, ho]
        split
        · exact ⟨_, rfl, hclass o⟩
        · exact ⟨o, rfl, rfl⟩
      rw [classOf_eq_ok ho, classOf_eq_ok ho', heq]

theorem TakesOver.rewrites {value : Option Handle} (htakes : w.TakesOver value w') :
    w.Rewrites w' fun _ => id where
  classes_eq := by cases htakes <;> rfl
  inserted_eq := by cases htakes <;> rfl
  classOf_eq y := by
    cases htakes with
    | absent | shared => rfl
    | taken | promoted => exact classOf_eq_of_modify rfl fun _ => rfl
  payload?_eq y := by
    rw [Option.map_id_fun, id]
    cases htakes with
    | absent | shared => rfl
    | taken | promoted =>
        simp only [payload?, Arena.get?_modify]
        split
        · rw [Option.map_map]
          rfl
        · rfl

theorem TakesOver.live (htakes : w.TakesOver (some v) w₁) : w.objects.Live v := by
  cases htakes with
  | taken ho | promoted ho | shared ho => exact ⟨_, ho⟩

theorem rewrites_modifyObject {change : Object → Object} {f : Handle → Payload → Payload}
    (hclass : ∀ o, (change o).classRef = o.classRef)
    (hchange : ∀ o, (change o).payload = f x o.payload)
    (hother : ∀ {y}, y ≠ x → ∀ payload, f y payload = payload) :
    w.Rewrites (w.modifyObject x change) f where
  classes_eq := rfl
  inserted_eq := rfl
  classOf_eq _ := classOf_eq_of_modify rfl hclass
  payload?_eq y := by
    simp only [payload?, modifyObject, Arena.get?_modify]
    split
    · next heq =>
        subst heq
        rw [Option.map_map, Option.map_map]
        exact congrArg (Option.map · _) (funext hchange)
    · next hne =>
        rw [Option.map_map]
        exact congrArg (Option.map · _) (funext fun o => (hother hne o.payload).symm)

/-- A chain gets one more overload, and nothing else changes. -/
def appends (m : Handle) (sig : Signature) (y : Handle) : Payload → Payload
  | .method l => .method (if y = m then l.push sig else l)
  | other => other

/-- An overload of a chain gets a value, and nothing else changes. -/
def fills (m : Handle) (index : Nat) (v : Handle) (y : Handle) : Payload → Payload
  | .method l =>
      .method (if y = m then l.modify index fun sig => { sig with value := some v } else l)
  | other => other

/-- The method has a further overload, still without a value. -/
def openOverload (w : World) (m : Handle) (argClass : Option Handle) (index : Nat) : World :=
  w.modifyObject m fun o =>
    { o with
      length := index + 1
      payload := match o.payload with
        | .method signatures => .method (signatures.push { argClass := argClass, value := none })
        | other => other }

theorem rewrites_openOverload (w : World) (m : Handle) (argClass : Option Handle) (index : Nat) :
    w.Rewrites (w.openOverload m argClass index)
      (appends m { argClass := argClass, value := none }) :=
  rewrites_modifyObject (fun _ => rfl) (fun o => by cases o.payload <;> simp [appends])
    fun hne payload => by cases payload <;> simp [appends, hne]

theorem realizes_appends {sig : Signature}
    (hadded : ∀ y, g.added y = if y = m then #[sig] else #[])
    (hgains : ∀ c s x, ¬ g.Gains c s x) (w : World) : g.Realizes w (appends m sig) where
  method y l := by
    rw [appends, hadded]
    split
    · rw [Array.push_eq_append]
    · rw [Array.append_empty]
  back y payload l' h := by
    cases payload with
    | method l => exact ⟨l, rfl⟩
    | _ => cases h
  descriptor c d _ := ⟨d, rfl, rfl, rfl, fun s x => (or_iff_left (hgains c s x)).symm⟩

/-- A class comes to hold a value, and nothing else changes. -/
def endows (c : Handle) (change : Class → Class) (y : Handle) : Payload → Payload
  | .descriptor d => .descriptor (if y = c then change d else d)
  | other => other

/-- The class has a further attribute of its own, still without a value. -/
def openAttr (w : World) (c : Handle) (s : Symbol) : World :=
  w.modifyDescriptor c (·.addClassAttr s)

theorem rewrites_openAttr (w : World) (c : Handle) (s : Symbol) :
    w.Rewrites (w.openAttr c s) (endows c (·.addClassAttr s)) :=
  rewrites_modifyObject (fun _ => rfl) (fun o => by cases o.payload <;> simp [endows])
    fun hne payload => by cases payload <;> simp [hne, endows]

theorem Rewrites.endows_trans {change change' : Class → Class}
    (hfirst : w.Rewrites w₁ (endows c change)) (hsecond : w₁.Rewrites w' (endows c change')) :
    w.Rewrites w' (endows c (change' ∘ change)) :=
  (hfirst.trans hsecond).congr fun y payload _ => by
    cases payload <;> simp only [endows, Function.comp]
    split <;> rfl

theorem realizes_endows {change : Class → Class} (hnone : w.classAttr c s = .ok none)
    (hchange : ∀ d, w.descriptor c = .ok d → (change d).supers = d.supers ∧
      (change d).name = d.name ∧ ∀ t, (change d).value? t = if t = s then some x else d.value? t) :
    (Growth.opens c s x).Realizes w (endows c change) where
  method _ _ := by simp [endows, Growth.added]
  back _ payload _ h := by
    cases payload with
    | method l => exact ⟨l, rfl⟩
    | _ => cases h
  descriptor k d hd := by
    by_cases hk : k = c
    · subst hk
      obtain ⟨hsupers, hname, hvalues⟩ := hchange d hd
      rw [classAttr_eq hd, Except.ok.injEq] at hnone
      refine ⟨change d, by rw [endows, if_pos rfl], hsupers, hname, fun t m => ?_⟩
      rw [hvalues]
      split
      · next heq => simp [Growth.Gains, heq, hnone, eq_comm]
      · next hne => simp [Growth.Gains, hne]
    · refine ⟨d, by rw [endows, if_neg hk], rfl, rfl, fun t m => ?_⟩
      simp [Growth.Gains, hk]

end World

end ObjectSystem

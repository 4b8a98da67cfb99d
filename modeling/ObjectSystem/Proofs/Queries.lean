/-
# What queries answer

In a coherent world a query fails for no reason but the handles it was given: it
never reports that the world has lost track of its objects, and it reports a
stale handle only if that very handle was given. What it answers can be reached
from the handles given and from where collections start.
-/

import ObjectSystem.Proofs.Coherence.Barrier
import ObjectSystem.World.Construction

namespace ObjectSystem

namespace World

variable {α β : Type} {w : World} {given given' : List Handle} {x y c : Handle}

/-- A query on given handles answers with a value that has a property, or it blames at
most one of these handles. -/
def Answers (w : World) (given : List Handle) (q : Except Error α) (P : α → Prop) : Prop :=
  match q with
  | .ok a => P a
  | .error e => w.Blames given e

section Rules

variable {q : Except Error α} {P Q : α → Prop}

theorem Answers.ok (hanswers : w.Answers given q P) {a : α} (hq : q = .ok a) : P a := by
  subst hq
  exact hanswers

theorem Answers.error (hanswers : w.Answers given q P) {e : Error} (hq : q = .error e) :
    w.Blames given e := by
  subst hq
  exact hanswers

theorem Answers.imp (hanswers : w.Answers given q P) (himp : ∀ a, P a → Q a) :
    w.Answers given q Q := by
  cases q with
  | ok a => exact himp a hanswers
  | error e => exact hanswers

theorem Answers.mono (hanswers : w.Answers given q P) (hsub : ∀ x ∈ given, x ∈ given') :
    w.Answers given' q P := by
  cases q with
  | ok a => exact hanswers
  | error e => exact Blames.mono hanswers hsub

/-- A live handle is not to blame. -/
theorem Answers.drop (hanswers : w.Answers (x :: given) q P) (hlive : w.objects.Live x) :
    w.Answers given q P := by
  cases q with
  | ok a => exact hanswers
  | error e =>
      cases e with
      | poolCorruption => exact hanswers
      | dangling y =>
          obtain ⟨hmem, hstale⟩ := hanswers
          rcases List.mem_cons.1 hmem with rfl | hmem
          · obtain ⟨o, ho⟩ := hlive
            cases hstale.symm.trans ho
          · exact ⟨hmem, hstale⟩
      | _ => trivial

theorem answers_pure {a : α} (ha : P a) : w.Answers given (pure a) P := ha

theorem answers_bind {Q : β → Prop} {f : α → Except Error β} (hq : w.Answers given q P)
    (hf : ∀ a, P a → w.Answers given (f a) Q) : w.Answers given (q >>= f) Q := by
  cases q with
  | ok a => exact hf a hq
  | error e => exact hq

theorem answers_findSomeM? {Q : β → Prop} {l : List α} {f : α → Except Error (Option β)}
    (hf : ∀ a ∈ l, w.Answers given (f a) fun r => ∀ b, r = some b → Q b) :
    w.Answers given (l.findSomeM? f) fun r => ∀ b, r = some b → Q b := by
  induction l with
  | nil =>
      intro b hb
      cases hb
  | cons a l ih =>
      rw [List.findSomeM?_cons]
      refine answers_bind (hf a List.mem_cons_self) fun r hr => ?_
      cases r with
      | none => exact ih fun a' ha' => hf a' (List.mem_cons_of_mem _ ha')
      | some b => exact hr

end Rules

section Refusals

variable {P : α → Prop}

theorem answers_mismatch {expected : String} :
    w.Answers given (throw (w.mismatch expected x)) P :=
  blames_telling fun _ => trivial

theorem answers_notCallable : w.Answers given (throw (w.notCallable x)) P :=
  blames_telling fun _ => trivial

theorem answers_noSuchAttribute {s : Symbol} :
    w.Answers given (throw (w.noSuchAttribute c s)) P :=
  blames_telling fun _ => trivial

end Refusals

/-- What is reached with handles that are reached is reached without them. -/
theorem Keeps.trans (hy : w.Keeps given y) (hgiven : ∀ x ∈ given, w.Keeps given' x) :
    w.Keeps given' y := by
  refine Arena.Reaches.trans hy fun x hx hlive => ?_
  cases hx with
  | pinned ho hpinned => exact .start (.pinned ho hpinned) hlive
  | builtin hx => exact .start (.builtin hx) hlive
  | root hx => exact .start (.root hx) hlive
  | scope hp hx => exact .start (.scope hp hx) hlive
  | extra hx => exact hgiven x hx

theorem keeps_given (hx : x ∈ given) (hlive : w.objects.Live x) : w.Keeps given x :=
  .start (.extra hx) hlive

theorem keeps_class (hcoherent : w.Coherent) (hc : c ∈ w.classes) : w.Keeps given c := by
  obtain ⟨o, ho, hpinned, _⟩ := hcoherent.linked.known_class c hc
  exact .start (.pinned ho hpinned) ⟨o, ho⟩

/-! ## Objects and classes -/

theorem answers_object (w : World) (x : Handle) :
    w.Answers [x] (w.object x) fun o => w.objects.get? x = some o := by
  cases hx : w.objects.get? x with
  | none =>
      rw [object_eq_error hx]
      exact ⟨List.mem_singleton_self x, hx⟩
  | some o =>
      rw [object_eq_ok hx]
      rfl

theorem answers_ownership (w : World) (x : Handle) :
    w.Answers [x] (w.ownership x) fun own =>
      ∃ o, w.objects.get? x = some o ∧ o.header.ownership = own :=
  answers_bind (w.answers_object x) fun o ho => answers_pure ⟨o, ho, rfl⟩

theorem answers_classOf (hcoherent : w.Coherent) (x : Handle) :
    w.Answers [x] (w.classOf x) fun c => c ∈ w.classes ∧ w.objects.Live x := by
  refine answers_bind (w.answers_object x) fun o ho => answers_pure ⟨?_, o, ho⟩
  exact hcoherent.linked.classes_known x o ho _ List.mem_cons_self

theorem answers_descriptor (w : World) (c : Handle) :
    w.Answers [c] (w.descriptor c) fun d =>
      ∃ o, w.objects.get? c = some o ∧ o.payload = .descriptor d := by
  unfold descriptor
  refine answers_bind (w.answers_object c) fun o ho => ?_
  split
  · next d hpayload => exact answers_pure ⟨o, ho, hpayload⟩
  · exact answers_mismatch

/-- A registered class always has a descriptor. -/
theorem answers_descriptor_of_mem (hcoherent : w.Coherent) (hc : c ∈ w.classes) :
    w.Answers given (w.descriptor c) fun d =>
      ∃ o, w.objects.get? c = some o ∧ o.payload = .descriptor d :=
  ((w.answers_descriptor c).drop (hcoherent.linked.known_live hc)).mono (by simp)

theorem answers_behaviorOf (hcoherent : w.Coherent) (x : Handle) :
    w.Answers [x] (w.behaviorOf x) fun _ => w.objects.Live x := by
  refine answers_bind (answers_classOf hcoherent x) fun c hc => ?_
  refine answers_bind (answers_descriptor_of_mem hcoherent hc.1) fun d _ => ?_
  exact answers_pure hc.2

theorem mem_classes_of_supers (hcoherent : w.Coherent) {o : Object} {d : Class}
    (ho : w.objects.get? x = some o) (hpayload : o.payload = .descriptor d)
    (hc : c ∈ d.supers.toList) : c ∈ w.classes := by
  refine hcoherent.linked.classes_known x o ho c (List.mem_cons_of_mem _ ?_)
  rw [hpayload]
  exact List.mem_append_left _ hc

theorem mem_classes_of_attrClasses (hcoherent : w.Coherent) {o : Object} {d : Class}
    (ho : w.objects.get? x = some o) (hpayload : o.payload = .descriptor d)
    (hc : c ∈ d.attrClasses.toList) : c ∈ w.classes := by
  refine hcoherent.linked.classes_known x o ho c (List.mem_cons_of_mem _ ?_)
  rw [hpayload]
  exact List.mem_append_right _ hc

theorem answers_superclasses (hcoherent : w.Coherent) (c : Handle) :
    w.Answers [c] (w.superclasses c) fun supers => ∀ d ∈ supers, d ∈ w.classes :=
  answers_bind (w.answers_descriptor c) fun _ ⟨_, ho, hpayload⟩ =>
    answers_pure fun _ hc => mem_classes_of_supers hcoherent ho hpayload hc

/-- A search along the hierarchy fails only as its test does. It tests the class that it
starts from and registered classes. -/
theorem answers_search (hcoherent : w.Coherent) {Q : β → Prop} (given : List Handle)
    (test : Handle → Except Error (Option β)) (fuel : Nat) (c : Handle)
    (htest : ∀ d, d = c ∨ d ∈ w.classes →
      w.Answers (d :: given) (test d) fun r => ∀ b, r = some b → Q b) :
    w.Answers (c :: given) (w.search test fuel c) fun r => ∀ b, r = some b → Q b := by
  induction fuel generalizing c with
  | zero => trivial
  | succ fuel ih =>
      unfold search
      refine answers_bind (htest c (Or.inl rfl)) fun r hr => ?_
      cases r with
      | some b => exact answers_pure hr
      | none =>
          refine answers_bind ((answers_superclasses hcoherent c).mono (by simp))
            fun supers hsupers => answers_findSomeM? fun d hd => ?_
          have hmem := hsupers d hd
          refine ((ih d fun d' hd' => htest d' (Or.inr ?_)).drop
            (hcoherent.linked.known_live hmem)).mono fun y hy => List.mem_cons_of_mem _ hy
          rcases hd' with rfl | hd'
          · exact hmem
          · exact hd'

theorem answers_isAssignableClass (hcoherent : w.Coherent) (c target : Handle) :
    w.Answers [c] (w.isAssignableClass c target) fun _ => True := by
  refine answers_bind (answers_search (Q := fun _ => True) hcoherent [] _ _ c fun d _ => ?_)
    fun _ _ => trivial
  exact answers_pure fun _ _ => trivial

theorem answers_isAssignable (hcoherent : w.Coherent) (x target : Handle) :
    w.Answers [x] (w.isAssignable x target) fun _ => True :=
  answers_bind (answers_classOf hcoherent x) fun c hc =>
    ((answers_isAssignableClass hcoherent c target).drop
      (hcoherent.linked.known_live hc.1)).mono (by simp)

theorem answers_ancestorsFrom (hcoherent : w.Coherent) (met pending : List Handle) :
    w.Answers pending (w.ancestorsFrom met pending) fun _ => True := by
  fun_induction w.ancestorsFrom met pending with
  | case1 => trivial
  | case2 met c pending hmet ih => exact ih.mono fun y hy => List.mem_cons_of_mem _ hy
  | case3 met c pending hmet e he =>
      exact ((answers_superclasses hcoherent c).error he).mono (by simp)
  | case4 met c pending hmet supers hsupers ih =>
      have hknown := (answers_superclasses hcoherent c).ok hsupers
      have hdrop : ∀ l : List Handle, (∀ d ∈ l, d ∈ w.classes) →
          ∀ {q : Except Error (List Handle)},
            w.Answers (l ++ pending) q (fun _ => True) → w.Answers pending q fun _ => True := by
        intro l hl q hq
        induction l with
        | nil => exact hq
        | cons d l ih =>
            exact ih (fun d' hd' => hl d' (List.mem_cons_of_mem _ hd'))
              (hq.drop (hcoherent.linked.known_live (hl d List.mem_cons_self)))
      exact (hdrop supers hknown ih).mono fun y hy => List.mem_cons_of_mem _ hy

theorem answers_ancestors (hcoherent : w.Coherent) (c : Handle) :
    w.Answers [c] (w.ancestors c) fun _ => True :=
  answers_ancestorsFrom hcoherent [] [c]

/-! ## Attributes -/

theorem mem_refs_of_readIn {s : Slot} {o : Object} (hread : s.readIn w o = .ok (some y)) :
    y ∈ o.refs := by
  by_cases hwritable : s.IsWritable
  · have hpeek := (Slot.readIn_eq_ok_iff hwritable).1 hread
    exact Object.mem_refs_iff.2 (Or.inr ⟨s, rfl, hpeek⟩)
  · simp only [Slot.IsWritable, not_forall, not_not] at hwritable
    obtain ⟨z, rfl⟩ := hwritable
    cases hread
    exact List.mem_cons_self

theorem exists_readIn_of_read {s : Slot} {v : Option Handle} (hread : w.read s = .ok v) :
    ∃ o, w.objects.get? s.owner = some o ∧ s.readIn w o = .ok v := by
  cases hx : w.objects.get? s.owner with
  | none =>
      rw [World.read, object_eq_error hx] at hread
      cases hread
  | some o =>
      rw [World.read, object_eq_ok hx] at hread
      exact ⟨o, rfl, hread⟩

theorem answers_read (hcoherent : w.Coherent) (s : Slot) :
    w.Answers [s.owner] (w.read s) fun v => ∀ y, v = some y → w.Keeps [s.owner] y := by
  cases hread : w.read s with
  | error e => exact Action.blames_read hread
  | ok v =>
      rintro y rfl
      obtain ⟨o, ho, hread⟩ := exists_readIn_of_read hread
      have hy := mem_refs_of_readIn hread
      exact (keeps_given List.mem_cons_self ⟨o, ho⟩).ref ho hy (hcoherent.linked.ref_live ho hy)

theorem answers_heldAttr (w : World) (s : Symbol) (c : Handle) :
    w.Answers [c] (w.heldAttr s c) fun r =>
      ∀ l, r = some l → ∃ index, l = .inClass c index := by
  unfold heldAttr
  refine answers_bind (w.answers_descriptor c) fun d _ => ?_
  split
  · next index _ =>
      refine answers_pure fun l hl => ?_
      cases hl
      exact ⟨index, rfl⟩
  · exact answers_pure fun _ hl => by cases hl

/-- An attribute is found in the object, where its class says, in the class or in a registered
class. -/
theorem answers_resolveAttr (hcoherent : w.Coherent) (c : Handle) (s : Symbol) :
    w.Answers [c] (w.resolveAttr c s) fun l =>
      (∀ holder index, l = .inClass holder index → w.objects.Live holder ∧
        (holder = c ∨ holder ∈ w.classes)) ∧
        ∀ place, l = .inInstance place → ∃ o d, w.objects.get? c = some o ∧
          o.payload = .descriptor d ∧ d.slot s = .inInstance place := by
  unfold resolveAttr
  split
  · exact answers_pure ⟨nofun, nofun⟩
  · refine answers_bind (w.answers_descriptor c) fun d ⟨o, ho, hpayload⟩ => ?_
    split
    · next place hplace =>
        refine answers_pure ⟨nofun, fun _ hl => ?_⟩
        cases hl
        exact ⟨o, d, ho, hpayload, hplace⟩
    · refine answers_pure ⟨fun holder index hl => ?_, nofun⟩
      cases hl
      exact ⟨⟨o, ho⟩, Or.inl rfl⟩
    · refine answers_bind (answers_superclasses hcoherent c) fun supers hsupers => ?_
      have hsearch : w.Answers [c] (supers.findSomeM? (w.search (w.heldAttr s) w.walkLimit))
          fun r => ∀ l, r = some l → ∃ holder index, l = .inClass holder index ∧
            holder ∈ w.classes := by
        refine answers_findSomeM? fun d hd => ?_
        have hd' := hsupers d hd
        have hall := answers_search hcoherent [] (w.heldAttr s) w.walkLimit d
          (Q := fun l => ∃ holder index, l = .inClass holder index ∧ holder ∈ w.classes)
          fun e he => (w.answers_heldAttr s e).imp fun r hr l hl => by
            obtain ⟨index, rfl⟩ := hr l hl
            refine ⟨e, index, rfl, ?_⟩
            rcases he with rfl | he
            · exact hd'
            · exact he
        exact (hall.drop (hcoherent.linked.known_live hd')).mono (by simp)
      refine answers_bind hsearch fun found hfound => answers_pure ?_
      cases found with
      | none => exact ⟨nofun, nofun⟩
      | some l =>
          obtain ⟨holder, index, rfl, hholder⟩ := hfound l rfl
          refine ⟨fun _ _ hl => ?_, nofun⟩
          cases hl
          exact ⟨hcoherent.linked.known_live hholder, Or.inr hholder⟩

theorem answers_getAttr (hcoherent : w.Coherent) (x : Handle) (s : Symbol) :
    w.Answers [x] (w.getAttr x s) fun v => ∀ y, v = some y → w.Keeps [x] y := by
  unfold getAttr
  refine answers_bind (answers_classOf hcoherent x) fun c ⟨hc, _⟩ => ?_
  have hlive := hcoherent.linked.known_live hc
  refine answers_bind ((answers_resolveAttr hcoherent c s).drop hlive |>.mono (by simp))
    fun l hl => ?_
  split
  · refine answers_pure fun y hy => ?_
    cases hy
    exact keeps_class hcoherent hc
  · exact answers_read hcoherent _
  · next holder index =>
      have hholder : w.Keeps [c] holder := by
        obtain ⟨hlive', rfl | hmem⟩ := hl.1 holder index rfl
        · exact keeps_given List.mem_cons_self hlive'
        · exact keeps_class hcoherent hmem
      have hread := (answers_read hcoherent (.classAttr holder index.toNat)).drop hholder.live
      refine (hread.mono (by simp)).imp fun v hv y hy => (hv y hy).trans fun z hz => ?_
      rw [List.mem_singleton.1 hz]
      exact hholder.trans fun z' hz' => by
        rw [List.mem_singleton.1 hz']
        exact keeps_class hcoherent hc
  · exact answers_noSuchAttribute

theorem answers_checkAttr (hcoherent : w.Coherent) (c : Handle) (place : Nat)
    (value : Option Handle) :
    w.Answers (c :: value.toList) (w.checkAttr c place value) fun _ => True := by
  unfold checkAttr
  refine answers_bind ((w.answers_descriptor c).mono (by simp)) fun d ⟨o, ho, hpayload⟩ => ?_
  split
  · next x declared hplace =>
      split
      · trivial
      · refine answers_bind ((answers_isAssignable hcoherent x declared).mono (by simp))
          fun _ _ => ?_
        split
        · have hmem : declared ∈ w.classes := by
            refine mem_classes_of_attrClasses hcoherent ho hpayload ?_
            cases place with
            | zero => cases hplace
            | succ place => exact Array.mem_toList_iff.2 (Array.mem_of_getElem? hplace)
          exact answers_bind (answers_descriptor_of_mem hcoherent hmem) fun _ _ =>
            answers_mismatch
        · trivial
  · trivial

/-! ## Contents -/

theorem answers_symbolOf (w : World) (x : Handle) :
    w.Answers [x] (w.symbolOf x) fun _ => True := by
  unfold symbolOf
  refine answers_bind (w.answers_object x) fun o _ => ?_
  split
  · trivial
  · exact answers_mismatch

theorem answers_nativeOf (w : World) (x : Handle) :
    w.Answers [x] (w.nativeOf x) fun _ => True := by
  unfold nativeOf
  refine answers_bind (w.answers_object x) fun o _ => ?_
  split
  · trivial
  · exact answers_notCallable

/-- The items of a linked list are reached from the list, unless the null object stands
in for them. -/
theorem answers_items (hcoherent : w.Coherent) (list : Handle) :
    w.Answers [list] (w.items list) fun items =>
      ∀ y ∈ items, y = Builtin.null ∨ w.Keeps [list] y := by
  unfold items
  induction w.walkLimit generalizing list with
  | zero =>
      unfold itemsWithin
      split
      · intro y hy
        cases hy
      · trivial
  | succ fuel ih =>
      unfold itemsWithin
      split
      · exact answers_pure fun y hy => by cases hy
      · refine answers_bind (answers_isAssignable hcoherent list _) fun assignable _ => ?_
        split
        · exact answers_mismatch
        · refine answers_bind (answers_getAttr hcoherent list Symbol.head) fun head hhead => ?_
          have hitem : head.getD Builtin.null = Builtin.null ∨
              w.Keeps [list] (head.getD Builtin.null) := by
            cases head with
            | none => exact Or.inl rfl
            | some y => exact Or.inr (hhead y rfl)
          refine answers_bind (answers_getAttr hcoherent list Symbol.next) fun next hnext => ?_
          cases next with
          | none =>
              refine answers_pure fun y hy => ?_
              rw [List.mem_singleton.1 hy]
              exact hitem
          | some rest =>
              have hrest : w.Keeps [list] rest := hnext rest rfl
              refine answers_bind (((ih rest).drop hrest.live).mono (by simp))
                fun items hitems => answers_pure fun y hy => ?_
              rcases List.mem_cons.1 hy with rfl | hy
              · exact hitem
              · refine (hitems y hy).imp (fun h => h) fun hy => hy.trans fun z hz => ?_
                rw [List.mem_singleton.1 hz]
                exact hrest

/-! ## Environments -/

theorem answers_frame (w : World) (env : Handle) :
    w.Answers [env] (w.frame env) fun f =>
      ∃ o, w.objects.get? env = some o ∧ o.payload = .environment f := by
  unfold frame
  refine answers_bind (w.answers_object env) fun o ho => ?_
  split
  · next f hpayload => exact answers_pure ⟨o, ho, hpayload⟩
  · exact answers_mismatch

theorem frame_eq_ok_iff {env : Handle} {f : Frame} : w.frame env = .ok f ↔
    ∃ o, w.objects.get? env = some o ∧ o.payload = .environment f := by
  unfold frame object
  cases w.objects.get? env with
  | none => simp [bind, Except.bind]
  | some o =>
      simp only [bind, Except.bind, Option.some.injEq, exists_eq_left']
      cases o.payload <;> simp [pure, Except.pure, throw, throwThe, MonadExceptOf.throw]

theorem answers_lookupLocal (hcoherent : w.Coherent) (env : Handle) (name : Symbol) :
    w.Answers [env] (w.lookupLocal env name) fun v => ∀ y, v = some y → w.Keeps [env] y := by
  refine answers_bind (w.answers_frame env) fun f ⟨o, ho, hpayload⟩ => answers_pure ?_
  intro y hy
  obtain ⟨index, _, hy⟩ := Option.bind_eq_some_iff.1 hy
  obtain ⟨binding, hbinding, hvalue⟩ := Option.bind_eq_some_iff.1 hy
  have hrefs : y ∈ o.refs := by
    refine Object.mem_refs_iff.2 (Or.inr ⟨.binding env index, rfl, ?_⟩)
    simp [Slot.peek?, hpayload, hbinding, hvalue]
  exact (keeps_given List.mem_cons_self ⟨o, ho⟩).ref ho hrefs (hcoherent.linked.ref_live ho hrefs)

theorem answers_lookup (hcoherent : w.Coherent) (env : Handle) (name : Symbol) :
    w.Answers [env] (w.lookup env name) fun v => ∀ y, v = some y → w.Keeps [env] y := by
  unfold lookup
  induction w.walkLimit generalizing env with
  | zero => trivial
  | succ fuel ih =>
      unfold lookupWithin
      refine answers_bind (answers_lookupLocal hcoherent env name) fun value hvalue => ?_
      cases value with
      | some x => exact answers_pure hvalue
      | none =>
          refine answers_bind (answers_getAttr hcoherent env Symbol.parent)
            fun parent hparent => ?_
          cases parent with
          | none => exact answers_pure fun _ hy => by cases hy
          | some outer =>
              have houter : w.Keeps [env] outer := hparent outer rfl
              refine (((ih outer).drop houter.live).mono (by simp)).imp fun v hv y hy => ?_
              refine (hv y hy).trans fun z hz => ?_
              rw [List.mem_singleton.1 hz]
              exact houter

/-! ## Methods -/

theorem answers_signatures (w : World) (method : Handle) :
    w.Answers [method] (w.signatures method) fun signatures =>
      ∃ o, w.objects.get? method = some o ∧ o.payload = .method signatures := by
  unfold signatures
  refine answers_bind (w.answers_object method) fun o ho => ?_
  split
  · next l hpayload => exact answers_pure ⟨o, ho, hpayload⟩
  · exact answers_mismatch

theorem holds_signature_value {method : Handle} {o : Object} (ho : w.objects.get? method = some o)
    {l : Array Signature} (hpayload : o.payload = .method l) {signature : Signature}
    (hmem : signature ∈ l.toList) (hy : signature.value = some y) :
    ∃ index, w.objects.Holds (.signature method index) y := by
  obtain ⟨i, hi⟩ := Array.mem_iff_getElem?.1 (Array.mem_toList_iff.1 hmem)
  exact ⟨i, o, ho, by simp [Slot.peek?, hpayload, hi, hy]⟩

theorem answers_classAttr (w : World) (c : Handle) (s : Symbol) :
    w.Answers [c] (w.classAttr c s) fun v =>
      ∀ y, v = some y → ∃ index, w.objects.Holds (.classAttr c index) y := by
  refine answers_bind (w.answers_descriptor c) fun d ⟨o, ho, hpayload⟩ => ?_
  split
  · next index _ =>
      refine answers_pure fun y hy => ⟨index.toNat, o, ho, ?_⟩
      rw [Slot.peek?, hpayload]
      exact Option.join_eq_some_iff.1 hy
  · exact answers_pure fun _ hy => by cases hy

/-- What a slot holds is reached with the object that it is in. -/
theorem Keeps.of_holds {s : Slot} (hkeeps : w.Keeps given s.owner) (hcoherent : w.Coherent)
    (hs : w.objects.Holds s y) : w.Keeps given y := by
  have hy := hcoherent.linked.held_live s y hs
  obtain ⟨o, ho, hpeek⟩ := hs
  exact hkeeps.ref ho (Object.mem_refs_iff.2 (Or.inr ⟨s, rfl, hpeek⟩)) hy

theorem keeps_of_holds (hcoherent : w.Coherent) {s : Slot} (hs : w.objects.Holds s y) :
    w.Keeps [s.owner] y := by
  obtain ⟨o, ho, hpeek⟩ := hs
  exact (keeps_given List.mem_cons_self ⟨o, ho⟩).of_holds hcoherent ⟨o, ho, hpeek⟩

section Further

variable {P : Handle → Prop} (hlive : ∀ y, P y → w.objects.Live y)
  (hfurther : ∀ m i y, P m → w.objects.Holds (.signature m i) y → P y)

include hlive hfurther

/-- What matching finds has a property that chains pass on to what their overloads lead to. -/
theorem answers_matchArgs (hcoherent : w.Coherent) (args : List Handle) {l : List Signature}
    (hl : ∀ s ∈ l, ∀ y, s.value = some y → P y) :
    w.Answers args (w.matchArgs args l) fun r => ∀ y, r = some y → P y := by
  induction args generalizing l with
  | nil =>
      intro y hy
      obtain ⟨s, hs, hy⟩ := Option.bind_eq_some_iff.1 hy
      exact hl s (List.mem_of_find?_eq_some hs) y hy
  | cons arg args ih =>
      unfold matchArgs
      refine answers_bind (P := fun r => ∀ v, r = some v → ∀ y, v = some y → P y)
        ?_ fun r hr => answers_pure fun y hy => ?_
      · refine answers_findSomeM? fun s hs => ?_
        split
        · exact answers_pure fun _ hv => by cases hv
        · refine answers_bind ((answers_isAssignable hcoherent arg _).mono (by simp))
            fun assignable _ => ?_
          split
          · exact answers_pure fun _ hv => by cases hv
          · cases hvalue : s.value with
            | none =>
                refine answers_pure fun v hv y hy => ?_
                cases hv
                cases hy
            | some inner =>
                have hinner := hl s hs inner hvalue
                simp only
                split
                · refine answers_bind (((w.answers_signatures inner).drop
                    (hlive inner hinner)).mono (by simp)) fun inners ⟨o, ho, hpayload⟩ => ?_
                  have hmatch := ih (l := inners.toList) fun t ht y hy => by
                    obtain ⟨i, hholds⟩ := holds_signature_value ho hpayload ht hy
                    exact hfurther inner i y hinner hholds
                  refine answers_bind (hmatch.mono fun z hz => List.mem_cons_of_mem _ hz)
                    fun r hr => answers_pure fun v hv y hy => ?_
                  obtain ⟨z, hz, rfl⟩ := Option.map_eq_some_iff.1 hv
                  cases hy
                  exact hr _ hz
                · refine answers_pure fun v hv y hy => ?_
                  cases hv
                  cases hy
                  exact hinner
      cases r with
      | none => cases hy
      | some v => exact hr v rfl y hy

theorem answers_further (hcoherent : w.Coherent) {method : Handle}
    (hmethod : ∀ i y, w.objects.Holds (.signature method i) y → P y) (start : Nat)
    (args : List Handle) :
    w.Answers (method :: args) (w.matchMethod method start args) fun r =>
      ∀ y, r = some y → P y := by
  refine answers_bind ((w.answers_signatures method).mono (by simp))
    fun l ⟨o, ho, hpayload⟩ => ?_
  refine (answers_matchArgs hlive hfurther hcoherent args fun s hs y hy => ?_).mono
    fun z hz => List.mem_cons_of_mem _ hz
  obtain ⟨i, hholds⟩ := holds_signature_value ho hpayload (List.mem_of_mem_drop hs) hy
  exact hmethod i y hholds

/-- A method that fits has the property, if what classes hold has it. -/
theorem answers_inClasses (hcoherent : w.Coherent) (s : Symbol) {c : Handle}
    (hclass : ∀ d i y, d = c ∨ d ∈ w.classes → w.objects.Holds (.classAttr d i) y → P y)
    (args : List Handle) :
    w.Answers (c :: args) (w.findMethodInClass s c args) fun r => ∀ y, r = some y → P y := by
  refine answers_search hcoherent args _ w.walkLimit c fun d hd => ?_
  refine answers_bind ((w.answers_classAttr d s).mono (by simp)) fun chain hchain => ?_
  cases chain with
  | none => exact answers_pure fun _ hy => by cases hy
  | some chain =>
      obtain ⟨index, hholds⟩ := hchain chain rfl
      have hP := hclass d index chain hd hholds
      have hmatch := answers_further hlive hfurther hcoherent (fun i y => hfurther chain i y hP) 0
        args
      exact (hmatch.drop (hlive chain hP)).mono fun z hz => List.mem_cons_of_mem _ hz

end Further

/-- What the overloads of a method lead to is reached from the method. -/
theorem answers_matchMethod (hcoherent : w.Coherent) (method : Handle) (start : Nat)
    (args : List Handle) :
    w.Answers (method :: args) (w.matchMethod method start args) fun r =>
      ∀ y, r = some y → w.Keeps [method] y := by
  exact answers_further (fun _ => Arena.Reaches.live)
    (fun m i y hm => Keeps.of_holds (s := .signature m i) hm hcoherent) hcoherent
    (fun i y => keeps_of_holds hcoherent) start args

/-- A method that fits is reached from the class that the search starts from. -/
theorem answers_findMethodInClass (hcoherent : w.Coherent) (s : Symbol) (c : Handle)
    (args : List Handle) :
    w.Answers (c :: args) (w.findMethodInClass s c args) fun r =>
      ∀ y, r = some y → w.Keeps [c] y := by
  refine answers_inClasses (fun _ => Arena.Reaches.live)
    (fun m i y hm => Keeps.of_holds (s := .signature m i) hm hcoherent) hcoherent s
    (fun d i y hd hs => ?_) args
  rcases hd with rfl | hd
  · exact keeps_of_holds hcoherent hs
  · exact (keeps_class hcoherent hd).of_holds hcoherent hs

end World

end ObjectSystem

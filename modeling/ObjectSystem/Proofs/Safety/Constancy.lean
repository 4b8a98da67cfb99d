/-
# What is read the same again

While names of an environment are bound to other values, questions about what is sheltered from
this are answered as before. Walks count their steps by the number of objects, which may change,
so a walk that ended may not end again; but if it does, it finds the same.

What is read off an object that is sheltered is kept by a slot that does not change.
-/

import ObjectSystem.Proofs.Generics
import ObjectSystem.Proofs.Shelter

namespace ObjectSystem

/-- If both questions are answered, the answers are the same. -/
def Agrees {α : Type} (q q' : Except Error α) : Prop :=
  ∀ a a', q = .ok a → q' = .ok a' → a' = a

section Rules

variable {α β : Type} {q q' : Except Error α}

theorem agrees_pure (a : α) : Agrees (pure a) (pure a) := by
  rintro _ _ ⟨⟩ ⟨⟩
  rfl

theorem agrees_error {e : Error} : Agrees (.error e) q := by
  rintro _ _ ⟨⟩

theorem agrees_error_right {e : Error} : Agrees q (.error e) := by
  rintro _ _ _ ⟨⟩

theorem agrees_bind {f f' : α → Except Error β} (hq : Agrees q q')
    (hf : ∀ a, q = .ok a → q' = .ok a → Agrees (f a) (f' a)) :
    Agrees (q >>= f) (q' >>= f') := by
  intro b b' hb hb'
  obtain ⟨a, ha, hb⟩ := exists_of_bind_eq_ok hb
  obtain ⟨a', ha', hb'⟩ := exists_of_bind_eq_ok hb'
  cases hq a a' ha ha'
  exact hf a ha ha' b b' hb hb'

theorem agrees_findSomeM? {l : List α} {f f' : α → Except Error (Option β)}
    (hf : ∀ a ∈ l, Agrees (f a) (f' a)) : Agrees (l.findSomeM? f) (l.findSomeM? f') := by
  induction l with
  | nil => exact agrees_pure none
  | cons a l ih =>
      rw [List.findSomeM?_cons, List.findSomeM?_cons]
      refine agrees_bind (hf a List.mem_cons_self) fun r _ _ => ?_
      cases r with
      | none => exact ih fun b hb => hf b (List.mem_cons_of_mem _ hb)
      | some b => exact agrees_pure (some b)

end Rules

namespace World

variable {w w' : World} {base : Set Handle} {env x y c : Handle} {names : Set Symbol}
  {name : Symbol} {s : Slot}

theorem nativeOf_eq_ok_iff {f : Native} :
    w.nativeOf x = .ok f ↔ w.payload? x = some (.native f) := by
  unfold nativeOf object World.payload?
  cases w.objects.get? x with
  | none => simp [bind, Except.bind]
  | some o =>
      rcases o with ⟨_, _, _, _, payload⟩
      cases payload <;> simp [bind, Except.bind, pure, Except.pure, throw, throwThe,
        MonadExceptOf.throw]

/-! ## Objects and classes -/

section Passes

variable (hpasses : Passes env names [] w w') (hcoherent : w.Coherent)
include hpasses hcoherent

/-- What is sheltered is there before and afterwards. -/
theorem Passes.found (hx : w.Sheltered Set.univ env names x) : ∃ o o',
    w.objects.get? x = some o ∧ w'.objects.get? x = some o' ∧
      o.SameBut {name | name ∈ names ∧ x = env} o' := by
  obtain ⟨o, ho⟩ := (hx.keeps hcoherent).live
  obtain ⟨o', ho', hsame⟩ := hpasses.body hx ho
  exact ⟨o, o', ho, ho', hsame⟩

/-- Only environments change what they hold. -/
theorem Passes.payload? {p : Payload} (hx : w.Sheltered Set.univ env names x)
    (hp : w.payload? x = some p) (hnot : ∀ f, p ≠ .environment f) : w'.payload? x = some p := by
  obtain ⟨o, o', ho, ho', hsame⟩ := hpasses.found hcoherent hx
  obtain ⟨_, hq, rfl⟩ := payload?_eq_some_iff.1 hp
  cases ho.symm.trans hq
  exact payload?_eq_some_iff.2 ⟨o', ho', hsame.payload_eq hnot⟩

theorem Passes.agrees_classOf (hx : w.Sheltered Set.univ env names x) :
    Agrees (w.classOf x) (w'.classOf x) := by
  obtain ⟨o, o', ho, ho', hsame⟩ := hpasses.found hcoherent hx
  rw [classOf_eq_ok ho, classOf_eq_ok ho', hsame.classRef_eq]
  exact agrees_pure _

theorem Passes.agrees_symbolOf (hx : w.Sheltered Set.univ env names x) :
    Agrees (w.symbolOf x) (w'.symbolOf x) := by
  intro s s' hs hs'
  have hpayload := hpasses.payload? hcoherent hx (symbolOf_eq_ok_iff.1 hs) (by simp)
  cases hpayload.symm.trans (symbolOf_eq_ok_iff.1 hs')
  rfl

theorem Passes.agrees_nativeOf (hx : w.Sheltered Set.univ env names x) :
    Agrees (w.nativeOf x) (w'.nativeOf x) := by
  intro f f' hf hf'
  have hpayload := hpasses.payload? hcoherent hx (nativeOf_eq_ok_iff.1 hf) (by simp)
  cases hpayload.symm.trans (nativeOf_eq_ok_iff.1 hf')
  rfl

/-- A native function was there before. -/
theorem Passes.nativeOf_back {f : Native} (hx : w.Sheltered Set.univ env names x)
    (hf : w'.nativeOf x = .ok f) : w.nativeOf x = .ok f := by
  obtain ⟨o, o', ho, ho', hsame⟩ := hpasses.found hcoherent hx
  obtain ⟨p, hp, hpayload⟩ := payload?_eq_some_iff.1 (nativeOf_eq_ok_iff.1 hf)
  cases ho'.symm.trans hp
  exact nativeOf_eq_ok_iff.2 (payload?_eq_some_iff.2 ⟨o, ho,
    (hsame.symm.payload_eq (by simp [hpayload])).trans hpayload⟩)

theorem Passes.agrees_descriptor (hc : c ∈ w.classes) :
    Agrees (w.descriptor c) (w'.descriptor c) := by
  intro d d' hd hd'
  have hx : w.Sheltered Set.univ env names c :=
    (pinned_of_mem_classes hcoherent hc).sheltered hcoherent
  have hpayload := hpasses.payload? hcoherent hx (descriptor_eq_ok_iff.1 hd) (by simp)
  cases hpayload.symm.trans (descriptor_eq_ok_iff.1 hd')
  rfl

theorem Passes.agrees_behaviorOf (hx : w.Sheltered Set.univ env names x) :
    Agrees (w.behaviorOf x) (w'.behaviorOf x) := by
  refine agrees_bind (hpasses.agrees_classOf hcoherent hx) fun c hc _ => ?_
  refine agrees_bind (hpasses.agrees_descriptor hcoherent
    ((answers_classOf hcoherent x).ok hc).1) fun d _ _ => agrees_pure _

theorem Passes.agrees_superclasses (hc : c ∈ w.classes) :
    Agrees (w.superclasses c) (w'.superclasses c) :=
  agrees_bind (hpasses.agrees_descriptor hcoherent hc) fun _ _ _ => agrees_pure _

/-- A search finds the same, if the test does, however many steps it may take. -/
theorem Passes.agrees_search {β : Type} {test test' : Handle → Except Error (Option β)}
    (htest : ∀ c ∈ w.classes, Agrees (test c) (test' c)) (fuel fuel' : Nat) (hc : c ∈ w.classes) :
    Agrees (w.search test fuel c) (w'.search test' fuel' c) := by
  induction fuel generalizing fuel' c with
  | zero => exact agrees_error
  | succ fuel ih =>
      cases fuel' with
      | zero => exact agrees_error_right
      | succ fuel' =>
          unfold search
          refine agrees_bind (htest c hc) fun r _ _ => ?_
          cases r with
          | some b => exact agrees_pure (some b)
          | none =>
              refine agrees_bind (hpasses.agrees_superclasses hcoherent hc) fun supers hsupers _ =>
                agrees_findSomeM? fun d hd => ih fuel' ?_
              exact (answers_superclasses hcoherent c).ok hsupers d hd

/-! ## Attributes -/

theorem Passes.agrees_resolveAttr (hc : c ∈ w.classes) (s : Symbol) :
    Agrees (w.resolveAttr c s) (w'.resolveAttr c s) := by
  unfold resolveAttr
  split
  · exact agrees_pure _
  · refine agrees_bind (hpasses.agrees_descriptor hcoherent hc) fun d _ _ => ?_
    split
    · exact agrees_pure _
    · exact agrees_pure _
    · refine agrees_bind (hpasses.agrees_superclasses hcoherent hc) fun supers hsupers _ => ?_
      refine agrees_bind (agrees_findSomeM? fun d hd => ?_) fun _ _ _ => agrees_pure _
      refine hpasses.agrees_search hcoherent (fun e he => ?_) _ _
        ((answers_superclasses hcoherent c).ok hsupers d hd)
      unfold heldAttr
      refine agrees_bind (hpasses.agrees_descriptor hcoherent he) fun d _ _ => ?_
      split <;> exact agrees_pure _

/-- An attribute and what a class holds are read off what does not change. -/
theorem Passes.agrees_read (howner : w.Sheltered Set.univ env names s.owner)
    (hs : (∃ x index, s = .attr x index) ∨ ∃ c index, s = .classAttr c index) :
    Agrees (w.read s) (w'.read s) := by
  intro v v' hv hv'
  obtain ⟨o, o', ho, ho', hsame⟩ := hpasses.found hcoherent howner
  obtain ⟨p, hp, hread⟩ := exists_readIn_of_read hv
  obtain ⟨p', hp', hread'⟩ := exists_readIn_of_read hv'
  cases ho.symm.trans hp
  cases ho'.symm.trans hp'
  rcases hs with ⟨x, index, rfl⟩ | ⟨c, index, rfl⟩
  · cases index with
    | zero =>
        cases hread
        cases hread'
        rw [hsame.classRef_eq]
    | succ index =>
        simp only [Slot.readIn, Slot.entry_eq_ok_iff, Object.slot?, hsame.attrs_eq] at hread hread'
        exact Option.some.inj (hread'.symm.trans hread)
  · cases hpayload : o.payload with
    | descriptor d =>
        have hpayload' := (hsame.payload_eq (by simp [hpayload])).trans hpayload
        simp only [Slot.readIn, hpayload, hpayload', Slot.entry_eq_ok_iff] at hread hread'
        exact Option.some.inj (hread'.symm.trans hread)
    | _ =>
        simp only [Slot.readIn, hpayload] at hread
        cases hread

theorem Passes.agrees_getAttr (hx : w.Sheltered Set.univ env names x) (s : Symbol) :
    Agrees (w.getAttr x s) (w'.getAttr x s) := by
  unfold getAttr
  refine agrees_bind (hpasses.agrees_classOf hcoherent hx) fun c hc _ => ?_
  have hmem := ((answers_classOf hcoherent x).ok hc).1
  refine agrees_bind (hpasses.agrees_resolveAttr hcoherent hmem s) fun l hl _ => ?_
  cases l with
  | ofClass => exact agrees_pure _
  | inInstance place =>
      exact hpasses.agrees_read (s := .attr x place.toNat) hcoherent hx (Or.inl ⟨_, _, rfl⟩)
  | inClass holder index =>
      have hholder : holder ∈ w.classes := by
        rcases (((answers_resolveAttr hcoherent c s).ok hl).1 holder index rfl).2 with rfl | h
        · exact hmem
        · exact h
      exact hpasses.agrees_read (s := .classAttr holder index.toNat) hcoherent
        ((pinned_of_mem_classes hcoherent hholder).sheltered hcoherent) (Or.inr ⟨_, _, rfl⟩)
  | absent => exact agrees_error

end Passes

/-- What is read is the class of an object, or a slot holds it. -/
theorem holds_of_read (hcoherent : w.Coherent) (hread : w.read s = .ok (some y)) :
    w.objects.Holds s y ∨ y ∈ w.classes := by
  obtain ⟨o, ho, hread⟩ := exists_readIn_of_read hread
  by_cases hwritable : s.IsWritable
  · exact Or.inl ⟨o, ho, (Slot.readIn_eq_ok_iff hwritable).1 hread⟩
  · simp only [Slot.IsWritable, not_forall, not_not] at hwritable
    obtain ⟨z, rfl⟩ := hwritable
    cases hread
    exact Or.inr (hcoherent.linked.classes_known _ o ho _ List.mem_cons_self)

section Coherent

variable (hcoherent : w.Coherent)
include hcoherent

/-- What an object shows is kept in it, or in its class. -/
theorem Sheltered.getAttr (hx : w.Sheltered base env names x) {s : Symbol}
    (hy : w.getAttr x s = .ok (some y)) : w.Housed base env names y := by
  have hslot : ∀ {s : Slot}, w.Sheltered base env names s.owner → ¬ s.IsBinding →
      w.read s = .ok (some y) → w.Housed base env names y := by
    intro s howner hs hread
    rcases holds_of_read hcoherent hread with hholds | hmem
    · exact Or.inr ⟨s, howner, hholds, fun hexposed => hs hexposed.isBinding⟩
    · exact housed_of_mem_classes hcoherent hmem
  obtain ⟨c, hc, hy⟩ := exists_of_bind_eq_ok hy
  have hmem := ((answers_classOf hcoherent x).ok hc).1
  obtain ⟨l, hl, hy⟩ := exists_of_bind_eq_ok hy
  split at hy
  · cases hy
    exact housed_of_mem_classes hcoherent hmem
  · exact hslot (s := .attr x _) hx id hy
  · next holder index =>
      refine hslot (s := .classAttr holder index.toNat) ?_ id hy
      rcases (((answers_resolveAttr hcoherent c _).ok hl).1 holder index rfl).2 with rfl | h
      · exact (pinned_of_mem_classes hcoherent hmem).sheltered hcoherent
      · exact (pinned_of_mem_classes hcoherent h).sheltered hcoherent
  · cases hy

/-- If an object shows nothing, the null object stands for what it shows. -/
theorem Sheltered.getAttr_getD (hx : w.Sheltered base env names x) (hnull : w.Pinned Builtin.null)
    {s : Symbol} {v : Option Handle} (hv : w.getAttr x s = .ok v) :
    w.Housed base env names (v.getD Builtin.null) := by
  cases v with
  | none => exact Or.inl hnull
  | some y => exact hx.getAttr hcoherent hv

end Coherent

/-! ## Lists -/

theorem itemsWithin_null (w : World) (hnull : isNull x = true) (fuel : Nat) :
    w.itemsWithin fuel x = .ok [] := by
  cases fuel <;> exact if_pos hnull

theorem Passes.agrees_isAssignable (hpasses : Passes env names [] w w') (hcoherent : w.Coherent)
    (hx : w.Sheltered Set.univ env names x) (c : Handle) :
    Agrees (w.isAssignable x c) (w'.isAssignable x c) := by
  refine agrees_bind (hpasses.agrees_classOf hcoherent hx) fun d hd _ => ?_
  exact agrees_bind (hpasses.agrees_search hcoherent (fun _ _ => agrees_pure _) _ _
    ((answers_classOf hcoherent x).ok hd).1) fun _ _ _ => agrees_pure _

theorem Passes.agrees_items (hpasses : Passes env names [] w w') (hcoherent : w.Coherent)
    (hx : w.Sheltered Set.univ env names x) : Agrees (w.items x) (w'.items x) := by
  unfold items
  generalize w.walkLimit = fuel
  generalize w'.walkLimit = fuel'
  induction fuel generalizing fuel' x with
  | zero =>
      by_cases hnull : isNull x = true
      · rw [itemsWithin_null w hnull, itemsWithin_null w' hnull]
        exact agrees_pure []
      · rw [show w.itemsWithin 0 x = .error .endlessWalk from if_neg hnull]
        exact agrees_error
  | succ fuel ih =>
      by_cases hnull : isNull x = true
      · rw [itemsWithin_null w hnull, itemsWithin_null w' hnull]
        exact agrees_pure []
      · cases fuel' with
        | zero =>
            rw [show w'.itemsWithin 0 x = .error .endlessWalk from if_neg hnull]
            exact agrees_error_right
        | succ fuel' =>
            unfold itemsWithin
            rw [if_neg hnull, if_neg hnull]
            refine agrees_bind (hpasses.agrees_isAssignable hcoherent hx _) fun assignable _ _ => ?_
            split
            · exact agrees_error
            refine agrees_bind (hpasses.agrees_getAttr hcoherent hx Symbol.head) fun _ _ _ => ?_
            refine agrees_bind (hpasses.agrees_getAttr hcoherent hx Symbol.next)
              fun next hnext _ => ?_
            cases next with
            | none => exact agrees_pure _
            | some rest =>
                have hrest := (hx.getAttr hcoherent hnext).sheltered hcoherent
                exact agrees_bind (ih hrest fuel') fun _ _ _ => agrees_pure _

/-- The items of a list are kept in its cells. -/
theorem Sheltered.items (hcoherent : w.Coherent) (hnull : w.Pinned Builtin.null)
    (hx : w.Sheltered base env names x) {items : List Handle} (hitems : w.items x = .ok items)
    (hy : y ∈ items) : w.Housed base env names y := by
  unfold World.items at hitems
  generalize w.walkLimit = fuel at hitems
  induction fuel generalizing x items with
  | zero =>
      unfold itemsWithin at hitems
      split at hitems
      · cases hitems
        cases hy
      · cases hitems
  | succ fuel ih =>
      unfold itemsWithin at hitems
      split at hitems
      · cases hitems
        cases hy
      · obtain ⟨assignable, _, hitems⟩ := exists_of_bind_eq_ok hitems
        split at hitems
        · cases hitems
        · obtain ⟨head, hhead, hitems⟩ := exists_of_bind_eq_ok hitems
          obtain ⟨next, hnext, hitems⟩ := exists_of_bind_eq_ok hitems
          have hitem := hx.getAttr_getD hcoherent hnull hhead
          cases next with
          | none =>
              cases hitems
              rw [List.mem_singleton.1 hy]
              exact hitem
          | some rest =>
              obtain ⟨others, hothers, hitems⟩ := exists_of_bind_eq_ok hitems
              cases hitems
              rcases List.mem_cons.1 hy with rfl | hy
              · exact hitem
              · exact ih ((hx.getAttr hcoherent hnext).sheltered hcoherent) hy hothers

/-! ## Environments -/

/-- A name that was not bound meanwhile has the value that it had. -/
theorem Passes.agrees_lookup {e : Handle} (hpasses : Passes env names [] w w')
    (hcoherent : w.Coherent) (he : w.Sheltered Set.univ env names e) (hname : name ∉ names) :
    Agrees (w.lookup e name) (w'.lookup e name) := by
  unfold lookup
  generalize w.walkLimit = fuel
  generalize w'.walkLimit = fuel'
  induction fuel generalizing fuel' e with
  | zero => exact agrees_error
  | succ fuel ih =>
      cases fuel' with
      | zero => exact agrees_error_right
      | succ fuel' =>
          have hlocal : Agrees (w.lookupLocal e name) (w'.lookupLocal e name) := by
            intro v v' hv hv'
            obtain ⟨f, hf, hv⟩ := exists_of_bind_eq_ok hv
            obtain ⟨f', hf', hv'⟩ := exists_of_bind_eq_ok hv'
            cases hv
            cases hv'
            obtain ⟨o, o', ho, ho', hsame⟩ := hpasses.found hcoherent he
            obtain ⟨p, hp, hpayload⟩ := frame_eq_ok_iff.1 hf
            obtain ⟨p', hp', hpayload'⟩ := frame_eq_ok_iff.1 hf'
            cases ho.symm.trans hp
            cases ho'.symm.trans hp'
            obtain ⟨g, hg, hframe⟩ := hsame.environment hpayload
            cases hpayload'.symm.trans hg
            exact hframe.get?_eq fun h => hname h.1
          unfold lookupWithin
          refine agrees_bind hlocal fun v _ _ => ?_
          cases v with
          | some y => exact agrees_pure _
          | none =>
              refine agrees_bind (hpasses.agrees_getAttr hcoherent he Symbol.parent)
                fun parent hparent _ => ?_
              cases parent with
              | none => exact agrees_pure _
              | some outer => exact ih ((he.getAttr hcoherent hparent).sheltered hcoherent) fuel'

/-- The value of a name is kept by a binding of the name. -/
theorem Sheltered.lookup {e : Handle} (hcoherent : w.Coherent)
    (he : w.Sheltered base env names e) (hname : name ∉ names)
    (hy : w.lookup e name = .ok (some y)) : w.Housed base env names y := by
  unfold World.lookup at hy
  generalize w.walkLimit = fuel at hy
  induction fuel generalizing e with
  | zero => cases hy
  | succ fuel ih =>
      unfold lookupWithin at hy
      obtain ⟨v, hv, hy⟩ := exists_of_bind_eq_ok hy
      cases v with
      | some z =>
          cases hy
          obtain ⟨f, hf, hv⟩ := exists_of_bind_eq_ok hv
          obtain ⟨index, hbinding, _⟩ := Frame.get?_eq_some_iff.1 (Except.ok.inj hv)
          exact Binds.housed ⟨f, index, hf, hbinding⟩ he hname
      | none =>
          obtain ⟨parent, hparent, hy⟩ := exists_of_bind_eq_ok hy
          cases parent with
          | none => cases hy
          | some outer => exact ih ((he.getAttr hcoherent hparent).sheltered hcoherent) hy

end World

end ObjectSystem

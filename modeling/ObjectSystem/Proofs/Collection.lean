/-
# Collections are exact

`Arena.Reaches` says what references lead to, without saying how to find it. The
search marks exactly that, starting from an arena without marks; the sweep keeps
exactly what is marked and leaves no mark behind.
-/

import ObjectSystem.Proofs.Graph
import ObjectSystem.World.Collection

namespace ObjectSystem

namespace Object

variable {o o' : Object}

/-- Two objects are the same but for their marks. -/
def SameButMark (o o' : Object) : Prop :=
  o.unmark = o'.unmark

theorem SameButMark.refs_eq (hsame : o.SameButMark o') : o.refs = o'.refs := by
  show o.unmark.refs = o'.unmark.refs
  rw [show o.unmark = o'.unmark from hsame]

theorem SameButMark.pinned_eq (hsame : o.SameButMark o') :
    o.header.pinned = o'.header.pinned :=
  congrArg (fun p => p.header.pinned) hsame

theorem unmark_of_unmarked (hmark : o.header.marked = false) : o.unmark = o := by
  cases o with
  | mk header =>
      cases header
      simp_all [unmark, Header.unmark]

end Object

namespace Arena

variable {a a' : Arena Object} {start start' : Handle → Prop} {x y : Handle} {o : Object}

/-- The objects that references lead to from given handles. Stale handles lead
nowhere. -/
inductive Reaches (a : Arena Object) (start : Handle → Prop) : Handle → Prop where
  | start {x : Handle} (hstart : start x) (hlive : a.Live x) : Reaches a start x
  | ref {x y : Handle} {o : Object} (hreach : Reaches a start x) (hx : a.get? x = some o)
      (hy : y ∈ o.refs) (hlive : a.Live y) : Reaches a start y

theorem Reaches.live (hreach : a.Reaches start x) : a.Live x := by
  cases hreach with
  | start _ hlive => exact hlive
  | ref _ _ _ hlive => exact hlive

/-- What is reached from handles that are reached themselves is reached. -/
theorem Reaches.trans (hreach : a.Reaches start' x)
    (hstart : ∀ y, start' y → a.Live y → a.Reaches start y) : a.Reaches start x := by
  induction hreach with
  | start hx hlive => exact hstart _ hx hlive
  | ref _ hx hy hlive ih => exact ih.ref hx hy hlive

/-- All objects stay, with the same contents and headers but for the mark. -/
def Remarks (a a' : Arena Object) : Prop :=
  ∀ x, (a'.get? x).map Object.unmark = (a.get? x).map Object.unmark

theorem Remarks.get? (hremarks : a.Remarks a') (hx : a.get? x = some o) :
    ∃ o', a'.get? x = some o' ∧ o'.SameButMark o := by
  have hsame := hremarks x
  rw [hx, Option.map_some, Option.map_eq_some_iff] at hsame
  exact hsame

theorem Remarks.symm (hremarks : a.Remarks a') : a'.Remarks a :=
  fun x => (hremarks x).symm

theorem Remarks.live (hremarks : a.Remarks a') (hx : a.Live x) : a'.Live x := by
  obtain ⟨o, ho⟩ := hx
  obtain ⟨o', ho', _⟩ := hremarks.get? ho
  exact ⟨o', ho'⟩

/-- Marks do not change what references lead to. -/
theorem Remarks.reaches (hremarks : a.Remarks a') (hreach : a.Reaches start x) :
    a'.Reaches start x := by
  induction hreach with
  | start hx hlive => exact Reaches.start hx (hremarks.live hlive)
  | ref _ hx hy hlive ih =>
      obtain ⟨o', ho', hsame⟩ := hremarks.get? hx
      exact ih.ref ho' (hsame.refs_eq ▸ hy) (hremarks.live hlive)

theorem remarks_modify_mark (a : Arena Object) (x : Handle) :
    a.Remarks (a.modify x Object.mark) := by
  intro y
  rw [get?_modify]
  split
  · cases a.get? y <;> rfl
  · rfl

/-- A live object has its mark. -/
def Marked (a : Arena Object) (x : Handle) : Prop :=
  ∃ o, a.get? x = some o ∧ o.header.marked = true

theorem marked_modify_mark_iff (hx : a.get? x = some o) :
    (a.modify x Object.mark).Marked y ↔ y = x ∨ a.Marked y := by
  unfold Marked
  rw [puts_modify hx y]
  by_cases heq : y = x
  · simp [heq, Object.mark, Header.mark]
  · simp [heq]

end Arena

namespace World

open Arena

variable {objects : Arena Object} {pending : List Handle} {x y : Handle} {o : Object}

theorem mark_remarks (objects : Arena Object) (pending : List Handle) :
    objects.Remarks (mark objects pending) := by
  fun_induction mark objects pending with
  | case1 => exact fun _ => rfl
  | case2 _ _ _ _ ih => exact ih
  | case3 _ _ _ _ _ _ ih => exact ih
  | case4 objects x _ _ _ _ ih =>
      intro y
      rw [ih y, remarks_modify_mark objects x y]

theorem addressed_mark (haddressed : objects.Addressed) (pending : List Handle) :
    (mark objects pending).Addressed := by
  fun_induction mark objects pending with
  | case1 => exact haddressed
  | case2 _ _ _ _ ih => exact ih haddressed
  | case3 _ _ _ _ _ _ ih => exact ih haddressed
  | case4 _ x _ _ _ _ ih => exact ih (haddressed.modify x Object.mark)

theorem removed_mark (objects : Arena Object) (pending : List Handle) :
    (mark objects pending).removed = objects.removed := by
  fun_induction mark objects pending with
  | case1 => rfl
  | case2 _ _ _ _ ih => exact ih
  | case3 _ _ _ _ _ _ ih => exact ih
  | case4 _ _ _ _ _ _ ih => exact ih

theorem marked_mark_of_marked (hmarked : objects.Marked x) :
    (mark objects pending).Marked x := by
  fun_induction mark objects pending with
  | case1 => exact hmarked
  | case2 _ _ _ _ ih => exact ih hmarked
  | case3 _ _ _ _ _ _ ih => exact ih hmarked
  | case4 _ _ _ _ ho _ ih => exact ih ((marked_modify_mark_iff ho).2 (Or.inr hmarked))

/-- The search marks nothing that references do not lead to. -/
theorem reaches_of_marked_mark (hmarked : (mark objects pending).Marked x) :
    objects.Marked x ∨ objects.Reaches (· ∈ pending) x := by
  have hmore : ∀ {a : Arena Object} {z : Handle} {l : List Handle},
      a.Reaches (· ∈ l) x → a.Reaches (· ∈ z :: l) x := fun hreach =>
    hreach.trans fun y hy hlive => Reaches.start (List.mem_cons_of_mem _ hy) hlive
  fun_induction mark objects pending with
  | case1 => exact Or.inl hmarked
  | case2 _ _ _ _ ih => exact (ih hmarked).imp id hmore
  | case3 _ _ _ _ _ _ ih => exact (ih hmarked).imp id hmore
  | case4 objects z pending o ho _ ih =>
      have hz : objects.Reaches (· ∈ z :: pending) z :=
        Reaches.start List.mem_cons_self ⟨o, ho⟩
      rcases ih hmarked with hbefore | hreach
      · rcases (marked_modify_mark_iff ho).1 hbefore with rfl | hbefore
        · exact Or.inr hz
        · exact Or.inl hbefore
      · refine Or.inr ((((remarks_modify_mark objects z).symm).reaches hreach).trans ?_)
        intro y hy hlive
        rcases List.mem_append.1 hy with hy | hy
        · exact hz.ref ho hy hlive
        · exact Reaches.start (List.mem_cons_of_mem _ hy) hlive

/-- Every reference of a marked object leads to a marked object or to one that is
still to be visited. -/
def Closing (objects : Arena Object) (pending : List Handle) : Prop :=
  ∀ x o, objects.get? x = some o → o.header.marked = true →
    ∀ y ∈ o.refs, objects.Live y → objects.Marked y ∨ y ∈ pending

/-- A handle that leads nowhere new may be left out. -/
theorem Closing.tail (hclosing : Closing objects (x :: pending))
    (hx : objects.Live x → objects.Marked x) : Closing objects pending := by
  intro z o ho hmark y hy hlive
  rcases hclosing z o ho hmark y hy hlive with hy | hy
  · exact Or.inl hy
  · rcases List.mem_cons.1 hy with rfl | hy
    · exact Or.inl (hx hlive)
    · exact Or.inr hy

/-- When an object is marked its references are still to be visited. -/
theorem Closing.visit (hclosing : Closing objects (x :: pending)) (hx : objects.get? x = some o) :
    Closing (objects.modify x Object.mark) (o.refs ++ pending) := by
  have hback := (remarks_modify_mark objects x).symm
  intro z p hp hmark y hy hlive
  rw [marked_modify_mark_iff hx, List.mem_append]
  by_cases heq : z = x
  · subst heq
    rw [puts_modify hx z, if_pos rfl, Option.some.injEq] at hp
    subst hp
    exact Or.inr (Or.inl hy)
  · rw [puts_modify hx z, if_neg heq] at hp
    rcases hclosing z p hp hmark y hy (hback.live hlive) with hy | hy
    · exact Or.inl (Or.inr hy)
    · rcases List.mem_cons.1 hy with rfl | hy
      · exact Or.inl (Or.inl rfl)
      · exact Or.inr (Or.inr hy)

/-- The search visits all that it has to. -/
theorem closing_mark (hclosing : Closing objects pending) :
    Closing (mark objects pending) [] ∧
      ∀ x ∈ pending, objects.Live x → (mark objects pending).Marked x := by
  fun_induction mark objects pending with
  | case1 objects => exact ⟨hclosing, by simp⟩
  | case2 objects x pending hx ih =>
      have hstale : ¬ objects.Live x := by
        rintro ⟨o, ho⟩
        cases hx.symm.trans ho
      obtain ⟨hclosed, hall⟩ := ih (hclosing.tail fun hlive => absurd hlive hstale)
      refine ⟨hclosed, fun y hy hlive => ?_⟩
      rcases List.mem_cons.1 hy with rfl | hy
      · exact absurd hlive hstale
      · exact hall y hy hlive
  | case3 objects x pending o hx hmark ih =>
      obtain ⟨hclosed, hall⟩ := ih (hclosing.tail fun _ => ⟨o, hx, hmark⟩)
      refine ⟨hclosed, fun y hy hlive => ?_⟩
      rcases List.mem_cons.1 hy with rfl | hy
      · exact marked_mark_of_marked ⟨o, hx, hmark⟩
      · exact hall y hy hlive
  | case4 objects x pending o hx hmark ih =>
      obtain ⟨hclosed, hall⟩ := ih (hclosing.visit hx)
      refine ⟨hclosed, fun y hy hlive => ?_⟩
      rcases List.mem_cons.1 hy with rfl | hy
      · exact marked_mark_of_marked ((marked_modify_mark_iff hx).2 (Or.inl rfl))
      · exact hall y (List.mem_append_right _ hy)
          ((remarks_modify_mark objects x).live hlive)

/-- No object has its mark. -/
def Clear (objects : Arena Object) : Prop :=
  objects.All fun o => o.header.marked = false

/-- From an arena without marks, the search marks what references lead to and
nothing else. -/
theorem marked_mark_iff (hclear : Clear objects) :
    (mark objects pending).Marked x ↔ objects.Reaches (· ∈ pending) x := by
  have hnone : ∀ y, ¬ objects.Marked y := by
    rintro y ⟨o, ho, hmark⟩
    rw [hclear.get? ho] at hmark
    cases hmark
  constructor
  · intro hmarked
    exact (reaches_of_marked_mark hmarked).resolve_left (hnone x)
  · intro hreach
    have hstart : Closing objects pending := fun y o ho hmark =>
      absurd ⟨o, ho, hmark⟩ (hnone y)
    obtain ⟨hclosed, hall⟩ := closing_mark hstart
    induction hreach with
    | start hx hlive => exact hall _ hx hlive
    | ref _ hx hy hlive ih =>
        obtain ⟨o', ho', hmark⟩ := ih
        obtain ⟨p, hp, hsame⟩ := (mark_remarks objects pending).get? hx
        cases ho'.symm.trans hp
        have hlive' := (mark_remarks objects pending).live hlive
        exact (hclosed _ _ ho' hmark _ (hsame.refs_eq ▸ hy) hlive').resolve_right
          (List.not_mem_nil)

/-! ## The sweep -/

/-- What the sweep leaves of an object. -/
def swept (o : Object) : Option Object :=
  if o.header.marked || o.header.pinned then some o.unmark else none

theorem get?_sweep (objects : Arena Object) (x y : Handle) :
    (sweep objects x).get? y =
      if y = x then (objects.get? y).bind swept else objects.get? y := by
  unfold sweep swept
  split
  · next hx =>
      split
      · next heq => rw [heq, hx, Option.bind_none]
      · rfl
  · next o hx =>
      split
      · next hstays =>
          rw [puts_modify hx y]
          split
          · next heq => rw [heq, hx, Option.bind_some, if_pos hstays]
          · rfl
      · next hgoes =>
          rw [get?_remove]
          split
          · next heq => rw [heq, hx, Option.bind_some, if_neg hgoes]
          · rfl

theorem get?_foldl_sweep {l : List Handle} (hnodup : l.Nodup) (objects : Arena Object)
    (y : Handle) :
    (l.foldl sweep objects).get? y =
      if y ∈ l then (objects.get? y).bind swept else objects.get? y := by
  induction l generalizing objects with
  | nil => rfl
  | cons x l ih =>
      obtain ⟨hx, hl⟩ := List.nodup_cons.1 hnodup
      rw [List.foldl_cons, ih hl, get?_sweep]
      by_cases heq : y = x
      · subst heq
        simp [hx]
      · simp [heq]

theorem removed_sweep (objects : Arena Object) (x : Handle) :
    (sweep objects x).removed =
      objects.removed + if ((objects.get? x).any fun o => (swept o).isNone) then 1 else 0 := by
  unfold sweep
  split
  · next hx => simp [hx]
  · next o hx =>
      split
      · next hstays =>
          have hswept : swept o = some o.unmark := if_pos hstays
          simp [hx, hswept, Arena.modify]
      · next hgoes =>
          have hswept : swept o = none := if_neg hgoes
          have hlive : objects.contains x = true := contains_iff.2 ⟨o, hx⟩
          simp [hx, hswept, Arena.remove, hlive]

theorem removed_foldl_sweep {l : List Handle} (hnodup : l.Nodup) (objects : Arena Object) :
    (l.foldl sweep objects).removed =
      objects.removed +
        l.countP fun x => (objects.get? x).any fun o => (swept o).isNone := by
  induction l generalizing objects with
  | nil => rfl
  | cons x l ih =>
      obtain ⟨hx, hl⟩ := List.nodup_cons.1 hnodup
      have hrest : (l.countP fun y => ((sweep objects x).get? y).any fun o => (swept o).isNone) =
          l.countP fun y => (objects.get? y).any fun o => (swept o).isNone := by
        refine List.countP_congr fun y hy => ?_
        have hne : y ≠ x := by
          rintro rfl
          exact hx hy
        rw [get?_sweep, if_neg hne]
      rw [List.foldl_cons, ih hl, hrest, removed_sweep, List.countP_cons]
      omega

/-! ## Whole collections -/

/-- Where a collection with further roots starts from. -/
inductive IsRoot (w : World) (extra : List Handle) (x : Handle) : Prop where
  | pinned {o : Object} (hx : w.objects.get? x = some o) (hpinned : o.header.pinned = true)
  | builtin (hx : x ∈ Builtin.roots)
  | root (hx : x ∈ w.roots)
  | scope {p : Pool} (hp : p ∈ w.pools.innermostFirst) (hx : x ∈ p.toList)
  | extra (hx : x ∈ extra)

variable {w : World} {extra : List Handle}

theorem isPinned_iff : w.isPinned x = true ↔
    ∃ o, w.objects.get? x = some o ∧ o.header.pinned = true := by
  unfold isPinned
  cases w.objects.get? x <;> simp

theorem mem_collectionRoots_iff : x ∈ w.collectionRoots extra ↔ w.IsRoot extra x := by
  simp only [collectionRoots, PoolStack.scopeObjects, List.mem_append, List.mem_filter,
    List.mem_flatMap, List.mem_reverse]
  constructor
  · rintro ((((⟨_, hx⟩ | hx) | hx) | ⟨p, hp, hx⟩) | hx)
    · obtain ⟨o, ho, hpinned⟩ := isPinned_iff.1 hx
      exact .pinned ho hpinned
    · exact .builtin hx
    · exact .root hx
    · exact .scope hp hx
    · exact .extra hx
  · intro hroot
    cases hroot with
    | pinned ho hpinned =>
        exact Or.inl (Or.inl (Or.inl (Or.inl
          ⟨mem_handles_of_get? ho, isPinned_iff.2 ⟨_, ho, hpinned⟩⟩)))
    | builtin hx => exact Or.inl (Or.inl (Or.inl (Or.inr hx)))
    | root hx => exact Or.inl (Or.inl (Or.inr hx))
    | scope hp hx => exact Or.inl (Or.inr ⟨_, hp, hx⟩)
    | extra hx => exact Or.inr hx

/-- What a collection with further roots starts from leads to an object. -/
def Keeps (w : World) (extra : List Handle) (x : Handle) : Prop :=
  w.objects.Reaches (w.IsRoot extra) x

theorem reaches_collectionRoots_iff :
    w.objects.Reaches (· ∈ w.collectionRoots extra) x ↔ w.Keeps extra x := by
  unfold Keeps
  simp only [mem_collectionRoots_iff]

/-- What collections do not start from, and only what is collected itself refers to, is not
kept. -/
theorem not_mem_of_keeps {apart : List Handle} (hroots : ∀ x ∈ w.collectionRoots extra, x ∉ apart)
    (hrefs : ∀ x ∈ w.objects.handles, x ∉ apart →
      ∀ y ∈ (w.objects.get? x).elim [] Object.refs, y ∉ apart)
    (hkeeps : w.Keeps extra x) : x ∉ apart := by
  induction hkeeps with
  | start hroot _ => exact hroots _ (mem_collectionRoots_iff.2 hroot)
  | ref _ hx hy _ ih => exact hrefs _ (mem_handles_of_get? hx) ih _ (by rwa [hx])

theorem get?_collect_eq_bind (haddressed : w.objects.Addressed) (x : Handle) :
    (w.collect extra).2.objects.get? x =
      ((mark w.objects (w.collectionRoots extra)).get? x).bind swept := by
  have haddressed' := addressed_mark haddressed (w.collectionRoots extra)
  show (List.foldl sweep _ _).get? x = _
  rw [get?_foldl_sweep (nodup_handles haddressed')]
  split
  · rfl
  · next hx =>
      rw [mem_handles_iff haddressed', ← contains_iff, Bool.not_eq_true,
        contains_eq_false_iff] at hx
      rw [hx, Option.bind_none]

/-- After a collection an object is there, as it was, if it is reached, and it is
gone if it is not. -/
theorem get?_collect (hclear : Clear w.objects) (haddressed : w.objects.Addressed) :
    (w.collect extra).2.objects.get? x = some o ↔
      w.objects.get? x = some o ∧ w.Keeps extra x := by
  have hremarks := mark_remarks w.objects (w.collectionRoots extra)
  have hmarked : ∀ y, (mark w.objects (w.collectionRoots extra)).Marked y ↔ w.Keeps extra y :=
    fun y => (marked_mark_iff hclear).trans reaches_collectionRoots_iff
  rw [get?_collect_eq_bind haddressed]
  constructor
  · intro hx
    obtain ⟨p, hp, hswept⟩ := Option.bind_eq_some_iff.1 hx
    obtain ⟨q, hq, hsame⟩ := hremarks.symm.get? hp
    unfold swept at hswept
    split at hswept
    · next hstays =>
        cases hswept
        have heq : q = p.unmark := (Object.unmark_of_unmarked (hclear.get? hq)).symm.trans hsame
        refine ⟨heq ▸ hq, ?_⟩
        rcases Bool.or_eq_true_iff.1 hstays with hmark | hpinned
        · exact (hmarked x).1 ⟨p, hp, hmark⟩
        · exact Reaches.start (.pinned hq (hsame.pinned_eq.trans hpinned)) ⟨q, hq⟩
    · cases hswept
  · rintro ⟨hx, hkeeps⟩
    obtain ⟨p, hp, hmark⟩ := (hmarked x).2 hkeeps
    obtain ⟨q, hq, hsame⟩ := hremarks.symm.get? hp
    cases hq.symm.trans hx
    rw [hp, Option.bind_some, swept, if_pos (by rw [hmark, Bool.true_or])]
    rw [← hsame, Object.unmark_of_unmarked (hclear.get? hx)]

theorem live_collect_iff (hclear : Clear w.objects) (haddressed : w.objects.Addressed) :
    (w.collect extra).2.objects.Live x ↔ w.Keeps extra x := by
  constructor
  · rintro ⟨o, ho⟩
    exact ((get?_collect hclear haddressed).1 ho).2
  · intro hkeeps
    obtain ⟨o, ho⟩ := hkeeps.live
    exact ⟨o, (get?_collect hclear haddressed).2 ⟨ho, hkeeps⟩⟩

theorem addressed_foldl_sweep {l : List Handle} (haddressed : objects.Addressed) :
    (l.foldl sweep objects).Addressed := by
  induction l generalizing objects with
  | nil => exact haddressed
  | cons x l ih =>
      refine ih ?_
      unfold sweep
      split
      · exact haddressed
      · split
        · exact haddressed.modify x _
        · exact haddressed.remove x

theorem addressed_collect (haddressed : w.objects.Addressed) :
    (w.collect extra).2.objects.Addressed :=
  addressed_foldl_sweep (addressed_mark haddressed _)

theorem clear_collect (hclear : Clear w.objects) (haddressed : w.objects.Addressed) :
    Clear (w.collect extra).2.objects :=
  all_of_get? (addressed_collect haddressed) fun _ _ ho =>
    hclear.get? ((get?_collect hclear haddressed).1 ho).1

/-- A collection frees the objects that are not reached and tells how many they
are. -/
theorem count_collect (hclear : Clear w.objects) (haddressed : w.objects.Addressed) :
    ∃ freed : List Handle, freed.Nodup ∧
      (∀ x, x ∈ freed ↔ w.objects.Live x ∧ ¬ w.Keeps extra x) ∧
      (w.collect extra).1 = freed.length := by
  let marked := mark w.objects (w.collectionRoots extra)
  have haddressed' : marked.Addressed := addressed_mark haddressed _
  have hremarks : w.objects.Remarks marked := mark_remarks _ _
  refine ⟨marked.handles.filter fun x => (marked.get? x).any fun o => (swept o).isNone,
    (nodup_handles haddressed').filter _, fun x => ?_, ?_⟩
  · have hafter : (w.collect extra).2.objects.get? x = (marked.get? x).bind swept :=
      get?_collect_eq_bind haddressed x
    rw [List.mem_filter, mem_handles_iff haddressed', ← live_collect_iff hclear haddressed]
    constructor
    · rintro ⟨⟨o, ho⟩, hgone⟩
      refine ⟨hremarks.symm.live ⟨o, ho⟩, ?_⟩
      rintro ⟨p, hp⟩
      rw [hafter, ho, Option.bind_some] at hp
      rw [ho, Option.any_some, hp] at hgone
      cases hgone
    · rintro ⟨hlive, hgone⟩
      obtain ⟨o, ho⟩ := hremarks.live hlive
      refine ⟨⟨o, ho⟩, ?_⟩
      rw [ho, Option.any_some]
      cases hswept : swept o with
      | none => rfl
      | some p => exact absurd ⟨p, by rw [hafter, ho, Option.bind_some, hswept]⟩ hgone
  · show (List.foldl sweep marked marked.handles).removed - w.objects.removed = _
    rw [removed_foldl_sweep (nodup_handles haddressed'), removed_mark, Nat.add_sub_cancel_left,
      List.countP_eq_length_filter]

/-- A collection does not change what is reached. -/
theorem keeps_collect (hclear : Clear w.objects) (haddressed : w.objects.Addressed)
    (hkeeps : w.Keeps extra x) : (w.collect extra).2.Keeps extra x := by
  have hget : ∀ {y o}, w.objects.get? y = some o → w.Keeps extra y →
      (w.collect extra).2.objects.get? y = some o := fun hy hkeeps =>
    (get?_collect hclear haddressed).2 ⟨hy, hkeeps⟩
  have hlive : ∀ {y}, w.Keeps extra y → (w.collect extra).2.objects.Live y :=
    (live_collect_iff hclear haddressed).2
  have hall : ∀ y, w.Keeps extra y → (w.collect extra).2.Keeps extra y := by
    intro y hy
    induction hy with
    | start hroot hy =>
        have hkeeps := Reaches.start hroot hy
        refine Reaches.start ?_ (hlive hkeeps)
        cases hroot with
        | pinned ho hpinned => exact .pinned (hget ho hkeeps) hpinned
        | builtin hx => exact .builtin hx
        | root hx => exact .root hx
        | scope hp hx => exact .scope hp hx
        | extra hx => exact .extra hx
    | ref hreach hx hy hy' ih =>
        exact ih.ref (hget hx hreach) hy (hlive (hreach.ref hx hy hy'))
  exact hall x hkeeps

end World

end ObjectSystem

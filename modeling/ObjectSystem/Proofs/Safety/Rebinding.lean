/-
# Safe assignments

An assignment gives a name of an environment another value, and frees the old one if nothing
else holds it. What is sheltered from the name is not freed with it: of what goes, each object
is held by one slot, that slot is the binding itself or belongs to what has gone before, and
what is sheltered is held by a slot of something else.

The value that is assigned is given away. A pool may have answered for it, and the binding is
what holds it from then on.
-/

import ObjectSystem.Proofs.Bindings
import ObjectSystem.Proofs.Building
import ObjectSystem.Proofs.Safety.Secures

namespace ObjectSystem

namespace Frame

variable {f : Frame} {name : Symbol} {index : Nat} {value : Option Handle}

theorem sameBut_addName (f : Frame) (name : Symbol) : f.SameBut {name} (f.addName name) := by
  intro i other content hother
  simp only [addName, Array.getElem?_push]
  split
  · next heq =>
      subst heq
      simp only [Option.some.injEq, Prod.mk.injEq, Array.getElem?_size, reduceCtorEq, iff_false]
      exact fun h => hother h.1.symm
  · rfl

theorem sameBut_setValue (hname : f.bindings[index]?.map Prod.fst = some name) :
    f.SameBut {name} (f.setValue index value) := by
  intro i other content hother
  simp only [setValue, Array.getElem?_modify]
  split
  · next heq =>
      subst heq
      obtain ⟨binding, hbinding, rfl⟩ := Option.map_eq_some_iff.1 hname
      rw [hbinding]
      constructor <;> intro h <;> cases h <;> exact absurd rfl hother
  · rfl

end Frame

namespace World

variable {w w' w₁ : World} {base : Set Handle} {names : Set Symbol} {env v x y : Handle}
  {name : Symbol} {index : Nat} {f : Frame} {s : Slot} {o : Object} {old : Option Handle}

theorem modifyFrame_objects (w : World) (env : Handle) (change : Frame → Frame) (x : Handle) :
    (w.modifyFrame env change).objects.get? x = (w.objects.get? x).map fun o =>
      if x = env then { o with payload := match o.payload with
        | .environment f => .environment (change f)
        | other => other } else o := by
  rw [modifyFrame, modifyPayload, modifyObject, Arena.get?_modify]
  split
  · rfl
  · simp

/-- A name that is added has no value yet. -/
theorem passes_addName (w : World) (env : Handle) (name : Symbol) :
    Passes env {name} [] w (w.modifyFrame env (·.addName name)) where
  roots_eq := rfl
  classes_eq := rfl
  stays base _ x o _ ho := by
    refine ⟨_, by rw [modifyFrame_objects, ho, Option.map_some], ?_, fun _ _ hown => ?_,
      fun hown => ?_⟩
    · by_cases heq : x = env
      · rw [if_pos heq]
        refine ⟨rfl, rfl, rfl, ?_⟩
        cases hpayload : o.payload with
        | environment f =>
            exact Or.inr ⟨f, _, rfl, rfl, (f.sameBut_addName name).mono fun _ h => ⟨h, heq⟩⟩
        | _ => exact Or.inl rfl
      · rw [if_neg heq]
        exact Object.sameBut_setHeader rfl
    · split <;> exact hown
    · split <;> exact hown

/-- What objects are like when a value has been taken over and stored. -/
theorem TakesOver.get?_store (htakes : w.TakesOver (some v) w₁) (hv : w.objects.Live v)
    (hx : w.objects.get? x = some o) : (w₁.store s (some v)).objects.get? x =
      some (if x = s.owner then s.storeIn (some v) (o.claimed ([v].count x))
        else o.claimed ([v].count x)) := by
  show (w₁.objects.modify _ _).get? x = _
  rw [Arena.get?_modify, htakes.get?_eq hv, hx]
  split <;> rfl

theorem TakesOver.header_store {p : Object} (htakes : w.TakesOver (some v) w₁)
    (hv : w.objects.Live v) (hx : w.objects.get? x = some o)
    (hp : (w₁.store s (some v)).objects.get? x = some p) :
    p.header = (o.claimed ([v].count x)).header := by
  cases (htakes.get?_store hv hx).symm.trans hp
  split
  · exact Slot.header_storeIn _ _ _
  · rfl

/-- Other slots hold what they held. -/
theorem TakesOver.holds_store {t : Slot} (htakes : w.TakesOver (some v) w₁)
    (hv : w.objects.Live v) (ho : w.objects.get? s.owner = some o) (hs : s.peek? o = some old)
    (hne : t ≠ s) (ht : w.objects.Holds t y) : (w₁.store s (some v)).objects.Holds t y := by
  obtain ⟨p, hp, hpeek⟩ := ht
  refine ⟨_, htakes.get?_store hv hp, ?_⟩
  split
  · next heq =>
      rw [heq] at hp
      cases ho.symm.trans hp
      rw [Slot.peek?_storeIn ((Object.peek?_claimed _ _ _).trans hs) heq, if_neg hne,
        Object.peek?_claimed, hpeek]
  · rw [Object.peek?_claimed, hpeek]

/-- What is sheltered from a name does not go when another value is bound to it. -/
theorem not_displaces (hcoherent : w.Coherent) (hclaims : Action.Claims w w₁ (some v))
    (htakes : w.TakesOver (some v) w₁) (ho : w.objects.get? s.owner = some o)
    (hs : s.peek? o = some old) (hexposed : w.Exposed env names s) (hv : w.objects.Live v)
    (hbase : v ∉ base) (hx : w.Sheltered base env names x) :
    ¬ w.Displaces w₁ s old (some v) x := by
  have hlinked := hclaims.linked_store ho hs
  have howned : ∀ {x o p}, w.objects.get? x = some o →
      (w₁.store s (some v)).objects.get? x = some p → p.header.ownership = .single →
        o.header.ownership ≠ .shared ∧ (x ≠ v → o.header.ownership = .single) := by
    intro x o p hx hp hsingle
    rw [htakes.header_store hv hx hp, Object.ownership_claimed] at hsingle
    refine ⟨fun hshared => ?_, fun hne => ?_⟩
    · rw [hshared, Ownership.iterate_claimed_shared] at hsingle
      cases hsingle
    · rwa [List.count_eq_zero.2 (by simpa using hne)] at hsingle
  induction hx with
  | @start x hstands =>
      -- It is shared, or a pool answers for it, and it would have to be held by one slot.
      obtain ⟨o', ho', hshared, hpool⟩ : ∃ o', w.objects.get? x = some o' ∧
          o'.header.ownership ≠ .single ∧ (x = v → o'.header.ownership = .shared) := by
        cases hstands with
        | shared _ ho' hshared => exact ⟨_, ho', by simp [hshared], fun _ => hshared⟩
        | pooled hmem hpooled =>
            obtain ⟨o', id, ho', hpool⟩ := hpooled
            exact ⟨o', ho', by simp [hpool], fun heq => absurd (heq ▸ hmem) hbase⟩
      intro hdisplaces
      cases hdisplaces with
      | start hmem _ =>
          obtain ⟨q, hq, hsingle⟩ := isSingle_iff.1 (List.mem_filter.1 hmem).2
          cases ho'.symm.trans hq
          exact hshared hsingle
      | ref _ _ _ hp hsingle =>
          obtain ⟨hnot, hsingle⟩ := howned ho' hp hsingle
          by_cases heq : x = v
          · exact hnot (hpool heq)
          · exact hshared (hsingle heq)
  | @slot t y _ ht hnot ih =>
      have hne : t ≠ s := fun heq => hnot (heq ▸ hexposed)
      intro hdisplaces
      cases hdisplaces with
      | start hmem _ =>
          obtain ⟨hold, hsingle⟩ := List.mem_filter.1 hmem
          obtain ⟨q, hq, hsingle⟩ := isSingle_iff.1 hsingle
          have hholds : w.objects.Holds s y := ⟨o, ho, hs.trans (by rw [Option.mem_toList.1 hold])⟩
          exact hne (hcoherent.linked.single_held_once y q hq hsingle List.not_mem_nil t s ht
            hholds)
      | @ref x' _ q p hcascade hq hy hp hsingle =>
          rcases hlinked.ref_shared_or_held hq hy hp with hshared | ⟨u, rfl, hu⟩
          · cases hshared.symm.trans hsingle
          · have ht' := htakes.holds_store hv ho hs hne ht
            cases hlinked.single_held_once y p hp hsingle List.not_mem_nil u t hu ht'
            exact ih hcascade

/-- Another value is bound to a name that has a binding. Whatever is sheltered from the name
passes through this, if the value is given away. -/
theorem passes_set (hcoherent : w.Coherent) (hframe : w.frame env = .ok f)
    (hname : f.bindings[index]?.map Prod.fst = some name)
    (hset : (Action.set (.binding env index) (some v)).perform w = (.ok (), w')) :
    Passes env {name} [v] w w' ∧ ∀ base, v ∉ base → w.Sheltered base env {name} env →
      w'.Binds env name v := by
  obtain ⟨o, ho, hpayload⟩ := frame_eq_ok_iff.1 hframe
  have hexposed : w.Exposed env {name} (.binding env index) :=
    ⟨index, f, name, rfl, hframe, hname, rfl⟩
  obtain ⟨binding, hbinding, rfl⟩ := Option.map_eq_some_iff.1 hname
  rcases Action.set_spec w (.binding env index) (some v) with
    ⟨e, hfails, _⟩ | ⟨p, old, hp, hs, hcases⟩
  · cases hfails.symm.trans hset
  obtain rfl : o = p := Option.some.inj (ho.symm.trans hp)
  rcases hcases with ⟨rfl, hsame⟩ | ⟨hne, hlive, hexchange⟩
  · cases hsame.symm.trans hset
    refine ⟨.of_eq rfl rfl rfl, fun _ _ _ => ⟨f, index, hframe, ?_⟩⟩
    simp only [Slot.peek?, hpayload, hbinding, Option.map_some, Option.some.injEq] at hs
    rw [hbinding, ← hs]
  have hv := hlive v rfl
  obtain ⟨w₁, hperform, hclaims, hwritten, _⟩ := Action.exchange_spec hcoherent hp hs hne hlive
  cases (hexchange.trans hwritten).symm.trans hset
  have htakes := Action.takesOver_claim hperform
  have hexchanges := Action.exchanges_written hclaims htakes hp hs hne
  have hmoves := Action.moves_set (.binding env index) (some v) w
  rw [hset] at hmoves
  have hstays : ∀ base, v ∉ base → ∀ x q, w.Sheltered base env {binding.1} x →
      w.objects.get? x = some q →
      (Action.written w₁ (.binding env index) old (some v)).objects.get? x =
        some (if x = env then (Slot.binding env index).storeIn (some v) (q.claimed ([v].count x))
          else q.claimed ([v].count x)) := by
    intro base hbase x q hx hq
    exact (hexchanges.objects x _).2 ⟨htakes.get?_store hv hq,
      not_displaces hcoherent hclaims htakes hp hs hexposed hv hbase hx⟩
  refine ⟨⟨hmoves.roots_eq, ?_, fun base hbase x q hx hq => ?_⟩, fun base hbase henv => ?_⟩
  · rw [hexchanges.rest_eq]
    exact hclaims.classes_eq
  · have hheader := htakes.header_store (s := .binding env index) hv hq (htakes.get?_store hv hq)
    refine ⟨_, hstays base (hbase v List.mem_cons_self) x q hx hq, ?_, fun hmem id hown => ?_,
      fun hshared => ?_⟩
    · split
      · next heq =>
          subst heq
          cases ho.symm.trans hq
          have hclaimed : (o.claimed ([v].count x)).payload = .environment f := hpayload
          simp only [Slot.storeIn, hclaimed]
          exact ⟨rfl, rfl, rfl, Or.inr ⟨f, _, hpayload, rfl,
            (Frame.sameBut_setValue hname).mono fun _ h => ⟨h, trivial⟩⟩⟩
      · exact Object.sameBut_setHeader rfl
    · exact (congrArg Header.ownership hheader).trans (by
        rw [List.count_eq_zero.2 hmem, Object.claimed_zero, hown])
    · exact (congrArg Header.ownership hheader).trans (by
        rw [Object.ownership_claimed, hshared, Ownership.iterate_claimed_shared])
  · have hafter := hstays base hbase env o henv ho
    have hclaimed : (o.claimed ([v].count env)).payload = .environment f := hpayload
    rw [if_pos rfl] at hafter
    simp only [Slot.storeIn, hclaimed] at hafter
    exact ⟨_, index, frame_eq_ok_iff.2 ⟨_, hafter, rfl⟩, by
      simp [Frame.setValue, Array.getElem?_modify, hbinding]⟩

end World

namespace Action

open World

variable {w : World} {env v : Handle} {name : Symbol}

/-- A value is given away when a name is bound to it. It is bound then, unless the environment
has no room for the name. -/
theorem secures_assign (hpoised : w.Poised) (hv : w.objects.Live v)
    (henv : w.Sheltered {u | u ≠ v} env {name} env) :
    Secures w (assign env name v) fun _ w' =>
      Passes env {name} [v] w w' ∧ (w'.Binds env name v ∨ w'.objects = w.objects) := by
  have hcoherent := hpoised.coherent
  have hbase : v ∉ {u | u ≠ v} := fun h => h rfl
  refine secures_of_routine hpoised (.assign trivial env name v)
    (fun bound w' hperform _ _ _ _ => ?_) fun e w' hperform _ => ?_
  · obtain ⟨p, hp⟩ := hv
    unfold assign at hperform
    rw [perform_query_bind, object_eq_ok hp] at hperform
    simp only at hperform
    rcases bindingIndex_cases env name w with ⟨e, _, hindex⟩ |
      ⟨f, hframe, ⟨index, hfind, hindex⟩ | ⟨hfind, ⟨hfull, hindex⟩ | ⟨hroom, hindex⟩⟩⟩
    · rw [perform_bind_error hindex] at hperform
      cases hperform
    · rw [perform_bind_ok hindex] at hperform
      obtain ⟨_, w₁, hset, hpure⟩ := perform_bind_eq_ok_iff.1 hperform
      cases hpure
      obtain ⟨hlt, hname, _⟩ := Array.findIdx?_eq_some_iff_getElem.1 hfind
      have hbinding : f.bindings[index]?.map Prod.fst = some name := by
        rw [Array.getElem?_eq_getElem hlt, Option.map_some, beq_iff_eq.1 hname]
      obtain ⟨hpasses, hbinds⟩ := passes_set hcoherent hframe hbinding hset
      exact ⟨hpasses, Or.inl (hbinds _ hbase henv)⟩
    · rw [perform_bind_ok hindex] at hperform
      simp only at hperform
      rw [perform_query_bind, hframe] at hperform
      cases hperform
      exact ⟨.of_eq rfl rfl rfl, Or.inr rfl⟩
    · rw [perform_bind_ok hindex] at hperform
      obtain ⟨_, w₂, hset, hpure⟩ := perform_bind_eq_ok_iff.1 hperform
      cases hpure
      have hfirst := w.passes_addName env name
      have hcoherent₁ : (w.modifyFrame env (·.addName name)).Coherent :=
        (evolves_amend hcoherent (fun _ => False.elim) fun o => o.amends_addName name).coherent
      obtain ⟨o, ho, hpayload⟩ := frame_eq_ok_iff.1 hframe
      have hframe₁ : (w.modifyFrame env (·.addName name)).frame env = .ok (f.addName name) := by
        refine frame_eq_ok_iff.2 ⟨_, (modifyFrame_objects _ _ _ _).trans
          (by rw [ho, Option.map_some, if_pos rfl]), ?_⟩
        simp only [hpayload]
      have hbinding : (f.addName name).bindings[f.size]?.map Prod.fst = some name := by
        simp [Frame.addName, Frame.size]
      obtain ⟨hpasses, hbinds⟩ := passes_set hcoherent₁ hframe₁ hbinding hset
      exact ⟨hfirst.trans hcoherent hpasses,
        Or.inl (hbinds _ hbase (hfirst.sheltered (by simp) hcoherent subset_rfl henv))⟩
  · exact (atomic_assign hcoherent env name v e w' hperform).2.ne_dangling
      (by simpa using ⟨(henv.keeps hcoherent).live, hv⟩)

end Action

end ObjectSystem

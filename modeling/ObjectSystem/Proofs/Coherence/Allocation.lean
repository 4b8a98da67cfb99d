/-
# New objects in coherent worlds

A collection keeps a coherent world coherent, since it keeps what is held by what
it keeps. A new object that holds nothing and names registered classes can be put
into any coherent world.
-/

import ObjectSystem.Proofs.Coherence.Scope

namespace ObjectSystem

/-- Entries of objects that are gone may be dropped from the pools. -/
theorem Registered.filter {a a' : Arena Object} {entries : List (PoolId × Handle)}
    (hregistered : Registered a entries)
    (hget : ∀ x o, a'.get? x = some o ↔ a.get? x = some o ∧ a'.Live x) :
    Registered a' (entries.filter fun e => a'.contains e.2) where
  nodup := hregistered.nodup.filter _
  mem_iff id x := by
    rw [List.mem_filter, hregistered.mem_iff, Arena.contains_iff]
    constructor
    · rintro ⟨⟨o, ho, hown⟩, hlive⟩
      exact ⟨o, (hget x o).2 ⟨ho, hlive⟩, hown⟩
    · rintro ⟨o, ho, hown⟩
      exact ⟨⟨o, ((hget x o).1 ho).1, hown⟩, o, ho⟩
  single_or_kept x o ho := hregistered.single_or_kept x o ((hget x o).1 ho).1

/-- A second state of an object that differs from the first at most in what it holds no
longer and in which of the declared classes it names. -/
structure Object.Amends (declares : Handle → Prop) (o o' : Object) : Prop where
  header_eq : o'.header = o.header
  classes : ∀ c ∈ o'.classRefs, c ∈ o.classRefs ∨ declares c
  held : ∀ (s : Slot) (y : Handle), s.peek? o' = some (some y) → s.peek? o = some (some y)
  isClass : o.IsClass → o'.IsClass
  places : o.NoNewPlaces o'

/-- A new object that names registered classes and holds nothing. -/
structure Object.Fresh (known : Handle → Prop) (o : Object) : Prop where
  classes : ∀ c ∈ o.classRefs, known c
  held : ∀ (s : Slot) (y : Handle), s.peek? o ≠ some (some y)

namespace World

variable {w : World} {extra : List Handle} {x y : Handle} {o : Object} {s : Slot}

theorem tight_mark {objects : Arena Object} (htight : objects.Tight) (pending : List Handle) :
    (mark objects pending).Tight := by
  fun_induction mark objects pending with
  | case1 => exact htight
  | case2 _ _ _ _ ih => exact ih htight
  | case3 _ _ _ _ _ _ ih => exact ih htight
  | case4 _ x _ _ _ _ ih => exact ih (htight.modify x Object.mark)

theorem tight_foldl_sweep {objects : Arena Object} {l : List Handle} (htight : objects.Tight) :
    (l.foldl sweep objects).Tight := by
  induction l generalizing objects with
  | nil => exact htight
  | cons x l ih =>
      refine ih ?_
      unfold sweep
      split
      · exact htight
      · split
        · exact htight.modify x _
        · exact htight.remove x

/-- What an object refers to is reached if the object is. -/
theorem Keeps.held (hcoherent : w.Coherent) (hkeeps : w.Keeps extra s.owner)
    (hholds : w.objects.Holds s y) : w.Keeps extra y := by
  obtain ⟨o, ho, hs⟩ := hholds
  exact hkeeps.ref ho (Object.mem_refs_iff.2 (Or.inr ⟨s, rfl, hs⟩))
    (hcoherent.linked.held_live s y ⟨o, ho, hs⟩)

/-- A collection keeps a world coherent. -/
theorem evolves_collect (hcoherent : w.Coherent) (htidy : w.Tidy) (extra : List Handle) :
    w.Evolves (w.collect extra).2 := by
  have hget : ∀ {x o}, (w.collect extra).2.objects.get? x = some o ↔
      w.objects.get? x = some o ∧ w.Keeps extra x := get?_collect htidy.clear htidy.addressed
  have hlive : ∀ {x}, (w.collect extra).2.objects.Live x ↔ w.Keeps extra x :=
    live_collect_iff htidy.clear htidy.addressed
  have hpinned : ∀ x o, w.objects.get? x = some o → o.header.pinned = true →
      (w.collect extra).2.objects.get? x = some o := fun x o ho hpinned =>
    hget.2 ⟨ho, .start (.pinned ho hpinned) ⟨o, ho⟩⟩
  have hentries : (w.collect extra).2.pools.entries =
      w.pools.entries.filter fun e => (w.collect extra).2.objects.contains e.2 := by
    refine (hcoherent.pools.modify_filter _).2.trans ?_
    rw [PoolStack.entries, List.filter_append, List.filter_map]
    congr 1
    refine (List.filter_eq_self.2 fun e he => ?_).symm
    obtain ⟨p, hp, he⟩ := List.mem_flatMap.1 he
    obtain ⟨y, hy, rfl⟩ := List.mem_map.1 he
    obtain ⟨o, ho, _⟩ := (hcoherent.registered.mem_iff p.id y).1
      (List.mem_append_right _ (List.mem_flatMap.2 ⟨p, hp, he⟩))
    exact Arena.contains_iff.2 (hlive.2 (.start (.scope hp hy) ⟨o, ho⟩))
  refine ⟨⟨?_, (hcoherent.pools.modify_filter _).1, ?_, ?_⟩, fun _ hc => hc,
    fun x o ho hpin => ⟨o, hpinned x o ho hpin, Object.lasts_self hpin⟩⟩
  · exact tight_foldl_sweep (tight_mark hcoherent.tight _)
  · refine hcoherent.linked.reduce (fun x o ho => ?_) (fun s y hs => ?_) fun c hc => ?_
    · have hx := (hget.1 ho).1
      exact ⟨o, hx, hcoherent.linked.reducesTo_self hx⟩
    · obtain ⟨o, ho, hpeek⟩ := hs
      obtain ⟨ho, hkeeps⟩ := hget.1 ho
      exact hlive.2 (hkeeps.held hcoherent ⟨o, ho, hpeek⟩)
    · obtain ⟨o, ho, hpin, _⟩ := hcoherent.linked.known_class c hc
      exact ⟨o, hpinned c o ho hpin⟩
  · rw [hentries]
    refine hcoherent.registered.filter fun x o => ?_
    rw [hget, hlive]

/-- One object may be amended. -/
theorem evolves_amend {declares : Handle → Prop} {change : Object → Object}
    (hcoherent : w.Coherent) (hdeclares : ∀ c, declares c → c ∈ w.classes)
    (hchange : ∀ o : Object, o.Amends declares (change o)) :
    w.Evolves (w.modifyObject x change) := by
  cases hx : w.objects.get? x with
  | none =>
      have hsame : ∀ y, (w.modifyObject x change).objects.get? y = w.objects.get? y :=
        Arena.modify_of_stale hx
      refine ⟨⟨hcoherent.tight.modify x change, hcoherent.pools, ?_, ?_⟩, fun _ hc => hc, ?_⟩
      · refine hcoherent.linked.reduce (fun y p hp => ?_) (fun s y hs => ?_) fun c hc => ?_
        · rw [hsame] at hp
          exact ⟨p, hp, hcoherent.linked.reducesTo_self hp⟩
        · obtain ⟨p, hp, hpeek⟩ := hs
          rw [hsame] at hp
          obtain ⟨q, hq⟩ := hcoherent.linked.held_live s y ⟨p, hp, hpeek⟩
          exact ⟨q, (hsame y).trans hq⟩
        · obtain ⟨q, hq⟩ := hcoherent.linked.known_live hc
          exact ⟨q, (hsame c).trans hq⟩
      · exact hcoherent.registered.same fun y => by rw [hsame]
      · exact fun y p hp hpinned => ⟨p, (hsame y).trans hp, Object.lasts_self hpinned⟩
  | some o =>
      have hputs : w.objects.Puts (w.modifyObject x change).objects x (change o) :=
        Arena.puts_modify hx
      have hamends := hchange o
      refine .of_puts ⟨hcoherent.tight.modify x change, hcoherent.pools, ?_, ?_⟩ rfl hx hputs ?_
      · refine hcoherent.linked.amend hx hputs ⟨?_, ?_, fun c hc => ?_, hamends.held,
          hamends.isClass⟩
        · rw [hamends.header_eq]
        · rw [hamends.header_eq]
        · rcases hamends.classes c hc with hc | hc
          · exact hcoherent.linked.classes_known x o hx c hc
          · exact hdeclares c hc
      · exact hcoherent.registered.amend hx hputs (by rw [hamends.header_eq])
      · exact fun hpinned => ⟨by rw [hamends.header_eq, hpinned], hamends.places⟩

/-- An object may be put into the innermost pool. What it holds counts as loose. -/
theorem admitObject_spec (loose : List Handle) (hcoherent : w.Coherent)
    (hfits : (w.admitObject o).2.Fits) (hpinned : o.header.pinned = false)
    (hclasses : ∀ c ∈ o.classRefs, c ∈ w.classes)
    (hheld : ∀ (s : Slot) (y : Handle), s.peek? o = some (some y) →
      ∃ p, w.objects.get? y = some p ∧ (∀ id, p.header.ownership ≠ .pool id) ∧
        (p.header.ownership = .single → y ∈ loose)) :
    w.objects.get? (w.admitObject o).1 = none ∧
      w.objects.Puts (w.admitObject o).2.objects (w.admitObject o).1
        (o.setOwnership (.ofPool w.pools.current)) ∧
      (w.admitObject o).2.CoherentBut loose := by
  let value : Handle → Object := fun _ => o.setOwnership (.ofPool w.pools.current)
  have hcells : (w.objects.insertWith value).2.cells.size ≤ 2 ^ 32 := hfits.cells_le
  obtain ⟨hnew, hget⟩ := Arena.get?_insertWith hcoherent.tight value hcells
  have hputs : w.objects.Puts (w.admitObject o).2.objects (w.admitObject o).1
      (o.setOwnership (.ofPool w.pools.current)) := hget
  obtain ⟨pool, hpool⟩ := w.pools.exists_get?_current
  obtain ⟨hvalid, hperm⟩ := hcoherent.pools.modify_insert hpool (w.admitObject o).1
  refine ⟨hnew, hputs, hcoherent.tight.insertWith value, hvalid, ?_, ?_⟩
  · refine hcoherent.linked.insert hnew hputs (fun _ hc => hc) hclasses (fun s y hs => ?_)
      (fun hpin => ?_) (fun c hc => Or.inl hc) (by simp)
    · refine hheld s y ?_
      cases s <;> exact hs
    · rw [show (o.setOwnership (.ofPool w.pools.current)).header.pinned = o.header.pinned from rfl,
        hpinned] at hpin
      cases hpin
  · exact (hcoherent.registered.add (hcoherent.registered.not_mem_of_stale hnew) hputs rfl).perm
      hperm.symm

theorem evolves_admitObject (hcoherent : w.Coherent) (hfits : (w.admitObject o).2.Fits)
    (hpinned : o.header.pinned = false) (hfresh : o.Fresh (· ∈ w.classes)) :
    w.Evolves (w.admitObject o).2 := by
  obtain ⟨hnew, hputs, hcoherent'⟩ := admitObject_spec [] hcoherent hfits hpinned
    hfresh.classes fun s y hs => absurd hs (hfresh.held s y)
  refine ⟨hcoherent', fun _ hc => hc, fun y p hp hpin => ⟨p, ?_, Object.lasts_self hpin⟩⟩
  rw [hputs.other, hp]
  rintro rfl
  cases hnew.symm.trans hp

/-- The world in which an allocation looks for room: if the world is full, a collection has
been run. -/
def relieved (w : World) : World :=
  if w.isFull then (w.collect []).2 else w

theorem relieved_cases (w : World) : w.relieved = w ∨ w.relieved = (w.collect []).2 := by
  unfold relieved
  split
  · exact Or.inr rfl
  · exact Or.inl rfl

theorem evolves_relieved (hcoherent : w.Coherent) (htidy : w.Tidy) : w.Evolves w.relieved := by
  rcases w.relieved_cases with heq | heq
  · rw [heq]
    exact .refl hcoherent
  · rw [heq]
    exact evolves_collect hcoherent htidy []

end World

namespace Action

open World

variable {w w' : World} {x : Handle} {o : Object}

/-- An allocation puts the object into the relieved world, or gives up if that is full too. -/
theorem perform_allocate_eq (o : Object) (w : World) :
    (allocate o).perform w =
      if w.relieved.isFull then (.error (.outOfMemory w.settings.objectLimit), w.relieved)
      else (.ok (w.relieved.admitObject o).1, (w.relieved.admitObject o).2) := by
  unfold allocate World.relieved
  rw [perform_bind, perform_get]
  by_cases hfull : w.isFull = true
  · have hcollect : (collect []).perform w = (.ok (w.collect []).1, (w.collect []).2) := rfl
    simp only [hfull, if_true]
    rw [perform_bind_ok hcollect, perform_bind, perform_get]
    by_cases hstill : (w.collect []).2.isFull = true
    · simp only [hstill, if_true]
      rfl
    · simp only [hstill]
      rfl
  · have hroom := Bool.eq_false_iff.2 hfull
    simp only [hroom, Bool.false_eq_true, if_false]
    rfl

/-- An allocation may run a collection first, and then puts the object in, or finds the
world still full. -/
theorem perform_allocate (o : Object) (w : World) :
    ∃ w', (w' = w ∨ w' = (w.collect []).2) ∧
      ((∃ limit, (allocate o).perform w = (.error (.outOfMemory limit), w')) ∨
        w'.isFull = false ∧
          (allocate o).perform w = (.ok (w'.admitObject o).1, (w'.admitObject o).2)) := by
  refine ⟨w.relieved, w.relieved_cases, ?_⟩
  rw [perform_allocate_eq]
  cases hfull : w.relieved.isFull with
  | true => exact Or.inl ⟨_, rfl⟩
  | false => exact Or.inr ⟨rfl, rfl⟩

/-- A fresh object may be allocated in a coherent world. -/
theorem allocate_spec (hcoherent : w.Coherent) (htidy : w.Tidy)
    (hfits : ((allocate o).perform w).2.Fits) (hpinned : o.header.pinned = false)
    (hfresh : o.Fresh (· ∈ w.classes)) :
    w.Evolves ((allocate o).perform w).2 ∧
      ∀ e, ((allocate o).perform w).1 = .error e → ∃ limit, e = .outOfMemory limit := by
  obtain ⟨w', hw', hallocate⟩ := perform_allocate o w
  have hevolves : w.Evolves w' := by
    rcases hw' with rfl | rfl
    · exact .refl hcoherent
    · exact evolves_collect hcoherent htidy []
  rcases hallocate with ⟨limit, hallocate⟩ | ⟨_, hallocate⟩
  · rw [hallocate]
    refine ⟨hevolves, fun e he => ⟨limit, ?_⟩⟩
    cases he
    rfl
  · rw [hallocate] at hfits ⊢
    refine ⟨hevolves.trans (evolves_admitObject hevolves.coherent hfits hpinned
      ⟨fun c hc => hevolves.classes c (hfresh.classes c hc), hfresh.held⟩), fun e he => ?_⟩
    cases he

/-- An object may be pinned once the collector's pool answers for it. -/
theorem evolves_permanent {pools : PoolStack} (hcoherent : w.Coherent)
    (hx : w.objects.get? x = some o) (hvalid : pools.Valid)
    (hregistered : ∀ {a'}, w.objects.Puts a' x { o with header := .permanent } →
      Registered a' pools.entries) :
    w.Evolves
      ({ w with pools := pools }.modifyObject x fun o => { o with header := .permanent }) := by
  have hputs : w.objects.Puts (w.objects.modify x fun o => { o with header := .permanent }) x
      { o with header := .permanent } := Arena.puts_modify hx
  refine .of_puts ⟨hcoherent.tight.modify x _, hvalid, ?_, hregistered hputs⟩ rfl hx hputs
    fun _ => ⟨rfl, Object.noNewPlaces_of_payload_eq rfl⟩
  refine hcoherent.linked.setHeader hx hputs (fun _ => rfl) (fun _ => rfl) ?_ ?_ (by simp)
  · intro heq
    cases heq
  · intro _ heq
    cases heq

/-- An object may be pinned, whoever answers for it. -/
theorem pin_spec (hcoherent : w.Coherent) (hx : w.objects.get? x = some o) :
    ∃ w', (pin x).perform w = (.ok (), w') ∧ w.Evolves w' := by
  have hmem : w.pools.collector.contains x = true ↔ o.header.ownership = .shared := by
    rw [Pool.contains_iff, ← PoolStack.mem_entries_collector hcoherent.pools,
      hcoherent.registered.mem_iff, Ownership.ofPool_collector]
    constructor
    · rintro ⟨p, hp, hown⟩
      cases hx.symm.trans hp
      exact hown
    · exact fun hown => ⟨o, hx, hown⟩
  unfold pin
  simp only [perform_query_bind, World.ownership_eq_ok hx]
  cases hown : o.header.ownership with
  | pool id =>
      obtain ⟨hentry, hid⟩ := hcoherent.registered.mem_of_pool hx hown
      obtain ⟨pools, hremove, hvalid, hperm, _⟩ := perform_removeFromPool hcoherent.pools hentry
      obtain ⟨hvalid', hperm'⟩ := hvalid.modify_insert PoolStack.get?_collector x
      have hnone : pools.collector.contains x = false := by
        rw [← Bool.not_eq_true, Pool.contains_iff, ← PoolStack.mem_entries_collector hvalid]
        intro hcollector
        exact hid ((hcoherent.registered.perm hperm).id_unique List.mem_cons_self
          (List.mem_cons_of_mem _ hcollector))
      refine ⟨_, perform_bind_ok hremove, ?_⟩
      simp only [hnone, Bool.false_eq_true, if_false]
      refine evolves_permanent hcoherent hx hvalid' fun hputs => ?_
      exact ((hcoherent.registered.perm hperm).move hputs Ownership.ofPool_collector.symm).perm
        hperm'.symm
  | single =>
      obtain ⟨hvalid, hperm⟩ := hcoherent.pools.modify_insert PoolStack.get?_collector x
      have hnone : w.pools.collector.contains x = false := by
        rw [← Bool.not_eq_true, hmem, hown]
        simp
      refine ⟨_, rfl, ?_⟩
      simp only [hnone, Bool.false_eq_true, if_false]
      refine evolves_permanent hcoherent hx hvalid fun hputs => ?_
      exact (hcoherent.registered.add (hcoherent.registered.not_mem_of_single hx hown) hputs
        Ownership.ofPool_collector.symm).perm hperm.symm
  | shared =>
      refine ⟨_, rfl, ?_⟩
      simp only [hmem.2 hown, if_true]
      exact evolves_permanent hcoherent hx hcoherent.pools fun hputs =>
        hcoherent.registered.amend hx hputs hown.symm

/-- A pinned object has been put into the arena and registered in the collector's
pool. -/
structure PutsPinned (w w' : World) (x : Handle) (o : Object) : Prop where
  new : w.objects.get? x = none
  puts : w.objects.Puts w'.objects x { o with header := .permanent }
  tight : w'.objects.Tight
  pools : w'.pools.Valid
  registered : Registered w'.objects w'.pools.entries
  classes_eq : w'.classes = w.classes

/-- A shared object may be put into the arena and pinned. It may know its own handle. -/
theorem pin_inserted_spec {value : Handle → Object} (hcoherent : w.Coherent)
    (hfits : ((pin (w.objects.insertWith value).1).perform
      { w with objects := (w.objects.insertWith value).2 }).2.Fits)
    (hown : ∀ x, (value x).header.ownership = .shared) :
    ∃ w', (pin (w.objects.insertWith value).1).perform
        { w with objects := (w.objects.insertWith value).2 } = (.ok (), w') ∧
      PutsPinned w w' (w.objects.insertWith value).1 (value (w.objects.insertWith value).1) := by
  let inserted : World := { w with objects := (w.objects.insertWith value).2 }
  let x := (w.objects.insertWith value).1
  have hcells : (w.objects.insertWith value).2.cells.size ≤ 2 ^ 32 :=
    ((moves_pin x inserted).fits hfits).cells_le
  obtain ⟨hnew, hget⟩ := Arena.get?_insertWith hcoherent.tight value hcells
  have hx : inserted.objects.get? x = some (value x) := by
    rw [hget x, if_pos rfl]
  have hnone := hcoherent.registered.not_mem_of_stale hnew
  have hcontains : inserted.pools.collector.contains x = false := by
    rw [← Bool.not_eq_true, Pool.contains_iff, ← PoolStack.mem_entries_collector hcoherent.pools]
    exact hnone _
  obtain ⟨hvalid, hperm⟩ := hcoherent.pools.modify_insert PoolStack.get?_collector x
  have hputs : w.objects.Puts (inserted.objects.modify x fun o => { o with header := .permanent })
      x { value x with header := .permanent } := by
    intro y
    rw [Arena.puts_modify hx y, hget y]
    split <;> rfl
  refine ⟨{ inserted with
      objects := inserted.objects.modify x fun o => { o with header := .permanent }
      pools := w.pools.modify PoolId.collector (·.insert x) }, ?_, hnew, hputs,
    (hcoherent.tight.insertWith value).modify x _, hvalid, ?_, rfl⟩
  · show (pin x).perform inserted = _
    have hquery : (query (·.ownership x)).perform inserted = (.ok .shared, inserted) := by
      rw [perform_query, World.ownership_eq_ok hx, hown]
    unfold pin
    rw [perform_bind_ok hquery]
    simp only [Ownership.pool?, perform_modify, hcontains, Bool.false_eq_true, if_false]
    rfl
  · exact (hcoherent.registered.add hnone hputs Ownership.ofPool_collector.symm).perm hperm.symm

theorem allocatePinned_spec (hcoherent : w.Coherent)
    (hfits : ((allocatePinned o).perform w).2.Fits) (hown : o.header.ownership = .shared) :
    ∃ w', (allocatePinned o).perform w = (.ok (w.objects.insertWith fun _ => o).1, w') ∧
      PutsPinned w w' (w.objects.insertWith fun _ => o).1 o := by
  let inserted : World := { w with objects := (w.objects.insertWith fun _ => o).2 }
  let x := (w.objects.insertWith fun _ => o).1
  have hunfold : (allocatePinned o).perform w =
      (do pin x; return x : Action Handle).perform inserted := perform_bind_ok rfl
  have hfits' : ((pin x).perform inserted).2.Fits := by
    rw [hunfold, perform_bind] at hfits
    cases hpin : (pin x).perform inserted with
    | mk result w' =>
        rw [hpin] at hfits
        cases result <;> exact hfits
  obtain ⟨w', hpin, hputs⟩ := pin_inserted_spec hcoherent hfits' fun _ => hown
  exact ⟨w', by rw [hunfold, perform_bind_ok hpin, perform_pure], hputs⟩

/-- A fresh object may be put in for good. -/
theorem PutsPinned.evolves (hcoherent : w.Coherent) (hputs : PutsPinned w w' x o)
    (hfresh : o.Fresh (· ∈ w.classes)) : w.Evolves w' := by
  have hother : ∀ y p, w.objects.get? y = some p → y ≠ x := by
    rintro y p hp rfl
    cases hputs.new.symm.trans hp
  refine ⟨⟨hputs.tight, hputs.pools, ?_, hputs.registered⟩, ?_,
    fun y p hp hpin => ⟨p, ?_, Object.lasts_self hpin⟩⟩
  · rw [hputs.classes_eq]
    refine hcoherent.linked.insert hputs.new hputs.puts (fun _ hc => hc) hfresh.classes
      (fun s y hs => ?_) (fun _ => rfl) (fun _ hc => Or.inl hc) (by simp)
    refine absurd ?_ (hfresh.held s y)
    cases s <;> exact hs
  · rw [hputs.classes_eq]
    exact fun _ hc => hc
  · rw [hputs.puts.other (hother y p hp), hp]

/-- A class may be registered once it is pinned. It may name itself. -/
theorem PutsPinned.evolves_class (hcoherent : w.Coherent) (hputs : PutsPinned w w' x o)
    (hclass : o.IsClass) (hclasses : ∀ c ∈ o.classRefs, c ∈ w.classes ∨ c = x)
    (hheld : ∀ (s : Slot) (y : Handle), s.peek? o ≠ some (some y)) :
    w.Evolves { w' with classes := w'.classes.push x } := by
  have hother : ∀ y p, w.objects.get? y = some p → y ≠ x := by
    rintro y p hp rfl
    cases hputs.new.symm.trans hp
  have hmem : ∀ c, c ∈ w'.classes.push x ↔ c ∈ w.classes ∨ c = x := by
    intro c
    rw [Array.mem_push, hputs.classes_eq]
  refine ⟨⟨hputs.tight, hputs.pools, ?_, hputs.registered⟩, fun c hc => (hmem c).2 (Or.inl hc),
    fun y p hp hpin => ⟨p, ?_, Object.lasts_self hpin⟩⟩
  · refine hcoherent.linked.insert hputs.new hputs.puts (fun c hc => (hmem c).2 (Or.inl hc))
      (fun c hc => (hmem c).2 (hclasses c hc)) (fun s y hs => ?_) (fun _ => rfl)
      (fun c hc => ?_) (by simp)
    · refine absurd ?_ (hheld s y)
      cases s <;> exact hs
    · exact ((hmem c).1 hc).imp (fun h => h) fun h => ⟨h, rfl, hclass⟩
  · show w'.objects.get? y = some p
    rw [hputs.puts.other (hother y p hp), hp]

/-- Sharing all loose objects makes a world coherent again. -/
theorem forM_share_spec {l : List Handle} (hcoherent : w.CoherentBut l)
    (hl : ∀ y ∈ l, ∃ p, w.objects.get? y = some p ∧ ∀ id, p.header.ownership ≠ .pool id) :
    ∃ w', (l.forM share).perform w = (.ok ⟨⟩, w') ∧ w.Evolves w' ∧
      ∀ y, w'.objects.get? y =
        if y ∈ l then (w.objects.get? y).map (·.setOwnership .shared) else w.objects.get? y := by
  induction l generalizing w with
  | nil => exact ⟨w, rfl, .refl hcoherent, fun y => rfl⟩
  | cons y l ih =>
      obtain ⟨p, hp, hown⟩ := hl y List.mem_cons_self
      obtain ⟨w', hshare, hcoherent', hputs, hclasses⟩ :=
        share_spec l hcoherent hp hown fun z hz => (List.mem_cons.1 hz).symm
      obtain ⟨w'', hrest, hevolves, hget⟩ := ih hcoherent' fun z hz => by
        by_cases heq : z = y
        · subst heq
          exact ⟨_, hputs.self, by simp [Object.setOwnership]⟩
        · obtain ⟨q, hq, hqown⟩ := hl z (List.mem_cons_of_mem _ hz)
          exact ⟨q, by rw [hputs.other heq, hq], hqown⟩
      refine ⟨w'', ?_, ⟨hevolves.coherent, fun c hc => ?_, fun z q hq hpin => ?_⟩, fun z => ?_⟩
      · show (share y >>= fun _ => l.forM share).perform w = _
        rw [perform_bind_ok hshare, hrest]
      · exact hevolves.classes c (hclasses ▸ hc)
      · by_cases heq : z = y
        · subst heq
          cases hq.symm.trans hp
          obtain ⟨q, hq, hlasts⟩ := hevolves.pinned z _ hputs.self hpin
          exact ⟨q, hq, hlasts.pinned, hlasts.places⟩
        · exact hevolves.pinned z q (by rw [hputs.other heq, hq]) hpin
      · rw [hget z]
        by_cases heq : z = y
        · subst heq
          rw [hputs.self, hp, if_pos List.mem_cons_self]
          split <;> rfl
        · rw [hputs.other heq]
          exact if_congr (by rw [List.mem_cons, or_iff_right heq]) rfl rfl

theorem perform_shallowCopy (hx : w.objects.get? x = some o) :
    (shallowCopy x).perform w = (do
      let copy ← allocate o.duplicate
      o.duplicate.ownedRefs.forM share
      return copy : Action Handle).perform w := by
  unfold shallowCopy
  rw [perform_query_bind, World.object_eq_ok hx]

/-- What an object holds is live, and no pool answers for it. -/
theorem held_spec (hcoherent : w.Coherent) (hx : w.objects.get? x = some o) {y : Handle}
    (hy : y ∈ o.ownedRefs) :
    ∃ p, w.objects.get? y = some p ∧ ∀ id, p.header.ownership ≠ .pool id := by
  have hyrefs : y ∈ o.refs := List.mem_cons_of_mem _ hy
  obtain ⟨p, hp⟩ := hcoherent.linked.ref_live hx hyrefs
  refine ⟨p, hp, fun id hpool => ?_⟩
  rcases hcoherent.linked.ref_shared_or_held hx hyrefs hp with hshared | ⟨s, _, hs⟩
  · rw [hpool] at hshared
    cases hshared
  · exact hcoherent.linked.pool_unheld y p id hp hpool s hs

/-- A duplicate may be put in if what it holds is live and no pool answers for it. What it
holds is shared with it, and nothing else is changed. -/
theorem share_duplicate_spec (hcoherent : w.Coherent) (hfits : (w.admitObject o.duplicate).2.Fits)
    (hclasses : ∀ c ∈ o.classRefs, c ∈ w.classes)
    (hheld : ∀ y ∈ o.ownedRefs, ∃ p, w.objects.get? y = some p ∧
      ∀ id, p.header.ownership ≠ .pool id) :
    ∃ w', (o.duplicate.ownedRefs.forM share).perform (w.admitObject o.duplicate).2 =
        (.ok ⟨⟩, w') ∧
      w.Evolves w' ∧
      w'.objects.get? (w.admitObject o.duplicate).1 =
        some (o.duplicate.setOwnership (.ofPool w.pools.current)) ∧
      ∀ y, y ≠ (w.admitObject o.duplicate).1 → w'.objects.get? y =
        if y ∈ o.ownedRefs then (w.objects.get? y).map (·.setOwnership .shared)
        else w.objects.get? y := by
  obtain ⟨hnew, hputs, hcoherent'⟩ := admitObject_spec o.ownedRefs hcoherent hfits rfl hclasses
    fun s y hs => by
      have hheld' : s.peek? o = some (some y) := by
        cases s <;> exact hs
      have hy : y ∈ o.ownedRefs :=
        (Object.mem_ownedRefs_iff (x := s.owner)).2 (Or.inr ⟨s, rfl, hheld'⟩)
      obtain ⟨p, hp, hown⟩ := hheld y hy
      exact ⟨p, hp, hown, fun _ => hy⟩
  have hne : ∀ {y p}, w.objects.get? y = some p → y ≠ (w.admitObject o.duplicate).1 := by
    rintro y p hp rfl
    cases hnew.symm.trans hp
  have hother : ∀ {y p}, w.objects.get? y = some p →
      (w.admitObject o.duplicate).2.objects.get? y = some p :=
    fun hp => (hputs.other (hne hp)).trans hp
  obtain ⟨w', hshare, hevolves, hget⟩ := forM_share_spec hcoherent' fun y hy => by
    obtain ⟨p, hp, hown⟩ := hheld y hy
    exact ⟨p, hother hp, hown⟩
  have hunheld : (w.admitObject o.duplicate).1 ∉ o.ownedRefs := by
    intro hmem
    obtain ⟨p, hp, _⟩ := hheld _ hmem
    exact hne hp rfl
  refine ⟨w', hshare, ⟨hevolves.coherent, hevolves.classes, fun y p hp hpin => ?_⟩, ?_,
    fun y hy => ?_⟩
  · exact hevolves.pinned y p (hother hp) hpin
  · rw [hget, if_neg hunheld, hputs.self]
  · rw [hget, hputs.other hy]

/-- An object that is reached may be copied: what it holds is shared with the copy. -/
theorem shallowCopy_spec (hcoherent : w.Coherent) (htidy : w.Tidy)
    (hfits : ((shallowCopy x).perform w).2.Fits) (hkeeps : w.Keeps [] x) :
    w.Evolves ((shallowCopy x).perform w).2 ∧
      ∀ e, ((shallowCopy x).perform w).1 = .error e → ∃ limit, e = .outOfMemory limit := by
  obtain ⟨o, ho⟩ := hkeeps.live
  rw [perform_shallowCopy ho] at hfits ⊢
  obtain ⟨w', hw', hallocate⟩ := perform_allocate o.duplicate w
  have hevolves : w.Evolves w' ∧ w'.objects.get? x = some o := by
    rcases hw' with rfl | rfl
    · exact ⟨.refl hcoherent, ho⟩
    · exact ⟨evolves_collect hcoherent htidy [],
        (get?_collect htidy.clear htidy.addressed).2 ⟨ho, hkeeps⟩⟩
  obtain ⟨hevolves, ho'⟩ := hevolves
  rcases hallocate with ⟨limit, hallocate⟩ | ⟨_, hallocate⟩
  · rw [perform_bind_error hallocate]
    refine ⟨hevolves, fun e he => ⟨limit, ?_⟩⟩
    cases he
    rfl
  · rw [perform_bind_ok hallocate] at hfits ⊢
    have hshares : (do
        o.duplicate.ownedRefs.forM share
        return (w'.admitObject o.duplicate).1 : Action Handle).Keeps World.Moves :=
      keeps_bind (keeps_forM moves_share) fun _ => keeps_pure _
    have hfits' := (hshares (w'.admitObject o.duplicate).2).fits hfits
    obtain ⟨w'', hshare, hevolves', _⟩ := share_duplicate_spec hevolves.coherent hfits'
      (hevolves.coherent.linked.classes_known x o ho')
      fun y hy => held_spec hevolves.coherent ho' hy
    rw [perform_bind_ok hshare]
    refine ⟨hevolves.trans hevolves', fun e he => ?_⟩
    cases he

end Action

end ObjectSystem

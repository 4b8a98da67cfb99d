/-
# Composite actions

All operations of the library are put together from a few steps: they ask the
world, allocate, write slots, amend objects in ways that add no reference, collect
and run parts of themselves in scopes. `Action.Composite` says that an action is put
together like this. Whatever holds of the steps then holds of every operation, and
is proved by induction on how it is put together.

A policy says which objects may be allocated and which classes declared. What it says beside
about how this is done matters for routines only, the composite actions of the library.
-/

import ObjectSystem.Proofs.Coherence.Allocation
import ObjectSystem.Proofs.Queries
import ObjectSystem.Proofs.Steps

namespace ObjectSystem

/-- What the operations of a world may put into it. -/
structure Policy where
  /-- An object of this class with this payload may be allocated. -/
  admits : Handle → Payload → Prop
  /-- Objects may come to name this class. -/
  declares : Handle → Prop
  /-- Attributes may be written without a look at the classes that are declared for them. -/
  pokes : Prop := True
  /-- Other classes may be declared for the attributes of a class that is there. -/
  redeclares : Prop := True
  /-- Objects may be made that are never freed. -/
  lasts : Prop := True
  /-- Methods may be made and given overloads. -/
  defines : Prop := True
  /-- Bindings may be written other than by assigning to names. -/
  binds : Prop := True
  /-- Names may be assigned to. -/
  assigns : Prop := True

/-- Of how things are done, a policy allows everything. -/
structure Policy.Generous (π : Policy) : Prop where
  pokes : π.pokes
  redeclares : π.redeclares
  lasts : π.lasts
  defines : π.defines
  binds : π.binds
  assigns : π.assigns

/-- All that a policy allows fits a world: the classes are registered, and what is
allocated holds nothing. -/
structure Policy.Within (π : Policy) (w : World) : Prop where
  admits : ∀ c payload, π.admits c payload → c ∈ w.classes ∧ payload.refs = []
  declares : ∀ c, π.declares c → c ∈ w.classes

theorem Policy.Within.evolve {π : Policy} {w w' : World} (hwithin : π.Within w)
    (hevolves : w.Evolves w') : π.Within w' where
  admits c payload hadmits :=
    ⟨hevolves.classes c (hwithin.admits c payload hadmits).1, (hwithin.admits c payload hadmits).2⟩
  declares c hdeclares := hevolves.classes c (hwithin.declares c hdeclares)

namespace Object

variable {c : Handle} {attrCount length : Nat} {payload : Payload} {own : Ownership}

/-- A new object holds nothing but what its payload holds. -/
theorem fresh_new {known : Handle → Prop} (hc : known c) (hpayload : payload.refs = []) :
    (Object.new c attrCount payload length own).Fresh known where
  classes d hd := by
    rcases List.mem_cons.1 hd with rfl | hd
    · exact hc
    · have hmem : d ∈ payload.refs :=
        (mem_payload_refs_iff (x := d) (o := Object.new c attrCount payload length own)).2
          (Or.inl hd)
      rw [hpayload] at hmem
      cases hmem
  held s y hs := by
    have hmem := (mem_ownedRefs_iff (x := s.owner)).2 (Or.inr ⟨s, rfl, hs⟩)
    simp [ownedRefs, Object.new, hpayload] at hmem

end Object

namespace PoolStack

/-- Closing the innermost scope closes no other. -/
theorem pop_innermost {s : PoolStack} {id : PoolId} {ids : List PoolId}
    (hscopes : s.scopeIds = ids ++ [id]) (hnew : id ∉ ids) (hid : id ≠ PoolId.collector) :
    ∃ p kept, s.pop id = .ok ([p], kept) ∧ p.id = id ∧ kept.scopeIds = ids ∧
      s.innermostFirst = p :: kept.innermostFirst := by
  have hids : s.innermostFirst.map Pool.id = id :: ids.reverse := by
    have := congrArg List.reverse hscopes
    rwa [scopeIds, List.reverse_reverse, List.reverse_append, List.reverse_singleton,
      List.singleton_append] at this
  cases hcases : s.innermostFirst with
  | nil =>
      rw [hcases] at hids
      cases hids
  | cons p rest =>
      rw [hcases, List.map_cons, List.cons.injEq] at hids
      obtain ⟨rfl, hrest⟩ := hids
      have hne : ∀ q ∈ rest.reverse, (q.id != p.id) = true := by
        intro q hq
        have hmem : q.id ∈ ids.reverse := hrest ▸ List.mem_map_of_mem (List.mem_reverse.1 hq)
        rw [bne_iff_ne]
        rintro heq
        exact hnew (heq ▸ List.mem_reverse.1 hmem)
      refine ⟨p, { s with innermostFirst := rest }, ?_, rfl, ?_, rfl⟩
      · unfold PoolStack.pop
        rw [if_neg (by rwa [isCollector_iff]), hcases]
        simp only [List.reverse_cons]
        rw [List.dropWhile_append_of_pos hne, List.takeWhile_append_of_pos hne]
        simp
      · show (rest.map Pool.id).reverse = ids
        rw [hrest, List.reverse_reverse]

end PoolStack

/-- A change that leaves settings, objects, pools, classes, roots and the number of
collections alone. Names may be added. -/
structure World.Beside (w w' : World) : Prop where
  settings_eq : w'.settings = w.settings
  objects_eq : w'.objects = w.objects
  pools_eq : w'.pools = w.pools
  classes_eq : w'.classes = w.classes
  roots_eq : w'.roots = w.roots
  collections_eq : w'.collections = w.collections
  symbols_grow : w.symbols.Grows w'.symbols

namespace Action

open World

/-- An action that is put together from the steps that operations are made of. -/
inductive Composite (π : Policy) : {α : Type} → Action α → Prop where
  | pure {α : Type} (a : α) : Composite π (Pure.pure a : Action α)
  | throw {α : Type} (e : Error) (hfair : ∀ x id, e ≠ .poolCorruption x id) :
      Composite π (MonadExcept.throw e : Action α)
  | query {α : Type} {question : World → Except Error α}
      (hfair : ∀ w, w.Coherent → ∀ e, question w = .error e → ∀ x id, e ≠ .poolCorruption x id) :
      Composite π (Action.query question)
  | bind {α β : Type} {m : Action α} {f : α → Action β} (hm : Composite π m)
      (hf : ∀ a, Composite π (f a)) : Composite π (m >>= f)
  | aside {α : Type} {f : World → α × World} (hf : ∀ w : World, w.Beside (f w).2)
      (hnotes : π.lasts ∨ ∀ w : World, (f w).2.symbolObjects = w.symbolObjects) :
      Composite π (modifyGet f : Action α)
  | amend {x : Handle} {change : Object → Object}
      (hchange : ∀ o : Object, o.Amends π.declares (change o)) :
      Composite π (modify (·.modifyObject x change) : Action Unit)
  | set (s : Slot) (value : Option Handle) : Composite π (Action.set s value)
  | allocate {c : Handle} {payload : Payload} (hadmits : π.admits c payload)
      (attrCount length : Nat) (own : Ownership) :
      Composite π (Action.allocate (.new c attrCount payload length own))
  | allocatePinned {c : Handle} {payload : Payload} (hadmits : π.admits c payload)
      (attrCount length : Nat) :
      Composite π (Action.allocatePinned (.new c attrCount payload length .shared))
  | pin (x : Handle) : Composite π (Action.pin x)
  | collect (extra : List Handle) : Composite π (Action.collect extra)
  | scope {body : Action Handle} (hbody : Composite π body) : Composite π (Action.scope body)

variable {π : Policy} {α : Type} {w : World} {action : Action α}

/-- A composite action keeps what its steps keep. That symbols may get other objects matters only
where the policy allows objects that are never freed. -/
theorem Composite.keepsBy {R : World → World → Prop} [IsPreorder World R]
    (hcomposite : Composite π action) (hsteps : Steps R)
    (hnote : π.lasts → ∀ (w : World) l, R w { w with symbolObjects := l }) : action.Keeps R := by
  induction hcomposite with
  | pure a => exact keeps_pure a
  | throw e => exact keeps_throw e
  | query => exact keeps_query _
  | bind _ _ ihm ihf => exact keeps_bind ihm ihf
  | @aside _ f hf hnotes =>
      refine keeps_modifyGet fun w => ?_
      rcases hnotes with hlasts | hnotes
      · refine trans_of R (b := { (f w).2 with symbolObjects := w.symbolObjects }) ?_
          (hnote hlasts _ (f w).2.symbolObjects)
        exact hsteps.same (hf w).objects_eq (hf w).pools_eq (hf w).symbols_grow rfl
      · exact hsteps.same (hf w).objects_eq (hf w).pools_eq (hf w).symbols_grow (hnotes w)
  | amend hchange =>
      refine keeps_modify fun w => hsteps.change w _ (fun o hmark => ?_) fun o hpinned => ?_
      · rw [(hchange o).header_eq, hmark]
      · rw [(hchange o).header_eq, hpinned]
  | set s value => exact hsteps.set s value
  | allocate => exact hsteps.allocate rfl
  | allocatePinned => exact hsteps.allocatePinned rfl
  | pin x => exact hsteps.pin x
  | collect extra => exact hsteps.collect extra
  | scope _ ih => exact hsteps.scope ih

/-- A composite action keeps what all steps keep, whatever its policy allows. -/
theorem Composite.keeps {R : World → World → Prop} [IsPreorder World R]
    (hcomposite : Composite π action) (hsteps : AllSteps R) : action.Keeps R :=
  hcomposite.keepsBy hsteps.toSteps fun _ => hsteps.note

/-- A composite action leads from tidy worlds to tidy worlds. -/
theorem Composite.advances (hcomposite : Composite π action) : action.Keeps World.Advances :=
  hcomposite.keepsBy steps_advances fun _ _ _ => .of_eq rfl rfl

/-- What an action that is performed in a coherent world keeps, and that it does not
report that the world has lost track of its objects. -/
structure LeadsTo (w : World) (result : Except Error α) (w' : World) : Prop where
  evolves : w.Evolves w'
  scopes_eq : w'.pools.scopeIds = w.pools.scopeIds
  roots_eq : w'.roots = w.roots
  fair : ∀ x id, result ≠ .error (.poolCorruption x id)

theorem LeadsTo.of_moves {result : Except Error α} {w' : World} (hevolves : w.Evolves w')
    (hmoves : w.Moves w') (hfair : ∀ x id, result ≠ .error (.poolCorruption x id)) :
    LeadsTo w result w' :=
  ⟨hevolves, hmoves.scopes_eq, hmoves.roots_eq, hfair⟩

theorem set_leadsTo (hcoherent : w.Coherent) (s : Slot) (value : Option Handle) :
    LeadsTo w ((set s value).perform w).1 ((set s value).perform w).2 := by
  have hmoves := moves_set s value w
  rcases set_spec w s value with ⟨e, hset, hblames⟩ | ⟨o, old, ho, hs, hcases⟩
  · rw [hset] at hmoves ⊢
    exact .of_moves (.refl hcoherent) hmoves fun x id heq =>
      hblames.ne_poolCorruption x id (Except.error.inj heq)
  · rcases hcases with ⟨_, hset⟩ | ⟨hne, hlive, hset⟩
    · rw [hset] at hmoves ⊢
      exact .of_moves (.refl hcoherent) hmoves fun _ _ heq => by cases heq
    · obtain ⟨w', _, _, hexchange, hevolves⟩ := exchange_spec hcoherent ho hs hne hlive
      rw [hset, hexchange] at hmoves ⊢
      exact .of_moves hevolves hmoves fun _ _ heq => by cases heq

theorem pin_leadsTo (hcoherent : w.Coherent) (x : Handle) :
    LeadsTo w ((pin x).perform w).1 ((pin x).perform w).2 := by
  have hmoves := moves_pin x w
  cases hx : w.objects.get? x with
  | none =>
      have hpin : (pin x).perform w = (.error (.dangling x), w) := by
        unfold pin
        rw [perform_query_bind, World.ownership_eq_error hx]
      rw [hpin] at hmoves ⊢
      exact .of_moves (.refl hcoherent) hmoves fun _ _ heq => by cases heq
  | some o =>
      obtain ⟨w', hpin, hevolves⟩ := pin_spec hcoherent hx
      rw [hpin] at hmoves ⊢
      exact .of_moves hevolves hmoves fun _ _ heq => by cases heq

/-- The innermost scope can be closed, and closing it closes no other. -/
theorem closeScope_innermost {id : PoolId} {ids : List PoolId} (hcoherent : w.Coherent)
    (hscopes : w.pools.scopeIds = ids ++ [id]) (hnew : id ∉ ids) (hid : id ≠ PoolId.collector)
    (result : Except Error Handle) :
    ∃ saved p w', (closeScope id result).perform w = (result, w') ∧ Saves w saved id result ∧
      w.Moves saved ∧ p ∈ saved.pools.innermostFirst ∧ p.id = id ∧
      Releases saved w' [p] w'.pools ∧ w'.pools.scopeIds = ids := by
  obtain ⟨saved, hsaves, hsave, hclose⟩ := closeScope_spec hcoherent id result
  have hsaved : w.Moves saved := by
    have hmoves := moves_saveResult id result w
    rwa [hsave] at hmoves
  obtain ⟨p, kept, hpop, hp, hkept, hsplit⟩ :=
    PoolStack.pop_innermost (hsaved.scopes_eq.trans hscopes) hnew hid
  rcases hclose with ⟨e, _, hpop', _⟩ | ⟨w', closed, kept', hperform, hpop', hreleases⟩
  · cases hpop.symm.trans hpop'
  · cases hpop.symm.trans hpop'
    refine ⟨saved, p, w', hperform, hsaves, hsaved, hsplit ▸ List.mem_cons_self, hp, ?_, ?_⟩
    · rw [hreleases.pools_eq]
      exact hreleases
    · rw [hreleases.pools_eq, hkept]

/-- The scope that is opened becomes the innermost one, under a number of its own. -/
theorem openScope_adds (hcoherent : w.Coherent) (hfits : (openScope.perform w).2.Fits) :
    (openScope.perform w).2.pools.scopeIds = w.pools.scopeIds ++ [w.pools.push.1] ∧
      w.pools.push.1 ∉ w.pools.scopeIds ∧ w.pools.push.1 ≠ PoolId.collector := by
  obtain ⟨hvalid, _, hid⟩ := hcoherent.pools.push hfits.opened_lt
  refine ⟨List.reverse_cons, ?_, hid⟩
  rw [PoolStack.scopeIds, List.mem_reverse]
  exact (List.nodup_cons.1 hvalid.ids_nodup).1

/-- A scope that is opened, run and closed leaves the scopes around it as they were. -/
theorem scope_leadsTo {body : Action Handle} (hcoherent : w.Coherent)
    (hfits : ((scope body).perform w).2.Fits) (hadvances : body.Keeps World.Advances)
    (hbody : (openScope.perform w).2.Coherent →
      (body.perform (openScope.perform w).2).2.Fits →
      LeadsTo (openScope.perform w).2 (body.perform (openScope.perform w).2).1
        (body.perform (openScope.perform w).2).2) :
    LeadsTo w ((scope body).perform w).1 ((scope body).perform w).2 := by
  let id := w.pools.push.1
  let opened := (openScope.perform w).2
  let result := (body.perform opened).1
  let after := (body.perform opened).2
  have hunfold : (scope body).perform w = (closeScope id result).perform after := rfl
  rw [hunfold] at hfits ⊢
  have hafter : after.Fits := (advances_closeScope id result after).fits hfits
  have hopened : opened.Fits := (hadvances opened).fits hafter
  have hevolves := openScope_spec hcoherent hopened
  have hbody := hbody hevolves.coherent hafter
  obtain ⟨hscopes, hnew, hid⟩ := openScope_adds hcoherent hopened
  obtain ⟨saved, p, w', hperform, hsaves, hsaved, _, _, hreleases, hkept⟩ :=
    closeScope_innermost hbody.evolves.coherent (hbody.scopes_eq.trans hscopes) hnew hid result
  rw [hperform]
  refine ⟨hevolves.trans (hbody.evolves.trans (hsaves.evolves.trans hreleases.evolves)), hkept,
    ?_, hbody.fair⟩
  rw [hreleases.roots_eq, hsaved.roots_eq, hbody.roots_eq]
  rfl

/-- A composite action that is performed in a coherent world leads to a coherent world, and it
does not report that the world has lost track of its objects. -/
theorem Composite.leadsTo (hcomposite : Composite π action) (hcoherent : w.Coherent)
    (htidy : w.Tidy) (hwithin : π.Within w) (hfits : (action.perform w).2.Fits) :
    LeadsTo w (action.perform w).1 (action.perform w).2 := by
  induction hcomposite generalizing w with
  | pure a => exact .of_moves (.refl hcoherent) (refl_of World.Moves w) fun _ _ heq => by cases heq
  | throw e hfair =>
      refine .of_moves (.refl hcoherent) (refl_of World.Moves w) fun x id heq => ?_
      exact hfair x id (Except.error.inj heq)
  | query hfair =>
      refine .of_moves (.refl hcoherent) (refl_of World.Moves w) fun x id heq => ?_
      exact hfair w hcoherent _ heq x id rfl
  | @bind _ _ m f hm hf ihm ihf =>
      have hadvances := hm.advances w
      rw [perform_bind] at hfits ⊢
      cases hperform : m.perform w with
      | mk result w' =>
          rw [hperform] at hfits hadvances
          cases result with
          | error e =>
              have hfirst := ihm hcoherent htidy hwithin (by rw [hperform]; exact hfits)
              rw [hperform] at hfirst
              exact ⟨hfirst.evolves, hfirst.scopes_eq, hfirst.roots_eq, fun x id heq =>
                hfirst.fair x id (congrArg Except.error (Except.error.inj heq))⟩
          | ok a =>
              have hfits' : w'.Fits := ((hf a).advances w').fits hfits
              have hfirst := ihm hcoherent htidy hwithin (by rw [hperform]; exact hfits')
              rw [hperform] at hfirst
              have hsecond := ihf a hfirst.evolves.coherent (hadvances.tidy htidy)
                (hwithin.evolve hfirst.evolves) hfits
              exact ⟨hfirst.evolves.trans hsecond.evolves,
                hsecond.scopes_eq.trans hfirst.scopes_eq,
                hsecond.roots_eq.trans hfirst.roots_eq, hsecond.fair⟩
  | aside hf =>
      obtain ⟨_, hobjects, hpools, hclasses, hroots, _, _⟩ := hf w
      exact .of_moves (.of_eq hcoherent hobjects hpools hclasses) (.of_eq hobjects hpools hroots)
        fun _ _ heq => by cases heq
  | amend hchange =>
      refine .of_moves (evolves_amend hcoherent hwithin.declares hchange) ?_
        fun _ _ heq => by cases heq
      exact World.moves_modifyObject w _ fun o hmark => by rw [(hchange o).header_eq, hmark]
  | set s value => exact set_leadsTo hcoherent s value
  | @allocate c payload hadmits attrCount length own =>
      obtain ⟨hc, hpayload⟩ := hwithin.admits c payload hadmits
      obtain ⟨hevolves, herror⟩ := allocate_spec hcoherent htidy hfits rfl
        (Object.fresh_new hc hpayload)
      refine .of_moves hevolves (moves_allocate rfl w) fun x id heq => ?_
      obtain ⟨limit, heq'⟩ := herror _ heq
      cases heq'
  | @allocatePinned c payload hadmits attrCount length =>
      obtain ⟨hc, hpayload⟩ := hwithin.admits c payload hadmits
      obtain ⟨w', hperform, hputs⟩ := allocatePinned_spec hcoherent hfits rfl
      have hmoves := moves_allocatePinned (o := .new c attrCount payload length .shared) rfl w
      rw [hperform] at hmoves ⊢
      exact .of_moves (hputs.evolves hcoherent (Object.fresh_new hc hpayload)) hmoves
        fun _ _ heq => by cases heq
  | pin x => exact pin_leadsTo hcoherent x
  | collect extra =>
      exact .of_moves (evolves_collect hcoherent htidy extra) (World.moves_collect w extra)
        fun _ _ heq => by cases heq
  | scope hbody ih =>
      refine scope_leadsTo hcoherent hfits hbody.advances fun hcoherent' hfits' => ?_
      refine ih hcoherent' ?_ ⟨hwithin.admits, hwithin.declares⟩ hfits'
      exact (advances_openScope w).tidy htidy

end Action

end ObjectSystem

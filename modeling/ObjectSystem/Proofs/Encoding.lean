/-
# Slots and their codes

The code of a slot is one signed word: the places in instances are the positive numbers, the
indices in the class the negative ones, shifted by one because there is no negative zero. A
place or an index that is too large for this shares its code with another slot, and so does the
place zero.

Such slots do not turn up. Whatever descriptors there are to hand in come from the constructors
of descriptors and from other worlds, so that the slots of all classes can be read off two lists
of attributes. As long as neither list is too long, each slot can be told from its code, and
no two attributes of a class share one.
-/

import ObjectSystem.Proofs.Strides

namespace ObjectSystem

namespace AttrSlot

variable {s t : AttrSlot}

/-- The slot is one of those that a code stands for. -/
def IsCoded : AttrSlot → Prop
  | unmapped => True
  | inInstance place => 1 ≤ place.toNat ∧ place.toNat ≤ 2 ^ 31 - 1
  | inClass index => index.toNat < 2 ^ 31 - 1

theorem toInt_toInt32 {n : UInt32} (hn : n.toNat < 2 ^ 31) : n.toInt32.toInt = n.toNat := by
  rw [Int32.toInt, UInt32.toInt32]
  refine BitVec.toInt_eq_toNat_of_lt ?_
  change 2 * n.toNat < 2 ^ 32
  omega

/-- The code of an index is a negative number, one below it. -/
theorem toInt_encode_inClass {index : UInt32} (hindex : index.toNat < 2 ^ 31 - 1) :
    (inClass index).encode.toInt = -index.toNat - 1 := by
  have hword : index.toInt32.toInt = index.toNat := toInt_toInt32 (by omega)
  have hneg : (-index.toNat : Int).bmod (2 ^ 32) = -index.toNat :=
    Int.bmod_eq_of_le (by omega) (by omega)
  rw [encode, Int32.toInt_sub, Int32.toInt_neg, hword, hneg, Int32.toInt_one]
  exact Int.bmod_eq_of_le (by omega) (by omega)

theorem decode_encode (hs : s.IsCoded) : decode s.encode = s := by
  cases s with
  | unmapped => rfl
  | inInstance place =>
      obtain ⟨hpos, hle⟩ := hs
      have hcode : 0 < place.toInt32 := by
        rw [Int32.lt_iff_toInt_lt, toInt_toInt32 (by omega), Int32.toInt_zero]
        omega
      rw [encode, decode, if_pos hcode, UInt32.toUInt32_toInt32]
  | inClass index =>
      have hcode : (inClass index).encode.toInt < 0 := by
        rw [toInt_encode_inClass hs]
        omega
      have hback : -(-index.toInt32 - 1) - 1 = index.toInt32 := by grind
      rw [decode, if_neg, if_pos (Int32.lt_iff_toInt_lt.2 hcode), encode, hback,
        UInt32.toUInt32_toInt32]
      rw [Int32.lt_iff_toInt_lt]
      exact Int.not_lt.2 (Int.le_of_lt hcode)

theorem encode_decode (code : Int32) : (decode code).encode = code := by
  unfold decode
  split
  · exact Int32.toInt32_toUInt32 code
  · next hpos =>
      split
      · rw [encode, Int32.toInt32_toUInt32]
        grind
      · next hneg => exact (Int32.le_antisymm (Int32.not_lt.1 hpos) (Int32.not_lt.1 hneg)).symm

/-- Slots with the same code are the same. -/
theorem eq_of_encode_eq (hs : s.IsCoded) (ht : t.IsCoded) (hcodes : s.encode = t.encode) :
    s = t := by
  rw [← decode_encode hs, hcodes, decode_encode ht]

end AttrSlot

namespace Class

variable {d : Class} {a : AttrSlot} {i j : Nat}

/-- All slots of a class can be told from their codes, and no two attributes have the same. -/
structure Coded (d : Class) : Prop where
  coded : ∀ (i : Nat) (a : AttrSlot), d.slots[i]? = some a → a.IsCoded
  distinct : ∀ (i j : Nat) (a b : AttrSlot), d.slots[i]? = some a → d.slots[j]? = some b → i ≠ j →
    a.encode = b.encode → a = .unmapped ∧ b = .unmapped

namespace WellLaid

/-- There is a symbol for each of the slots. -/
theorem slot_ofIndex (hlaid : d.WellLaid) (ha : d.slots[i]? = some a) :
    (Symbol.ofIndex i).index.toNat = i ∧ d.slot (Symbol.ofIndex i) = a := by
  have hindex : (Symbol.ofIndex i).index.toNat = i := UInt32.toNat_ofNat_of_lt'
    ((Array.getElem?_eq_some_iff.1 ha).1.trans_le hlaid.slots_size_le)
  exact ⟨hindex, by rw [slot, hindex, ha, Option.getD_some]⟩

theorem isCoded (hlaid : d.WellLaid) (hattrs : d.attrCount < 2 ^ 31 - 1)
    (hclassAttrs : d.classAttrs.size < 2 ^ 31 - 1) (ha : d.slots[i]? = some a) : a.IsCoded := by
  obtain ⟨_, hslot⟩ := hlaid.slot_ofIndex ha
  cases a with
  | unmapped => trivial
  | inInstance place =>
      obtain ⟨hpos, hle⟩ := hlaid.place_mem _ place hslot
      exact ⟨hpos, hle.trans hattrs.le⟩
  | inClass index => exact (hlaid.index_mem _ index hslot).trans hclassAttrs

/-- No two attributes share a slot. -/
theorem eq_of_slots (hlaid : d.WellLaid) (hi : d.slots[i]? = some a) (hj : d.slots[j]? = some a)
    (ha : a ≠ .unmapped) : i = j := by
  obtain ⟨hindex, hslot⟩ := hlaid.slot_ofIndex hi
  obtain ⟨hindex', hslot'⟩ := hlaid.slot_ofIndex hj
  have heq : Symbol.ofIndex i = Symbol.ofIndex j := by
    cases a with
    | unmapped => exact absurd rfl ha
    | inInstance place =>
        obtain ⟨hpos, hle⟩ := hlaid.place_mem _ place hslot
        exact (hlaid.place_unique place.toNat hpos hle).unique ⟨place, hslot, rfl⟩
          ⟨place, hslot', rfl⟩
    | inClass index =>
        have hlt := hlaid.index_mem _ index hslot
        exact (hlaid.index_unique index.toNat hlt).unique ⟨index, hslot, rfl⟩
          ⟨index, hslot', rfl⟩
  rw [← hindex, heq, hindex']

theorem coded (hlaid : d.WellLaid) (hattrs : d.attrCount < 2 ^ 31 - 1)
    (hclassAttrs : d.classAttrs.size < 2 ^ 31 - 1) : d.Coded where
  coded _ _ := hlaid.isCoded hattrs hclassAttrs
  distinct i j a b ha hb hne hcodes := by
    cases AttrSlot.eq_of_encode_eq (hlaid.isCoded hattrs hclassAttrs ha)
      (hlaid.isCoded hattrs hclassAttrs hb) hcodes
    by_cases hunmapped : a = .unmapped
    · exact ⟨hunmapped, hunmapped⟩
    · exact absurd (hlaid.eq_of_slots ha hb hunmapped) hne

end WellLaid

end Class

namespace World

variable {w w' : World} {settings : Settings}

/-! ## Descriptors in a world -/

/-- If the slots of all classes of the first world can be read off two lists of attributes, so
can those of the second. -/
def StaysLaid (w w' : World) : Prop :=
  w.Describing Class.Laid → w'.Describing Class.Laid

instance : IsPreorder World StaysLaid where
  refl _ := id
  trans _ _ _ hfirst hsecond := hsecond ∘ hfirst

theorem staysLaid_modifyDescriptor {c : Handle} {change : Class → Class}
    (hchange : ∀ d, w.descriptor c = .ok d → d.Laid → (change d).Laid) :
    w.StaysLaid (w.modifyDescriptor c change) := by
  intro hlaid
  refine describing_iff.2 fun x o' d' ho' hd' => ?_
  rw [modifyDescriptor, modifyPayload, modifyObject, Arena.get?_modify] at ho'
  split at ho'
  · next heq =>
      obtain ⟨o, ho, rfl⟩ := Option.map_eq_some_iff.1 ho'
      cases hpayload : o.payload with
      | descriptor d =>
          simp only [hpayload, Payload.descriptor.injEq] at hd'
          have hd : w.descriptor c = .ok d :=
            descriptor_eq_ok_iff.2 (payload?_eq_some_iff.2 ⟨o, heq ▸ ho, hpayload⟩)
          exact hd' ▸ hchange d hd (hlaid c d hd)
      | _ => simp [hpayload] at hd'
  · exact describing_iff.1 hlaid x o' d' ho' hd'

theorem strides_staysLaid : Strides Class.Laid StaysLaid where
  trim htrims hlaid := by
    refine describing_iff.2 fun x o' d' ho' hd' => ?_
    obtain ⟨o, ho, hstays⟩ := htrims.objects.back x o' ho'
    obtain ⟨d, hd, hclass⟩ := hstays.described hd'
    exact hclass.grows.laid (describing_iff.1 hlaid x o d ho hd)
  link w c superclass := staysLaid_modifyDescriptor fun d _ =>
    (d.grows_addSuperclass superclass).laid
  widen w c d s hs hd hfree := staysLaid_modifyDescriptor fun d' hd' => by
    cases hd.symm.trans hd'
    exact (Class.grows_addClassAttr hs hfree).laid
  put w value hvalue hlaid := by
    refine describing_iff.2 fun x o d ho hd => ?_
    rcases Arena.get?_of_insertWith ho with ho | ⟨h, rfl⟩
    · exact describing_iff.1 hlaid x o d ho hd
    · exact hvalue h d hd
  register _ _ hlaid := describing_iff.2 fun x o d ho hd => describing_iff.1 hlaid x o d ho hd

end World

namespace Class

theorem heritable_laid : Heritable Laid :=
  fun _ _ _ _ _ _ _ _ ⟨_, _, hlaid⟩ hderive => ⟨_, _, (hlaid.derive hderive).1⟩

end Class

namespace Action

open World

theorem staysLaid_makeClassClass : makeClassClass.Keeps StaysLaid := by
  refine keeps_bind (keeps_modifyGet fun w => ?_) fun c => ?_
  · refine strides_staysLaid.put w _ fun _ d hd => ?_
    cases hd
    exact Class.laid_root "class" .noCopy
  · exact keeps_bind (strides_staysLaid.of_trims (trims_pin c)) fun _ =>
      keeps_modify fun w => strides_staysLaid.register w c

theorem staysLaid_makeClass (plan : ClassPlan) : (makeClass plan).Keeps StaysLaid := by
  refine keeps_bind (fun w hlaid => ?_) fun _ => ?_
  · exact strides_staysLaid.subclass hlaid Class.heritable_laid plan.parent plan.name plan.attrs
      none hlaid
  · exact keeps_forM fun e =>
      strides_staysLaid.routine (routine_setAttrClass trivial e.1 e.2.1 trivial)

theorem staysLaid_makeClasses : makeClasses.Keeps StaysLaid :=
  keeps_bind staysLaid_makeClassClass fun _ =>
    keeps_bind (strides_staysLaid.registerClass (Class.laid_root _ _)) fun _ =>
      keeps_bind (strides_staysLaid.routine (.addSuperclass Builtin.classClass trivial)) fun _ =>
        keeps_bind (keeps_forM staysLaid_makeClass) fun _ =>
          keeps_bind (keeps_forM fun e =>
            strides_staysLaid.routine (routine_setBehavior e.1 e.2)) fun _ =>
              keeps_forM fun e => strides_staysLaid.routine (routine_setTypeTag e.1 e.2)

end Action

namespace World

variable {w w' : World} {settings : Settings}

theorem laid_create (hcreate : create settings = .ok w) : w.Describing Class.Laid := by
  obtain ⟨_, w', hclasses, hobjects⟩ := exists_of_create hcreate
  have hempty : (empty settings).Describing Class.Laid :=
    describing_iff.2 fun _ _ d ho hd =>
      Arena.All.get? (P := fun o => ∀ d, o.payload = .descriptor d → d.Laid) Arena.all_empty ho d hd
  have hmade := Action.staysLaid_makeClasses (empty settings) hempty
  rw [hclasses] at hmade
  have hlaid := strides_staysLaid.makeObjects w' hmade
  rwa [hobjects] at hlaid

end World

/-! ## Runs and the descriptors that they hand in -/

mutual

/-- The worlds that operations lead to from a new one, if the descriptors that are handed in have
been made as descriptors can be made. -/
inductive World.Built : Settings → World → Prop where
  | create {settings : Settings} {w : World} (hcreate : World.create settings = .ok w) :
      World.Built settings w
  | step {settings : Settings} {w : World} (hbuilt : World.Built settings w) {α : Type}
      (op : Operation α) (hhands : ∀ d, op.Hands d → Class.Made d) :
      World.Built settings (op.perform w).2

/-- The descriptors that there are to hand in: those without attributes, what is derived from
others, and what is read off a world. -/
inductive Class.Made : Class → Prop where
  | root (name : String) (behavior : Behavior) : Class.Made (.root name behavior)
  | derive {parent d : Class} {handle defaultClass : Handle} {name : String}
      {newAttrs : List Symbol} {newClasses : Option (List Handle)} {symbols : SymbolTable}
      (hparent : Class.Made parent)
      (hderive : parent.derive handle name newAttrs newClasses defaultClass symbols = .ok d) :
      Class.Made d
  | read {settings : Settings} {w : World} {c : Handle} {d : Class}
      (hbuilt : World.Built settings w) (hd : w.descriptor c = .ok d) : Class.Made d

end

-- Two inductions at once: a descriptor that is handed in may come from another run.
mutual

/-- Whatever the run, the slots of every class can be read off two lists of attributes. -/
theorem World.Built.laid : ∀ {settings : Settings} {w : World}, World.Built settings w →
    w.Describing Class.Laid
  | _, _, .create hcreate => World.laid_create hcreate
  | _, _, .step hbuilt op hhands =>
      op.strides World.strides_staysLaid (fun d hd => (hhands d hd).laid) hbuilt.laid
        Class.heritable_laid hbuilt.laid

theorem Class.Made.laid : ∀ {d : Class}, Class.Made d → d.Laid
  | _, .root name behavior => Class.laid_root name behavior
  | _, .derive hparent hderive => Class.heritable_laid _ _ _ _ _ _ _ _ hparent.laid hderive
  | _, .read hbuilt hd => hbuilt.laid _ _ hd

end

namespace World

variable {settings : Settings} {w : World}

/-- Codes are lossless: each word but the smallest is the code of the slot that it stands for, and
each slot with a code is the one that its code stands for. In the worlds of all runs the slots of
a class have codes, different ones for different attributes, as long as neither the attributes of
its instances nor its own come to the largest signed word. -/
theorem Built.codes_lossless (hbuilt : Built settings w) :
    (∀ code : Int32, code ≠ Int32.minValue → (AttrSlot.decode code).encode = code) ∧
      (∀ s : AttrSlot, s.IsCoded → AttrSlot.decode s.encode = s) ∧
      ∀ c d, w.descriptor c = .ok d → d.attrCount < 2 ^ 31 - 1 →
        d.classAttrs.size < 2 ^ 31 - 1 → d.Coded := by
  refine ⟨fun code _ => AttrSlot.encode_decode code, fun _ => AttrSlot.decode_encode,
    fun c d hd hattrs hclassAttrs => ?_⟩
  obtain ⟨inst, own, hlaid⟩ := hbuilt.laid c d hd
  exact hlaid.wellLaid.coded hattrs hclassAttrs

/-- A class of points keeps one attribute in its instances and another in itself. -/
theorem Built.codes_lossless_point :
    let point := Builtin.nth 25
    let w₁ := ((Operation.subclass Builtin.objectClass "point" [Symbol.head] none).perform
      initial).2
    let w := ((Operation.defineClassAttr point Symbol.tag (some Builtin.null)).perform w₁).2
    Built {} w ∧ ∃ d, w.descriptor point = .ok d ∧ d.attrCount < 2 ^ 31 - 1 ∧
      d.classAttrs.size < 2 ^ 31 - 1 ∧ d.slot Symbol.head = .inInstance 1 ∧
      d.slot Symbol.tag = .inClass 0 ∧ d.Coded := by
  intro point w₁ w
  have hbuilt : Built {} w :=
    ((Built.create create_default).step
      (.subclass Builtin.objectClass "point" [Symbol.head] none) nofun).step
        (.defineClassAttr point Symbol.tag (some Builtin.null)) nofun
  have hshown : (w.descriptor point).toOption.map (fun d =>
      (d.attrCount, d.classAttrs.size, d.slot Symbol.head, d.slot Symbol.tag)) =
        some (1, 1, .inInstance 1, .inClass 0) := by decide +kernel
  cases hd : w.descriptor point with
  | error e =>
      rw [hd] at hshown
      cases hshown
  | ok d =>
      obtain ⟨hattrs, hclassAttrs, hhead, htag⟩ :
          d.attrCount = 1 ∧ d.classAttrs.size = 1 ∧ d.slot Symbol.head = .inInstance 1 ∧
            d.slot Symbol.tag = .inClass 0 := by simpa [hd, Except.toOption] using hshown
      have hfew : d.attrCount < 2 ^ 31 - 1 ∧ d.classAttrs.size < 2 ^ 31 - 1 := by
        rw [hattrs, hclassAttrs]
        decide
      exact ⟨hbuilt, d, rfl, hfew.1, hfew.2, hhead, htag,
        hbuilt.codes_lossless.2.2 point d hd hfew.1 hfew.2⟩

end World

end ObjectSystem

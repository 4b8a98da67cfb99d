/-
# The places of chains

The overloads of a chain lead to further chains; the place of a chain inside another is the list
of the classes on the way to it. Methods grow in two ways: a chain is put in, at a class or at the
end of another chain, or a chain gets an overload that leads to a value. The first opens no way.
The second opens those that pass the chain, and if it is at one place only, those that pass this
place. Chains may be held by several classes, so the ways of all these are affected.

A chain that the new value leads to would open further ways, and so would a handle that comes to
name a chain. So the value must be no chain, and what overloads lead to must be there.
-/

import ObjectSystem.Proofs.Ways

namespace ObjectSystem

/-- What is related to a list with one more item at the end. -/
theorem forall₂_snoc {α β : Type} {r : α → β → Prop} {l : List α} {l' : List β} {b : β}
    (h : List.Forall₂ r l (l' ++ [b])) :
    ∃ front a, l = front ++ [a] ∧ List.Forall₂ r front l' ∧ r a b := by
  have hlast := List.forall₂_drop_append l l' [b] h
  have hfront := List.forall₂_take_append l l' [b] h
  generalize hdrop : l.drop l'.length = last at hlast
  cases hlast with
  | cons hab hnil =>
      cases hnil
      exact ⟨_, _, by rw [← hdrop, List.take_append_drop], hfront, hab⟩

theorem getElem?_append_cases {α : Type} {l l' : Array α} {i : Nat} {a : α}
    (hi : (l ++ l')[i]? = some a) : l[i]? = some a ∨ a ∈ l' := by
  rw [Array.getElem?_append] at hi
  split at hi
  · exact Or.inl hi
  · exact Or.inr (Array.mem_of_getElem? hi)

theorem getElem?_append_of_some {α : Type} {l l' : Array α} {i : Nat} {a : α}
    (hi : l[i]? = some a) : (l ++ l')[i]? = some a := by
  rw [Array.getElem?_append_left (Array.getElem?_eq_some_iff.1 hi).1, hi]

namespace World

variable {w w' : World} {a : Annals} {c k m n x y v top : Handle} {s t : Symbol} {sig : Signature}
  {l l' : Array Signature} {bs p q : List Handle} {is : List Nat} {extra : List Handle} {e : Error}

/-- Classes and objects are in order. -/
def Firm (w : World) : Prop :=
  ∃ a, w.Tallies a

theorem Firm.ordered (hfirm : w.Firm) : w.Ordered := by
  obtain ⟨a, htallies⟩ := hfirm
  exact htallies.ordered

theorem Firm.builtin (hfirm : w.Firm) : ∀ c ∈ Builtin.classes, c ∈ w.classes := by
  obtain ⟨a, htallies⟩ := hfirm
  exact htallies.builtin

/-- What is no chain is reported with the name of its class. -/
theorem Firm.signatures_eq_error (hfirm : w.Firm) (hm : w.objects.Live m)
    (he : w.signatures m = .error e) : ∃ c ∈ w.classes, ∃ d, w.classOf m = .ok c ∧
      w.descriptor c = .ok d ∧ e = .typeMismatch "method" d.name := by
  obtain ⟨a, htallies⟩ := hfirm
  obtain ⟨o, ho⟩ := hm
  have hc := (htallies.shapely m o ho).1
  obtain ⟨d, hd⟩ := htallies.ordered.described _ hc
  have hdescriptor := hd.describes.descriptor_eq
  obtain ⟨k, hk, hpayload⟩ := payload?_eq_some_iff.1 (descriptor_eq_ok_iff.1 hdescriptor)
  refine ⟨o.classRef, hc, d, classOf_eq_ok ho, hdescriptor, ?_⟩
  have hname : w.className m = some d.name := by
    rw [className, walkLimit, classNameWithin, classOf_eq_ok ho]
    simp only [object_eq_ok hk, hpayload, Functor.map, Except.map]
  have hmismatch : w.mismatch "method" m = .typeMismatch "method" d.name := by
    rw [mismatch, hname]
    rfl
  rw [← hmismatch]
  unfold signatures at he
  rw [object_eq_ok ho] at he
  cases hkind : o.payload <;>
    simp only [hkind, bind, Except.bind, pure, Except.pure, throw, throwThe, MonadExceptOf.throw,
      Except.error.injEq, reduceCtorEq] at he
  all_goals exact he.symm

/-! ## Places -/

/-- A chain inside a chain, at a place: it is that chain, or an overload for a class leads to it
from the place before. -/
inductive Inside (w : World) (top : Handle) : (place : List Handle) → Handle → Prop where
  | top (hm : w.isMethod top = true) : Inside w top [] top
  | inner {p : List Handle} {m k n : Handle} {l : Array Signature} {sig : Signature}
      (hinside : Inside w top p m) (hl : w.signatures m = .ok l) (hsig : sig ∈ l)
      (hclass : sig.argClass = some k) (hvalue : sig.value = some n)
      (hn : w.isMethod n = true) : Inside w top (p ++ [k]) n

namespace Inside

theorem isMethod (hinside : w.Inside top p m) : w.isMethod m = true := by
  cases hinside with
  | top hm => exact hm
  | inner _ _ _ _ _ hn => exact hn

theorem isMethod_top (hinside : w.Inside top p m) : w.isMethod top = true := by
  induction hinside with
  | top hm => exact hm
  | inner _ _ _ _ _ _ ih => exact ih

theorem keeps (hinside : w.Inside top p m) (hkeeps : w.Keeps extra top) : w.Keeps extra m := by
  induction hinside with
  | top => exact hkeeps
  | inner _ hl hsig _ hvalue hn ih => exact keeps_overload ih hl hsig hvalue (live_of_isMethod hn)

/-- The place in a chain that an overload leads to is one in the chain of that overload. -/
theorem cons (hl : w.signatures m = .ok l) (hsig : sig ∈ l) (hclass : sig.argClass = some k)
    (hvalue : sig.value = some top) (hinside : w.Inside top p n) : w.Inside m (k :: p) n := by
  induction hinside with
  | top hm => exact .inner (.top (isMethod_iff.2 ⟨l, hl⟩)) hl hsig hclass hvalue hm
  | inner _ hl' hsig' hclass' hvalue' hn ih => exact .inner ih hl' hsig' hclass' hvalue' hn

/-- A way from a place on goes on a way to that place. -/
theorem way (hinside : w.Inside top p m) (hbelow : List.Forall₂ w.Below bs p)
    {bs' : List Handle} (hway : w.Way bs' m is v) : ∃ js, w.Way (bs ++ bs') top js v := by
  induction hinside generalizing bs bs' is with
  | top =>
      cases hbelow
      exact ⟨is, hway⟩
  | inner _ hl hsig hclass hvalue _ ih =>
      obtain ⟨bs, b, rfl, hbelow, hb⟩ := forall₂_snoc hbelow
      obtain ⟨i, hi⟩ := Array.mem_iff_getElem?.1 hsig
      rw [List.append_assoc]
      exact ih hbelow (.further hl hi hclass hb hvalue hway)

end Inside

/-- A chain at a place of the method that a class holds under a symbol. -/
def Branch (w : World) (c : Handle) (s : Symbol) (place : List Handle) (m : Handle) : Prop :=
  ∃ top, w.classAttr c s = .ok (some top) ∧ w.Inside top place m

theorem Branch.isMethod (hbranch : w.Branch c s p m) : w.isMethod m = true := by
  obtain ⟨_, _, hinside⟩ := hbranch
  exact hinside.isMethod

theorem Branch.keeps (hbranch : w.Branch c s p m) (hordered : w.Ordered) (hc : c ∈ w.classes) :
    w.Keeps extra m := by
  obtain ⟨top, hattr, hinside⟩ := hbranch
  exact hinside.keeps (hordered.keeps_classAttr hc hattr (live_of_isMethod hinside.isMethod_top))

/-- What a class holds under a symbol has a chain in common with what another one, or the same,
holds under another. -/
def Shares (w : World) (k : Handle) (t : Symbol) (c : Handle) (s : Symbol) : Prop :=
  ∃ p p' m, w.Branch k t p m ∧ w.Branch c s p' m

/-- What registered classes hold is there. -/
def Held (w : World) : Prop :=
  ∀ c ∈ w.classes, ∀ s m, w.classAttr c s = .ok (some m) → w.objects.Live m

/-- What overloads lead to is there. -/
def Backed (w : World) : Prop :=
  ∀ m l, w.signatures m = .ok l → ∀ sig ∈ l, ∀ y, sig.value = some y → w.objects.Live y

/-- No chain is at two places of a chain. -/
def Parted (w : World) : Prop :=
  ∀ top p p' m, w.Inside top p m → w.Inside top p' m → p = p'

theorem Parted.branch (hparted : w.Parted) (hbranch : w.Branch c s p m)
    (hbranch' : w.Branch c s q m) : p = q := by
  obtain ⟨top, hattr, hinside⟩ := hbranch
  obtain ⟨top', hattr', hinside'⟩ := hbranch'
  cases hattr.symm.trans hattr'
  exact hparted top p q m hinside hinside'

/-- Methods as definitions build them: what is stored is there, and no chain is at two places. -/
structure Arranged (w : World) : Prop where
  tidy : w.Tidy
  firm : w.Firm
  held : w.Held
  backed : w.Backed
  parted : w.Parted

/-! ## Growth -/

/-- Arguments of some classes lead to a place and meet the class of an overload there. -/
inductive Meets (w : World) (argClass : Option Handle) :
    (bs : List Handle) → (place : List Handle) → Prop where
  | marker (hclass : argClass = none) : Meets w argClass [] []
  | value {b k : Handle} {bs : List Handle} (hclass : argClass = some k) (hbelow : w.Below b k) :
      Meets w argClass (b :: bs) []
  | further {b k : Handle} {bs p : List Handle} (hbelow : w.Below b k)
      (hrest : Meets w argClass bs p) : Meets w argClass (b :: bs) (k :: p)

/-- The first arguments lead to the place, and the others fit the overload. -/
theorem Meets.exists_split {argClass : Option Handle} (hmeets : w.Meets argClass bs p) :
    ∃ front rest, bs = front ++ rest ∧ List.Forall₂ w.Below front p ∧ w.Meets argClass rest [] := by
  induction hmeets with
  | marker hclass => exact ⟨[], [], rfl, .nil, .marker hclass⟩
  | value hclass hbelow => exact ⟨[], _, rfl, .nil, .value hclass hbelow⟩
  | further hbelow _ ih =>
      obtain ⟨front, rest, rfl, hfront, hrest⟩ := ih
      exact ⟨_ :: front, rest, rfl, .cons hbelow hfront, hrest⟩

/-- A step by which methods grow. -/
inductive Growth where
  /-- A class comes to hold a new chain under a symbol. -/
  | opens (c : Handle) (s : Symbol) (chain : Handle)
  /-- A chain gets an overload for a class that leads to a new chain. -/
  | nests (m argClass chain : Handle)
  /-- A chain gets an overload that leads to a value. -/
  | adds (m : Handle) (argClass : Option Handle) (value : Handle)

namespace Growth

/-- The new chain, if there is one. -/
def IsNew : Growth → Handle → Prop
  | opens _ _ x, y | nests _ _ x, y => y = x
  | adds _ _ _, _ => False

/-- The overloads that a chain gets. -/
def added : Growth → Handle → Array Signature
  | opens _ _ _, _ => #[]
  | nests m c x, n => if n = m then #[{ argClass := some c, value := some x }] else #[]
  | adds m argClass v, n => if n = m then #[{ argClass := argClass, value := some v }] else #[]

/-- A class comes to hold a chain under a symbol. -/
def Gains : Growth → Handle → Symbol → Handle → Prop
  | opens c s x, c', s', y => c' = c ∧ s' = s ∧ y = x
  | _, _, _, _ => False

/-- The new chains as a list. -/
def chains : Growth → List Handle
  | opens _ _ x | nests _ _ x => [x]
  | adds _ _ _ => []

/-- The place of the new chain inside another one. -/
def Nests (w : World) : Growth → (top : Handle) → (place : List Handle) → Prop
  | nests m k _, top, p => ∃ q, w.Inside top q m ∧ p = q ++ [k]
  | _, _, _ => False

/-- The place of the new chain at a class. -/
def Places (w : World) : Growth → Handle → Symbol → List Handle → Prop
  | opens c s _, c', s', p => c' = c ∧ s' = s ∧ p = []
  | nests m k _, c, s, p => ∃ q, w.Branch c s q m ∧ p = q ++ [k]
  | adds _ _ _, _, _, _ => False

theorem mem_chains_iff {g : Growth} : x ∈ g.chains ↔ g.IsNew x := by
  cases g <;> simp [chains, IsNew]

theorem nodup_chains (g : Growth) : g.chains.Nodup := by
  cases g <;> simp [chains]

theorem mem_added_iff {g : Growth} : sig ∈ g.added n ↔
    (∃ k x, g = nests n k x ∧ sig = { argClass := some k, value := some x }) ∨
      ∃ argClass v, g = adds n argClass v ∧ sig = { argClass := argClass, value := some v } := by
  cases g with
  | opens => simp [added]
  | nests m k x =>
      simp only [added]
      split
      · next heq => simp [heq]
      · next hne => simp [Ne.symm hne]
  | adds m argClass v =>
      simp only [added]
      split
      · next heq => simp [heq]
      · next hne => simp [Ne.symm hne]

end Growth

variable {g : Growth}

/-- The methods of the second world have grown from those of the first. A collection may have
been run in between, and if the first world is tidy, it takes only what nothing leads to. -/
structure Regrows (w w' : World) (g : Growth) : Prop where
  tidy : w.Tidy → w'.Tidy
  firm : w'.Firm
  classes_eq : w'.classes = w.classes
  turns : w.objects.Turns w'.objects
  inserted_eq : w'.objects.inserted = w.objects.inserted + g.chains.length
  classOf_eq : ∀ x, w.objects.Live x → w'.objects.Live x → w'.classOf x = w.classOf x
  below_iff : ∀ b ∈ w.classes, ∀ c, w'.Below b c ↔ w.Below b c
  name_eq : ∀ c ∈ w.classes, ∀ d d', w.descriptor c = .ok d → w'.descriptor c = .ok d' →
    d'.name = d.name
  attr_iff : ∀ c ∈ w.classes, ∀ s m,
    w'.classAttr c s = .ok (some m) ↔ w.classAttr c s = .ok (some m) ∨ g.Gains c s m
  live : w.Tidy → ∀ y, w.Keeps [] y → w'.objects.Live y
  kept : w.Tidy → ∀ m l, w.Keeps [] m → w.signatures m = .ok l →
    w'.signatures m = .ok (l ++ g.added m)
  values : w.Tidy → ∀ m l, w.signatures m = .ok l → w'.objects.Live m → ∀ sig ∈ l, ∀ y,
    sig.value = some y → w.objects.Live y → w'.objects.Live y
  back : ∀ m l', w'.signatures m = .ok l' →
    (∃ l, w.signatures m = .ok l ∧ l' = l ++ g.added m) ∨ g.IsNew m ∧ l' = #[]
  new : ∀ m, g.IsNew m → w'.signatures m = .ok #[]
  stale : ∀ m, g.IsNew m → ¬ w.objects.Live m
  value_live : ∀ m argClass v, g = .adds m argClass v → w'.objects.Live v

/-- What a step adds is a value, if it adds no chain. -/
def Growth.Plain (w : World) : Growth → Prop
  | adds _ _ v => w.isMethod v = false
  | _ => True

namespace Regrows

variable (hregrows : w.Regrows w' g)

include hregrows

theorem isMethod_new (hm : g.IsNew m) : w'.isMethod m = true :=
  isMethod_iff.2 ⟨_, hregrows.new m hm⟩

/-- What was there is a chain only if it was one. -/
theorem isMethod_back (hx : w.objects.Live x) (hmethod : w'.isMethod x = true) :
    w.isMethod x = true := by
  obtain ⟨l', hl'⟩ := isMethod_iff.1 hmethod
  rcases hregrows.back x l' hl' with ⟨l, hl, _⟩ | ⟨hnew, _⟩
  · exact isMethod_iff.2 ⟨l, hl⟩
  · exact absurd hx (hregrows.stale x hnew)

theorem isMethod_kept (htidy : w.Tidy) (hx : w.Keeps [] x) (hmethod : w.isMethod x = true) :
    w'.isMethod x = true := by
  obtain ⟨l, hl⟩ := isMethod_iff.1 hmethod
  exact isMethod_iff.2 ⟨_, hregrows.kept htidy x l hx hl⟩

/-- A chain that was there has its overloads, and those that the step has added. -/
theorem signatures_back (hm : w.isMethod m = true) (hl' : w'.signatures m = .ok l') :
    ∃ l, w.signatures m = .ok l ∧ l' = l ++ g.added m := by
  rcases hregrows.back m l' hl' with h | ⟨hnew, _⟩
  · exact h
  · exact absurd (live_of_isMethod hm) (hregrows.stale m hnew)

theorem filled (hfilled : w.Filled) : w'.Filled := by
  intro m l' hl' sig hsig
  rcases hregrows.back m l' hl' with ⟨l, hl, rfl⟩ | ⟨_, rfl⟩
  · rcases Array.mem_append.1 hsig with hsig | hsig
    · exact hfilled m l hl sig hsig
    · rcases Growth.mem_added_iff.1 hsig with ⟨k, x, _, rfl⟩ | ⟨argClass, v, _, rfl⟩
      · exact Option.some_ne_none x
      · exact Option.some_ne_none v
  · exact absurd hsig (Array.not_mem_empty sig)

/-! What is where. -/

theorem inside (htidy : w.Tidy) (hkeeps : w.Keeps [] top) (hinside : w.Inside top p m) :
    w'.Inside top p m := by
  induction hinside with
  | top hm => exact .top (hregrows.isMethod_kept htidy hkeeps hm)
  | @inner p m k n l sig hinside hl hsig hclass hvalue hn ih =>
      have hm := hinside.keeps hkeeps
      refine .inner ih (hregrows.kept htidy m l hm hl) (Array.mem_append_left _ hsig) hclass hvalue
        (hregrows.isMethod_kept htidy ?_ hn)
      exact keeps_overload hm hl hsig hvalue (live_of_isMethod hn)

theorem branch (htidy : w.Tidy) (hordered : w.Ordered) (hc : c ∈ w.classes)
    (hbranch : w.Branch c s p m) : w'.Branch c s p m := by
  obtain ⟨top, hattr, hinside⟩ := hbranch
  have hkeeps : w.Keeps [] top :=
    hordered.keeps_classAttr hc hattr (live_of_isMethod hinside.isMethod_top)
  exact ⟨top, (hregrows.attr_iff c hc s top).2 (Or.inl hattr), hregrows.inside htidy hkeeps hinside⟩

/-- The new chain is at its place. -/
theorem branch_new (htidy : w.Tidy) (hordered : w.Ordered) (hc : c ∈ w.classes)
    (hm : g.IsNew m) (hplaces : g.Places w c s p) : w'.Branch c s p m := by
  have hmethod := hregrows.isMethod_new hm
  cases g with
  | opens =>
      obtain ⟨rfl, rfl, rfl⟩ := hplaces
      exact ⟨m, (hregrows.attr_iff _ hc _ m).2 (Or.inr ⟨rfl, rfl, hm⟩), .top hmethod⟩
  | nests n k x =>
      obtain ⟨q, hbranch, rfl⟩ := hplaces
      obtain ⟨l, hl⟩ := isMethod_iff.1 hbranch.isMethod
      have hl' := hregrows.kept htidy n l (hbranch.keeps hordered hc) hl
      obtain ⟨top, hattr, hinside⟩ := hregrows.branch htidy hordered hc hbranch
      cases hm
      have hsig : { argClass := some k, value := some m } ∈ l ++ (Growth.nests n k m).added n :=
        Array.mem_append_right _ (Growth.mem_added_iff.2 (Or.inl ⟨k, m, rfl, rfl⟩))
      exact ⟨top, hattr, .inner hinside hl' hsig rfl rfl hmethod⟩
  | adds => exact hm.elim

/-- A chain is where it was before inside another, or it is the new one. -/
theorem inside_back (hbacked : w.Backed) (hplain : g.Plain w') (hinside : w'.Inside top p m) :
    w.Inside top p m ∨ g.IsNew m ∧ (top = m ∧ p = [] ∨ g.Nests w top p) := by
  induction hinside with
  | top hm =>
      obtain ⟨l', hl'⟩ := isMethod_iff.1 hm
      rcases hregrows.back top l' hl' with ⟨l, hl, _⟩ | ⟨hnew, _⟩
      · exact Or.inl (.top (isMethod_iff.2 ⟨l, hl⟩))
      · exact Or.inr ⟨hnew, Or.inl ⟨rfl, rfl⟩⟩
  | @inner p m k n l' sig _ hl hsig hclass hvalue hn ih =>
      rcases ih with hinside | ⟨hnew, _⟩
      · obtain ⟨l, hl₀, rfl⟩ := hregrows.signatures_back hinside.isMethod hl
        rcases Array.mem_append.1 hsig with hsig | hsig
        · have hlive := hbacked m l hl₀ sig hsig n hvalue
          exact Or.inl (.inner hinside hl₀ hsig hclass hvalue (hregrows.isMethod_back hlive hn))
        · rcases Growth.mem_added_iff.1 hsig with ⟨k, x, rfl, rfl⟩ | ⟨argClass, v, rfl, rfl⟩
          · cases hclass
            cases hvalue
            exact Or.inr ⟨rfl, Or.inr ⟨p, hinside, rfl⟩⟩
          · cases hvalue
            cases hplain.symm.trans hn
      · cases (hregrows.new m hnew).symm.trans hl
        exact absurd hsig (Array.not_mem_empty sig)

theorem parted (hbacked : w.Backed) (hplain : g.Plain w') (hparted : w.Parted) : w'.Parted := by
  intro top p p' m hinside hinside'
  have hnot : ∀ {q}, w.Inside top q m → ¬ g.IsNew m := fun hold hnew =>
    hregrows.stale m hnew (live_of_isMethod hold.isMethod)
  rcases hregrows.inside_back hbacked hplain hinside with hold | ⟨hnew, hplace⟩ <;>
    rcases hregrows.inside_back hbacked hplain hinside' with hold' | ⟨hnew', hplace'⟩
  · exact hparted top p p' m hold hold'
  · exact absurd hnew' (hnot hold)
  · exact absurd hnew (hnot hold')
  · have htop : ∀ {q}, top = m → ¬ g.Nests w top q := by
      rintro q rfl hnests
      cases g with
      | nests =>
          obtain ⟨_, hinto, _⟩ := hnests
          exact hregrows.stale top hnew (live_of_isMethod hinto.isMethod_top)
      | opens | adds => exact hnests
    rcases hplace with ⟨heq, rfl⟩ | hplace <;> rcases hplace' with ⟨heq', rfl⟩ | hplace'
    · rfl
    · exact absurd hplace' (htop heq)
    · exact absurd hplace (htop heq')
    · cases g with
      | nests n k x =>
          obtain ⟨q, hinto, rfl⟩ := hplace
          obtain ⟨q', hinto', rfl⟩ := hplace'
          rw [hparted top q q' n hinto hinto']
      | opens | adds => exact hplace.elim

theorem backed (htidy : w.Tidy) (hbacked : w.Backed) : w'.Backed := by
  intro m l' hl' sig hsig y hy
  rcases hregrows.back m l' hl' with ⟨l, hl, rfl⟩ | ⟨_, rfl⟩
  · rcases Array.mem_append.1 hsig with hsig | hsig
    · exact hregrows.values htidy m l hl (live_of_signatures hl') sig hsig y hy
        (hbacked m l hl sig hsig y hy)
    · rcases Growth.mem_added_iff.1 hsig with ⟨k, x, rfl, rfl⟩ | ⟨argClass, v, rfl, rfl⟩
      · cases hy
        exact live_of_signatures (hregrows.new y rfl)
      · cases hy
        exact hregrows.value_live m argClass y rfl
  · exact absurd hsig (Array.not_mem_empty sig)

theorem held (htidy : w.Tidy) (hordered : w.Ordered) (hheld : w.Held) : w'.Held := by
  intro c hc s m hm
  rw [hregrows.classes_eq] at hc
  rcases (hregrows.attr_iff c hc s m).1 hm with hm | hgains
  · exact hregrows.live htidy m (hordered.keeps_classAttr hc hm (hheld c hc s m hm))
  · cases g with
    | opens => exact live_of_isMethod (hregrows.isMethod_new hgains.2.2)
    | nests | adds => exact hgains.elim

theorem arranged (harranged : w.Arranged) (hplain : g.Plain w') : w'.Arranged where
  tidy := hregrows.tidy harranged.tidy
  firm := hregrows.firm
  held := hregrows.held harranged.tidy harranged.firm.ordered harranged.held
  backed := hregrows.backed harranged.tidy harranged.backed
  parted := hregrows.parted harranged.backed hplain harranged.parted

/-- A chain is where it was before at a class, or it is the new one. -/
theorem branch_back (harranged : w.Arranged) (hplain : g.Plain w') (hc : c ∈ w.classes)
    (hbranch : w'.Branch c s p m) : w.Branch c s p m ∨ g.IsNew m ∧ g.Places w c s p := by
  obtain ⟨top, hattr, hinside⟩ := hbranch
  rcases (hregrows.attr_iff c hc s top).1 hattr with hold | hgains
  · have hlive := harranged.held c hc s top hold
    rcases hregrows.inside_back harranged.backed hplain hinside with h | ⟨hnew, ⟨rfl, _⟩ | hnests⟩
    · exact Or.inl ⟨top, hold, h⟩
    · exact absurd hlive (hregrows.stale top hnew)
    · cases g with
      | nests =>
          obtain ⟨q, hinto, rfl⟩ := hnests
          exact Or.inr ⟨hnew, q, ⟨top, hold, hinto⟩, rfl⟩
      | opens | adds => exact hnests.elim
  · cases g with
    | opens =>
        obtain ⟨rfl, rfl, rfl⟩ := hgains
        rcases hregrows.inside_back harranged.backed hplain hinside with h | ⟨hnew, ⟨_, rfl⟩ | h⟩
        · exact absurd (live_of_isMethod h.isMethod_top) (hregrows.stale top rfl)
        · exact Or.inr ⟨hnew, rfl, rfl, rfl⟩
        · exact h.elim
    | nests | adds => exact hgains.elim

/-- No step lets methods share chains that did not do so. -/
theorem shares_back (harranged : w.Arranged) (hplain : g.Plain w') (hk : k ∈ w.classes)
    (hc : c ∈ w.classes) (hne : k ≠ c ∨ t ≠ s) (hshares : w'.Shares k t c s) :
    w.Shares k t c s := by
  obtain ⟨p, p', m, hbranch, hbranch'⟩ := hshares
  rcases hregrows.branch_back harranged hplain hk hbranch with hold | ⟨hnew, hplaces⟩ <;>
    rcases hregrows.branch_back harranged hplain hc hbranch' with hold' | ⟨hnew', hplaces'⟩
  · exact ⟨p, p', m, hold, hold'⟩
  · exact absurd (live_of_isMethod hold.isMethod) (hregrows.stale m hnew')
  · exact absurd (live_of_isMethod hold'.isMethod) (hregrows.stale m hnew)
  · cases g with
    | opens =>
        obtain ⟨rfl, rfl, _⟩ := hplaces
        obtain ⟨rfl, rfl, _⟩ := hplaces'
        rcases hne with hne | hne <;> exact absurd rfl hne
    | nests n =>
        obtain ⟨q, hinto, _⟩ := hplaces
        obtain ⟨q', hinto', _⟩ := hplaces'
        exact ⟨q, q', n, hinto, hinto'⟩
    | adds => exact hplaces.elim

/-! What matching meets. -/

/-- What obstructs matching is reported as before. -/
theorem obstructs_iff (harranged : w.Arranged) (hc : c ∈ w.classes) :
    w'.Obstructs c s e ↔ w.Obstructs c s e := by
  have hreport : ∀ {m e e'}, w.objects.Live m → w'.objects.Live m → w.signatures m = .error e →
      w'.signatures m = .error e' → e = e' := by
    intro m e e' hm hm' he he'
    obtain ⟨b, hb, d, hclass, hd, rfl⟩ := harranged.firm.signatures_eq_error hm he
    obtain ⟨b', _, d', hclass', hd', rfl⟩ := hregrows.firm.signatures_eq_error hm' he'
    cases hclass'.symm.trans ((hregrows.classOf_eq m hm hm').trans hclass)
    rw [hregrows.name_eq b hb d d' hd hd']
  have hkept : ∀ {m}, w.classAttr c s = .ok (some m) → w.objects.Live m ∧ w.Keeps [] m := by
    intro m hm
    have hlive := harranged.held c hc s m hm
    exact ⟨hlive, harranged.firm.ordered.keeps_classAttr hc hm hlive⟩
  constructor
  · rintro ⟨m, hattr, he'⟩
    rcases (hregrows.attr_iff c hc s m).1 hattr with hattr | hgains
    · obtain ⟨hlive, hkeeps⟩ := hkept hattr
      cases he : w.signatures m with
      | ok l => cases he'.symm.trans (hregrows.kept harranged.tidy m l hkeeps he)
      | error e₀ =>
          refine ⟨m, hattr, ?_⟩
          rw [he, hreport hlive (hregrows.live harranged.tidy m hkeeps) he he']
    · cases g with
      | opens => cases he'.symm.trans (hregrows.new m hgains.2.2)
      | nests | adds => exact hgains.elim
  · rintro ⟨m, hattr, he⟩
    obtain ⟨hlive, hkeeps⟩ := hkept hattr
    refine ⟨m, (hregrows.attr_iff c hc s m).2 (Or.inl hattr), ?_⟩
    cases he' : w'.signatures m with
    | ok l' =>
        rcases hregrows.back m l' he' with ⟨l, hl, _⟩ | ⟨hnew, _⟩
        · cases hl.symm.trans he
        · exact absurd hlive (hregrows.stale m hnew)
    | error e' => rw [hreport hlive (hregrows.live harranged.tidy m hkeeps) he he']

/-- Ways are not lost. -/
theorem way (htidy : w.Tidy) (hbacked : w.Backed) (hbs : ∀ b ∈ bs, b ∈ w.classes)
    (hkeeps : w.Keeps [] m) (hway : w.Way bs m is v) : w'.Way bs m is v := by
  induction hway with
  | marker hl hsig hclass hvalue =>
      exact .marker (hregrows.kept htidy _ _ hkeeps hl) (getElem?_append_of_some hsig) hclass hvalue
  | value hl hsig hclass hbelow hvalue hleaf =>
      have hlive := hbacked _ _ hl _ (Array.mem_of_getElem? hsig) _ hvalue
      refine .value (hregrows.kept htidy _ _ hkeeps hl) (getElem?_append_of_some hsig) hclass
        ((hregrows.below_iff _ (hbs _ List.mem_cons_self) _).2 hbelow) hvalue ?_
      exact Bool.eq_false_iff.2 fun h =>
        Bool.eq_false_iff.1 hleaf (hregrows.isMethod_back hlive h)
  | further hl hsig hclass hbelow hvalue hrest ih =>
      refine .further (hregrows.kept htidy _ _ hkeeps hl) (getElem?_append_of_some hsig) hclass
        ((hregrows.below_iff _ (hbs _ List.mem_cons_self) _).2 hbelow) hvalue
        (ih (fun b hb => hbs b (List.mem_cons_of_mem _ hb)) ?_)
      exact keeps_overload hkeeps hl (Array.mem_of_getElem? hsig) hvalue
        (live_of_isMethod hrest.isMethod)

/-- A way was there before, or it passes the chain that got a value and ends there. -/
theorem way_back (htidy : w.Tidy) (hbacked : w.Backed) (hplain : g.Plain w')
    (hbs : ∀ b ∈ bs, b ∈ w.classes) (hkeeps : w.Keeps [] m) (hm : w.isMethod m = true)
    (hway : w'.Way bs m is y) : w.Way bs m is y ∨
      ∃ n argClass q, g = .adds n argClass y ∧ w.Inside m q n ∧ w.Meets argClass bs q := by
  induction hway with
  | marker hl' hsig hclass hvalue =>
      obtain ⟨l, hl, rfl⟩ := hregrows.signatures_back hm hl'
      rcases getElem?_append_cases hsig with hsig | hsig
      · exact Or.inl (.marker hl hsig hclass hvalue)
      · rcases Growth.mem_added_iff.1 hsig with ⟨k, x, rfl, rfl⟩ | ⟨argClass, v, rfl, rfl⟩
        · cases hclass
        · cases hvalue
          exact Or.inr ⟨_, _, [], rfl, .top hm, .marker hclass⟩
  | @value b k m v bs l' i sig hl' hsig hclass hbelow hvalue hleaf =>
      obtain ⟨l, hl, rfl⟩ := hregrows.signatures_back hm hl'
      have hbelow := (hregrows.below_iff b (hbs b List.mem_cons_self) k).1 hbelow
      rcases getElem?_append_cases hsig with hsig | hsig
      · have hmem := Array.mem_of_getElem? hsig
        have hlive := hbacked m l hl sig hmem v hvalue
        refine Or.inl (.value hl hsig hclass hbelow hvalue (Bool.eq_false_iff.2 fun h => ?_))
        have hkeeps : w.Keeps [] v := keeps_overload hkeeps hl hmem hvalue hlive
        exact Bool.eq_false_iff.1 hleaf (hregrows.isMethod_kept htidy hkeeps h)
      · rcases Growth.mem_added_iff.1 hsig with ⟨k', x, rfl, rfl⟩ | ⟨argClass, v', rfl, rfl⟩
        · cases hvalue
          cases hleaf.symm.trans (hregrows.isMethod_new rfl)
        · cases hvalue
          exact Or.inr ⟨m, argClass, [], rfl, .top hm, .value hclass hbelow⟩
  | @further b k m n v bs l' i sig is hl' hsig hclass hbelow hvalue hrest ih =>
      obtain ⟨l, hl, rfl⟩ := hregrows.signatures_back hm hl'
      have hbelow := (hregrows.below_iff b (hbs b List.mem_cons_self) k).1 hbelow
      rcases getElem?_append_cases hsig with hsig | hsig
      · have hmem := Array.mem_of_getElem? hsig
        have hlive := hbacked m l hl sig hmem n hvalue
        rcases ih (fun b hb => hbs b (List.mem_cons_of_mem _ hb))
          (keeps_overload hkeeps hl hmem hvalue hlive)
          (hregrows.isMethod_back hlive hrest.isMethod) with
          hway | ⟨n', argClass, q, hg, hinside, hmeets⟩
        · exact Or.inl (.further hl hsig hclass hbelow hvalue hway)
        · exact Or.inr ⟨n', argClass, k :: q, hg, .cons hl hmem hclass hvalue hinside,
            .further hbelow hmeets⟩
      · rcases Growth.mem_added_iff.1 hsig with ⟨k', x, rfl, rfl⟩ | ⟨argClass, v', rfl, rfl⟩
        · cases hvalue
          -- The new chain has no overloads, so no way goes on in it.
          cases hrest with
          | marker hl hsig | value hl hsig | further hl hsig =>
              cases (hregrows.new n rfl).symm.trans hl
              cases hsig
        · cases hvalue
          cases hplain.symm.trans hrest.isMethod

theorem leads (harranged : w.Arranged) (hc : c ∈ w.classes) (hbs : ∀ b ∈ bs, b ∈ w.classes)
    (hleads : w.Leads c s bs is v) : w'.Leads c s bs is v := by
  obtain ⟨m, hm, hway⟩ := hleads
  have hkeeps : w.Keeps [] m :=
    harranged.firm.ordered.keeps_classAttr hc hm (live_of_isMethod hway.isMethod)
  exact ⟨m, (hregrows.attr_iff c hc s m).2 (Or.inl hm),
    hregrows.way harranged.tidy harranged.backed hbs hkeeps hway⟩

/-- Ways through what a class holds were there before, or end at the new value. -/
theorem leads_back (harranged : w.Arranged) (hplain : g.Plain w') (hc : c ∈ w.classes)
    (hbs : ∀ b ∈ bs, b ∈ w.classes) (hleads : w'.Leads c s bs is y) : w.Leads c s bs is y ∨
      ∃ n argClass q, g = .adds n argClass y ∧ w.Branch c s q n ∧ w.Meets argClass bs q := by
  obtain ⟨m, hm, hway⟩ := hleads
  rcases (hregrows.attr_iff c hc s m).1 hm with hm | hgains
  · have hlive := harranged.held c hc s m hm
    have hkeeps : w.Keeps [] m := harranged.firm.ordered.keeps_classAttr hc hm hlive
    rcases hregrows.way_back harranged.tidy harranged.backed hplain hbs hkeeps
        (hregrows.isMethod_back hlive hway.isMethod) hway with
      hway | ⟨n, argClass, q, hg, hin, hmeets⟩
    · exact Or.inl ⟨m, hm, hway⟩
    · exact Or.inr ⟨n, argClass, q, hg, ⟨m, hm, hin⟩, hmeets⟩
  · cases g with
    | opens =>
        obtain ⟨rfl, rfl, rfl⟩ := hgains
        cases hway with
        | marker hl hsig | value hl hsig | further hl hsig =>
            cases (hregrows.new m rfl).symm.trans hl
            cases hsig
    | nests | adds => exact hgains.elim

theorem forall₂_below (hbelow : List.Forall₂ w.Below bs p) (hbs : ∀ b ∈ bs, b ∈ w.classes) :
    List.Forall₂ w'.Below bs p := by
  induction hbelow with
  | nil => exact .nil
  | cons hb _ ih =>
      obtain ⟨hmem, hbs⟩ := List.forall_mem_cons.1 hbs
      exact .cons ((hregrows.below_iff _ hmem _).2 hb) (ih hbs)

end Regrows

/-- Arguments that lead to the chain that got a value and meet its class have a new way. -/
theorem Regrows.leads_new {argClass : Option Handle} (hregrows : w.Regrows w' (.adds m argClass v))
    (htidy : w.Tidy) (hordered : w.Ordered) (hplain : w'.isMethod v = false) (hc : c ∈ w.classes)
    (hbs : ∀ b ∈ bs, b ∈ w.classes) (hbranch : w.Branch c s p m) (hmeets : w.Meets argClass bs p) :
    ∃ is, w'.Leads c s bs is v := by
  obtain ⟨l, hl⟩ := isMethod_iff.1 hbranch.isMethod
  obtain ⟨front, rest, rfl, hfront, hrest⟩ := hmeets.exists_split
  have hl' := hregrows.kept htidy m l (hbranch.keeps hordered hc) hl
  have hsig : (l ++ (Growth.adds m argClass v).added m)[l.size]? =
      some { argClass := argClass, value := some v } := by
    simp [Growth.added]
  have hway : w'.Way rest m [l.size] v := by
    cases hrest with
    | marker hclass => exact .marker hl' hsig hclass rfl
    | value hclass hbelow =>
        exact .value hl' hsig hclass
          ((hregrows.below_iff _ (hbs _ (List.mem_append_right _ List.mem_cons_self)) _).2 hbelow)
          rfl hplain
  obtain ⟨top, hattr, hinside⟩ := hregrows.branch htidy hordered hc hbranch
  obtain ⟨js, hway⟩ := hinside.way
    (hregrows.forall₂_below hfront fun b hb => hbs b (List.mem_append_left _ hb)) hway
  exact ⟨js, top, hattr, hway⟩

end World

end ObjectSystem

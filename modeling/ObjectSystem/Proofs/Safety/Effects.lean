/-
# What evaluation may do

While the arguments of a call are evaluated, the values that are there already are held by
nothing. An argument that assigns to a name may free the value that the name had, so an argument
further to the left must not have that value.

`Host.Effects` says of an expression which names its evaluation binds at most, and with the
bindings of which names its value may go. It is read off the expression and the world in which it
is looked at. If the head of a call is not computed, and no name by which it is found may be bound,
the function is found there as well. Otherwise all that could be called counts.
`Host.EffectsAll` is about arguments: no argument may bind a name that the value of an argument
before it depends on.

Of native functions and of behaviors the programs are looked at. `Host.Modest` allows a program to
read, to make something new of what it knows, to fill what it has made, and to have what it knows
evaluated, called, copied or assigned. What comes of a request is not known before, so the program
must be able to go on from every result, and from every world that may be left to it. In the same
way it has to do with every list of arguments.
-/

import ObjectSystem.Proofs.Safety.Constancy
import ObjectSystem.Proofs.Safety.Constructors
import Mathlib.Order.CompletePartialOrder

namespace ObjectSystem

/-- Objects are their own values. -/
def Behavior.IsIdle : Behavior → Prop
  | symbol | language | custom _ => False
  | _ => True

/-- Objects are their own copies. -/
def Behavior.IsUnique : Behavior → Prop
  | noCopy | symbol => True
  | _ => False

/-- Copies are made by the library. -/
def Behavior.IsPlain : Behavior → Prop
  | noCopy | symbol | custom _ => False
  | _ => True

/-- What a callable does when it is called. -/
inductive Callee
  | method
  | special (native : Native)
  | builtin (native : Native)
  | generic
  | custom (name : String)

namespace Callee

def behavior : Callee → Behavior
  | method => .method
  | special _ => .special
  | builtin _ => .builtin
  | generic => .generic
  | custom name => .custom name

def native? : Callee → Option Native
  | special native | builtin native => some native
  | _ => none

/-- The arguments are handed over as they are. -/
def IsHanded : Callee → Prop
  | special _ | custom _ => True
  | _ => False

end Callee

namespace World

/-- The object is a callable that does this. -/
def Runs (w : World) (function : Handle) (callee : Callee) : Prop :=
  w.behaviorOf function = .ok callee.behavior ∧
    ∀ native, callee.native? = some native → w.nativeOf function = .ok native

/-- What the value of an expression is, as far as it is known before. -/
inductive Gives (w : World) (env : Handle) (names : Set Symbol) (x v : Handle) : Prop where
  | itself {behavior : Behavior} (hbehavior : w.behaviorOf x = .ok behavior)
      (hidle : behavior.IsIdle) (heq : v = x)
  | named {name : Symbol} (hbehavior : w.behaviorOf x = .ok .symbol)
      (hname : w.symbolOf x = .ok name)
      (hfound : name ∉ names → ∀ found, w.lookup env name = .ok found → found = some v)
  | computed (hbehavior : w.behaviorOf x = .ok .language)
  | custom {name : String} (hbehavior : w.behaviorOf x = .ok (.custom name))

/-- A class holds the object as a value of its own, or overloads lead to it from there. -/
def Overload (w : World) (x : Handle) : Prop :=
  w.objects.Attains Slot.Defines
    (fun y => ∃ c ∈ w.classes, ∃ index, w.objects.Holds (.classAttr c index) y) x

/-- What is reached from known objects, other than through the bindings of environments. With
each of them it is known with the bindings of which names it may go. -/
inductive Knows (w : World) (known : Set (Handle × Set Symbol)) : Handle → Set Symbol → Prop where
  | known {x : Handle} {needed : Set Symbol} (hmem : (x, needed) ∈ known) : Knows w known x needed
  | pinned {x : Handle} (hx : w.Pinned x) : Knows w known x ∅
  | slot {s : Slot} {y : Handle} {needed : Set Symbol} (howner : Knows w known s.owner needed)
      (hs : w.objects.Holds s y) (hnot : ¬ s.IsBinding) : Knows w known y needed

/-- Effects were found in one world, and one has come to another. -/
structure Later (env : Handle) (names : Set Symbol) (w₀ w : World) : Prop where
  coherent : w₀.Coherent
  null : w₀.Pinned Builtin.null
  env_sheltered : w₀.Sheltered Set.univ env names env
  passes : Passes env names [] w₀ w
  poised : w.Poised

end World

/-- What a native function does. -/
def Host.program (host : Host) (function : Native) (args env : Handle) : Program :=
  match function with
  | .assign => .assign args env .done
  | .host name => host.native name args env

open World

variable (host : Host) (env : Handle)

mutual

/-- The evaluation of an expression binds at most certain names of an environment, of those that
may be bound at all. Its value may go if other names that it needs are bound. -/
inductive Host.Effects : (w : World) → (names : Set Symbol) → (x : Handle) →
    (bound needed : Set Symbol) → Prop where
  | constant {w : World} {names : Set Symbol} {x : Handle} {bound needed : Set Symbol}
      {behavior : Behavior} (hbehavior : w.behaviorOf x = .ok behavior) (hidle : behavior.IsIdle) :
      Host.Effects w names x bound needed
  | named {w : World} {names : Set Symbol} {x : Handle} {bound needed : Set Symbol} {name : Symbol}
      (hbehavior : w.behaviorOf x = .ok .symbol) (hname : w.symbolOf x = .ok name)
      (hneeded : name ∈ needed) : Host.Effects w names x bound needed
  | call {w : World} {names : Set Symbol} {x : Handle} {head args : Option Handle}
      {bound needed : Set Symbol} (hbehavior : w.behaviorOf x = .ok .language)
      (hhead : w.getAttr x Symbol.head = .ok head) (hargs : w.getAttr x Symbol.next = .ok args)
      (hfunction : Host.Effects w names (head.getD Builtin.null) bound needed)
      (hcalls : ∀ w' function callee, w'.Poised → Passes env names [] w w' →
        w'.Keeps [] function → w.Gives env names (head.getD Builtin.null) function →
          w'.Runs function callee →
            Host.Applies w names callee (args.getD Builtin.null) bound needed) :
      Host.Effects w names x bound needed
  /-- No pool answers for the object, so that its behavior may take it up. -/
  | custom {w : World} {names : Set Symbol} {x : Handle} {bound needed : Set Symbol} {name : String}
      (hbehavior : w.behaviorOf x = .ok (.custom name)) (hx : w.Housed Set.univ env names x)
      (hmodest : ∀ w', w'.Poised → Passes env names [] w w' →
        Host.Modest names bound needed w' {(x, ∅)} ∅ (host.evalAs name x env)) :
      Host.Effects w names x bound needed

/-- The same for the application of a callable to argument expressions. -/
inductive Host.Applies : (w : World) → (names : Set Symbol) → (callee : Callee) →
    (args : Handle) → (bound needed : Set Symbol) → Prop where
  | method {w : World} {names : Set Symbol} {args : Handle} {bound needed : Set Symbol} :
      Host.Applies w names .method args bound needed
  | assign {w : World} {names : Set Symbol} {args target x : Handle} {name : Symbol}
      {bound needed : Set Symbol} (hitems : w.items args = .ok [target, x])
      (hname : w.symbolOf target = .ok name) (hvalue : Host.Effects w names x bound needed)
      (hbound : name ∈ bound) (hneeded : name ∈ needed) :
      Host.Applies w names (.special .assign) args bound needed
  | special {w : World} {names : Set Symbol} {args : Handle} {native : Native}
      {bound needed : Set Symbol}
      (hmodest : ∀ w', w'.Poised → Passes env names [] w w' →
        Host.Modest names bound needed w' {(args, ∅)} ∅ (host.program native args env)) :
      Host.Applies w names (.special native) args bound needed
  | builtin {w : World} {names : Set Symbol} {args : Handle} {native : Native}
      {items : List Handle} {bound needed : Set Symbol} (hitems : w.items args = .ok items)
      (hall : Host.EffectsAll w names items bound)
      (hmodest : ∀ w' list, w'.Poised → Passes env names [] w w' → w'.Keeps [] list →
        Host.Modest names bound needed w' {(list, ∅)} ∅ (host.program native list env)) :
      Host.Applies w names (.builtin native) args bound needed
  | generic {w : World} {names : Set Symbol} {args : Handle} {items : List Handle}
      {bound needed : Set Symbol} (hitems : w.items args = .ok items)
      (hall : Host.EffectsAll w names items bound)
      (hmodest : ∀ method native, w.Overload method → w.nativeOf method = .ok native →
        ∀ w' list, w'.Poised → Passes env names [] w w' → w'.Keeps [] list →
          Host.Modest names bound needed w' {(list, ∅)} ∅ (host.program native list env)) :
      Host.Applies w names .generic args bound needed
  | custom {w : World} {names : Set Symbol} {args : Handle} {name : String}
      {bound needed : Set Symbol}
      (hmodest : ∀ w' function, w'.Poised → Passes env names [] w w' → w'.Keeps [] function →
        w'.Runs function (.custom name) → Host.Modest names bound needed w'
          {(function, needed), (args, ∅)} ∅ (host.callAs name function args env)) :
      Host.Applies w names (.custom name) args bound needed

/-- The evaluation of arguments, from left to right. -/
inductive Host.EffectsAll : (w : World) → (names : Set Symbol) → (args : List Handle) →
    (bound : Set Symbol) → Prop where
  | nil {w : World} {names bound : Set Symbol} : Host.EffectsAll w names [] bound
  | cons {w : World} {names : Set Symbol} {x : Handle} {args : List Handle}
      {bound needed rest : Set Symbol} (hx : Host.Effects w names x bound needed)
      (hargs : Host.EffectsAll w names args rest) (hrest : rest ⊆ bound)
      (hdisjoint : Disjoint needed rest) : Host.EffectsAll w names (x :: args) bound

/-- A program reads, makes something new of what it knows, fills what it has made, and has what it
knows evaluated, called, copied and assigned. It gives up if one of these fails. The effects of an
expression may have been found before. -/
inductive Host.Modest : (names bound needed : Set Symbol) → (w : World) →
    (known : Set (Handle × Set Symbol)) → (made : Set Handle) → Program → Prop where
  | done {names bound needed : Set Symbol} {w : World} {known : Set (Handle × Set Symbol)}
      {made : Set Handle} {x : Handle} {held : Set Symbol} (hx : w.Knows known x held)
      (hheld : held ⊆ needed) :
      Host.Modest names bound needed w known made (.done (.ok x))
  | fail {names bound needed : Set Symbol} {w : World} {known : Set (Handle × Set Symbol)}
      {made : Set Handle} {e : Error} (he : ∀ y, e ≠ .dangling y) :
      Host.Modest names bound needed w known made (.done (.error e))
  | look {names bound needed : Set Symbol} {w : World} {known : Set (Handle × Set Symbol)}
      {made : Set Handle} {next : World → Program}
      (hnext : Host.Modest names bound needed w known made (next w)) :
      Host.Modest names bound needed w known made (.look next)
  | ask {names bound needed : Set Symbol} {w : World} {known : Set (Handle × Set Symbol)}
      {made : Set Handle} {α : Type} {q : Query α} {next : Except Error α → Program}
      (hnext : Host.Modest names bound needed w known made (next (q.answer w))) :
      Host.Modest names bound needed w known made (.perform (.ask q) next)
  | aside {names bound needed : Set Symbol} {w : World} {known : Set (Handle × Set Symbol)}
      {made : Set Handle} {α : Type} {op : Operation α} {next : Except Error α → Program}
      (haside : op.IsAside) (hfails : ∀ e, next (.error e) = .done (.error e))
      (hnext : ∀ a w', w'.Poised → op.perform w = (.ok a, w') →
        Host.Modest names bound needed w' known made (next (.ok a))) :
      Host.Modest names bound needed w known made (.perform op next)
  | make {names bound needed : Set Symbol} {w : World} {known : Set (Handle × Set Symbol)}
      {made : Set Handle} {op : Operation Handle} {given : List Handle}
      {next : Except Error Handle → Program} (hmakes : op.Makes w given)
      (hgiven : ∀ y ∈ given, ∃ held, w.Knows known y held)
      (hfails : ∀ e, next (.error e) = .done (.error e))
      (hnext : ∀ x w', w'.Poised → op.perform w = (.ok x, w') →
        Host.Modest names bound needed w' (insert (x, ∅) known) (insert x made) (next (.ok x))) :
      Host.Modest names bound needed w known made (.perform op next)
  | alter {names bound needed : Set Symbol} {w : World} {known : Set (Handle × Set Symbol)}
      {made : Set Handle} {op : Operation Unit} {x : Handle} {given : List Handle}
      {next : Except Error Unit → Program} (halters : op.Alters w x given) (hmade : x ∈ made)
      (hpooled : w.Pooled x) (hgiven : ∀ y ∈ given, ∃ held, w.Knows known y held)
      (hfails : ∀ e, next (.error e) = .done (.error e))
      (hnext : ∀ w', w'.Poised → op.perform w = (.ok (), w') →
        Host.Modest names bound needed w' known made (next (.ok ()))) :
      Host.Modest names bound needed w known made (.perform op next)
  | eval {names bound needed : Set Symbol} {w₀ w : World} {known : Set (Handle × Set Symbol)}
      {made : Set Handle} {x : Handle} {held inside given : Set Symbol}
      {next : Except Error Handle → Program} (hx : w.Knows known x held)
      (hlater : Later env (names \ held) w₀ w)
      (hsheltered : w₀.Sheltered Set.univ env (names \ held) x)
      (heffects : Host.Effects w₀ (names \ held) x inside given) (hbound : inside ⊆ bound)
      (hdisjoint : Disjoint held inside) (hfails : ∀ e, next (.error e) = .done (.error e))
      (hnext : ∀ v w', w'.Poised → Passes env inside [] w w' →
        w₀.Gives env (names \ held) x v → Host.Modest names bound needed w'
          (insert (v, held ∪ given) {k ∈ known | Disjoint k.2 inside}) made (next (.ok v))) :
      Host.Modest names bound needed w known made (.eval x env next)
  /-- What is handed over must be held by something already. -/
  | call {names bound needed : Set Symbol} {w₀ w : World} {known : Set (Handle × Set Symbol)}
      {made : Set Handle} {function args : Handle} {held inside given : Set Symbol}
      {next : Except Error Handle → Program}
      (hfunction : ∃ held' ⊆ held, w.Knows known function held')
      (hlater : Later env (names \ held) w₀ w)
      (hsheltered : w₀.Sheltered Set.univ env (names \ held) args)
      (hhanded : ∀ callee, w.Runs function callee → callee.IsHanded →
        ¬ w.Pooled function ∧ ¬ w.Pooled args)
      (hcalls : ∀ callee, w.Runs function callee →
        Host.Applies w₀ (names \ held) callee args inside given)
      (hbound : inside ⊆ bound) (hdisjoint : Disjoint held inside)
      (hfails : ∀ e, next (.error e) = .done (.error e))
      (hnext : ∀ v w', w'.Poised → Passes env inside [] w w' → Host.Modest names bound needed w'
        (insert (v, held ∪ given) {k ∈ known | Disjoint k.2 inside}) made (next (.ok v))) :
      Host.Modest names bound needed w known made (.call function args env next)
  | unique {names bound needed : Set Symbol} {w : World} {known : Set (Handle × Set Symbol)}
      {made : Set Handle} {x : Handle} {behavior : Behavior} {next : Except Error Handle → Program}
      (hbehavior : w.behaviorOf x = .ok behavior) (hunique : behavior.IsUnique)
      (hfails : ∀ e, next (.error e) = .done (.error e))
      (hnext : Host.Modest names bound needed w known made (next (.ok x))) :
      Host.Modest names bound needed w known made (.copy x next)
  | copy {names bound needed : Set Symbol} {w : World} {known : Set (Handle × Set Symbol)}
      {made : Set Handle} {x : Handle} {o : Object} {behavior : Behavior}
      {next : Except Error Handle → Program} (hbehavior : w.behaviorOf x = .ok behavior)
      (hplain : behavior.IsPlain) (hx : w.objects.get? x = some o)
      (hnot : ∀ f, o.payload ≠ .environment f)
      (hgiven : ∀ y ∈ o.ownedRefs, ∃ held, w.Knows known y held)
      (hfails : ∀ e, next (.error e) = .done (.error e))
      (hnext : ∀ y w', w'.Poised → (Operation.shallowCopy x).perform w = (.ok y, w') →
        Host.Modest names bound needed w' (insert (y, ∅) known) (insert y made) (next (.ok y))) :
      Host.Modest names bound needed w known made (.copy x next)
  | copyAs {names bound needed : Set Symbol} {w : World} {known : Set (Handle × Set Symbol)}
      {made : Set Handle} {x : Handle} {name : String} {held inside given : Set Symbol}
      {next : Except Error Handle → Program} (hbehavior : w.behaviorOf x = .ok (.custom name))
      (hx : w.Knows known x held) (hnot : ¬ w.Pooled x)
      (hmodest : Host.Modest (names \ held) inside given w {(x, ∅)} ∅ (host.copyAs name x))
      (hbound : inside ⊆ bound) (hdisjoint : Disjoint held inside)
      (hfails : ∀ e, next (.error e) = .done (.error e))
      (hnext : ∀ v w', w'.Poised → Passes env inside [] w w' → Host.Modest names bound needed w'
        (insert (v, held ∪ given) {k ∈ known | Disjoint k.2 inside}) made (next (.ok v))) :
      Host.Modest names bound needed w known made (.copy x next)
  | assign {names bound needed : Set Symbol} {w₀ w : World} {known : Set (Handle × Set Symbol)}
      {made : Set Handle} {args target x : Handle} {name : Symbol}
      {held inside given : Set Symbol} {next : Except Error Handle → Program}
      (hargs : ∃ held', w.Knows known args held') (hitems : w.items args = .ok [target, x])
      (hname : w.symbolOf target = .ok name) (hlater : Later env (names \ held) w₀ w)
      (hsheltered : w₀.Sheltered Set.univ env (names \ held) x)
      (heffects : Host.Effects w₀ (names \ held) x inside given)
      (hbound : insert name inside ⊆ bound) (hdisjoint : Disjoint held inside)
      (hfails : ∀ e, next (.error e) = .done (.error e))
      (hnext : ∀ v w', w'.Poised → Passes env (insert name inside) [] w w' →
        Host.Modest names bound needed w'
          (insert (v, insert name (held ∪ given)) {k ∈ known | Disjoint k.2 (insert name inside)})
          made (next (.ok v))) :
      Host.Modest names bound needed w known made (.assign args env next)
  | misuse {names bound needed : Set Symbol} {w : World} {known : Set (Handle × Set Symbol)}
      {made : Set Handle} {args : Handle} {next : Except Error Handle → Program}
      (hargs : ∃ held, w.Knows known args held)
      (hnone : ∀ target x name, w.items args = .ok [target, x] → w.symbolOf target ≠ .ok name)
      (hfails : ∀ e, next (.error e) = .done (.error e)) :
      Host.Modest names bound needed w known made (.assign args env next)

end

theorem Slot.Defines.not_isBinding {s : Slot} (hdefines : s.Defines) : ¬ s.IsBinding := by
  cases s with
  | signature => exact id
  | _ => exact absurd hdefines id

namespace World

variable {w w' : World} {base : Set Handle} {env x y c : Handle} {names : Set Symbol}
  {known : Set (Handle × Set Symbol)} {needed : Set Symbol} {s : Slot}

/-- A callable that is sheltered does later what it does now. -/
theorem Passes.runs_eq {function : Handle} {callee callee' : Callee}
    (hpasses : Passes env names [] w w') (hcoherent : w.Coherent)
    (hfunction : w.Sheltered Set.univ env names function) (hruns : w.Runs function callee)
    (hruns' : w'.Runs function callee') : callee' = callee := by
  have hbehavior := hpasses.agrees_behaviorOf hcoherent hfunction _ _ hruns.1 hruns'.1
  have hnatives := hpasses.agrees_nativeOf hcoherent hfunction
  cases callee <;> cases callee' <;> cases hbehavior
  case special.special.refl native native' =>
    rw [hnatives _ _ (hruns.2 native rfl) (hruns'.2 native' rfl)]
  case builtin.builtin.refl native native' =>
    rw [hnatives _ _ (hruns.2 native rfl) (hruns'.2 native' rfl)]
  all_goals rfl

/-- What is known is sheltered from the names that it does not need, and no pool answers for it. -/
theorem Knows.sheltered (hknows : w.Knows known x needed) (hcoherent : w.Coherent)
    (hknown : ∀ k ∈ known, Disjoint k.2 names → w.Sheltered base env names k.1)
    (hdisjoint : Disjoint needed names) : w.Sheltered base env names x := by
  induction hknows with
  | known hmem => exact hknown _ hmem hdisjoint
  | pinned hx => exact hx.sheltered hcoherent
  | slot _ hs hnot ih => exact (ih hdisjoint).slot hs fun hexposed => hnot hexposed.isBinding

theorem Knows.not_pooled {w₀ : World} (hknows : w.Knows known x needed) (hcoherent : w.Coherent)
    (hpasses : Passes env names [] w₀ w) (hknown : ∀ k ∈ known, ¬ w₀.Pooled k.1) :
    ¬ w₀.Pooled x := by
  cases hknows with
  | known hmem => exact hknown _ hmem
  | pinned hx => exact hpasses.not_pooled (hx.not_pooled hcoherent)
  | slot _ hs _ => exact hpasses.not_pooled (not_pooled_of_holds hcoherent hs)

/-! ## Overloads -/

theorem Overload.holds (hoverload : w.Overload x) : ∃ s : Slot, w.objects.Holds s x := by
  cases hoverload with
  | start hclass =>
      obtain ⟨c, _, index, hs⟩ := hclass
      exact ⟨_, hs⟩
  | slot _ hs _ => exact ⟨_, hs⟩

theorem Overload.not_pooled (hoverload : w.Overload x) (hcoherent : w.Coherent) :
    ¬ w.Pooled x := by
  obtain ⟨s, hs⟩ := hoverload.holds
  exact not_pooled_of_holds hcoherent hs

/-- No name stands for an overload. -/
theorem Overload.secure (hoverload : w.Overload x) (hcoherent : w.Coherent) : w.Secure x := by
  induction hoverload with
  | start hclass =>
      obtain ⟨c, hc, index, hs⟩ := hclass
      exact ((pinned_of_mem_classes hcoherent hc).secure hcoherent).slot hs id
  | slot _ hs hdefines ih =>
      exact ih.slot hs hdefines.not_isBinding

/-- Other slots than bindings held before what they hold afterwards. -/
theorem Passes.holds_back (hpasses : Passes env names [] w w') (hcoherent : w.Coherent)
    (howner : w.Sheltered Set.univ env names s.owner) (hs : w'.objects.Holds s y)
    (hnot : ¬ s.IsBinding) : w.objects.Holds s y := by
  obtain ⟨o', ho', hpeek⟩ := hs
  obtain ⟨o, q, ho, hq, hsame⟩ := hpasses.found hcoherent howner
  cases ho'.symm.trans hq
  refine ⟨o, ho, hsame.symm.peek? hpeek ?_⟩
  rintro e index f name rfl
  exact absurd trivial hnot

/-- No overload comes in while names are bound. -/
theorem Passes.overload_back (hpasses : Passes env names [] w w') (hcoherent : w.Coherent)
    (hoverload : w'.Overload x) : w.Overload x := by
  induction hoverload with
  | start hclass =>
      obtain ⟨c, hc, index, hs⟩ := hclass
      rw [hpasses.classes_eq] at hc
      exact .start ⟨c, hc, index, hpasses.holds_back hcoherent
        ((pinned_of_mem_classes hcoherent hc).sheltered hcoherent) hs id⟩
  | slot _ hs hdefines ih =>
      exact .slot ih (hpasses.holds_back hcoherent (Overload.secure ih hcoherent).sheltered hs
        hdefines.not_isBinding) hdefines

/-- What a generic function may run is an overload. -/
theorem answers_overload (hcoherent : w.Coherent) (hc : c ∈ w.classes) (s : Symbol)
    (args : List Handle) :
    w.Answers (c :: args) (w.findMethodInClass s c args) fun r =>
      ∀ y, r = some y → w.Overload y := by
  refine answers_inClasses (fun y hy => ?_)
    (fun m i y hm hs => Arena.Attains.slot (s := .signature m i) hm hs trivial) hcoherent s
    (fun d i y hd hs => .start ⟨d, ?_, i, hs⟩) args
  · exact ((Overload.secure hy hcoherent).keeps hcoherent).live
  · rcases hd with rfl | hd
    · exact hc
    · exact hd

end World

/-! ## Parts of programs -/

namespace Host.Modest

variable {host : Host} {env : Handle} {names bound needed : Set Symbol} {w : World} {α : Type}
  {known : Set (Handle × Set Symbol)} {made : Set Handle} {rest : α → Program}

/-- What is asked may have an answer, or the program gives up. -/
theorem phrase_ask {q : Query α} (herror : ∀ e, q.answer w = .error e → ∀ y, e ≠ .dangling y)
    (hok : ∀ a, q.answer w = .ok a → host.Modest env names bound needed w known made (rest a)) :
    host.Modest env names bound needed w known made (Program.Phrase.perform (.ask q) rest) := by
  refine .ask ?_
  cases hanswer : q.answer w with
  | ok a => exact hok a hanswer
  | error e => exact .fail (herror e hanswer)

theorem phrase_look {question : World → Except Error α}
    (herror : ∀ e, question w = .error e → ∀ y, e ≠ .dangling y)
    (hok : ∀ a, question w = .ok a → host.Modest env names bound needed w known made (rest a)) :
    host.Modest env names bound needed w known made
      (Program.Phrase.ofResult (fun next => .look fun w => next (question w)) rest) := by
  refine .look ?_
  cases hanswer : question w with
  | ok a => exact hok a hanswer
  | error e => exact .fail (herror e hanswer)

/-- What is made may be the result. -/
theorem phrase_make {op : Operation Handle} {given : List Handle} (hmakes : op.Makes w given)
    (hgiven : ∀ y ∈ given, ∃ held, w.Knows known y held) :
    host.Modest env names bound needed w known made (Program.Phrase.perform op).program :=
  .make hmakes hgiven (fun _ => rfl) fun x _ _ _ =>
    .done (.known (Set.mem_insert (x, ∅) known)) (Set.empty_subset needed)

end Host.Modest

/-- If the function of a call is known before, only what it does then counts. -/
theorem Host.Effects.of_known {host : Host} {env x function : Handle} {w : World}
    {names bound needed : Set Symbol} {head args : Option Handle} {callee : Callee}
    (hbehavior : w.behaviorOf x = .ok .language) (hhead : w.getAttr x Symbol.head = .ok head)
    (hargs : w.getAttr x Symbol.next = .ok args)
    (heffects : host.Effects env w names (head.getD Builtin.null) bound needed)
    (hgives : ∀ v, w.Gives env names (head.getD Builtin.null) v → v = function)
    (hcoherent : w.Coherent) (hfunction : w.Sheltered Set.univ env names function)
    (hruns : w.Runs function callee)
    (happly : host.Applies env w names callee (args.getD Builtin.null) bound needed) :
    host.Effects env w names x bound needed := by
  refine .call hbehavior hhead hargs heffects fun w' v callee' _ hpasses _ hv hruns' => ?_
  cases hgives v hv
  rwa [hpasses.runs_eq hcoherent hfunction hruns hruns']

end ObjectSystem

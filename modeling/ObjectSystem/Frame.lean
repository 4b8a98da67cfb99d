/-
# Frames

A frame holds the bindings of one environment: names in the order in which they
were first bound, each with a value or, for a moment, none. It has room for a
fixed number of names, and a name once bound stays.
-/

import ObjectSystem.Handle
import ObjectSystem.Symbol

namespace ObjectSystem

/-- The bindings of one environment. -/
structure Frame where
  bindings : Array (Symbol × Option Handle) := #[]
  capacity : Nat

namespace Frame

def size (f : Frame) : Nat :=
  f.bindings.size

def isEmpty (f : Frame) : Bool :=
  f.bindings.isEmpty

def isFull (f : Frame) : Bool :=
  f.capacity ≤ f.size

def names (f : Frame) : List Symbol :=
  f.bindings.toList.map Prod.fst

def values (f : Frame) : List (Option Handle) :=
  f.bindings.toList.map Prod.snd

/-- The index of a name. -/
def find? (f : Frame) (name : Symbol) : Option Nat :=
  f.bindings.findIdx? (·.1 == name)

/-- The value bound to a name. -/
def get? (f : Frame) (name : Symbol) : Option Handle :=
  (f.find? name).bind fun index => f.bindings[index]?.bind Prod.snd

/-- Add a name that has no value yet. -/
def addName (f : Frame) (name : Symbol) : Frame :=
  { f with bindings := f.bindings.push (name, none) }

/-- Change the value at an index. -/
def setValue (f : Frame) (index : Nat) (value : Option Handle) : Frame :=
  { f with bindings := f.bindings.modify index fun binding => (binding.1, value) }

end Frame

end ObjectSystem

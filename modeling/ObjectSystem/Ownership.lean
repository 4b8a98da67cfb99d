/-
# Ownership of objects

Every object is in one of three states. While no slot holds it, a scope pool
answers for it; once a slot holds it, that slot does; once a second slot may
hold it, only the collector can tell whether it is still needed. The states are
taken in this order and never back.

A header carries the state together with two bits: the mark bit of a tracer and
the bit that pins an object for good.
-/

namespace ObjectSystem

/-- The number of an allocation pool. Number zero is the collector's pool, the
scopes are numbered from one in the order in which they are opened. -/
structure PoolId where
  number : UInt32
  deriving DecidableEq, Inhabited

namespace PoolId

/-- The pool that lives as long as the world. -/
def collector : PoolId := ⟨0⟩

def isCollector (p : PoolId) : Bool :=
  p == collector

/-- The name of a pool in messages. -/
def text (p : PoolId) : String :=
  if p.isCollector then "Pool(gc)" else s!"Pool({p.number.toNat})"

end PoolId

/-- Who answers for an object's lifetime. -/
inductive Ownership where
  /-- A scope does, until it is closed. -/
  | pool (id : PoolId)
  /-- The single slot that holds the object does. -/
  | single
  /-- Any number of slots may hold the object: the collector decides. -/
  | shared
  deriving DecidableEq, Inhabited

namespace Ownership

/-- The state of an object that has just been put into the pool `id`. -/
def ofPool (id : PoolId) : Ownership :=
  if id.isCollector then .shared else .pool id

def isShared : Ownership → Bool
  | .shared => true
  | _ => false

/-- The pool that answers for the object, if one does. -/
def pool? : Ownership → Option PoolId
  | .pool id => some id
  | _ => none

end Ownership

/-- What is kept about an object beside its contents. -/
structure Header where
  ownership : Ownership
  marked : Bool := false
  pinned : Bool := false
  deriving DecidableEq, Inhabited

namespace Header

/-- The header of an object that is never freed. -/
def permanent : Header :=
  { ownership := .shared, pinned := true }

def mark (h : Header) : Header :=
  { h with marked := true }

def unmark (h : Header) : Header :=
  { h with marked := false }

/-- The two bits as a number: one for the mark, two for the pin. -/
def flags (h : Header) : Nat :=
  (if h.marked then 1 else 0) + (if h.pinned then 2 else 0)

end Header

end ObjectSystem

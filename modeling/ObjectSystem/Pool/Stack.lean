/-
# The stack of pools

Scopes are opened and closed like brackets, and each has a pool. Below them all
is the collector's pool, which is never closed. Closing a scope closes every
scope opened after it too.
-/

import ObjectSystem.Error
import ObjectSystem.Pool

namespace ObjectSystem

/-- The pools of all open scopes and the collector's pool. -/
structure PoolStack where
  collector : Pool
  /-- The scope opened last is in front. -/
  innermostFirst : List Pool
  /-- How many scopes were ever opened. The next one has the number after it, in
  a 32-bit word. -/
  opened : Nat
  blockCapacity : Nat

namespace PoolStack

def new (blockCapacity : Nat) : PoolStack :=
  { collector := Pool.new PoolId.collector blockCapacity
    innermostFirst := []
    opened := 0
    blockCapacity := blockCapacity }

/-- Open a scope. -/
def push (s : PoolStack) : PoolId × PoolStack :=
  let id : PoolId := ⟨UInt32.ofNat (s.opened + 1)⟩
  (id,
    { s with
      innermostFirst := Pool.new id s.blockCapacity :: s.innermostFirst
      opened := s.opened + 1 })

/-- The pool that takes in new objects: the innermost one. -/
def current (s : PoolStack) : PoolId :=
  match s.innermostFirst with
  | [] => PoolId.collector
  | p :: _ => p.id

def depth (s : PoolStack) : Nat :=
  s.innermostFirst.length

/-- The numbers of the open scopes, the outermost first. -/
def scopeIds (s : PoolStack) : List PoolId :=
  (s.innermostFirst.map Pool.id).reverse

/-- The handles in the open scopes, the outermost scope first. -/
def scopeObjects (s : PoolStack) : List Handle :=
  s.innermostFirst.reverse.flatMap Pool.toList

def get? (s : PoolStack) (id : PoolId) : Option Pool :=
  if id.isCollector then some s.collector
  else s.innermostFirst.find? (·.id == id)

/-- Change the innermost pool with a number. -/
def changePool (id : PoolId) (change : Pool → Pool) : List Pool → List Pool
  | [] => []
  | p :: rest => if p.id = id then change p :: rest else p :: changePool id change rest

/-- Change the pool with a number, if there is one. -/
def modify (s : PoolStack) (id : PoolId) (change : Pool → Pool) : PoolStack :=
  if id.isCollector then { s with collector := change s.collector }
  else { s with innermostFirst := changePool id change s.innermostFirst }

/-- The pool that encloses a scope: the scope opened just before it, or the
collector's pool. -/
def enclosing (s : PoolStack) (id : PoolId) : PoolId :=
  (s.scopeIds.takeWhile (· != id)).getLast?.getD PoolId.collector

/-- Close a scope and every scope inside it. The closed pools are returned, the
innermost first. -/
def pop (s : PoolStack) (id : PoolId) : Except Error (List Pool × PoolStack) :=
  if id.isCollector then .error .collectorPoolRelease
  else
    let outermostFirst := s.innermostFirst.reverse
    match outermostFirst.dropWhile (·.id != id) with
    | [] => .error (.unknownPool id)
    | closed =>
        let kept := outermostFirst.takeWhile (·.id != id)
        .ok (closed.reverse, { s with innermostFirst := kept.reverse })

end PoolStack

end ObjectSystem

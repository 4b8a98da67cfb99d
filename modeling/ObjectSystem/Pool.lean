/-
# Pools

A pool is a bag of handles spread over blocks of one size. A handle goes into
the newest block with room; a further block is added when every block is full.
Blocks are never given back. A pool whose blocks have no places holds nothing.
-/

import ObjectSystem.Ownership
import ObjectSystem.Pool.Block

namespace ObjectSystem

/-- A bag of handles. -/
structure Pool where
  id : PoolId
  blockCapacity : Nat
  /-- The newest block is in front. -/
  newestFirst : List Block

namespace Pool

/-- A pool opens with one empty block. -/
def new (id : PoolId) (blockCapacity : Nat) : Pool :=
  { id := id, blockCapacity := blockCapacity, newestFirst := [Block.new blockCapacity] }

/-- The blocks of a pool, the oldest first. -/
def blocks (p : Pool) : List Block :=
  p.newestFirst.reverse

/-- The handles of a pool, block after block. -/
def toList (p : Pool) : List Handle :=
  p.blocks.flatMap Block.toList

def count (p : Pool) : Nat :=
  p.newestFirst.foldl (fun n b => n + b.count) 0

def contains (p : Pool) (x : Handle) : Bool :=
  p.newestFirst.any (·.contains x)

/-- Change the first block on which a change succeeds. -/
def changeFirst (change : Block → Option Block) : List Block → Option (List Block)
  | [] => none
  | b :: rest =>
      match change b with
      | some changed => some (changed :: rest)
      | none => (changeFirst change rest).map (b :: ·)

/-- Put a handle into the newest block with room, or into a further block. -/
def insert (p : Pool) (x : Handle) : Pool :=
  match changeFirst (·.insert? x) p.newestFirst with
  | some blocks => { p with newestFirst := blocks }
  | none =>
      let block := Block.new p.blockCapacity
      { p with newestFirst := (block.insert? x).getD block :: p.newestFirst }

/-- Take a handle out of the newest block that holds it, if one does. -/
def erase? (p : Pool) (x : Handle) : Option Pool :=
  (changeFirst (·.erase? x) p.newestFirst).map fun blocks =>
    { p with newestFirst := blocks }

/-- Take out all handles that fail a test. -/
def filter (keep : Handle → Bool) (p : Pool) : Pool :=
  { p with newestFirst := p.newestFirst.map (Block.filter keep) }

end Pool

end ObjectSystem

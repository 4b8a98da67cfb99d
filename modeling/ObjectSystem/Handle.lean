/-
# Object handles

An object is named by the arena cell it was put into together with the
generation that cell had at the time. Recycling a cell raises its generation,
so a handle that outlives its object names nothing instead of a stranger.
-/

namespace ObjectSystem

/-- A name for an object: the number of a cell and the generation in which the
cell was filled. Both are 32-bit words. -/
@[ext]
structure Handle where
  index : UInt32
  generation : UInt32
  deriving DecidableEq, Inhabited

namespace Handle

/-- The short name of a handle shows the cell alone. -/
def label (h : Handle) : String :=
  s!"#{h.index.toNat}"

/-- The full name of a handle shows cell and generation. -/
def text (h : Handle) : String :=
  s!"Ref(#{h.index.toNat}.{h.generation.toNat})"

/-- An optional reference, written out. -/
def optionText : Option Handle → String
  | none => "None"
  | some h => s!"Some({h.text})"

end Handle

end ObjectSystem

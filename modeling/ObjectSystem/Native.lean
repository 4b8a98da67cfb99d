/-
# Native functions

The functions that a callable object may hold instead of an expression. The
library has one of its own; all others belong to the host program, which knows
them by name and gives them their meaning.
-/

namespace ObjectSystem

/-- A native function. It is applied to a list of arguments in an environment. -/
inductive Native where
  /-- Binds the symbol given first to the value of the expression given second. -/
  | assign
  /-- A function of the host program. -/
  | host (name : String)
  deriving DecidableEq

end ObjectSystem

/-
# Settings

The sizes that a world is created with.
-/

import ObjectSystem.Error

namespace ObjectSystem

/-- The sizes that a world is created with. -/
structure Settings where
  /-- The number of places in a block of a pool. -/
  poolCapacity : Nat := 256
  /-- The number of names that an environment has room for. -/
  environmentCapacity : Nat := 1024
  /-- The number of objects that may live at once. -/
  objectLimit : Nat := 1 <<< 20
  deriving DecidableEq, Inhabited

namespace Settings

/-- The first thing that is wrong with settings. A new world alone has a few
dozen objects, so the limit may not be too low. -/
def fault? (s : Settings) : Option SettingsFault :=
  if s.poolCapacity = 0 then some .noPoolCapacity
  else if s.environmentCapacity = 0 then some .noEnvironmentCapacity
  else if s.objectLimit < 128 then some .objectLimitTooLow
  else none

end Settings

end ObjectSystem

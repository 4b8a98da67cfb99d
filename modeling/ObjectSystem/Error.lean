/-
# Errors

Why an operation was refused. Each cause has one message, and the causes that
say that a world has lost track of its own objects are fatal.
-/

import ObjectSystem.Handle
import ObjectSystem.Ownership
import ObjectSystem.Symbol

namespace ObjectSystem

/-- What is wrong with settings. -/
inductive SettingsFault where
  | noPoolCapacity
  | noEnvironmentCapacity
  | objectLimitTooLow
  deriving DecidableEq, Inhabited

namespace SettingsFault

def message : SettingsFault → String
  | noPoolCapacity => "pool_capacity must be > 0"
  | noEnvironmentCapacity => "environment_capacity must be > 0"
  | objectLimitTooLow => "object_limit must be at least 128"

end SettingsFault

/-- Why an operation was refused. -/
inductive Error where
  /-- The world is full, and a collection did not help. -/
  | outOfMemory (limit : Nat)
  /-- An object is not in the pool that should hold it. -/
  | poolCorruption (object : Handle) (pool : PoolId)
  /-- A handle has outlived its object. -/
  | dangling (object : Handle)
  | noSuchAttribute (className attr : String)
  | classAttributeAssignment
  | typeMismatch (expected found : String)
  | noMethod (name className : String)
  | undefined (name : String)
  | notCallable (className : String)
  | indexOutOfBounds (index length : Nat)
  | duplicateAttribute (className attr : String)
  | reservedSymbol (symbol : Symbol)
  /-- The class is already above the class that was to become its superclass. -/
  | cyclicHierarchy (className superclass : String)
  | unknownPool (pool : PoolId)
  | collectorPoolRelease
  | invalidSettings (fault : SettingsFault)
  /-- New attributes were given with a different number of classes. -/
  | attributeClassCount (classes attributes : Nat)
  /-- An expression without a head. -/
  | emptyCall
  | assignmentArity (operands : Nat)
  /-- A failure that a primitive or a caller reports in its own words. -/
  | reported (message : String)
  /-- A walk along references has come back to where it was. -/
  | endlessWalk
  /-- Expressions are nested deeper than evaluation goes. -/
  | evaluationTooDeep
  deriving DecidableEq, Inhabited

namespace Error

/-- The message of each cause. -/
def message : Error → String
  | outOfMemory limit => s!"out of memory: live object limit of {limit} reached"
  | poolCorruption object pool =>
      s!"pool corruption: {object.text} is not registered in pool {pool.text}"
  | dangling object => s!"dangling object reference {object.text}"
  | noSuchAttribute className attr =>
      s!"object of class '{className}' has no '{attr}' attribute"
  | classAttributeAssignment => "assignment to the class attribute is not permitted"
  | typeMismatch expected found =>
      s!"type mismatch: expected '{expected}', got '{found}'"
  | noMethod name className => s!"no method '{name}' applicable to class '{className}'"
  | undefined name => s!"symbol '{name}' is undefined"
  | notCallable className => s!"call to a non-function of class '{className}'"
  | indexOutOfBounds index length => s!"index {index} out of bounds for length {length}"
  | duplicateAttribute className attr =>
      s!"'{attr}' is already an attribute of class '{className}'"
  | reservedSymbol symbol =>
      s!"symbol {symbol.text} is reserved and cannot name an attribute"
  | cyclicHierarchy className superclass =>
      s!"making '{superclass}' a superclass of '{className}' creates a cycle"
  | unknownPool pool => s!"unknown allocation pool {pool.text}"
  | collectorPoolRelease => "the collector pool lives as long as the runtime"
  | invalidSettings fault => s!"invalid runtime settings: {fault.message}"
  | attributeClassCount classes attributes =>
      s!"{classes} attribute classes given for {attributes} attributes"
  | emptyCall => "a call needs a function"
  | assignmentArity operands => s!"'<-' takes 2 arguments, got {operands}"
  | reported message => message
  | endlessWalk => "references lead round in a circle"
  | evaluationTooDeep => "expressions are nested too deep"

/-- Whether the refusal stands for something that never comes to an end. -/
def isEndless : Error → Bool
  | endlessWalk | evaluationTooDeep => true
  | _ => false

/-- Whether the world may have lost track of its own objects. -/
def isFatal : Error → Bool
  | outOfMemory _ | poolCorruption _ _ | dangling _ => true
  | _ => false

end Error

end ObjectSystem

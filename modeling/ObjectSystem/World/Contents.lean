/-
# Reading contents

What an object shows as its payload and its length is up to the behavior of its class.
The contents of vectors and texts are read off what is shown.
-/

import ObjectSystem.Host

namespace ObjectSystem.Host

open World

variable (host : Host) (w : World) (x : Handle)

/-- The payload that an object shows. -/
def payload : Except Error Payload := do
  match ← w.behaviorOf x with
  | .custom name => host.payloadAs name x w
  | _ => return (← w.object x).payload

/-- The length of an object, as users see it. -/
def length : Except Error Nat := do
  match ← w.behaviorOf x with
  | .custom name => host.lengthAs name x w
  | _ => return (← w.object x).length

def reals : Except Error (Array Double) := do
  match ← host.payload w x with
  | .real values => return values
  | _ => throw (w.mismatch "real" x)

def integers : Except Error (Array Int32) := do
  match ← host.payload w x with
  | .integer values => return values
  | _ => throw (w.mismatch "integer" x)

def logicals : Except Error (Array Int32) := do
  match ← host.payload w x with
  | .logical values => return values
  | _ => throw (w.mismatch "logical" x)

def complexes : Except Error (Array Complex) := do
  match ← host.payload w x with
  | .complex values => return values
  | _ => throw (w.mismatch "complex" x)

def chars : Except Error String := do
  match ← host.payload w x with
  | .chars text => return text
  | _ => throw (w.mismatch "characterString" x)

def elements : Except Error (Array (Option Handle)) := do
  match ← host.payload w x with
  | .elements values => return values
  | _ => throw (w.mismatch "list" x)

end ObjectSystem.Host

/-
# Payloads

What an object holds beside its attributes: nothing, a text, a vector of one
kind of element, a symbol, a class descriptor, the overloads of a method, a
native function or the bindings of an environment.

The size of a payload is what its elements take on a machine with 64-bit words.
-/

import ObjectSystem.Class
import ObjectSystem.Double
import ObjectSystem.Frame
import ObjectSystem.Native

namespace ObjectSystem

/-- A complex number. -/
structure Complex where
  re : Double
  im : Double
  deriving DecidableEq, Inhabited

/-- One overload of a method: the class that the next argument must belong to,
if there has to be one, and what the overload leads to. -/
structure Signature where
  argClass : Option Handle
  value : Option Handle
  deriving DecidableEq, Inhabited

/-- What an object holds beside its attributes. -/
inductive Payload where
  | none
  | chars (text : String)
  | logical (values : Array Int32)
  | integer (values : Array Int32)
  | real (values : Array Double)
  | complex (values : Array Complex)
  | elements (values : Array (Option Handle))
  | symbol (symbol : Symbol)
  | descriptor (of : Class)
  | method (signatures : Array Signature)
  | native (function : Native)
  | environment (frame : Frame)

namespace Payload

/-- The name of each kind of payload. -/
def kind : Payload → String
  | none => "none"
  | chars _ => "chars"
  | logical _ => "logical"
  | integer _ => "integer"
  | real _ => "real"
  | complex _ => "complex"
  | elements _ => "elements"
  | symbol _ => "symbol"
  | descriptor _ => "class"
  | method _ => "method"
  | native _ => "native"
  | environment _ => "environment"

/-- The number of bytes that a payload takes. -/
def byteSize : Payload → Nat
  | none => 0
  | chars text => text.utf8ByteSize + 1
  | logical values => 4 * values.size
  | integer values => 4 * values.size
  | real values => 8 * values.size
  | complex values => 16 * values.size
  | elements values => 12 * values.size
  | symbol _ => 4
  | descriptor _ => 184
  | method signatures => 24 * signatures.size
  | native _ => 8
  | environment frame => 16 * frame.size

/-- The references of a payload, in order. -/
def refs : Payload → List Handle
  | elements values => values.toList.filterMap id
  | descriptor c => c.refs
  | method signatures =>
      signatures.toList.flatMap fun s => s.argClass.toList ++ s.value.toList
  | environment frame => frame.values.filterMap id
  | _ => []

/-- A payload on one line: in full if that is readable, by its size if not. -/
def text : Payload → String
  | chars text => s!"Chars({Text.quoted text})"
  | real values => s!"Real({Text.bracketed (values.toList.map Double.text)})"
  | integer values => s!"Integer({integers values})"
  | logical values => s!"Logical({integers values})"
  | symbol s => s!"Symbol({s.text})"
  | other => s!"{other.kind}[{other.byteSize}B]"
where
  integers (values : Array Int32) : String :=
    Text.bracketed (values.toList.map fun v => toString v.toInt)

end Payload

end ObjectSystem

/-
# Attribute slots

Where a class keeps the value of an attribute: in a place of each instance, in
the class itself, or not at all. A slot also has a code in one signed 32-bit
word: zero for no slot, the place (counted from one) for an instance slot, and
the negative numbers for the slots of the class.
-/

namespace ObjectSystem

/-- Where the value of an attribute is kept. -/
inductive AttrSlot where
  | unmapped
  /-- In every instance, at a place counted from one. -/
  | inInstance (place : UInt32)
  /-- In the class, at an index counted from zero. -/
  | inClass (index : UInt32)
  deriving DecidableEq, Inhabited

namespace AttrSlot

def encode : AttrSlot → Int32
  | unmapped => 0
  | inInstance place => place.toInt32
  | inClass index => -index.toInt32 - 1

def decode (code : Int32) : AttrSlot :=
  if 0 < code then inInstance code.toUInt32
  else if code < 0 then inClass (-code - 1).toUInt32
  else unmapped

/-- What a subclass takes over: the places of instances, not the values of the
class. -/
def inherited : AttrSlot → AttrSlot
  | inInstance place => inInstance place
  | _ => unmapped

def text : AttrSlot → String
  | unmapped => "Unmapped"
  | inInstance place => s!"Instance({place.toNat})"
  | inClass index => s!"ClassLevel({index.toNat})"

end AttrSlot

end ObjectSystem

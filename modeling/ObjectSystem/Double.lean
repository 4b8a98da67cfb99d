/-
# Double-precision numbers

The numbers in real and complex vectors are kept as their 64 bits, so that a
value that is stored and read again is the same value to the last bit, whatever
kind of not-a-number it may be.
-/

import ObjectSystem.Decimal

namespace ObjectSystem

/-- A double-precision number, by its bits. -/
structure Double where
  bits : UInt64
  deriving DecidableEq, Inhabited

namespace Double

def zero : Double := ⟨0⟩

def ofFloat (x : Float) : Double := ⟨x.toBits⟩

def isNegative (x : Double) : Bool :=
  1 <<< 63 ≤ x.bits.toNat

/-- The eleven bits of the exponent. -/
def biasedExponent (x : Double) : Nat :=
  (x.bits.toNat >>> 52) % (1 <<< 11)

/-- The fifty-two bits behind the leading one. -/
def fraction (x : Double) : Nat :=
  x.bits.toNat % (1 <<< 52)

/-- The decimals that round to a finite number other than zero, its sign aside. -/
def rounding (x : Double) : Decimal.Rounding :=
  if x.biasedExponent = 0 then
    Decimal.Rounding.ofBinary x.fraction (-1074) false
  else
    Decimal.Rounding.ofBinary ((1 <<< 52) + x.fraction) ((x.biasedExponent : Int) - 1075)
      (x.fraction = 0 ∧ 1 < x.biasedExponent)

/-- Numbers from a ten-thousandth up to below ten to the sixteenth are written
positionally. -/
def layout : Decimal.Layout :=
  { leastPositional := -4, greatestPositional := 15 }

/-- The text of a number: the fewest digits that read back as the number. -/
def text (x : Double) : String :=
  if x.biasedExponent = 2047 ∧ x.fraction ≠ 0 then "NaN"
  else
    let magnitude :=
      if x.biasedExponent = 2047 then "inf"
      else if x.biasedExponent = 0 ∧ x.fraction = 0 then "0.0"
      else Decimal.render layout (Decimal.shortest x.rounding)
    if x.isNegative then "-" ++ magnitude else magnitude

end Double

end ObjectSystem

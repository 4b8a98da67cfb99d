/-
# Decimals

A decimal is a number of digits at a power of ten. `Decimal.shortest` writes a
value `m · 2 ^ q` with the fewest digits that single it out among its
neighbours: it tries grids of one, two, three and more digits, and on each grid
the two points next to the value. The first point that rounds back to the value
wins; of two such points the nearer does, and of two equally near ones the
larger.

`Decimal.render` lays the digits out, positionally or with an exponent, as a
`Layout` says.
-/

namespace ObjectSystem

/-- The number `digits · 10 ^ exponent`. -/
structure Decimal where
  digits : Nat
  exponent : Int
  deriving DecidableEq

namespace Decimal

/-- Move zeros at the end of the digits into the exponent. -/
def trim (fuel : Nat) (d : Decimal) : Decimal :=
  match fuel with
  | 0 => d
  | fuel + 1 =>
      if d.digits ≠ 0 ∧ d.digits % 10 = 0 then
        trim fuel ⟨d.digits / 10, d.exponent + 1⟩
      else d

/-- The decimals that a binary value stands for: those between `low / 4` and
`high / 4` in units of `2 ^ exponent`, where the value itself is `value / 4`.
The ends belong to them when `closed` holds. -/
structure Rounding where
  low : Nat
  value : Nat
  high : Nat
  exponent : Int
  closed : Bool

namespace Rounding

/-- The decimals nearer to `m · 2 ^ q` than to the next binary values. Below a
power of two the next value is only half as far away, which `narrowBelow` says. -/
def ofBinary (m : Nat) (q : Int) (narrowBelow : Bool) : Rounding :=
  { low := 4 * m - (if narrowBelow then 1 else 2)
    value := 4 * m
    high := 4 * m + 2
    exponent := q
    closed := m % 2 = 0 }

/-- The numbers `a / 4 · 2 ^ exponent` and `10 ^ e` over one denominator. -/
def scale (r : Rounding) (e : Int) : Nat × Nat :=
  (Nat.pow 2 (r.exponent - 2).toNat * Nat.pow 10 (-e).toNat,
    Nat.pow 10 e.toNat * Nat.pow 2 (2 - r.exponent).toNat)

/-- The power of ten of the leading digit of the value. -/
def leadingExponent (r : Rounding) : Int :=
  let (unit, one) := r.scale (-400)
  ((toString (r.value * unit / one)).length : Int) - 401

/-- The point next to the value, on the grid of multiples of `10 ^ e`, that the
value may be written by. -/
def nearest? (r : Rounding) (e : Int) : Option Decimal :=
  let (unit, step) := r.scale e
  let value := r.value * unit
  let below := value / step
  let inside (point : Nat) : Bool :=
    if r.closed then r.low * unit ≤ point * step && point * step ≤ r.high * unit
    else r.low * unit < point * step && point * step < r.high * unit
  match inside below, inside (below + 1) with
  | false, false => none
  | true, false => some ⟨below, e⟩
  | false, true => some ⟨below + 1, e⟩
  | true, true =>
      if 2 * (value - below * step) < step then some ⟨below, e⟩
      else some ⟨below + 1, e⟩

end Rounding

/-- The shortest decimal that rounds to a value, with at most seventeen digits. -/
def shortest (r : Rounding) : Decimal :=
  let lead := r.leadingExponent
  let found := (List.range 17).findSome? fun (more : Nat) => r.nearest? (lead - more)
  (found.getD ⟨r.value / 4, r.exponent⟩).trim 17

/-- How decimals are laid out: positionally as long as the power of ten of the
leading digit is in a range, with an exponent otherwise. -/
structure Layout where
  leastPositional : Int
  greatestPositional : Int

/-- The text of a decimal. A positional text always has a point with a digit on
either side; the exponent of the other form follows a letter, without plus sign. -/
def render (layout : Layout) (d : Decimal) : String :=
  let digits := toString d.digits
  let lead := d.exponent + digits.length - 1
  if lead < layout.leastPositional ∨ layout.greatestPositional < lead then
    let rest := String.ofList (digits.toList.drop 1)
    let mantissa := String.ofList (digits.toList.take 1) ++
      (if rest.isEmpty then "" else "." ++ rest)
    s!"{mantissa}e{lead}"
  else if lead < 0 then
    "0." ++ String.ofList (List.replicate (-lead - 1).toNat '0') ++ digits
  else
    let whole := lead.toNat + 1
    let fraction := String.ofList (digits.toList.drop whole)
    String.ofList (digits.toList.take whole) ++
      String.ofList (List.replicate (whole - digits.length) '0') ++ "." ++
      (if fraction.isEmpty then "0" else fraction)

end Decimal

end ObjectSystem

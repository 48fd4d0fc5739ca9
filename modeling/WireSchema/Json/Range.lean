/-
# Numbers in range

A number of a JSON text may be too large to be taken up: it is read as a double,
and that must not be infinite.  It is read by its first digits, as many as fit
into sixty-four bits, and a power of ten, each rounded to fifty-three bits.  So
the largest numbers in range are those for which the product of the two, rounded
once more, is finite; this can differ in the last place from rounding the number
itself.
-/

import WireSchema.Text.Numeral

namespace WireSchema.Json

/-- The number with fifty-three significant bits that is nearest; of two that are
equally near, the one with a zero as its last bit. -/
def toDoublePrecision (n : Nat) : Nat :=
  let excess := n.log2 + 1 - 53
  let unit := Nat.pow 2 excess
  let below := n / unit
  let rest := n % unit
  if unit < 2 * rest || (2 * rest = unit && below % 2 = 1) then (below + 1) * unit
  else below * unit

/-- The largest power of ten that is a finite double. -/
def maxExponent : Nat := 308

/-- The least number that is rounded to infinity: the middle between the largest
finite double and the power of two after it. -/
def infinityBound : Nat :=
  Nat.pow 2 1024 - Nat.pow 2 970

/-- The double nearest to `significand * 10 ^ exponent`, as it is computed from the
doubles nearest to the two factors, is finite. -/
def isFiniteProduct (significand : Nat) (exponent : Int) : Bool :=
  significand = 0 || exponent ≤ 0 ||
    (exponent ≤ maxExponent &&
      toDoublePrecision significand * toDoublePrecision (Nat.pow 10 exponent.toNat) <
        infinityBound)

/-- The number after digits have been appended to it, up to the first that would
take it beyond sixty-four bits, and how many digits that are. -/
def absorb (n : Nat) : List Nat → Nat × Nat
  | [] => (n, 0)
  | digit :: digits =>
    let next := n * 10 + digit
    if next < Nat.pow 2 64 then
      let (significand, count) := absorb next digits
      (significand, count + 1)
    else (n, 0)

/-- The digits among some characters. -/
def digitsOf (cs : List Char) : List Nat :=
  cs.filterMap (Text.digitValue? 10)

/-- A number without its sign is in range. -/
def inRange (cs : List Char) : Bool :=
  let (whole, fraction?, power?) := Text.decimalParts cs
  let (leading, taken) := absorb 0 (digitsOf whole)
  let (significand, places) := absorb leading (digitsOf (fraction?.getD []))
  let dropped : Int := whole.length - taken
  isFiniteProduct significand (dropped - places + (Text.exponent? power?).getD 0)

end WireSchema.Json

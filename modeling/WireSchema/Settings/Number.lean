/-
# Numbers in settings

A number stands for a truth value: zero for false, anything else for true.  So a
decimal is read only as far as to say whether the nearest double is zero, or has
no finite value.  The comparison is exact.
-/

import WireSchema.Text.Numeral

namespace WireSchema.Settings

/-- The decimal `mantissa * 10 ^ exponent`. -/
structure Decimal where
  mantissa : Nat
  exponent : Int

namespace Decimal

/-- An exponent to which ten is raised so that the decimal is below that power. -/
def magnitude (d : Decimal) : Int :=
  (toString d.mantissa).length + d.exponent

/-- The nearest double is zero: the decimal is at most half of the least positive
double. -/
def isZero (d : Decimal) : Bool :=
  d.mantissa = 0 || d.magnitude < -400 ||
    (d.magnitude < 400 &&
      d.mantissa * Nat.pow 10 d.exponent.toNat * Nat.pow 2 1075 ≤ Nat.pow 10 (-d.exponent).toNat)

/-- The decimal is too large for a finite double: it is not below the middle
between the greatest double and the power of two after it. -/
def isInfinite (d : Decimal) : Bool :=
  d.mantissa ≠ 0 && (400 < d.magnitude ||
    (-400 < d.magnitude &&
      (Nat.pow 2 1024 - Nat.pow 2 970) * Nat.pow 10 (-d.exponent).toNat ≤
        d.mantissa * Nat.pow 10 d.exponent.toNat))

end Decimal

/-- The number fits into sixty-four bits with a sign. -/
def fitsInteger (negative : Bool) (n : Nat) : Bool :=
  if negative then n ≤ Nat.pow 2 63 else n < Nat.pow 2 63

/-- The decimal with the given whole part, fraction and exponent; both of the
first may be empty, but not together. -/
def decimal? (whole fraction : List Char) (power? : Option (List Char)) : Option Decimal := do
  let mantissa ← Text.natural? 10 (whole ++ fraction)
  let exponent ← Text.exponent? power?
  return ⟨mantissa, exponent - fraction.length⟩

end WireSchema.Settings

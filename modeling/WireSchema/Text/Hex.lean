/-
# Hexadecimal digits

Lower-case hexadecimal digits, as they stand in string escapes and in
fingerprints.
-/

namespace WireSchema.Text

/-- The lower-case hexadecimal digit of a number below sixteen. -/
def hexDigit (n : Nat) : Char :=
  if n < 10 then Char.ofNat (0x30 + n) else Char.ofNat (0x57 + n)

/-- The two digits of a byte, the high one first. -/
def hexByte (b : UInt8) : List Char :=
  [hexDigit (b.toNat / 16), hexDigit (b.toNat % 16)]

end WireSchema.Text

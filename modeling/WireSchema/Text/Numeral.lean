/-
# Numerals

Digits in a base, and the parts of a number in decimal notation.  Nothing here
decides which notations are allowed; each reader of numbers does that for itself.
-/

namespace WireSchema.Text

/-- The number whose digits are given, most significant first. -/
def ofDigits (base : Nat) (digits : List Nat) : Nat :=
  digits.foldl (fun n digit => n * base + digit) 0

/-- The value of a digit in a base of at most sixteen. -/
def digitValue? (base : Nat) (c : Char) : Option Nat :=
  let n := c.toNat
  let value? :=
    if 0x30 ≤ n ∧ n ≤ 0x39 then some (n - 0x30)
    else if 0x41 ≤ n ∧ n ≤ 0x46 then some (n - 0x37)
    else if 0x61 ≤ n ∧ n ≤ 0x66 then some (n - 0x57)
    else none
  value?.filter (· < base)

/-- The number written by digits alone; there has to be one. -/
def natural? (base : Nat) (cs : List Char) : Option Nat :=
  if cs.isEmpty then none
  else (cs.mapM (digitValue? base)).map (ofDigits base)

/-- A sign in front of a number; `true` is for a minus. -/
def splitSign (cs : List Char) : Bool × List Char :=
  match cs with
  | '-' :: rest => (true, rest)
  | '+' :: rest => (false, rest)
  | _ => (false, cs)

/-- The text up to the first character that satisfies `stop`, and what comes after
that character, if there is one. -/
def splitFirst (stop : Char → Bool) (cs : List Char) : List Char × Option (List Char) :=
  let before := cs.takeWhile fun c => !stop c
  match cs.dropWhile fun c => !stop c with
  | [] => (before, none)
  | _ :: rest => (before, some rest)

/-- The whole part, the fraction and the exponent of an unsigned decimal.  The
fraction and the exponent may be missing. -/
def decimalParts (cs : List Char) : List Char × Option (List Char) × Option (List Char) :=
  let (mantissa, exponent?) := splitFirst (fun c => c = 'e' || c = 'E') cs
  let (whole, fraction?) := splitFirst (· = '.') mantissa
  (whole, fraction?, exponent?)

/-- The integer that an exponent is, with or without a sign; a missing one is zero. -/
def exponent? : Option (List Char) → Option Int
  | none => some 0
  | some cs =>
    let (negative, digits) := splitSign cs
    (natural? 10 digits).map fun n => if negative then -(n : Int) else n

end WireSchema.Text

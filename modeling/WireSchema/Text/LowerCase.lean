/-
# Full lower-case mapping of a text

Every character is replaced by its lower-case form, wherever it stands, with
one exception: a capital sigma at the end of a word becomes the final form.
The mapping is total on texts and never fails; it is not claimed to be
idempotent or to keep the length (U+0130 becomes two characters).
-/

import WireSchema.Text.CaseTable

namespace WireSchema.Text

/-- The code point `n` lies in one of the ranges. -/
def inRanges (ranges : List (Nat × Nat)) (n : Nat) : Bool :=
  ranges.any fun range => range.1 ≤ n && n ≤ range.2

/-- The character is looked past when the surroundings of a sigma are judged. -/
def isCaseIgnorable (c : Char) : Bool :=
  inRanges caseIgnorableRanges c.toNat

/-- The character is a letter with case, and is not looked past. -/
def isCased (c : Char) : Bool :=
  inRanges casedRanges c.toNat

/-- The lower-case form of one character, apart from its surroundings. -/
def lowerChar (c : Char) : List Char :=
  let n := c.toNat
  if n < 0x80 then [c.toLower]
  else if n = 0x130 then [Char.ofNat 0x69, Char.ofNat 0x307]
  else
    match lowerRuns.find? (·.covers n) with
    | some run => [Char.ofNat (n + run.offset).toNat]
    | none => [c]

/-- The first character that is not looked past is a letter with case. -/
def meetsCased (cs : List Char) : Bool :=
  match cs.dropWhile isCaseIgnorable with
  | [] => false
  | c :: _ => isCased c

/-- Lower-case form of `rest`, which is preceded by the characters of `before`,
nearest first.  A capital sigma is word-final when a letter with case precedes
it and none follows it. -/
def lowerChars (before : List Char) : List Char → List Char
  | [] => []
  | c :: rest =>
    if c.toNat = 0x3A3 then
      Char.ofNat (if meetsCased before && !meetsCased rest then 0x3C2 else 0x3C3)
        :: lowerChars (c :: before) rest
    else lowerChar c ++ lowerChars (c :: before) rest

/-- The text with every letter in lower case. -/
def lowercase (text : String) : String :=
  String.ofList (lowerChars [] text.toList)

end WireSchema.Text

/-
# Reading configuration files

A file is read line by line: headers of sections and keys with their values, with
blanks, comments and empty lines between them.  Values are truth values, numbers,
dates and times, strings on one line or on several, arrays, which may go over
several lines, and tables in braces.  A text that breaks the grammar is refused as
a whole; what the lines mean together is settled in `Section`.
-/

import WireSchema.Settings.Number
import WireSchema.Settings.Section
import WireSchema.Text.Numeral
import WireSchema.Text.Split
import WireSchema.Text.Whitespace

namespace WireSchema.Settings

/-! ### Blanks, comments and line breaks -/

/-- A character that may not stand in a comment or string. -/
def isControl (c : Char) : Bool :=
  (c.toNat < 0x20 && c ≠ '\t') || c.toNat = 0x7F

/-- The text from its first character that is not a blank. -/
def skipBlanks (cs : List Char) : List Char :=
  cs.dropWhile Text.isInlineBlank

/-- The text after a line break. -/
def lineBreak? : List Char → Option (List Char)
  | '\n' :: rest => some rest
  | '\r' :: '\n' :: rest => some rest
  | _ => none

/-- The text after a comment, up to the line break, if it starts with one. -/
def skipComment (cs : List Char) : List Char :=
  match cs with
  | '#' :: rest => rest.dropWhile fun c => !isControl c
  | _ => cs

/-- The text after the end of a line: blanks, perhaps a comment, and a line break or
the end of the text. -/
def lineEnd? (cs : List Char) : Option (List Char) :=
  match skipComment (skipBlanks cs) with
  | [] => some []
  | cs => lineBreak? cs

/-- The text after blanks, comments and line breaks, of which at most `fuel` lines
are skipped. -/
def skipLines : Nat → List Char → List Char
  | 0, cs => cs
  | fuel + 1, cs =>
    let cs := skipComment (skipBlanks cs)
    match lineBreak? cs with
    | some rest => skipLines fuel rest
    | none => cs

/-- The text from its first character that is neither a blank nor a part of a line
break. -/
def skipBreaks : List Char → List Char
  | '\r' :: '\n' :: rest => skipBreaks rest
  | c :: rest => if c = '\n' || Text.isInlineBlank c then skipBreaks rest else c :: rest
  | [] => []

/-! ### Strings -/

/-- The character that a code point stands for, if it stands for one. -/
def charOfCode? (n : Nat) : Option Char :=
  if n < 0xD800 ∨ (0xDFFF < n ∧ n < 0x110000) then some (Char.ofNat n) else none

/-- The character named by a one-letter escape. -/
def escaped? (c : Char) : Option Char :=
  if c = '"' then some '"'
  else if c = '\\' then some '\\'
  else if c = 'b' then some (Char.ofNat 0x8)
  else if c = 'f' then some (Char.ofNat 0xC)
  else if c = 'n' then some '\n'
  else if c = 'r' then some '\r'
  else if c = 't' then some '\t'
  else none

/-- The character that an escape stands for, after its backslash. -/
def escape : List Char → Option (Char × List Char)
  | 'u' :: a :: b :: c :: d :: rest => do
    let code ← Text.natural? 16 [a, b, c, d]
    let c ← charOfCode? code
    return (c, rest)
  | 'U' :: a :: b :: c :: d :: e :: f :: g :: h :: rest => do
    let code ← Text.natural? 16 [a, b, c, d, e, f, g, h]
    let c ← charOfCode? code
    return (c, rest)
  | c :: rest => do
    let c ← escaped? c
    return (c, rest)
  | [] => none

/-- The four kinds of strings. -/
structure Quoting where
  /-- The mark at both ends. -/
  mark : Char
  /-- A backslash starts an escape. -/
  hasEscapes : Bool
  /-- The mark stands three times at both ends, and the string may hold line breaks. -/
  isBlock : Bool

namespace Quoting

/-- The text after the end of a string, with what belongs to the string still: up to
two marks before the last three. -/
def closing? (quoting : Quoting) (cs : List Char) : Option (List Char × List Char) :=
  let mark := quoting.mark
  let count := (cs.takeWhile (· = mark)).length
  if quoting.isBlock then
    if count < 3 then none
    else
      let kept := min (count - 3) 2
      some (List.replicate kept mark, cs.drop (kept + 3))
  else if count = 0 then none
  else some ([], cs.drop 1)

/-- The text after the rest of a line and all blank lines after it, when a backslash
stands at the end of a line. -/
def continuation? (quoting : Quoting) (cs : List Char) : Option (List Char) :=
  if quoting.isBlock then (lineBreak? (skipBlanks cs)).map skipBreaks else none

/-- The text after a line break in a string. -/
def lineBreak? (quoting : Quoting) (cs : List Char) : Option (List Char) :=
  if quoting.isBlock then Settings.lineBreak? cs else none

/-- The rest of a string after its opening.  Every step takes a character off the
text, so its length is enough fuel. -/
def body (quoting : Quoting) : Nat → List Char → Option (List Char × List Char)
  | 0, _ => none
  | fuel + 1, cs =>
    match quoting.closing? cs with
    | some closing => some closing
    | none =>
      match quoting.lineBreak? cs with
      | some rest => do
        let (text, rest) ← quoting.body fuel rest
        return ('\n' :: text, rest)
      | none =>
        match cs with
        | [] => none
        | c :: rest =>
          if c = '\\' && quoting.hasEscapes then
            match quoting.continuation? rest with
            | some rest => quoting.body fuel rest
            | none => do
              let (c, rest) ← escape rest
              let (text, rest) ← quoting.body fuel rest
              return (c :: text, rest)
          else if isControl c then none
          else do
            let (text, rest) ← quoting.body fuel rest
            return (c :: text, rest)

/-- The text of a string, after its opening.  A line break right after the opening of
a block does not belong to it. -/
def read (quoting : Quoting) (cs : List Char) : Option (String × List Char) := do
  let cs := (quoting.lineBreak? cs).getD cs
  let (text, rest) ← quoting.body (cs.length + 1) cs
  return (String.ofList text, rest)

end Quoting

/-- A string on one line, if the text starts with one. -/
def lineString? : List Char → Option (Option (String × List Char))
  | '"' :: rest => some (Quoting.read ⟨'"', true, false⟩ rest)
  | '\'' :: rest => some (Quoting.read ⟨'\'', false, false⟩ rest)
  | _ => none

/-- A string, if the text starts with one. -/
def string? (cs : List Char) : Option (Option (String × List Char)) :=
  match cs with
  | '"' :: '"' :: '"' :: rest => some (Quoting.read ⟨'"', true, true⟩ rest)
  | '\'' :: '\'' :: '\'' :: rest => some (Quoting.read ⟨'\'', false, true⟩ rest)
  | _ => lineString? cs

/-! ### Keys -/

/-- A character of a key without quotes. -/
def isKeyChar (c : Char) : Bool :=
  c.isAlphanum || c = '_' || c = '-'

/-- One part of a key. -/
def keyPart (cs : List Char) : Option (String × List Char) :=
  match lineString? cs with
  | some read => read
  | none =>
    match cs.takeWhile isKeyChar with
    | [] => none
    | part => some (String.ofList part, cs.dropWhile isKeyChar)

/-- A key: parts with points between them, of which there are at most `room`. -/
def keyPath : Nat → List Char → Option (List String × List Char)
  | 0, _ => none
  | room + 1, cs => do
    let (part, rest) ← keyPart (skipBlanks cs)
    match skipBlanks rest with
    | '.' :: rest => do
      let (parts, rest) ← keyPath room rest
      return (part :: parts, rest)
    | rest => some ([part], rest)

/-- How many parts a key may have, and how many arrays and tables in braces may stand
within each other. -/
def standardRoom : Nat := 79

/-! ### Numbers and truth values -/

/-- Digits in which each underscore stands between two digits, without the
underscores. -/
def ungroup (base : Nat) (cs : List Char) : Option (List Char) :=
  let groups := Text.splitAt '_' cs
  if groups.all fun group =>
      !group.isEmpty && group.all fun c => (Text.digitValue? base c).isSome then
    some groups.flatten
  else none

/-- Digits of a whole number: a zero alone, or digits that do not start with
zero. -/
def wholeDigits (cs : List Char) : Option (List Char) := do
  let digits ← ungroup 10 cs
  if digits.length ≠ 1 && digits.head? = some '0' then none else return digits

/-- An integer in the given base, after its base mark. -/
def basedInteger (base : Nat) (cs : List Char) : Option SettingValue := do
  let digits ← ungroup base cs
  let n ← Text.natural? base digits
  if fitsInteger false n then return .number (n = 0) else none

/-- The digits of a part of a number that may be missing, without underscores. -/
def ungroupPart : Option (List Char) → Option (List Char)
  | none => some []
  | some cs => ungroup 10 cs

/-- An exponent that may be missing, without underscores. -/
def ungroupExponent : Option (List Char) → Option (Option (List Char))
  | none => some none
  | some cs =>
    let (negative, digits) := Text.splitSign cs
    (ungroup 10 digits).map fun digits => some (if negative then '-' :: digits else digits)

/-- An integer or a decimal without its sign. -/
def plainNumber (negative : Bool) (cs : List Char) : Option SettingValue :=
  if cs = ['i', 'n', 'f'] ∨ cs = ['n', 'a', 'n'] then some (.number false)
  else
    match Text.decimalParts cs with
    | (whole, none, none) => do
      let digits ← wholeDigits whole
      let n ← Text.natural? 10 digits
      if fitsInteger negative n then return .number (n = 0) else none
    | (whole, fraction?, power?) => do
      let digits ← wholeDigits whole
      let fraction ← ungroupPart fraction?
      let power? ← ungroupExponent power?
      let d ← decimal? digits fraction power?
      if !negative && d.isInfinite then none else return .number d.isZero

/-- A truth value or a number. -/
def scalarOf (cs : List Char) : Option SettingValue :=
  match cs with
  | ['t', 'r', 'u', 'e'] => some (.bool true)
  | ['f', 'a', 'l', 's', 'e'] => some (.bool false)
  | '0' :: 'x' :: digits => basedInteger 16 digits
  | '0' :: 'o' :: digits => basedInteger 8 digits
  | '0' :: 'b' :: digits => basedInteger 2 digits
  | _ =>
    let (negative, cs) := Text.splitSign cs
    plainNumber negative cs

/-- A character of a truth value or number. -/
def isScalarChar (c : Char) : Bool :=
  c.isAlphanum || c = '_' || c = '-' || c = '+' || c = '.'

/-! ### Dates and times -/

/-- A number with as many digits as said. -/
def fixedDigits (count : Nat) (cs : List Char) : Option (Nat × List Char) :=
  if count ≤ cs.length then (Text.natural? 10 (cs.take count)).map fun n => (n, cs.drop count)
  else none

/-- The text after a character. -/
def after? (c : Char) : List Char → Option (List Char)
  | d :: rest => if c = d then some rest else none
  | [] => none

/-- The number of days of a month. -/
def daysOf (year month : Nat) : Nat :=
  if month = 2 then
    if year % 4 = 0 && (year % 100 ≠ 0 || year % 400 = 0) then 29 else 28
  else if month = 4 || month = 6 || month = 9 || month = 11 then 30
  else 31

/-- The text after a date. -/
def date? (cs : List Char) : Option (List Char) := do
  let (year, cs) ← fixedDigits 4 cs
  let cs ← after? '-' cs
  let (month, cs) ← fixedDigits 2 cs
  let cs ← after? '-' cs
  let (day, cs) ← fixedDigits 2 cs
  if 1 ≤ month && month ≤ 12 && 1 ≤ day && day ≤ daysOf year month then return cs else none

/-- The text after an hour and a minute. -/
def clock? (cs : List Char) : Option (List Char) := do
  let (hour, cs) ← fixedDigits 2 cs
  let cs ← after? ':' cs
  let (minute, cs) ← fixedDigits 2 cs
  if hour ≤ 23 && minute ≤ 59 then return cs else none

/-- The text after a time.  A minute may have a sixty-first second, and a second may
have a fraction. -/
def time? (cs : List Char) : Option (List Char) := do
  let cs ← clock? cs
  let cs ← after? ':' cs
  let (second, cs) ← fixedDigits 2 cs
  if 60 < second then none
  match cs with
  | '.' :: rest =>
    if (rest.takeWhile Char.isDigit).isEmpty then return cs
    else return rest.dropWhile Char.isDigit
  | _ => return cs

/-- The text after the offset of a time, if it has one. -/
def skipOffset (cs : List Char) : List Char :=
  match cs with
  | c :: rest =>
    if c = 'Z' || c = 'z' then rest
    else if c = '+' || c = '-' then (clock? rest).getD cs
    else cs
  | [] => []

/-- The text after a date, a time, or a date with a time. -/
def moment? (cs : List Char) : Option (List Char) :=
  match date? cs with
  | some rest =>
    match rest with
    | c :: clock =>
      if c = 'T' || c = 't' || c = ' ' then some (((time? clock).map skipOffset).getD rest)
      else some rest
    | [] => some []
  | none => time? cs

/-! ### Values -/

/-- A value that is neither an array nor a table.  A date or time is a text. -/
def scalar (cs : List Char) : Option (SettingValue × List Char) :=
  match string? cs with
  | some read => read.map fun (text, rest) => (.text text, rest)
  | none =>
    match moment? cs with
    | some rest => some (.text (String.ofList (cs.take (cs.length - rest.length))), rest)
    | none => (scalarOf (cs.takeWhile isScalarChar)).map fun v => (v, cs.dropWhile isScalarChar)

mutual

/-- A value, where `room` arrays and tables may stand within each other.  Every nested
value starts after a bracket, a comma or a key, so the length of the text is enough
fuel. -/
def value (room : Nat) : Nat → List Char → Option (SettingValue × List Char)
  | 0, _ => none
  | fuel + 1, cs =>
    match cs with
    | '[' :: rest =>
      if room = 0 then none
      else do
        let (items, rest) ← items (room - 1) fuel (skipLines rest.length rest)
        return (.array items, rest)
    | '{' :: rest =>
      if room = 0 then none
      else
        match skipBlanks rest with
        | '}' :: rest => some (.emptyTable, rest)
        | rest => do
          let (assignments, rest) ← assignments (room - 1) fuel rest
          let table ← tableOf assignments
          return (table, rest)
    | _ => scalar cs

/-- The items of an array and its closing bracket, which may follow a comma. -/
def items (room : Nat) : Nat → List Char → Option (List SettingValue × List Char)
  | 0, _ => none
  | fuel + 1, cs =>
    match cs with
    | ']' :: rest => some ([], rest)
    | _ => do
      let (item, rest) ← value room fuel cs
      match skipLines rest.length rest with
      | ']' :: rest => return ([item], rest)
      | ',' :: rest => do
        let (more, rest) ← items room fuel (skipLines rest.length rest)
        return (item :: more, rest)
      | _ => none

/-- The keys of a table in braces with their values, and its closing brace, which may
not follow a comma. -/
def assignments (room : Nat) : Nat → List Char → Option (List Assignment × List Char)
  | 0, _ => none
  | fuel + 1, cs => do
    let (path, rest) ← keyPath standardRoom cs
    let rest ← after? '=' rest
    let (new, rest) ← value room fuel (skipBlanks rest)
    match skipBlanks rest with
    | '}' :: rest => return ([⟨path, new⟩], rest)
    | ',' :: rest => do
      let (more, rest) ← assignments room fuel rest
      return (⟨path, new⟩ :: more, rest)
    | _ => none

end

/-! ### Lines -/

/-- A line that is not empty. -/
inductive Line where
  | header (header : Header)
  | assignment (assignment : Assignment)

/-- A header after its opening brackets, with its closing brackets. -/
def header (opens : List String → Header) (closing : Nat) (cs : List Char) :
    Option (Line × List Char) := do
  let (path, rest) ← keyPath standardRoom cs
  if rest.take closing = List.replicate closing ']' then
    let rest ← lineEnd? (rest.drop closing)
    return (.header (opens path), rest)
  else none

/-- A key with its value. -/
def assignment (cs : List Char) : Option (Line × List Char) := do
  let (path, rest) ← keyPath standardRoom cs
  let rest ← after? '=' rest
  let rest := skipBlanks rest
  let (new, rest) ← value standardRoom rest.length rest
  let rest ← lineEnd? rest
  return (.assignment ⟨path, new⟩, rest)

/-- The lines of a text that are not empty.  Every line takes a character off the
text, so its length is enough fuel. -/
def lines : Nat → List Char → Option (List Line)
  | 0, _ => none
  | fuel + 1, cs => do
    let (line, rest) ←
      match skipLines cs.length cs with
      | [] => return []
      | '[' :: '[' :: rest => header Header.item 2 rest
      | '[' :: rest => header Header.table 1 rest
      | cs => assignment cs
    let lines ← lines fuel rest
    return line :: lines

/-- The sections that lines make, the first of which goes on. -/
def sectionsOf (current : Section) : List Line → List Section
  | [] => [current]
  | .header header :: lines => current :: sectionsOf ⟨header, []⟩ lines
  | .assignment new :: lines =>
    sectionsOf { current with assignments := current.assignments ++ [new] } lines

/-- The tree of tables that a file holds.  A byte order mark in front is passed
over. -/
def parse (text : String) : Option SettingValue := do
  let cs :=
    match text.toList with
    | '\uFEFF' :: cs => cs
    | cs => cs
  let lines ← lines (cs.length + 1) cs
  treeOf (sectionsOf ⟨.none, []⟩ lines)

end WireSchema.Settings

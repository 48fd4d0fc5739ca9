/-
# Reading JSON

The grammar is strict: one value, with blanks allowed around every token, no
comments and no trailing commas, numbers without leading zeros, no raw control
characters in a string.  Each part of the grammar has a function of its own that
takes the rest of the text and returns what it read with the text that follows.

A text can keep to the grammar and still hold what no value stands for.  `parseLoose`
marks such parts and leaves it to its caller whether they are needed; `parse`
refuses a text that has any.
-/

import WireSchema.Json.Basic
import WireSchema.Json.Range
import WireSchema.Text.Numeral

namespace WireSchema.Json

/-- Blanks between tokens: space, tab, line feed and carriage return. -/
def isBlank (c : Char) : Bool :=
  c = ' ' || c = '\t' || c = '\n' || c = '\r'

/-- The text from its first character that is not blank. -/
def skipBlanks (cs : List Char) : List Char :=
  cs.dropWhile isBlank

/-- A part of a string before surrogate pairs are joined: a character that
stands for itself, or a sixteen-bit unit written in hexadecimal. -/
inductive StringPart where
  | char (c : Char)
  | unit (n : Nat)

/-- The unit written by four hexadecimal digits. -/
def unitValue? (a b c d : Char) : Option Nat :=
  Text.natural? 16 [a, b, c, d]

/-- The character named by a one-letter escape. -/
def escaped? (c : Char) : Option Char :=
  if c = '"' then some '"'
  else if c = '\\' then some '\\'
  else if c = '/' then some '/'
  else if c = 'b' then some (Char.ofNat 0x8)
  else if c = 'f' then some (Char.ofNat 0xC)
  else if c = 'n' then some '\n'
  else if c = 'r' then some '\r'
  else if c = 't' then some '\t'
  else none

/-- The parts of a string up to its closing quote. -/
def stringParts : List Char → Option (List StringPart × List Char)
  | [] => none
  | c :: cs =>
    if c = '"' then some ([], cs)
    else if c = '\\' then
      match cs with
      | 'u' :: h₁ :: h₂ :: h₃ :: h₄ :: cs => do
        let n ← unitValue? h₁ h₂ h₃ h₄
        let (parts, rest) ← stringParts cs
        return (.unit n :: parts, rest)
      | e :: cs => do
        let c ← escaped? e
        let (parts, rest) ← stringParts cs
        return (.char c :: parts, rest)
      | [] => none
    else if c.toNat < 0x20 then none
    else do
      let (parts, rest) ← stringParts cs
      return (.char c :: parts, rest)

/-- The characters that the parts stand for, if they stand for any.  A unit of the
upper surrogate range has to be followed by one of the lower range. -/
def joinParts : List StringPart → Option (List Char)
  | [] => some []
  | .char c :: parts => do
    let cs ← joinParts parts
    return c :: cs
  | .unit n :: parts =>
    if 0xD800 ≤ n ∧ n < 0xDC00 then
      match parts with
      | .unit m :: parts =>
        if 0xDC00 ≤ m ∧ m < 0xE000 then do
          let cs ← joinParts parts
          return Char.ofNat (0x10000 + (n - 0xD800) * 0x400 + (m - 0xDC00)) :: cs
        else none
      | _ => none
    else if 0xDC00 ≤ n ∧ n < 0xE000 then none
    else do
      let cs ← joinParts parts
      return Char.ofNat n :: cs

/-- The rest of a string after its opening quote.  It may be well formed and have
no text. -/
def stringBody (cs : List Char) : Option (Option String × List Char) := do
  let (parts, rest) ← stringParts cs
  return ((joinParts parts).map String.ofList, rest)

/-- One or more digits. -/
def digits (cs : List Char) : Option (List Char × List Char) :=
  match cs.takeWhile Char.isDigit with
  | [] => none
  | ds => some (ds, cs.dropWhile Char.isDigit)

/-- The part of a number before the point: one zero, or digits that do not
start with zero. -/
def wholePart (cs : List Char) : Option (List Char × List Char) :=
  match cs with
  | '0' :: rest => if (rest.head?.any Char.isDigit) then none else some (['0'], rest)
  | _ => digits cs

/-- The point of a number and the digits after it, if there is a point. -/
def fraction (cs : List Char) : Option (List Char × List Char) :=
  match cs with
  | '.' :: rest => (digits rest).map fun (ds, rest) => ('.' :: ds, rest)
  | _ => some ([], cs)

/-- The exponent of a number, if there is one. -/
def exponent (cs : List Char) : Option (List Char × List Char) :=
  match cs with
  | e :: rest =>
    if e = 'e' ∨ e = 'E' then
      match rest with
      | s :: rest' =>
        if s = '+' ∨ s = '-' then (digits rest').map fun (ds, rest) => (e :: s :: ds, rest)
        else (digits rest).map fun (ds, rest) => (e :: ds, rest)
      | [] => none
    else some ([], cs)
  | [] => some ([], cs)

/-- A number without its sign. -/
def unsigned (cs : List Char) : Option (List Char × List Char) := do
  let (whole, cs) ← wholePart cs
  let (point, cs) ← fraction cs
  let (power, cs) ← exponent cs
  return (whole ++ point ++ power, cs)

/-- A number that has been read without its sign. -/
def ofNumber (negative : Bool) (cs : List Char) : Json :=
  if inRange cs then number (String.ofList (if negative then '-' :: cs else cs))
  else unusable

/-- A number with or without a minus sign. -/
def numberValue (cs : List Char) : Option (Json × List Char) :=
  match cs with
  | '-' :: rest => (unsigned rest).map fun (ds, rest) => (ofNumber true ds, rest)
  | _ => (unsigned cs).map fun (ds, rest) => (ofNumber false ds, rest)

/-- A string that has been read. -/
def ofText : Option String → Json
  | some text => string text
  | none => unusable

/-- A value that is not an array or object. -/
def scalar (cs : List Char) : Option (Json × List Char) :=
  match cs with
  | 'n' :: 'u' :: 'l' :: 'l' :: rest => some (null, rest)
  | 't' :: 'r' :: 'u' :: 'e' :: rest => some (bool true, rest)
  | 'f' :: 'a' :: 'l' :: 's' :: 'e' :: rest => some (bool false, rest)
  | '"' :: rest => (stringBody rest).map fun (text?, rest) => (ofText text?, rest)
  | _ => numberValue cs

/-- A key of an object with the colon after it.  It may have no text. -/
def key (cs : List Char) : Option (Option String × List Char) :=
  match skipBlanks cs with
  | '"' :: rest => do
    let (text?, rest) ← stringBody rest
    match skipBlanks rest with
    | ':' :: rest => some (text?, rest)
    | _ => none
  | _ => none

/-- An array that has been read where `room` further levels may be opened. -/
def ofItems (room : Nat) (items : List Json) : Json :=
  if room = 0 then unusable else array items

/-- The members of an object, if all their keys have texts. -/
def namedMembers : List (Option String × Json) → Option (List (String × Json))
  | [] => some []
  | (key?, value) :: members => do
    let key ← key?
    let members ← namedMembers members
    return (key, value) :: members

/-- An object that has been read where `room` further levels may be opened. -/
def ofMembers (room : Nat) (members : List (Option String × Json)) : Json :=
  if room = 0 then unusable
  else
    match namedMembers members with
    | some members => object members
    | none => unusable

mutual

/-- A value with the blanks before it, where `room` further levels of arrays and
objects may be opened.  Every call within one text takes a character off it, so
its length is enough fuel. -/
def value (room : Nat) : Nat → List Char → Option (Json × List Char)
  | 0, _ => none
  | fuel + 1, cs =>
    match skipBlanks cs with
    | '[' :: rest =>
      match skipBlanks rest with
      | ']' :: rest => some (ofItems room [], rest)
      | _ => do
        let (item, rest) ← value (room - 1) fuel rest
        let (items, rest) ← moreItems (room - 1) fuel rest
        return (ofItems room (item :: items), rest)
    | '{' :: rest =>
      match skipBlanks rest with
      | '}' :: rest => some (ofMembers room [], rest)
      | _ => do
        let (name?, rest) ← key rest
        let (first, rest) ← value (room - 1) fuel rest
        let (members, rest) ← moreMembers (room - 1) fuel rest
        return (ofMembers room ((name?, first) :: members), rest)
    | cs => scalar cs

/-- The items of an array after the first, and its closing bracket. -/
def moreItems (room : Nat) : Nat → List Char → Option (List Json × List Char)
  | 0, _ => none
  | fuel + 1, cs =>
    match skipBlanks cs with
    | ']' :: rest => some ([], rest)
    | ',' :: rest => do
      let (item, rest) ← value room fuel rest
      let (items, rest) ← moreItems room fuel rest
      return (item :: items, rest)
    | _ => none

/-- The members of an object after the first, and its closing bracket. -/
def moreMembers (room : Nat) :
    Nat → List Char → Option (List (Option String × Json) × List Char)
  | 0, _ => none
  | fuel + 1, cs =>
    match skipBlanks cs with
    | '}' :: rest => some ([], rest)
    | ',' :: rest => do
      let (name?, rest) ← key rest
      let (first, rest) ← value room fuel rest
      let (members, rest) ← moreMembers room fuel rest
      return ((name?, first) :: members, rest)
    | _ => none

end

/-- How many arrays and objects may stand within each other in a text. -/
def standardRoom : Nat := 127

/-- The value of a JSON text in which at most `room` arrays and objects stand within
each other, as far as it can be taken up.  What is nested more deeply is marked, as
are strings and numbers that no value stands for. -/
def parseLoose (room : Nat) (text : String) : Option Json := do
  let cs := text.toList
  let (json, rest) ← value room (cs.length + 1) cs
  match skipBlanks rest with
  | [] => some json
  | _ :: _ => none

/-- The value of a JSON text that can be taken up as a whole. -/
def parse (room : Nat) (text : String) : Option Json :=
  (parseLoose room text).filter isWhole

end WireSchema.Json

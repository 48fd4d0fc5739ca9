/-
# Writing JSON

Two layouts of a JSON value.  The compact layout has no spaces.  The pretty
layout puts every item on a line of its own, two spaces deeper than what holds
it, with a space after each colon; an empty array or object stays on its line.
In both, a string escapes the quote, the backslash and the characters below
U+0020, and nothing else.
-/

import WireSchema.Json.Basic
import WireSchema.Text.Hex

namespace WireSchema.Json

open Text (hexDigit)

/-- One character as it stands between the quotes of a string. -/
def escapeChar (c : Char) : List Char :=
  if c = '"' then ['\\', '"']
  else if c = '\\' then ['\\', '\\']
  else if c.toNat = 0x8 then ['\\', 'b']
  else if c.toNat = 0x9 then ['\\', 't']
  else if c.toNat = 0xA then ['\\', 'n']
  else if c.toNat = 0xC then ['\\', 'f']
  else if c.toNat = 0xD then ['\\', 'r']
  else if c.toNat < 0x20 then
    ['\\', 'u', '0', '0', hexDigit (c.toNat / 16), hexDigit (c.toNat % 16)]
  else [c]

/-- A string with its quotes. -/
def quote (text : String) : List Char :=
  '"' :: text.toList.flatMap escapeChar ++ ['"']

/-- The start of a line at the given depth. -/
def newline (depth : Nat) : List Char :=
  '\n' :: List.replicate (2 * depth) ' '

/-- How a layout separates the parts of a container. -/
structure Layout where
  /-- What stands before an item of a container at the given depth, and before
  its closing bracket. -/
  gap : Nat → List Char
  /-- What stands between a key and its value. -/
  colon : List Char

/-- Everything on one line and no spaces. -/
def Layout.compact : Layout where
  gap _ := []
  colon := [':']

/-- One item a line, indented by two spaces for every level. -/
def Layout.pretty : Layout where
  gap := newline
  colon := [':', ' ']

mutual

/-- The value in a layout, as part of a container of the given depth.  A part that
is marked as unusable has no text of its own and leaves a null in its place. -/
def chars (layout : Layout) (depth : Nat) : Json → List Char
  | null | unusable => ['n', 'u', 'l', 'l']
  | bool true => ['t', 'r', 'u', 'e']
  | bool false => ['f', 'a', 'l', 's', 'e']
  | number literal => literal.toList
  | string text => quote text
  | array [] => ['[', ']']
  | array (item :: items) =>
    '[' :: (layout.gap (depth + 1) ++ chars layout (depth + 1) item ++
      (itemChars layout (depth + 1) items ++ layout.gap depth ++ [']']))
  | object [] => ['{', '}']
  | object ((key, value) :: members) =>
    '{' :: (layout.gap (depth + 1) ++ quote key ++ layout.colon ++
      chars layout (depth + 1) value ++
      (memberChars layout (depth + 1) members ++ layout.gap depth ++ ['}']))

/-- The items after the first, each with the comma before it. -/
def itemChars (layout : Layout) (depth : Nat) : List Json → List Char
  | [] => []
  | item :: items =>
    ',' :: (layout.gap depth ++ chars layout depth item ++ itemChars layout depth items)

/-- The members after the first, each with the comma before it. -/
def memberChars (layout : Layout) (depth : Nat) : List (String × Json) → List Char
  | [] => []
  | (key, value) :: members =>
    ',' :: (layout.gap depth ++ quote key ++ layout.colon ++ chars layout depth value ++
      memberChars layout depth members)

end

/-- The text of a value in a layout. -/
def render (layout : Layout) (json : Json) : String :=
  String.ofList (json.chars layout 0)

/-- The text of a value without spaces. -/
def compact (json : Json) : String :=
  json.render Layout.compact

/-- The text of a value with one item a line. -/
def pretty (json : Json) : String :=
  json.render Layout.pretty

end WireSchema.Json

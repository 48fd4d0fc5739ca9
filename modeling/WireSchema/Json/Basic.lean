/-
# JSON values

A JSON text stands for a tree of these values.  An object keeps its members in
the order of the text and keeps repeated keys, because what reads the object
decides what a repetition means.  A number is kept as it is written; nothing in
this library computes with one.  A text can be well formed and yet have parts
that no value stands for; they are marked, so that they can be passed over.
-/

namespace WireSchema

/-- A JSON value, or the mark of a part that cannot be taken up: a string with half
of a surrogate pair, a number out of range, an object with such a key, or what is
nested too deeply. -/
inductive Json where
  | null
  | bool (value : Bool)
  | number (literal : String)
  | string (text : String)
  | array (items : List Json)
  | object (members : List (String × Json))
  | unusable

namespace Json

mutual

/-- No part of the value is marked as unusable. -/
def isWhole : Json → Bool
  | null | bool _ | number _ | string _ => true
  | array items => areWhole items
  | object members => membersAreWhole members
  | unusable => false

/-- No part of any of the values is marked as unusable. -/
def areWhole : List Json → Bool
  | [] => true
  | item :: items => item.isWhole && areWhole items

/-- No part of what the members hold is marked as unusable. -/
def membersAreWhole : List (String × Json) → Bool
  | [] => true
  | (_, value) :: members => value.isWhole && membersAreWhole members

end

/-- The text of a string value. -/
def text? : Json → Option String
  | string text => some text
  | _ => none

/-- The truth value of a boolean. -/
def bool? : Json → Option Bool
  | bool value => some value
  | _ => none

/-- The texts of an array of strings. -/
def texts? : Json → Option (List String)
  | array items => items.mapM text?
  | _ => none

/-- An array of strings. -/
def ofTexts (texts : List String) : Json :=
  array (texts.map string)

end Json

/-- How often a key occurs among the members of an object. -/
inductive Occurrence (υ : Type) where
  | absent
  | once (value : υ)
  | repeated

namespace Occurrence

variable {υ ω : Type}

/-- What the members of an object hold under a key. -/
def of (key : String) (members : List (String × υ)) : Occurrence υ :=
  match members.filter fun member => member.1 = key with
  | [] => absent
  | [member] => once member.2
  | _ => repeated

/-- The reading of a key that has to be present. -/
def required (read : υ → Option ω) : Occurrence υ → Option ω
  | once value => read value
  | absent | repeated => none

/-- The reading of a key that has a default. -/
def withDefault (default : ω) (read : υ → Option ω) : Occurrence υ → Option ω
  | absent => some default
  | once value => read value
  | repeated => none

end Occurrence

end WireSchema

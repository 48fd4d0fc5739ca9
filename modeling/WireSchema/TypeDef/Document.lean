/-
# Type definitions as JSON

A definition is an object whose `kind` says what it is and whose other keys
depend on the kind.  Writing puts the keys in a fixed order, the kind first.
Reading takes them in any order, ignores keys that the kind does not have, and
refuses a definition in which a key of the kind is missing, repeated or of the
wrong form.
-/

import WireSchema.Json.Printer
import WireSchema.Json.Reader
import WireSchema.TypeDef.Basic

namespace WireSchema.TypeDef

mutual

/-- The JSON object of a definition. -/
def toJson : TypeDef → Json
  | primitive p => .object [("kind", .string "primitive"), ("primitive", .string p.name)]
  | unit => .object [("kind", .string "unit")]
  | enumeration name members =>
    .object [("kind", .string "enum"), ("name", .string name), ("members", .ofTexts members)]
  | nullable inner => .object [("kind", .string "nullable"), ("inner", inner.toJson)]
  | list item => .object [("kind", .string "list"), ("item", item.toJson)]
  | dictionary key value =>
    .object [("kind", .string "dictionary"), ("key", key.toJson), ("value", value.toJson)]
  | record name fields =>
    .object [("kind", .string "record"), ("name", .string name),
      ("fields", .array (fieldsToJson fields))]
  | union name members =>
    .object [("kind", .string "union"), ("name", .string name),
      ("members", .array (membersToJson members))]
  | named name => .object [("kind", .string "named"), ("name", .string name)]
  | foreign name => .object [("kind", .string "opaque"), ("name", .string name)]

/-- The JSON objects of fields. -/
def fieldsToJson : List (FieldDef TypeDef) → List Json
  | [] => []
  | ⟨name, type, hasDefault⟩ :: fields =>
    .object [("name", .string name), ("ty", type.toJson), ("has_default", .bool hasDefault)] ::
      fieldsToJson fields

/-- The JSON objects of members. -/
def membersToJson : List (MemberDef TypeDef) → List Json
  | [] => []
  | ⟨name, type⟩ :: members =>
    .object [("name", .string name), ("ty", type.toJson)] :: membersToJson members

end

/-- What one JSON value can stand for inside a definition.  A part is absent
where the value has the wrong form for it. -/
structure Reading where
  text? : Option String
  flag? : Option Bool
  texts? : Option (List String)
  type? : Option TypeDef
  field? : Option (FieldDef TypeDef)
  member? : Option (MemberDef TypeDef)
  fields? : Option (List (FieldDef TypeDef))
  members? : Option (List (MemberDef TypeDef))

/-- The reading of a value that is neither an array nor an object. -/
def Reading.scalar (json : Json) : Reading :=
  ⟨json.text?, json.bool?, none, none, none, none, none, none⟩

/-- The name in an object. -/
def nameIn (members : List (String × Reading)) : Option String :=
  (Occurrence.of "name" members).required Reading.text?

/-- The field that the members of an object describe. -/
def fieldIn (members : List (String × Reading)) : Option (FieldDef TypeDef) := do
  let name ← nameIn members
  let type ← (Occurrence.of "ty" members).required Reading.type?
  let hasDefault ← (Occurrence.of "has_default" members).withDefault false Reading.flag?
  return ⟨name, type, hasDefault⟩

/-- The union member that the members of an object describe. -/
def memberIn (members : List (String × Reading)) : Option (MemberDef TypeDef) := do
  let name ← nameIn members
  let type ← (Occurrence.of "ty" members).required Reading.type?
  return ⟨name, type⟩

/-- The definition of the given kind that the members of an object describe. -/
def typeOfKind (members : List (String × Reading)) (kind : String) : Option TypeDef :=
  if kind = "primitive" then do
    let text ← (Occurrence.of "primitive" members).required Reading.text?
    let p ← Primitive.ofName? text
    return primitive p
  else if kind = "unit" then return unit
  else if kind = "enum" then do
    let name ← nameIn members
    let texts ← (Occurrence.of "members" members).required Reading.texts?
    return enumeration name texts
  else if kind = "nullable" then do
    let inner ← (Occurrence.of "inner" members).required Reading.type?
    return nullable inner
  else if kind = "list" then do
    let item ← (Occurrence.of "item" members).required Reading.type?
    return list item
  else if kind = "dictionary" then do
    let key ← (Occurrence.of "key" members).required Reading.type?
    let value ← (Occurrence.of "value" members).required Reading.type?
    return dictionary key value
  else if kind = "record" then do
    let name ← nameIn members
    let fields ← (Occurrence.of "fields" members).required Reading.fields?
    return record name fields
  else if kind = "union" then do
    let name ← nameIn members
    let members ← (Occurrence.of "members" members).required Reading.members?
    return union name members
  else if kind = "named" then do
    let name ← nameIn members
    return named name
  else if kind = "opaque" then do
    let name ← nameIn members
    return foreign name
  else none

/-- The definition that the members of an object describe. -/
def typeIn (members : List (String × Reading)) : Option TypeDef := do
  let kind ← (Occurrence.of "kind" members).required Reading.text?
  typeOfKind members kind

mutual

/-- Everything that a JSON value can stand for inside a definition. -/
def readingOf : Json → Reading
  | .array items =>
    let readings := readingsOf items
    ⟨none, none, readings.mapM Reading.text?, none, none, none,
      readings.mapM Reading.field?, readings.mapM Reading.member?⟩
  | .object members =>
    let readings := memberReadings members
    ⟨none, none, none, typeIn readings, fieldIn readings, memberIn readings, none, none⟩
  | .null => Reading.scalar .null
  | .bool value => Reading.scalar (.bool value)
  | .number literal => Reading.scalar (.number literal)
  | .string text => Reading.scalar (.string text)
  | .unusable => Reading.scalar .unusable

/-- The readings of the items of an array. -/
def readingsOf : List Json → List Reading
  | [] => []
  | item :: items => readingOf item :: readingsOf items

/-- The readings of the members of an object, under their keys. -/
def memberReadings : List (String × Json) → List (String × Reading)
  | [] => []
  | (key, value) :: members => (key, readingOf value) :: memberReadings members

end

/-- The definition that a JSON value stands for. -/
def ofJson (json : Json) : Option TypeDef :=
  (readingOf json).type?

/-- The definition that a JSON text stands for, when at most `room` arrays and objects
may stand within each other.  The values of other keys have to be usable too. -/
def parseWithin (room : Nat) (text : String) : Option TypeDef :=
  (Json.parse room text).bind ofJson

/-- The definition that a JSON text stands for. -/
def parse (text : String) : Option TypeDef :=
  parseWithin Json.standardRoom text

end WireSchema.TypeDef

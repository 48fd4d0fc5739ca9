/-
# Document elements

A document is a tree of named elements with attributes.  The attributes of an
element form a map: they are kept in the order of their keys, without repeated
keys.  As JSON an element is an object whose empty parts are left out; reading
accepts those parts in any order and ignores what it does not know.
-/

import WireSchema.Error
import WireSchema.Json.Printer
import WireSchema.Json.Reader

namespace WireSchema

/-- An element of a document. -/
structure Element where
  name : String
  attributes : List (String × String)
  children : List Element

namespace Element

/-- An element without attributes and children. -/
def new (name : String) : Element :=
  ⟨name, [], []⟩

/-- The attributes with one more, in the order of keys.  A key that is there
already gets the new value. -/
def setIn (key value : String) : List (String × String) → List (String × String)
  | [] => [(key, value)]
  | (k, v) :: rest =>
    if k < key then (k, v) :: setIn key value rest
    else if k = key then (key, value) :: rest
    else (key, value) :: (k, v) :: rest

/-- The element with the attribute set. -/
def withAttribute (element : Element) (key value : String) : Element :=
  { element with attributes := setIn key value element.attributes }

/-- The element with one more child, after the others. -/
def withChild (element child : Element) : Element :=
  { element with children := element.children ++ [child] }

/-- The value of an attribute. -/
def attribute? (element : Element) (key : String) : Option String :=
  (element.attributes.find? fun entry => entry.1 = key).map Prod.snd

/-- The value of an attribute that has to be there. -/
def requiredAttribute (element : Element) (key : String) : Except Error String :=
  match element.attribute? key with
  | some value => .ok value
  | none => .error (.malformedDocument (.missingAttribute element.name key))

/-- The children with the given name. -/
def childrenNamed (element : Element) (name : String) : List Element :=
  element.children.filter fun child => child.name = name

/-- The attributes as a JSON object. -/
def attributesJson (attributes : List (String × String)) : Json :=
  .object (attributes.map fun (key, value) => (key, .string value))

mutual

/-- The JSON object of an element. -/
def toJson : Element → Json
  | ⟨name, attributes, children⟩ =>
    .object (("name", .string name) ::
      ((if attributes.isEmpty then [] else [("attributes", attributesJson attributes)]) ++
        (if children.isEmpty then [] else [("children", .array (listToJson children))])))

/-- The JSON objects of a list of elements. -/
def listToJson : List Element → List Json
  | [] => []
  | element :: elements => element.toJson :: listToJson elements

end

/-- The parts of an element that have been found in a JSON object. -/
structure Draft where
  name? : Option String
  attributes? : Option (List (String × String))
  children? : Option (List Element)

/-- No part has been found. -/
def Draft.blank : Draft :=
  ⟨none, none, none⟩

/-- The element with the parts found; the name is required. -/
def Draft.finish (draft : Draft) : Option Element := do
  let name ← draft.name?
  return ⟨name, draft.attributes?.getD [], draft.children?.getD []⟩

/-- The attributes of a JSON object whose values are all strings.  A repeated
key keeps its last value. -/
def attributesOfMembers (found : List (String × String)) :
    List (String × Json) → Option (List (String × String))
  | [] => some found
  | (key, value) :: members => do
    let text ← value.text?
    attributesOfMembers (setIn key text found) members

/-- The attributes that a JSON value stands for. -/
def attributesOfJson : Json → Option (List (String × String))
  | .object members => attributesOfMembers [] members
  | _ => none

mutual

/-- The element that a JSON value stands for. -/
def ofJson : Json → Option Element
  | .object members => do
    let draft ← draftOf members
    draft.finish
  | _ => none

/-- The parts of an element among the members of an object.  A part may not be
given twice. -/
def draftOf : List (String × Json) → Option Draft
  | [] => some Draft.blank
  | (key, value) :: members => do
    let draft ← draftOf members
    if key = "name" then
      let text ← value.text?
      if draft.name?.isSome then none else return { draft with name? := some text }
    else if key = "attributes" then
      let attributes ← attributesOfJson value
      if draft.attributes?.isSome then none
      else return { draft with attributes? := some attributes }
    else if key = "children" then
      let children ← childrenOf value
      if draft.children?.isSome then none else return { draft with children? := some children }
    else return draft

/-- The elements of a JSON array. -/
def childrenOf : Json → Option (List Element)
  | .array items => listOfJson items
  | _ => none

/-- The elements that JSON values stand for, one each. -/
def listOfJson : List Json → Option (List Element)
  | [] => some []
  | item :: items => do
    let element ← ofJson item
    let elements ← listOfJson items
    return element :: elements

end

/-- The two layouts in which a document is written. -/
inductive Format where
  | pretty
  | compact
  deriving DecidableEq, Repr

/-- The text of an element in a layout. -/
def render (format : Format) (element : Element) : String :=
  match format with
  | .pretty => element.toJson.pretty
  | .compact => element.toJson.compact

/-- The element that a JSON text stands for, when at most `room` arrays and objects
may stand within each other in what is taken up.  The values of other keys are
passed over, whatever they hold. -/
def readWithin (room : Nat) (text : String) : Except Error Element :=
  match (Json.parseLoose room text).bind ofJson with
  | some element => .ok element
  | none => .error .json

/-- The element that a JSON text stands for. -/
def read (text : String) : Except Error Element :=
  readWithin Json.standardRoom text

end Element

end WireSchema

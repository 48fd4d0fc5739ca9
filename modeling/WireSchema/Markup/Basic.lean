/-
# Markup

Markup writes a schema inline.  It spells out what has no id of its own and
ends at references to what has one.  The type leaves open what a reference is:
an id in a document, or a handle inside a store.
-/

import WireSchema.Primitive

namespace WireSchema

/-- A schema written inline, over references of type `ρ`. -/
inductive Markup (ρ : Type) where
  | ref (target : ρ)
  | primitive (type : Primitive)
  | empty
  | nullable (inner : Markup ρ)
  | list (item : Markup ρ)
  | dictionary (key value : Markup ρ)
  deriving DecidableEq

namespace Markup

variable {ρ σ : Type}

/-- The references from left to right, with repetitions. -/
def references : Markup ρ → List ρ
  | ref target => [target]
  | primitive _ | empty => []
  | nullable inner => inner.references
  | list item => item.references
  | dictionary key value => key.references ++ value.references

/-- The markup with every reference replaced by what an action makes of it, from
left to right. -/
def mapRefs {ε : Type} (f : ρ → Except ε σ) : Markup ρ → Except ε (Markup σ)
  | ref target => do
    let target ← f target
    return ref target
  | primitive type => return primitive type
  | empty => return empty
  | nullable inner => do
    let inner ← inner.mapRefs f
    return nullable inner
  | list item => do
    let item ← item.mapRefs f
    return list item
  | dictionary key value => do
    let key ← key.mapRefs f
    let value ← value.mapRefs f
    return dictionary key value

/-- The characters of a form with its parts, in braces. -/
def formChars (form : String) (parts : List (List Char)) : List Char :=
  '{' :: (form.toList ++ (parts.flatMap (' ' :: ·) ++ ['}']))

/-- The characters of a markup text. -/
def chars : Markup String → List Char
  | ref id => '#' :: id.toList
  | primitive type => type.name.toList
  | empty => formChars "empty" []
  | nullable inner => formChars "nullable" [inner.chars]
  | list item => formChars "list" [item.chars]
  | dictionary key value => formChars "dictionary" [key.chars, value.chars]

/-- The text of a markup: a hash sign before an id, scalars by name, and
everything else in braces. -/
def display (markup : Markup String) : String :=
  String.ofList markup.chars

end Markup

end WireSchema

/-
# Providers

A provider builds the nodes of one kind of type.  A catalog holds a list of
providers and uses the first that accepts a type, so a shorter list means that
some types cannot be described at all.
-/

import WireSchema.TypeDef.Basic

namespace WireSchema

/-- A kind of type that a catalog can describe. -/
inductive Provider where
  | nullable
  | enumeration
  | primitive
  | empty
  | list
  | dictionary
  | union
  | record
  deriving DecidableEq, Repr

namespace Provider

/-- Every provider, in the order in which a catalog tries them unless it is told
otherwise. -/
def standard : List Provider :=
  [nullable, enumeration, primitive, empty, list, dictionary, union, record]

/-- The name of a provider in a configuration. -/
def name : Provider → String
  | nullable => "nullable"
  | enumeration => "enum"
  | primitive => "primitive"
  | empty => "empty"
  | list => "list"
  | dictionary => "dictionary"
  | union => "union"
  | record => "complex"

/-- The provider with the given name, matched exactly. -/
def ofName? (text : String) : Option Provider :=
  standard.find? fun provider => provider.name = text

/-- The provider builds nodes for the type. -/
def accepts : Provider → TypeDef → Bool
  | nullable, .nullable _ => true
  | enumeration, .enumeration .. => true
  | primitive, .primitive _ => true
  | empty, .unit => true
  | list, .list _ => true
  | dictionary, .dictionary .. => true
  | union, .union .. => true
  | record, .record .. => true
  | _, _ => false

/-- What a type has to be for the provider, as it is put in messages. -/
def requirement : Provider → String
  | nullable => "nullable"
  | enumeration => "an enum"
  | primitive => "a primitive"
  | empty => "the unit type"
  | list => "a list"
  | dictionary => "a dictionary"
  | union => "a union"
  | record => "a record"

theorem mem_standard (provider : Provider) : provider ∈ standard := by
  cases provider <;> decide

theorem ofName?_name (provider : Provider) : ofName? provider.name = some provider := by
  cases provider <;> rfl

end Provider

end WireSchema

/-
# Kinds of nodes

A node of a schema graph describes a type from one side: how it is written, or
how it is read.  Scalars, the empty type and enumerations look the same from
both sides; every other kind has a direction.
-/

import WireSchema.Provider

namespace WireSchema

/-- The side of an exchange that a node describes. -/
inductive Direction where
  | write
  | read
  deriving DecidableEq, Repr

/-- The word for a direction in kind names and messages. -/
def Direction.name : Direction → String
  | .write => "Write"
  | .read => "Read"

/-- The kind of a node. -/
inductive Kind where
  | primitive
  | empty
  | enumeration
  | nullable (direction : Direction)
  | list (direction : Direction)
  | dictionary (direction : Direction)
  | record (direction : Direction)
  | union (direction : Direction)
  deriving DecidableEq, Repr

namespace Kind

/-- Every kind of node. -/
def all : List Kind :=
  [primitive, empty, enumeration, nullable .write, nullable .read, list .write, list .read,
    dictionary .write, dictionary .read, record .write, record .read, union .write, union .read]

/-- The name of a kind, which is also the name of its elements in documents. -/
def name : Kind → String
  | primitive => "Primitive"
  | empty => "Empty"
  | enumeration => "Enum"
  | nullable direction => "Nullable" ++ direction.name
  | list direction => "List" ++ direction.name
  | dictionary direction => "Dictionary" ++ direction.name
  | record direction => "Complex" ++ direction.name
  | union direction => "Union" ++ direction.name

/-- The kind with the given name, matched exactly. -/
def ofName? (text : String) : Option Kind :=
  all.find? fun kind => kind.name = text

/-- Nodes of the kind get an element of their own in documents, and are referred
to by id.  All others are written out wherever they are used. -/
def isByReference : Kind → Bool
  | enumeration | record _ | union _ => true
  | _ => false

/-- The direction of a kind that has one. -/
def direction? : Kind → Option Direction
  | primitive | empty | enumeration => none
  | nullable d | list d | dictionary d | record d | union d => some d

/-- Nodes of the kind can describe the given side. -/
def serves (kind : Kind) (direction : Direction) : Bool :=
  kind.direction?.all (· = direction)

/-- The provider whose types have nodes of the kind. -/
def provider : Kind → Provider
  | primitive => .primitive
  | empty => .empty
  | enumeration => .enumeration
  | nullable _ => .nullable
  | list _ => .list
  | dictionary _ => .dictionary
  | record _ => .record
  | union _ => .union

theorem mem_all (kind : Kind) : kind ∈ all := by
  cases kind <;> (try rename_i direction; cases direction) <;> decide

theorem ofName?_name (kind : Kind) : ofName? kind.name = some kind := by
  cases kind <;> (try rename_i direction; cases direction) <;> decide

end Kind

end WireSchema

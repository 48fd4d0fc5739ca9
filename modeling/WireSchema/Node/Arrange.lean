/-
# Arranging the names of a node

Names come in the order in which someone wrote them; a finished node keeps them
in the order of their lower-case forms and never has one name twice.  `arrange`
takes a node from the first state to the second or says which name is repeated.
-/

import WireSchema.Error

namespace WireSchema

namespace Node

variable {κ : Type}

/-- The node with its names in order.  It is an error if two names are the same;
of a record, the message names the second in the order of names, of an
enumeration or union the first that repeats an earlier one. -/
def arrange (node : Node Name κ) : Except Flaw (Node Name κ) :=
  match node with
  | enumeration members =>
    match Name.firstRepeat? [] members with
    | some name => .error (.repeatedName .enumMember name)
    | none => .ok (enumeration (Name.sortBy id members))
  | recordWrite fields =>
    let sorted := Name.sortBy Member.name fields
    match Name.firstTwin? (sorted.map Member.name) with
    | some name => .error (.repeatedName .field name)
    | none => .ok (recordWrite sorted)
  | recordRead fields =>
    let sorted := Name.sortBy Input.name fields
    match Name.firstTwin? (sorted.map Input.name) with
    | some name => .error (.repeatedName .field name)
    | none => .ok (recordRead sorted)
  | union direction members =>
    match Name.firstRepeat? [] (members.map Member.name) with
    | some name => .error (.repeatedName .unionMember name)
    | none => .ok (union direction (Name.sortBy Member.name members))
  | node => .ok node

/-- The arranged node of a type, or the error that names the type. -/
def arrangeFor (type : TypeDef) (node : Node Name κ) : Except Error (Node Name κ) :=
  match node.arrange with
  | .ok node => .ok node
  | .error flaw => .error (.invalidType (.inside type flaw))

end Node

end WireSchema

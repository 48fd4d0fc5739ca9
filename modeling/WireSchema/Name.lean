/-
# Member names

The names of enumeration members, record fields and union members.  Two names
are the same when they agree in lower case; the spelling is kept, because it is
what documents and messages show.  Collections of names are ordered by the
lower-case form, character by character.
-/

import WireSchema.Text.LowerCase

namespace WireSchema

/-- A name with the spelling that it was given. -/
structure Name where
  spelling : String

namespace Name

/-- What identifies the name: its spelling in lower case. -/
def folded (name : Name) : String :=
  Text.lowercase name.spelling

/-- The two spellings are of one name. -/
def same (a b : Name) : Bool :=
  a.folded = b.folded

/-- Order of names by their lower-case form. -/
def compare (a b : Name) : Ordering :=
  compareOfLessAndEq a.folded b.folded

/-- The items in the order of their names; items of one name stay in the order
in which they came. -/
def sortBy {α : Type} (nameOf : α → Name) (items : List α) : List α :=
  items.mergeSort fun a b => (nameOf a).folded ≤ (nameOf b).folded

/-- Two neighbours of one name; the second of the first such pair. -/
def firstTwin? : List Name → Option Name
  | a :: b :: rest => if a.same b then some b else firstTwin? (b :: rest)
  | _ => none

/-- The first name that has occurred before, or is among `seen`. -/
def firstRepeat? (seen : List String) : List Name → Option Name
  | [] => none
  | name :: rest =>
    if name.folded ∈ seen then some name else firstRepeat? (name.folded :: seen) rest

/-- Of neighbours of one name, the last alone. -/
def keepLast : List Name → List Name
  | a :: b :: rest => if a.same b then keepLast (b :: rest) else a :: keepLast (b :: rest)
  | names => names

/-- The set of the given names, in order.  Of several spellings of one name the
last stays. -/
def setOf (names : List Name) : List Name :=
  keepLast (sortBy id names)

end Name

end WireSchema

/-
# Setting values

What configuration files and environment variables hold before it is known which
settings there are: a tree of tables and arrays.  Trees are laid over each other
key by key, with keys in lower case; the upper tree wins wherever both have
something.  A key can be a path that leads through tables and into arrays.  Of a
number only one thing is ever asked, whether it is zero.
-/

import WireSchema.Settings.Number
import WireSchema.Text.LowerCase
import WireSchema.Text.Numeral
import WireSchema.Text.Whitespace

namespace WireSchema

/-- A value in a configuration source.  What is missing is a place in an array that
nothing has been put into. -/
inductive SettingValue where
  | bool (value : Bool)
  | number (isZero : Bool)
  | text (value : String)
  | array (items : List SettingValue)
  | table (entries : List (String × SettingValue))
  | missing

namespace SettingValue

/-- The table without entries. -/
def emptyTable : SettingValue :=
  table []

/-- The entries of a table; a value of another form has none. -/
def entries : SettingValue → List (String × SettingValue)
  | table entries => entries
  | _ => []

/-- The value of a key in a list of entries. -/
def lookup? (entries : List (String × SettingValue)) (key : String) : Option SettingValue :=
  (entries.find? fun entry => entry.1 = key).map Prod.snd

/-- The value of a key in a table. -/
def get? (value : SettingValue) (key : String) : Option SettingValue :=
  lookup? value.entries key

/-- The entries with a key set, in the place that it has. -/
def put (key : String) (value : SettingValue) :
    List (String × SettingValue) → List (String × SettingValue)
  | [] => [(key, value)]
  | (k, v) :: rest => if k = key then (key, value) :: rest else (k, v) :: put key value rest

/-- The table with a key set; a value of another form gives way to a table. -/
def set (value : SettingValue) (key : String) (new : SettingValue) : SettingValue :=
  table (put key new value.entries)

mutual

/-- What a key has after a value has been laid over what it had.  Tables are laid
over each other key by key; anything else replaces what was there. -/
def laidOver (new : SettingValue) (old? : Option SettingValue) : SettingValue :=
  match new with
  | table entries => entriesOver entries (old?.getD emptyTable)
  | other => other

/-- The table after entries have been laid over it, one after the other.  Their
keys lose their case. -/
def entriesOver (new : List (String × SettingValue)) (old : SettingValue) : SettingValue :=
  match new with
  | [] => old
  | (key, value) :: rest =>
    let key := Text.lowercase key
    entriesOver rest (old.set key (laidOver value (old.get? key)))

end

/-- The items of an array; a value of another form has none. -/
def items : SettingValue → List SettingValue
  | array items => items
  | _ => []

/-- The items with places added until there is one with the given index, and that
index.  A negative index counts from the end, and places are added in front if
there are too few. -/
def withPlace (items : List SettingValue) (index : Int) : List SettingValue × Nat :=
  if 0 ≤ index then
    let place := index.toNat
    (items ++ List.replicate (place + 1 - items.length) missing, place)
  else
    let back := (-index).toNat
    (List.replicate (back - items.length) missing ++ items, items.length - back)

/-- A step from a value to one that it holds. -/
inductive Step where
  | key (name : String)
  | index (number : Int)

/-- The value after another has been laid over the place that a path leads to.
Whatever is not a table or an array where the path needs one gives way to it; an
item of an array is replaced as a whole. -/
def overAt (new : SettingValue) : List Step → SettingValue → SettingValue
  | [], _ => new
  | [.key name], old =>
    let name := Text.lowercase name
    old.set name (laidOver new (old.get? name))
  | .key name :: path, old =>
    let name := Text.lowercase name
    old.set name (overAt new path ((old.get? name).getD missing))
  | .index n :: path, old =>
    let (items, place) := withPlace old.items n
    array (items.modify place (overAt new path))

/-- A character of a name in a path. -/
def isPathChar (c : Char) : Bool :=
  c.isAlphanum || c = '_' || c = '-' || c = ' '

/-- The integer that an index is, with blanks around it. -/
def indexOf? (cs : List Char) : Option Int := do
  let cs := (cs.dropWhile Text.isInlineBlank).reverse.dropWhile Text.isInlineBlank
  let (negative, digits) :=
    match cs.reverse with
    | '-' :: digits => (true, digits)
    | digits => (false, digits)
  let n ← Text.natural? 10 digits
  if Settings.fitsInteger negative n then return if negative then -(n : Int) else n
  else none

/-- The steps that the rest of a key spells: names after points and indices in
square brackets.  Each takes a character off the text, so its length is enough
fuel. -/
def stepsOf : Nat → List Char → Option (List Step)
  | 0, _ => none
  | fuel + 1, cs =>
    match cs with
    | [] => some []
    | '.' :: rest =>
      match rest.takeWhile isPathChar with
      | [] => none
      | name => do
        let steps ← stepsOf fuel (rest.dropWhile isPathChar)
        return .key (String.ofList name) :: steps
    | '[' :: rest =>
      match rest.dropWhile (· ≠ ']') with
      | ']' :: after => do
        let number ← indexOf? (rest.takeWhile (· ≠ ']'))
        let steps ← stepsOf fuel after
        return .index number :: steps
      | _ => none
    | _ => none

/-- The path that a key stands for: a name and the steps after it.  A key of any
other form is a name as a whole. -/
def pathOf (key : String) : List Step :=
  let cs := key.toList
  match stepsOf (cs.length + 2) ('.' :: cs) with
  | some steps => steps
  | none => [.key key]

/-- The table after all entries of a source have been laid over it.  The keys of a
source are paths. -/
def overlay (old : SettingValue) (source : List (String × SettingValue)) : SettingValue :=
  source.foldl (fun value (key, new) => overAt new (pathOf key) value) old

end SettingValue

end WireSchema

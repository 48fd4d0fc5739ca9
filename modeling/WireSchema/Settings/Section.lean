/-
# Sections of a configuration file

A file is a list of sections.  A section has a header, which is missing for the
first, and assigns values to keys.  Headers and keys are paths, and the tables on
a path are made where they are missing.  A table can be reached in three ways that
are kept apart: by its own header, as a part of a longer header, and as a part of
a dotted key.  The first may happen once only, and may come after the second but
not after the third.  A key never gets a second value.
-/

import WireSchema.Settings.Value

namespace WireSchema.Settings

/-- How a table has come to be. -/
inductive Origin where
  /-- By its own header. -/
  | header
  /-- On the way to the table of another header. -/
  | passage
  /-- On the way to the last part of a dotted key. -/
  | dotted
  deriving DecidableEq

/-- What a key stands for while a file is put together: a value, a table that can
grow, or an array of tables whose last one can grow. -/
inductive Entry where
  | value (value : SettingValue)
  | table (origin : Origin) (entries : List (String × Entry))
  | tables (items : List (List (String × Entry)))

namespace Entry

mutual

/-- The value of a finished entry. -/
def finish : Entry → SettingValue
  | .value v => v
  | .table _ entries => .table (finishAll entries)
  | .tables items => .array (finishTables items)

/-- The values of finished entries. -/
def finishAll : List (String × Entry) → List (String × SettingValue)
  | [] => []
  | (key, entry) :: entries => (key, entry.finish) :: finishAll entries

/-- The values of finished tables. -/
def finishTables : List (List (String × Entry)) → List SettingValue
  | [] => []
  | entries :: items => .table (finishAll entries) :: finishTables items

end

end Entry

/-- The entries of a table that is being put together. -/
abbrev Entries := List (String × Entry)

namespace Entries

/-- The entry of a key. -/
def get? (entries : Entries) (key : String) : Option Entry :=
  (entries.find? fun entry => entry.1 = key).map Prod.snd

/-- The entries with a key set, in the place that it has. -/
def put (entries : Entries) (key : String) (entry : Entry) : Entries :=
  match entries with
  | [] => [(key, entry)]
  | (k, e) :: rest => if k = key then (key, entry) :: rest else (k, e) :: put rest key entry

/-- The tables after a change to the last of them. -/
def changeLast (change : Entries → Option Entries) : List Entries → Option (List Entries)
  | [] => none
  | [last] => do
    let last ← change last
    return [last]
  | first :: rest => do
    let rest ← changeLast change rest
    return first :: rest

/-- The entries after a key has been assigned a value.  The last part of the key is
assigned in a table that the key itself or one before it has made. -/
def assign (new : SettingValue) : List String → Entries → Option Entries
  | [], _ => none
  | [key], entries =>
    if (entries.get? key).isSome then none else some (entries.put key (.value new))
  | key :: path, entries =>
    match entries.get? key with
    | none => do
      let inner ← assign new path []
      return entries.put key (.table .dotted inner)
    | some (.table .dotted inner) => do
      let inner ← assign new path inner
      return entries.put key (.table .dotted inner)
    | some (.table .passage inner) =>
      if path.length = 1 then none
      else do
        let inner ← assign new path inner
        return entries.put key (.table .passage inner)
    | some (.tables tables) =>
      if path.length = 1 then none
      else do
        let tables ← changeLast (assign new path) tables
        return entries.put key (.tables tables)
    | some (.table .header _) | some (.value _) => none

/-- The entries after a change at the end of the path of a header.  The change is
told what is there. -/
def changeAt (change : Option Entry → Option Entry) : List String → Entries → Option Entries
  | [], _ => none
  | [key], entries => do
    let entry ← change (entries.get? key)
    return entries.put key entry
  | key :: path, entries =>
    match entries.get? key with
    | none => do
      let inner ← changeAt change path []
      return entries.put key (.table .passage inner)
    | some (.table origin inner) => do
      let inner ← changeAt change path inner
      return entries.put key (.table origin inner)
    | some (.tables tables) => do
      let tables ← changeLast (changeAt change path) tables
      return entries.put key (.tables tables)
    | some (.value _) => none

end Entries

/-- A key with its value, as a file assigns it. -/
structure Assignment where
  path : List String
  value : SettingValue

/-- The entries after assignments, one after the other. -/
def Entries.assignAll (assignments : List Assignment) (entries : Entries) : Option Entries :=
  assignments.foldlM (fun entries a => entries.assign a.value a.path) entries

/-- The table of values that assignments make by themselves. -/
def tableOf (assignments : List Assignment) : Option SettingValue := do
  let entries ← Entries.assignAll assignments []
  return .table (Entry.finishAll entries)

/-- What the assignments of a section belong to. -/
inductive Header where
  /-- The table of the whole file. -/
  | none
  /-- The table at a path. -/
  | table (path : List String)
  /-- A further table of the array at a path. -/
  | item (path : List String)

/-- A header with the assignments after it. -/
structure Section where
  header : Header
  assignments : List Assignment

namespace Section

/-- The table that a header opens, with the assignments made in it. -/
def openTable (assignments : List Assignment) : Option Entry → Option Entry
  | none => do
    let entries ← Entries.assignAll assignments []
    return .table .header entries
  | some (.table .passage entries) => do
    let entries ← Entries.assignAll assignments entries
    return .table .header entries
  | some _ => none

/-- The array that a header adds a table to, with the assignments made in that. -/
def openItem (assignments : List Assignment) : Option Entry → Option Entry
  | none => do
    let entries ← Entries.assignAll assignments []
    return .tables [entries]
  | some (.tables tables) => do
    let entries ← Entries.assignAll assignments []
    return .tables (tables ++ [entries])
  | some _ => none

/-- The entries of a file after one of its sections. -/
def addTo (entries : Entries) (part : Section) : Option Entries :=
  match part.header with
  | .none => entries.assignAll part.assignments
  | .table path => entries.changeAt (openTable part.assignments) path
  | .item path => entries.changeAt (openItem part.assignments) path

end Section

/-- The tree of tables that the sections of a file make. -/
def treeOf (sections : List Section) : Option SettingValue := do
  let entries ← sections.foldlM Section.addTo []
  return .table (Entry.finishAll entries)

end WireSchema.Settings

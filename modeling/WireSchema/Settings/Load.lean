/-
# Loading settings

Settings come from several files and from the environment.  Each source is laid
over those below it, key by key, and what is then missing has its default.  A
file that cannot be read spoils the whole, as does a value that does not fit its
setting; keys that are not settings are passed over.  Keys and names of choices
are taken in any case.
-/

import WireSchema.Settings.Basic
import WireSchema.Settings.Environment
import WireSchema.Settings.Reader

namespace WireSchema.Settings

/-- A file that is asked for by name. -/
inductive NamedFile where
  | notAskedFor
  | missing
  | text (text : String)

/-- Where settings come from. -/
structure Sources where
  /-- The files in the usual places that are there, the lowest first. -/
  usual : List String
  /-- The file above them. -/
  named : NamedFile
  /-- The variables above all files. -/
  environment : List (String × String)

/-- The truth value that a value stands for. -/
def truth? : SettingValue → Option Bool
  | .bool value => some value
  | .number isZero => some (!isZero)
  | .text value =>
    let word := Text.lowercase value
    if word = "1" ∨ word = "true" ∨ word = "on" ∨ word = "yes" then some true
    else if word = "0" ∨ word = "false" ∨ word = "off" ∨ word = "no" then some false
    else none
  | .array _ | .table _ | .missing => none

/-- One of several named things, in any case.  A table with one key names what its
key names. -/
def choice? {α : Type} (all : List α) (nameOf : α → String) (value : SettingValue) : Option α :=
  let pick (name : String) : Option α :=
    all.find? fun x => Text.lowercase (nameOf x) = Text.lowercase name
  match value with
  | .text name => pick name
  | .table [(name, _)] => pick name
  | _ => none

/-- The list of providers that an array names. -/
def providers? : SettingValue → Option (List Provider)
  | .array items => items.mapM (choice? Provider.standard Provider.name)
  | _ => none

/-- The value of a key that may be missing. -/
def read? {α : Type} (default : α) (read : SettingValue → Option α) (table : SettingValue)
    (key : String) : Option α :=
  match table.get? key with
  | none => some default
  | some value => read value

/-- A section, which is a table, or an array with the values of its keys in their
order; it is empty if it is missing. -/
def table? (root : SettingValue) (key : String) (keys : List String) : Option SettingValue :=
  match root.get? key with
  | none => some .emptyTable
  | some (.table entries) => some (.table entries)
  | some (.array items) => some (.table (keys.zip items))
  | some _ => none

/-- The settings that a tree holds. -/
def ofValue? (root : SettingValue) : Option Settings := do
  let compatibility ← table? root "compatibility" ["strict"]
  let strict ← read? false truth? compatibility "strict"
  let chain ← table? root "providers" ["order"]
  let providers ← read? Provider.standard providers? chain "order"
  let descriptor ← table? root "descriptor" ["output_format", "include_root"]
  let format ←
    read? .pretty (choice? [.pretty, .compact] Element.Format.name) descriptor "output_format"
  let includeRoot ← read? true truth? descriptor "include_root"
  return ⟨strict, providers, format, includeRoot⟩

/-- The tree of files laid over each other, the lowest first. -/
def overlayFiles (root : SettingValue) : List String → Option SettingValue
  | [] => some root
  | text :: texts => do
    let tree ← parse text
    overlayFiles (root.overlay tree.entries) texts

/-- The files of the sources, the lowest first; none if one of them is missing. -/
def Sources.files? (sources : Sources) : Option (List String) :=
  match sources.named with
  | .notAskedFor => some sources.usual
  | .missing => none
  | .text text => some (sources.usual ++ [text])

/-- The settings that the sources make together. -/
def load (sources : Sources) : Except Error Settings :=
  let settings? := do
    let files ← sources.files?
    let root ← overlayFiles .emptyTable files
    ofValue? (root.overlay (ofEnvironment sources.environment))
  match settings? with
  | some settings => .ok settings
  | none => .error .config

end WireSchema.Settings

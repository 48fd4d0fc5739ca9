/-
# Settings

What can be configured: how strictly schemas are compared, which providers a
catalog has, and how documents are written.  Settings are written to a file with
every key, and read from JSON with a default for every key that is missing.
-/

import WireSchema.Element
import WireSchema.Provider

namespace WireSchema

/-- How documents are written. -/
structure DocumentSettings where
  format : Element.Format
  /-- The document names its root. -/
  includeRoot : Bool
  deriving DecidableEq

/-- Pretty documents that name their root. -/
def DocumentSettings.standard : DocumentSettings :=
  ⟨.pretty, true⟩

/-- The settings of the library. -/
structure Settings where
  strict : Bool
  providers : List Provider
  document : DocumentSettings
  deriving DecidableEq

/-- Lenient comparison, all providers, and documents in the standard form. -/
def Settings.standard : Settings :=
  ⟨false, Provider.standard, .standard⟩

namespace Element.Format

/-- The name of a layout. -/
def name : Format → String
  | pretty => "pretty"
  | compact => "compact"

/-- The layout with the given name, matched exactly. -/
def ofName? (text : String) : Option Format :=
  if text = "pretty" then some pretty
  else if text = "compact" then some compact
  else none

/-- The layout that a JSON value names. -/
def ofJson? (json : Json) : Option Format :=
  json.text?.bind ofName?

theorem ofName?_name (format : Format) : ofName? format.name = some format := by
  cases format <;> rfl

end Element.Format

/-- The members of a JSON object. -/
def Json.members? : Json → Option (List (String × Json))
  | .object members => some members
  | _ => none

/-- The providers that a JSON array names. -/
def Provider.listOfJson? (json : Json) : Option (List Provider) :=
  json.texts?.bind fun names => names.mapM ofName?

namespace DocumentSettings

/-- The document settings of a JSON object. -/
def ofJson? (json : Json) : Option DocumentSettings := do
  let members ← json.members?
  let format ← (Occurrence.of "output_format" members).withDefault .pretty Element.Format.ofJson?
  let includeRoot ← (Occurrence.of "include_root" members).withDefault true Json.bool?
  return ⟨format, includeRoot⟩

end DocumentSettings

namespace Settings

/-- The strictness in the JSON object of its section. -/
def strictOfJson? (json : Json) : Option Bool := do
  let members ← json.members?
  (Occurrence.of "strict" members).withDefault false Json.bool?

/-- The providers in the JSON object of their section. -/
def providersOfJson? (json : Json) : Option (List Provider) := do
  let members ← json.members?
  (Occurrence.of "order" members).withDefault Provider.standard Provider.listOfJson?

/-- The settings of a JSON object. -/
def ofJson? (json : Json) : Option Settings := do
  let members ← json.members?
  let strict ← (Occurrence.of "compatibility" members).withDefault false strictOfJson?
  let providers ←
    (Occurrence.of "providers" members).withDefault Provider.standard providersOfJson?
  let document ←
    (Occurrence.of "descriptor" members).withDefault .standard DocumentSettings.ofJson?
  return ⟨strict, providers, document⟩

/-- The JSON object of settings, with every key. -/
def toJson (settings : Settings) : Json :=
  .object [
    ("compatibility", .object [("strict", .bool settings.strict)]),
    ("providers", .object [("order", .ofTexts (settings.providers.map Provider.name))]),
    ("descriptor", .object [
      ("output_format", .string settings.document.format.name),
      ("include_root", .bool settings.document.includeRoot)])]

/-- A truth value as it is written to a file. -/
def boolText (value : Bool) : String :=
  if value then "true" else "false"

/-- A name in double quotes. -/
def quotedText (name : String) : String :=
  "\"" ++ name ++ "\""

/-- A list of providers as it is written to a file: two or more of them on a line
each. -/
def providersText : List Provider → String
  | [] => "[]"
  | [provider] => "[" ++ quotedText provider.name ++ "]"
  | providers =>
    "[\n" ++ String.join (providers.map fun p => "    " ++ quotedText p.name ++ ",\n") ++ "]"

/-- The text of settings in a file, with every key. -/
def render (settings : Settings) : String :=
  "[compatibility]\nstrict = " ++ boolText settings.strict ++
  "\n\n[providers]\norder = " ++ providersText settings.providers ++
  "\n\n[descriptor]\noutput_format = " ++ quotedText settings.document.format.name ++
  "\ninclude_root = " ++ boolText settings.document.includeRoot ++ "\n"

end Settings

end WireSchema

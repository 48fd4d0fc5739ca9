/-
# Settings in the environment

A variable whose name starts with `CONTRACTS__`, in any case, sets the key that
the rest of its name spells, with two underscores between the levels.  Its value
is a truth value or a number if it reads as one; otherwise it is a text, or for
the providers a list of texts between commas.
-/

import WireSchema.Settings.Number
import WireSchema.Settings.Value
import WireSchema.Text.LowerCase
import WireSchema.Text.Numeral
import WireSchema.Text.Split

namespace WireSchema.Settings

/-- What the names of the variables start with, in lower case. -/
def variableStart : List Char := "contracts__".toList

/-- The key whose value is a list. -/
def listKey : String := "providers.order"

/-- The characters of a key, with a point for every two underscores. -/
def joinLevels : List Char → List Char
  | '_' :: '_' :: rest => '.' :: joinLevels rest
  | c :: rest => c :: joinLevels rest
  | [] => []

/-- The key that a variable sets, if its name is that of a setting. -/
def keyOfVariable? (name : String) : Option String :=
  let cs := (Text.lowercase name).toList
  if variableStart.isPrefixOf cs then
    some (String.ofList (joinLevels (cs.drop variableStart.length)))
  else none

/-- The integer that a text is, if it fits into sixty-four bits. -/
def integerOf? (text : String) : Option SettingValue :=
  let (negative, digits) := Text.splitSign text.toList
  (Text.natural? 10 digits).bind fun n =>
    if fitsInteger negative n then some (.number (n = 0)) else none

/-- The decimal that a text is; infinity and the like are numbers too. -/
def decimalOf? (text : String) : Option SettingValue :=
  let (_, cs) := Text.splitSign text.toList
  let word := String.ofList (cs.map Char.toLower)
  if word = "inf" ∨ word = "infinity" ∨ word = "nan" then some (.number false)
  else
    let (whole, fraction?, exponent?) := Text.decimalParts cs
    (decimal? whole (fraction?.getD []) exponent?).map fun d => .number d.isZero

/-- The value of a variable that sets the given key. -/
def valueOfVariable (key text : String) : SettingValue :=
  let lower := Text.lowercase text
  if lower = "true" then .bool true
  else if lower = "false" then .bool false
  else
    match (integerOf? text).orElse fun _ => decimalOf? text with
    | some number => number
    | none =>
      if key = listKey then
        .array ((Text.splitAt ',' text.toList).map fun part => .text (String.ofList part))
      else .text text

/-- The settings among the variables of an environment. -/
def ofEnvironment (environment : List (String × String)) : List (String × SettingValue) :=
  environment.filterMap fun (name, text) =>
    (keyOfVariable? name).map fun key => (key, valueOfVariable key text)

end WireSchema.Settings

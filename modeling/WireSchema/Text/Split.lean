/-
# Splitting a text

A text is split at every occurrence of a separator; n separators give n + 1
parts, some of which may be empty.
-/

namespace WireSchema.Text

/-- The parts between the occurrences of a character. -/
def splitAt (separator : Char) : List Char → List (List Char)
  | [] => [[]]
  | c :: cs =>
    if c = separator then [] :: splitAt separator cs
    else
      match splitAt separator cs with
      | [] => [[c]]
      | part :: parts => (c :: part) :: parts

end WireSchema.Text

/-
# White space

The characters with the Unicode property `White_Space`.  Markup is split into
words at these characters and at no others.  Configuration files and keys know
two blanks only.
-/

namespace WireSchema.Text

/-- The character separates words of markup. -/
def isWhitespace (c : Char) : Bool :=
  let n := c.toNat
  (0x9 ≤ n && n ≤ 0xD) || n == 0x20 || n == 0x85 || n == 0xA0 || n == 0x1680 ||
    (0x2000 ≤ n && n ≤ 0x200A) || n == 0x2028 || n == 0x2029 || n == 0x202F ||
    n == 0x205F || n == 0x3000

/-- The character is a blank within a line: a space or a tab. -/
def isInlineBlank (c : Char) : Bool :=
  c = ' ' || c = '\t'

end WireSchema.Text

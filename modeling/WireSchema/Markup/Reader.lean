/-
# Reading markup

The text is split into braces and words; a word is a longest run of characters
that are neither braces nor white space.  The words are then read by the
grammar: a scalar or a reference by itself, and in braces one of the forms
`empty`, `nullable`, `list` and `dictionary` with as many parts as it takes.
White space has no meaning beyond separating words.
-/

import WireSchema.Markup.Basic
import WireSchema.Text.Whitespace

namespace WireSchema.Markup

/-- A brace or a word. -/
inductive Token where
  | opening
  | closing
  | word (text : String)
  deriving DecidableEq

/-- The word whose characters, latest first, are given; no token if it has none. -/
def Token.ofReversed (word : List Char) : List Token :=
  if word.isEmpty then [] else [.word (String.ofList word.reverse)]

/-- The tokens of a text, when the characters of `word`, latest first, stand
before it and belong to an unfinished word. -/
def Token.scan (word : List Char) : List Char → List Token
  | [] => ofReversed word
  | c :: cs =>
    if c = '{' then ofReversed word ++ .opening :: scan [] cs
    else if c = '}' then ofReversed word ++ .closing :: scan [] cs
    else if Text.isWhitespace c then ofReversed word ++ scan [] cs
    else scan (c :: word) cs

/-- The tokens of a text. -/
def tokens (text : String) : List Token :=
  Token.scan [] text.toList

/-- What is wrong with a text that is not markup. -/
inductive Fault where
  | unknownForm (word : String)
  | missingForm
  | unclosed
  | unexpectedClosing
  | endOfInput
  | emptyReference
  | unknownPrimitive (word : String)
  | trailingInput
  deriving DecidableEq

/-- The fault as it is put in messages. -/
def Fault.message : Fault → String
  | unknownForm word => "unknown form '" ++ word ++ "'"
  | missingForm => "expected a form name after '\x7b'"
  | unclosed => "expected '\x7d'"
  | unexpectedClosing => "unexpected '\x7d'"
  | endOfInput => "unexpected end of input"
  | emptyReference => "empty reference"
  | unknownPrimitive word => "unknown primitive '" ++ word ++ "'"
  | trailingInput => "trailing input"

/-- What a word stands for by itself: a reference after a hash sign, or else a
scalar. -/
def ofWord (word : String) : Except Fault (Markup String) :=
  match word.toList with
  | '#' :: id =>
    if id.isEmpty then .error .emptyReference else .ok (.ref (String.ofList id))
  | _ =>
    match Primitive.ofName? word with
    | some type => .ok (.primitive type)
    | none => .error (.unknownPrimitive word)

/-- The markup, if a closing brace comes next. -/
def closed (markup : Markup String) :
    List Token → Except Fault (Markup String × List Token)
  | .closing :: rest => .ok (markup, rest)
  | _ => .error .unclosed

/-- The markup at the start of the tokens, with the tokens after it.  Every
nested markup starts at least two tokens later, so the number of tokens is
enough fuel. -/
def ofTokens : Nat → List Token → Except Fault (Markup String × List Token)
  | 0, _ => .error .endOfInput
  | fuel + 1, tokens =>
    match tokens with
    | [] => .error .endOfInput
    | .closing :: _ => .error .unexpectedClosing
    | .word word :: rest => do
      let markup ← ofWord word
      return (markup, rest)
    | .opening :: .word form :: rest =>
      if form = "empty" then closed .empty rest
      else if form = "nullable" then do
        let (inner, rest) ← ofTokens fuel rest
        closed (.nullable inner) rest
      else if form = "list" then do
        let (item, rest) ← ofTokens fuel rest
        closed (.list item) rest
      else if form = "dictionary" then do
        let (key, rest) ← ofTokens fuel rest
        let (value, rest) ← ofTokens fuel rest
        closed (.dictionary key value) rest
      else .error (.unknownForm form)
    | .opening :: _ => .error .missingForm

/-- The markup that a text stands for. -/
def parse (text : String) : Except Fault (Markup String) := do
  let tokens := tokens text
  let (markup, rest) ← ofTokens (tokens.length + 1) tokens
  match rest with
  | [] => return markup
  | _ :: _ => throw .trailingInput

end WireSchema.Markup

/-
# Errors

Every way in which an operation on schemas can fail, as data.  `kind` sorts the
errors into the classes that callers tell apart, and `message` puts them into
words.  That a reader cannot read what a writer writes is an answer and not an
error, unless a caller asks for it to be one.
-/

import WireSchema.Markup.Reader
import WireSchema.Node.Basic
import WireSchema.TypeDef.Basic

namespace WireSchema

/-- What a repeated name belongs to. -/
inductive Repetition where
  | field
  | unionMember
  | enumMember
  deriving DecidableEq

/-- The words for what a repeated name belongs to. -/
def Repetition.noun : Repetition → String
  | field => "field"
  | unionMember => "union member"
  | enumMember => "enum member"

/-- What is wrong with a type, a node or the use of one. -/
inductive Flaw where
  /-- The type has no name of its own. -/
  | nameless (type : TypeDef)
  /-- Another type is registered under the name. -/
  | nameTaken (name : String)
  /-- The type is not of the kind that is being built. -/
  | mismatched (type : TypeDef) (provider : Provider)
  | memberless (type : TypeDef)
  | nestedNullable (type : TypeDef)
  /-- Two names are the same but for case; the second is given. -/
  | repeatedName (what : Repetition) (name : Name)
  /-- The flaw was found in a named type. -/
  | inside (type : TypeDef) (flaw : Flaw)
  /-- The node does not describe the side that it is asked for. -/
  | wrongSide (kind : Kind) (direction : Direction)

/-- The flaw as it is put in messages. -/
def Flaw.message : Flaw → String
  | nameless type => type.display ++ " cannot be registered by name"
  | nameTaken name => "a different definition named '" ++ name ++ "' is already registered"
  | mismatched type provider => type.display ++ " must be " ++ provider.requirement
  | memberless type => type.display ++ " has no members"
  | nestedNullable type => type.display ++ " nests nullables"
  | repeatedName what name => "duplicate " ++ what.noun ++ " '" ++ name.spelling ++ "'"
  | inside type flaw => type.display ++ ": " ++ flaw.message
  | wrongSide kind .write => kind.name ++ " is not a write contract"
  | wrongSide kind .read => kind.name ++ " is not a read contract"

/-- What is wrong with a document or one of its elements. -/
inductive Defect where
  | missingAttribute (element key : String)
  /-- The document element has another name than expected. -/
  | notADocument (expected found : String)
  | notAnEnumeration (found : String)
  | repeatedId (id : String)
  /-- Another node carries the id. -/
  | idInUse (id : String)
  | rootless
  | unknownReference (id : String)
  /-- The element describes the other side than the document. -/
  | misplaced (element : String) (direction : Direction)
  | unknownElement (name : String)
  | nestedNullable (markup : Markup String)
  | badRequired (value : String)
  /-- The names in an element cannot stand together. -/
  | flawed (flaw : Flaw)

/-- The defect as it is put in messages. -/
def Defect.message : Defect → String
  | missingAttribute element key => element ++ " element is missing the " ++ key ++ " attribute"
  | notADocument expected found => "expected " ++ expected ++ " document, found " ++ found
  | notAnEnumeration found => "expected Enum element, found " ++ found
  | repeatedId id => "duplicate id '" ++ id ++ "'"
  | idInUse id => "id '" ++ id ++ "' is already in use"
  | rootless => "document has no Root and no elements"
  | unknownReference id => "unknown reference '#" ++ id ++ "'"
  | misplaced element direction => element ++ " element in a " ++ direction.name ++ " descriptor"
  | unknownElement name => "unknown element " ++ name
  | nestedNullable markup => "nested nullable " ++ markup.display
  | badRequired value => "Required must be true or false, found '" ++ value ++ "'"
  | flawed flaw => "Invalid type definition: " ++ flaw.message

/-- A failed operation. -/
inductive Error where
  /-- No provider accepts the type. -/
  | unsupportedType (type : TypeDef)
  | invalidType (flaw : Flaw)
  /-- Nothing is registered under the name. -/
  | unknownType (name : String)
  /-- There is no finished node under the handle. -/
  | unknownNode (handle : Handle)
  /-- A node that is referred to by id has none. -/
  | missingId (kind : Kind)
  | malformedDocument (defect : Defect)
  | invalidMarkup (text : String) (fault : Markup.Fault)
  | incompatible (read write reason : String)
  /-- A text is not JSON, or not the JSON of what it should stand for. -/
  | json
  /-- A configuration cannot be put together from its sources. -/
  | config
  /-- A file cannot be written. -/
  | io

namespace Error

/-- The class of an error. -/
def kind : Error → String
  | unsupportedType _ => "UnsupportedType"
  | invalidType _ => "InvalidType"
  | unknownType _ => "UnknownType"
  | unknownNode _ => "UnknownContract"
  | missingId _ => "MissingId"
  | malformedDocument _ => "MalformedDescriptor"
  | invalidMarkup .. => "InvalidMarkup"
  | incompatible .. => "Incompatible"
  | json => "Json"
  | config => "Config"
  | io => "Io"

/-- The error in words.  What goes wrong in the text of a file or in a file
system is not described further. -/
def message? : Error → Option String
  | unsupportedType type =>
    some ("Unsupported type: no provider can build a contract for " ++ type.display)
  | invalidType flaw => some ("Invalid type definition: " ++ flaw.message)
  | unknownType name => some ("Unknown type: " ++ name ++ " is not registered")
  | unknownNode handle => some ("Unknown contract handle: " ++ toString handle)
  | missingId kind => some ("Contract " ++ kind.name ++ " has no assigned id")
  | malformedDocument defect => some ("Malformed descriptor: " ++ defect.message)
  | invalidMarkup text fault =>
    some ("Invalid contract markup '" ++ text ++ "': " ++ fault.message)
  | incompatible read write reason =>
    some ("Incompatible schemas: cannot read " ++ write ++ " as " ++ read ++ ": " ++ reason)
  | json | config | io => none

end Error

/-- The markup that a text stands for, or the error that names the text. -/
def Markup.read (text : String) : Except Error (Markup String) :=
  match Markup.parse text with
  | .ok markup => .ok markup
  | .error fault => .error (.invalidMarkup text fault)

end WireSchema

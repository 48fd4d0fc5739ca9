/-
# Node-level compatibility

What has to hold for one node to read what another writes.  The rule for a pair
of nodes does not look below them: it lists, in order, the pairs of nodes below
that have to be compatible in turn, or ends the list with the reason why the
pair itself is not.  In strict mode reader and writer have the same shape; in
lenient mode the reader may be more permissive than the writer needs.
-/

import WireSchema.Node.Basic

namespace WireSchema.Compatibility

/-- A step from a pair of nodes to a pair below. -/
inductive Segment where
  | field (name : Name)
  | item
  | key
  | value
  | member (name : Name)

/-- The step as it is put in the path of a mismatch. -/
def Segment.text : Segment → String
  | field name => "." ++ name.spelling
  | item => "[]"
  | key => "<key>"
  | value => "<value>"
  | member name => "<" ++ name.spelling ++ ">"

/-- Why a pair of nodes is not compatible by its own rule. -/
inductive Reason where
  | unreadable (read write : Handle)
  | unknownNode (read write : Handle)
  /-- The writer has members of an enumeration that the reader has not. -/
  | unknownEnumMembers (names : List Name)
  | differentEnumMembers
  /-- In strict mode the reader has to have every field of the writer. -/
  | unknownField (name : Name)
  | missingField (name : Name)
  | emptyWriter
  | notNullable
  /-- In strict mode the writer has to have every member of the reader. -/
  | unwrittenMember (name : Name)
  | unknownMember (name : Name)

/-- What a pair of nodes asks for. -/
inductive Step where
  /-- The pair below has to be compatible. -/
  | compare (segment? : Option Segment) (read write : Handle)
  /-- The pair itself is not compatible. -/
  | reject (reason : Reason)

/-- The members of the writer that the reader does not have. -/
def missingMembers (reader writer : List Name) : List Name :=
  writer.filter fun name => !reader.any name.same

/-- Compatibility of a reader that has nothing below it. -/
def leafReads {κ : Type} (strict : Bool) : Node Name κ → Node Name κ → Bool
  | .primitive read, .primitive write => read = write || (!strict && write.widensTo read)
  | .enumeration read, .enumeration write =>
    if strict then read.map Name.folded = write.map Name.folded
    else (missingMembers read write).isEmpty
  | .empty, .empty => true
  | .empty, .recordWrite _ => !strict
  | _, _ => false

/-- Why an enumeration does not read another. -/
def enumReason (reader writer : List Name) : Reason :=
  let missing := missingMembers reader writer
  if missing.isEmpty then .differentEnumMembers else .unknownEnumMembers missing

/-- The steps for the fields of two records, both in the order of names. -/
def fieldSteps (strict : Bool) : List (Input Name Handle) → List (Member Name Handle) → List Step
  | [], [] => []
  | [], write :: _ => if strict then [.reject (.unknownField write.name)] else []
  | read :: reads, [] =>
    if strict || read.required then [.reject (.missingField read.name)]
    else fieldSteps strict reads []
  | read :: reads, write :: writes =>
    match write.name.compare read.name with
    | .lt =>
      if strict then [.reject (.unknownField write.name)]
      else fieldSteps strict (read :: reads) writes
    | .eq =>
      .compare (some (.field read.name)) read.target write.target :: fieldSteps strict reads writes
    | .gt =>
      if strict || read.required then [.reject (.missingField read.name)]
      else fieldSteps strict reads (write :: writes)

/-- The steps for a record that reads the empty type. -/
def emptySteps (strict : Bool) (fields : List (Input Name Handle)) : List Step :=
  if strict then [.reject .emptyWriter]
  else
    match fields.find? fun field => field.required with
    | some field => [.reject (.missingField field.name)]
    | none => []

/-- The member of a union with the given name. -/
def member? (members : List (Member Name Handle)) (name : Name) : Option (Member Name Handle) :=
  members.find? fun member => member.name.same name

/-- The steps for what each member of the writer asks of the reader. -/
def memberSteps (reader : List (Member Name Handle)) : List (Member Name Handle) → List Step
  | [] => []
  | write :: writes =>
    match member? reader write.name with
    | some read =>
      .compare (some (.member write.name)) read.target write.target :: memberSteps reader writes
    | none => [.reject (.unknownMember write.name)]

/-- The steps for two unions. -/
def unionSteps (strict : Bool) (reader writer : List (Member Name Handle)) : List Step :=
  match reader.find? fun member => strict && (member? writer member.name).isNone with
  | some extra => [.reject (.unwrittenMember extra.name)]
  | none => memberSteps reader writer

/-- The rule for a pair of nodes, of which the handles are given too. -/
def rule (strict : Bool) (read write : Handle) (reader writer : Node Name Handle) : List Step :=
  match reader, writer with
  | .enumeration readMembers, .enumeration writeMembers =>
    if leafReads strict reader writer then []
    else [.reject (enumReason readMembers writeMembers)]
  | .nullable .read inner, .nullable .write inner' => [.compare none inner inner']
  | .nullable .read inner, _ =>
    if strict then [.reject .notNullable] else [.compare none inner write]
  | .list .read item, .list .write item' => [.compare (some .item) item item']
  | .dictionary .read key value, .dictionary .write key' value' =>
    [.compare (some .key) key key', .compare (some .value) value value']
  | .recordRead reads, .recordWrite writes => fieldSteps strict reads writes
  | .recordRead reads, .empty => emptySteps strict reads
  | .union .read members, .union .write members' => unionSteps strict members members'
  | reader, writer =>
    if leafReads strict reader writer then [] else [.reject (.unreadable read write)]

end WireSchema.Compatibility

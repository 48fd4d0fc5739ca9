/-
# Reading documents

A document is read into a store of its own first.  Its elements are found by id
and may refer to each other in any order and in cycles; an element that is met
again while it is being read gets a slot at once.  What has been read is then
copied into the receiving store, which reuses the graphs it has already, and
ids are taken over where neither the node nor the store has a different use for
them.
-/

import WireSchema.Element
import WireSchema.Node.Arrange
import WireSchema.Store.Copy
import WireSchema.Store.Ids
import WireSchema.Document.Export

namespace WireSchema

/-- A document for one side, with its elements under their ids. -/
structure DocumentSource where
  direction : Direction
  elements : List (String × Element)
  /-- The markup text of the root. -/
  root : String

namespace DocumentSource

/-- The elements of a document under their ids.  Every element has an id, and no
two have the same. -/
def identify (found : List (String × Element)) :
    List Element → Except Error (List (String × Element))
  | [] => .ok found
  | element :: elements => do
    let id ← element.requiredAttribute "Id"
    if found.any fun entry => entry.1 = id then throw (.malformedDocument (.repeatedId id))
    else identify (found ++ [(id, element)]) elements

/-- The parts of a document.  Without a root of its own it describes its last
element, because what an element depends on comes before it. -/
def ofDocument (direction : Direction) (document : Element) : Except Error DocumentSource := do
  if document.name ≠ documentName then
    throw (.malformedDocument (.notADocument documentName document.name))
  let elements ← identify [] document.children
  match document.attribute? "Root", elements.getLast? with
  | some root, _ => return ⟨direction, elements, root⟩
  | none, some last => return ⟨direction, elements, "#" ++ last.1⟩
  | none, none => throw (.malformedDocument .rootless)

/-- The ids of the elements, in the order of the document. -/
def ids (source : DocumentSource) : List String :=
  source.elements.map Prod.fst

/-- The element with the given id. -/
def element? (source : DocumentSource) (id : String) : Option Element :=
  (source.elements.find? fun entry => entry.1 = id).map Prod.snd

theorem mem_ids_of_element? {source : DocumentSource} {id : String} {element : Element}
    (h : source.element? id = some element) : id ∈ source.ids := by
  obtain ⟨entry, hfind, -⟩ := Option.map_eq_some_iff.1 h
  have hid : entry.1 = id := by simpa using List.find?_some hfind
  exact hid ▸ List.mem_map_of_mem (List.mem_of_find?_eq_some hfind)

end DocumentSource

/-- A field or member as an element describes it.  Whether the field is required
is judged last, after its markup has been resolved. -/
structure ElementPart where
  name : Name
  markup : Markup String
  required : Except Error Bool

namespace ElementPart

/-- The value of the attribute that says whether a field is required. -/
def requiredOf : Option String → Except Error Bool
  | none => .ok true
  | some value =>
    if value = "true" then .ok true
    else if value = "false" then .ok false
    else .error (.malformedDocument (.badRequired value))

/-- The part that an element describes. -/
def ofElement (element : Element) : Except Error ElementPart := do
  let name ← element.requiredAttribute "Name"
  let text ← element.requiredAttribute "Contract"
  let markup ← Markup.read text
  return ⟨⟨name⟩, markup, requiredOf (element.attribute? "Required")⟩

end ElementPart

/-- What the element of a record or union is made of. -/
inductive ElementForm where
  | record
  | union
  deriving DecidableEq

namespace ElementForm

/-- The name of the elements that describe the parts. -/
def partName : ElementForm → String
  | record => "Field"
  | union => "Member"

/-- Parts of the form say whether they are required. -/
def hasRequired (form : ElementForm) (direction : Direction) : Bool :=
  form = record && direction = .read

/-- The arranged node of the form with the given parts. -/
def assemble {κ : Type} (form : ElementForm) (direction : Direction) (parts : List (Input Name κ)) :
    Except Error (Node Name κ) :=
  let members := parts.map fun part => Member.mk part.name part.target
  let node :=
    match form, direction with
    | record, .write => Node.recordWrite members
    | record, .read => Node.recordRead parts
    | union, direction => Node.union direction members
  match node.arrange with
  | .ok node => .ok node
  | .error flaw => .error (.malformedDocument (.flawed flaw))

end ElementForm

/-- What an element with an id describes: an enumeration, which has nothing below
it, or a record or union. -/
inductive ElementContent where
  | enumeration
  | parts (form : ElementForm)

/-- The content of an element, judged by its name.  Records and unions have to be
of the document's direction. -/
def ElementContent.ofElement (direction : Direction) (element : Element) :
    Except Error ElementContent :=
  let sided (form : ElementForm) (d : Direction) : Except Error ElementContent :=
    if d = direction then .ok (parts form)
    else .error (.malformedDocument (.misplaced element.name direction))
  match Kind.ofName? element.name with
  | some .enumeration => .ok enumeration
  | some (.record d) => sided .record d
  | some (.union d) => sided .union d
  | _ => .error (.malformedDocument (.unknownElement element.name))

/-- The names of the members of an enumeration element. -/
def Element.memberNames : List Element → Except Error (List Name)
  | [] => .ok []
  | member :: members => do
    let name ← member.requiredAttribute "Name"
    let names ← memberNames members
    return ⟨name⟩ :: names

/-- The enumeration that an element describes.  Of names that differ only in case
the last stays. -/
def Element.toEnumeration {κ : Type} (element : Element) : Except Error (Node Name κ) :=
  if element.name = Kind.name .enumeration then do
    let names ← memberNames (element.childrenNamed "Member")
    return .enumeration (Name.setOf names)
  else .error (.malformedDocument (.notAnEnumeration element.name))

/-- The store into which a document is read, with the elements that have been
read and the slots reserved for those that are being read. -/
structure Importing where
  store : Store
  resolved : Table String Handle
  reserved : Table String Handle

namespace Importing

/-- Nothing has been read. -/
def start : Importing :=
  ⟨.empty, .empty, .empty⟩

/-- The handle of a node that is written inline. -/
def intern (node : Node Name Handle) : EStateM Error Importing Handle := fun state =>
  let (handle, store) := state.store.intern node
  .ok handle { state with store }

/-- The slot of an open element, reserved now if it has none yet. -/
def slotFor (id : String) : EStateM Error Importing Handle := fun state =>
  match state.reserved.get? id with
  | some handle => .ok handle state
  | none =>
    let (handle, store) := state.store.reserve
    .ok handle { state with store, reserved := state.reserved.insert id handle }

/-- Store the node of an element that has been read. -/
def close (id : String) (node : Node Name Handle) : EStateM Error Importing Handle := fun state =>
  match state.reserved.get? id with
  | none =>
    let (handle, store) := state.store.intern node
    .ok handle { state with store, resolved := state.resolved.insert id handle }
  | some slot =>
    .ok slot
      { store := state.store.fill slot node
        resolved := state.resolved.insert id slot
        reserved := state.reserved.erase id }

/-- The node under a handle is nullable. -/
def isNullable (handle : Handle) : EStateM Error Importing Bool := fun state =>
  match state.store.node? handle with
  | some (.nullable ..) => .ok true state
  | _ => .ok false state

open MonadExcept (ofExcept)

set_option linter.unusedVariables false in
mutual

/-- The node of the element with an id, where the elements in `opened` are being
read already. -/
def resolveRef (source : DocumentSource) (opened : List String) (id : String) :
    EStateM Error Importing Handle :=
  match helement : source.element? id with
  | none => throw (.malformedDocument (.unknownReference id))
  | some element => do
    match (← get).resolved.get? id with
    | some handle => return handle
    | none =>
      if hopened : id ∈ opened then slotFor id
      else
        match ← ofExcept (ElementContent.ofElement source.direction element) with
        | .enumeration => do
          let node ← ofExcept element.toEnumeration
          close id node
        | .parts form => do
          let parts ← (element.childrenNamed form.partName).mapM fun child => do
            let part ← ofExcept (ElementPart.ofElement child)
            let target ← resolveMarkup source (id :: opened) part.markup
            let required ←
              if form.hasRequired source.direction then ofExcept part.required else pure true
            return Input.mk part.name target required
          let node ← ofExcept (form.assemble source.direction parts)
          close id node
termination_by (unseen source.ids opened, 0)
decreasing_by
  exact Prod.Lex.left _ _ (unseen_cons_lt (DocumentSource.mem_ids_of_element? helement) hopened)

/-- The node of a markup. -/
def resolveMarkup (source : DocumentSource) (opened : List String) (markup : Markup String) :
    EStateM Error Importing Handle :=
  match markup with
  | .ref id => resolveRef source opened id
  | .primitive type => intern (.primitive type)
  | .empty => intern .empty
  | .nullable inner => do
    let target ← resolveMarkup source opened inner
    if ← isNullable target then throw (.malformedDocument (.nestedNullable (.nullable inner)))
    else intern (.nullable source.direction target)
  | .list item => do
    let target ← resolveMarkup source opened item
    intern (.list source.direction target)
  | .dictionary key value => do
    let key ← resolveMarkup source opened key
    let value ← resolveMarkup source opened value
    intern (.dictionary source.direction key value)
termination_by (unseen source.ids opened, 1 + sizeOf markup)

end

/-- The nodes of several elements, under their ids. -/
def resolveAll (source : DocumentSource) :
    List String → EStateM Error Importing (List (String × Handle))
  | [] => return []
  | id :: ids => do
    let handle ← resolveRef source [] id
    let handles ← resolveAll source ids
    return (id, handle) :: handles

/-- The nodes of all elements of a document, and of its root. -/
def resolveDocument (source : DocumentSource) :
    EStateM Error Importing (List (String × Handle) × Handle) := do
  let named ← resolveAll source source.ids
  let markup ← ofExcept (Markup.read source.root)
  let root ← resolveMarkup source [] markup
  return (named, root)

end Importing

namespace Store

/-- Copy several nodes under their ids. -/
def copyNamed (source : Store) :
    List (String × Handle) → EStateM Error Copying (List (String × Handle))
  | [] => return []
  | (id, handle) :: named => do
    let copy ← source.copyNode [] handle
    let copies ← source.copyNamed named
    return (id, copy) :: copies

/-- Take over ids of nodes that have none, as far as the store has no other use
for them. -/
def claimIds : List (String × Handle) → EStateM Error Store Unit
  | [] => return
  | (id, handle) :: named => do
    let store ← get
    if (store.id? handle).isNone ∧ (store.lookupId? id).isNone then claimId handle id
    claimIds named

/-- Copy what has been read from a document, with its ids.  Where this fails, what
has been copied is taken back. -/
def adopt (source : Store) (named : List (String × Handle)) (root : Handle) :
    EStateM Error Store Handle := fun target =>
  let copyAll : EStateM Error Copying (List (String × Handle) × Handle) := do
    let copies ← source.copyNamed named
    let root ← source.copyNode [] root
    return (copies, root)
  match copyAll (Copying.start target) with
  | .error error state => .error error (state.target.rollback target.size)
  | .ok (copies, root) state =>
    match claimIds copies state.target with
    | .error error store => .error error (store.rollback target.size)
    | .ok () store => .ok root store

/-- The handle of the graph that a document describes.  The root has to describe
the side that the document is for. -/
def importDocument (direction : Direction) (document : Element) : EStateM Error Store Handle :=
  fun store =>
    match DocumentSource.ofDocument direction document with
    | .error error => .error error store
    | .ok source =>
      match Importing.resolveDocument source Importing.start with
      | .error error _ => .error error store
      | .ok (named, root) state =>
        match state.store.adopt named root store with
        | .error error store => .error error store
        | .ok root store =>
          match store.serving direction root with
          | .error error => .error error store
          | .ok root => .ok root store

end Store

end WireSchema

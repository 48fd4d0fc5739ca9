/-
# Writing documents

A document describes the graph under a root to another store.  It has one
element for every node that is referred to by id, in an order in which a node
comes after what it depends on, and names the root by its markup.
-/

import WireSchema.Element
import WireSchema.Graph
import WireSchema.Store.Ids

namespace WireSchema

/-- The name of the element that holds a whole document. -/
def documentName : String := "Contracts"

namespace Node

/-- The element of one member: its name and the markup of its target. -/
def memberElement (label : String) (refer : Handle → Except Error String) (name : Name)
    (target : Handle) : Except Error Element := do
  let markup ← refer target
  return ((Element.new label).withAttribute "Name" name.spelling).withAttribute "Contract" markup

/-- The elements of written fields or of union members. -/
def memberElements (label : String) (refer : Handle → Except Error String) :
    List (Member Name Handle) → Except Error (List Element)
  | [] => .ok []
  | member :: members => do
    let element ← memberElement label refer member.name member.target
    let elements ← memberElements label refer members
    return element :: elements

/-- The elements of read fields, which say whether the field is required. -/
def inputElements (refer : Handle → Except Error String) :
    List (Input Name Handle) → Except Error (List Element)
  | [] => .ok []
  | input :: inputs => do
    let element ← memberElement "Field" refer input.name input.target
    let elements ← inputElements refer inputs
    let required := if input.required then "true" else "false"
    return element.withAttribute "Required" required :: elements

/-- The elements within the element of a node. -/
def partElements (refer : Handle → Except Error String) :
    Node Name Handle → Except Error (List Element)
  | enumeration members =>
    .ok (members.map fun name => (Element.new "Member").withAttribute "Name" name.spelling)
  | recordWrite fields => memberElements "Field" refer fields
  | recordRead fields => inputElements refer fields
  | union _ members => memberElements "Member" refer members
  | primitive _ | empty | nullable .. | list .. | dictionary .. => .ok []

/-- The element of a node under an id, with `refer` as the markup of what is below
it.  A node that is written inline has no element. -/
def toElement? (node : Node Name Handle) (id? : Option String)
    (refer : Handle → Except Error String) : Except Error (Option Element) :=
  if node.isByReference then
    match id? with
    | none => .error (.missingId node.kind)
    | some id => do
      let parts ← node.partElements refer
      return some { (Element.new node.kind.name).withAttribute "Id" id with children := parts }
  else .ok none

end Node

namespace Store

/-- The element of a node under its own id. -/
def element? (store : Store) (handle : Handle) : Except Error (Option Element) := do
  let node ← store.node handle
  node.toElement? (store.id? handle) store.reference

/-- Give an id to every one of the nodes. -/
def assignIds : List Handle → EStateM Error Store Unit
  | [] => return
  | handle :: handles => do
    let _ ← assignId handle
    assignIds handles

/-- The elements of the nodes that have one, in order. -/
def elements (store : Store) : List Handle → Except Error (List Element)
  | [] => .ok []
  | handle :: handles => do
    let element? ← store.element? handle
    let elements ← store.elements handles
    return element?.toList ++ elements

/-- The document of the given nodes, which names the root if it is given. -/
def document (store : Store) (root? : Option Handle) (order : List Handle) :
    Except Error Element := do
  let frame ←
    match root? with
    | none => pure (Element.new documentName)
    | some root => do
      let markup ← store.reference root
      pure ((Element.new documentName).withAttribute "Root" markup)
  let children ← store.elements order
  return { frame with children }

/-- The document of the graph under a root, which gets ids where it has none. -/
def exportGraph (root : Handle) (includeRoot : Bool) : EStateM Error Store Element := do
  match Graph.ofRoot (← get) root with
  | .error error => throw error
  | .ok graph => do
    let order := graph.emissionOrder
    assignIds order
    match (← get).document (if includeRoot then some root else none) order with
    | .error error => throw error
    | .ok document => return document

end Store

end WireSchema

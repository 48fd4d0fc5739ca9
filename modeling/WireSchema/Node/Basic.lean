/-
# Nodes of a schema graph

A node holds the names that belong to it and refers to the nodes below it.  The
type leaves both open: `ν` is what identifies a member (a name with its
spelling, or the lower-case form alone) and `κ` is what stands for a node below
(a handle, a type definition, or nothing).  What is below a node has an order,
and `traverse` visits it in that order.
-/

import WireSchema.Name
import WireSchema.Node.Kind

namespace WireSchema

/-- The place of a node in a store. -/
abbrev Handle := Nat

/-- A field that a record writes, or a member of a union. -/
structure Member (ν κ : Type) where
  name : ν
  target : κ
  deriving DecidableEq

/-- A field that a record reads.  A required field has to be in the data. -/
structure Input (ν κ : Type) where
  name : ν
  target : κ
  required : Bool
  deriving DecidableEq

/-- A node of a schema graph. -/
inductive Node (ν κ : Type) where
  | primitive (type : Primitive)
  | empty
  | enumeration (members : List ν)
  | nullable (direction : Direction) (inner : κ)
  | list (direction : Direction) (item : κ)
  | dictionary (direction : Direction) (key value : κ)
  | recordWrite (fields : List (Member ν κ))
  | recordRead (fields : List (Input ν κ))
  | union (direction : Direction) (members : List (Member ν κ))
  deriving DecidableEq

namespace Node

variable {ν ν' κ κ' : Type}

/-- The kind of a node. -/
def kind : Node ν κ → Kind
  | primitive _ => .primitive
  | empty => .empty
  | enumeration _ => .enumeration
  | nullable direction _ => .nullable direction
  | list direction _ => .list direction
  | dictionary direction _ _ => .dictionary direction
  | recordWrite _ => .record .write
  | recordRead _ => .record .read
  | union direction _ => .union direction

/-- The node is referred to by id. -/
def isByReference (node : Node ν κ) : Bool :=
  node.kind.isByReference

/-- What is directly below the node, in order. -/
def children : Node ν κ → List κ
  | primitive _ | empty | enumeration _ => []
  | nullable _ inner => [inner]
  | list _ item => [item]
  | dictionary _ key value => [key, value]
  | recordWrite fields => fields.map (·.target)
  | recordRead fields => fields.map (·.target)
  | union _ members => members.map (·.target)

/-- The node with every name translated. -/
def mapNames (f : ν → ν') : Node ν κ → Node ν' κ
  | primitive type => primitive type
  | empty => empty
  | enumeration members => enumeration (members.map f)
  | nullable direction inner => nullable direction inner
  | list direction item => list direction item
  | dictionary direction key value => dictionary direction key value
  | recordWrite fields => recordWrite (fields.map fun m => ⟨f m.name, m.target⟩)
  | recordRead fields => recordRead (fields.map fun i => ⟨f i.name, i.target, i.required⟩)
  | union direction members => union direction (members.map fun m => ⟨f m.name, m.target⟩)

/-- The node with everything below it translated. -/
def mapChildren (f : κ → κ') : Node ν κ → Node ν κ'
  | primitive type => primitive type
  | empty => empty
  | enumeration members => enumeration members
  | nullable direction inner => nullable direction (f inner)
  | list direction item => list direction (f item)
  | dictionary direction key value => dictionary direction (f key) (f value)
  | recordWrite fields => recordWrite (fields.map fun m => ⟨m.name, f m.target⟩)
  | recordRead fields => recordRead (fields.map fun i => ⟨i.name, f i.target, i.required⟩)
  | union direction members => union direction (members.map fun m => ⟨m.name, f m.target⟩)

/-- The results of an action on every item of a list, first item first.  The
action is told that what it is given is in the list. -/
def visitAll {α β : Type} {m : Type → Type} [Monad m] :
    (items : List α) → ((item : α) → item ∈ items → m β) → m (List β)
  | [], _ => pure []
  | item :: items, f => do
    let result ← f item List.mem_cons_self
    let results ← visitAll items fun item h => f item (List.mem_cons_of_mem _ h)
    return result :: results

/-- The node with everything below it translated by an action, first child
first.  The action is told that what it is given is a child of this node. -/
def traverse {m : Type → Type} [Monad m] (node : Node ν κ)
    (f : (child : κ) → child ∈ node.children → m κ') : m (Node ν κ') :=
  match node, f with
  | primitive type, _ => pure (primitive type)
  | empty, _ => pure empty
  | enumeration members, _ => pure (enumeration members)
  | nullable direction inner, f => do
    let inner ← f inner List.mem_cons_self
    return nullable direction inner
  | list direction item, f => do
    let item ← f item List.mem_cons_self
    return list direction item
  | dictionary direction key value, f => do
    let key ← f key List.mem_cons_self
    let value ← f value (List.mem_cons_of_mem _ List.mem_cons_self)
    return dictionary direction key value
  | recordWrite fields, f => do
    let fields ← visitAll fields fun field h => do
      let target ← f field.target (List.mem_map_of_mem h)
      return ⟨field.name, target⟩
    return recordWrite fields
  | recordRead fields, f => do
    let fields ← visitAll fields fun field h => do
      let target ← f field.target (List.mem_map_of_mem h)
      return ⟨field.name, target, field.required⟩
    return recordRead fields
  | union direction members, f => do
    let members ← visitAll members fun member h => do
      let target ← f member.target (List.mem_map_of_mem h)
      return ⟨member.name, target⟩
    return union direction members

/-- The node with nothing below it. -/
def shape (node : Node ν κ) : Node ν Unit :=
  node.mapChildren fun _ => ()

/-- The node with names in lower case, by which equal nodes are found. -/
def key (node : Node Name κ) : Node String κ :=
  node.mapNames Name.folded

theorem children_mapNames (f : ν → ν') (node : Node ν κ) :
    (node.mapNames f).children = node.children := by
  cases node <;> simp [mapNames, children]

theorem children_mapChildren (f : κ → κ') (node : Node ν κ) :
    (node.mapChildren f).children = node.children.map f := by
  cases node <;> simp [mapChildren, children]

theorem kind_mapNames (f : ν → ν') (node : Node ν κ) : (node.mapNames f).kind = node.kind := by
  cases node <;> rfl

theorem kind_mapChildren (f : κ → κ') (node : Node ν κ) :
    (node.mapChildren f).kind = node.kind := by
  cases node <;> rfl

end Node

end WireSchema

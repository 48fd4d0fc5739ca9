/-
# The store of nodes

A store holds the nodes of schema graphs in numbered slots.  Equal nodes share
one slot, so where no cycle is at or below a node, equality of handles is equality
of what they describe.  A slot can be reserved before its node is known; that is how a
node comes to refer to itself.  Between operations every slot is filled.

Slots are only ever added at the end, and rolling back drops the slots from a
mark on, with everything that mentions them.
-/

import WireSchema.Error
import WireSchema.Table

namespace WireSchema

/-- A place in the store.  It has no node while the node is being built. -/
structure Slot where
  node? : Option (Node Name Handle)
  id? : Option String

/-- The nodes of schema graphs, with what is known about them. -/
structure Store where
  slots : Array Slot
  /-- Where a node is to be found, up to the case of its names. -/
  index : Table (Node String Handle) Handle
  /-- What a type was built as on each side. -/
  built : Table (Direction × TypeDef) Handle
  /-- Which node carries an id in documents. -/
  ids : Table String Handle
  /-- The number from which the next generated id is tried. -/
  nextId : Nat

namespace Store

/-- The store without nodes. -/
def empty : Store :=
  ⟨#[], .empty, .empty, .empty, 0⟩

/-- The number of slots. -/
def size (store : Store) : Nat :=
  store.slots.size

/-- The node under a handle, if the slot is there and filled. -/
def node? (store : Store) (handle : Handle) : Option (Node Name Handle) :=
  store.slots[handle]?.bind Slot.node?

/-- The id of the node under a handle, if it has one. -/
def id? (store : Store) (handle : Handle) : Option String :=
  store.slots[handle]?.bind Slot.id?

/-- The node that carries an id. -/
def lookupId? (store : Store) (id : String) : Option Handle :=
  store.ids.get? id

/-- The node under a handle that is expected to have one. -/
def node (store : Store) (handle : Handle) : Except Error (Node Name Handle) :=
  match store.node? handle with
  | some node => .ok node
  | none => .error (.unknownNode handle)

/-- The handle itself, if its node describes the given side. -/
def serving (store : Store) (direction : Direction) (handle : Handle) : Except Error Handle := do
  let node ← store.node handle
  if node.kind.serves direction then return handle
  else throw (.invalidType (.wrongSide node.kind direction))

/-- Every filled slot with its node, in the order of handles. -/
def finished (store : Store) : List (Handle × Node Name Handle) :=
  (List.range store.size).filterMap fun handle =>
    (store.node? handle).map fun node => (handle, node)

/-- The store with one more slot. -/
def push (store : Store) (slot : Slot) : Store :=
  { store with slots := store.slots.push slot }

/-- A new slot without a node. -/
def reserve (store : Store) : Handle × Store :=
  (store.size, store.push ⟨none, none⟩)

/-- The handle of a node: that of an equal node, or else a new one. -/
def intern (store : Store) (node : Node Name Handle) : Handle × Store :=
  match store.index.get? node.key with
  | some handle => (handle, store)
  | none =>
    (store.size,
      { store.push ⟨some node, none⟩ with index := store.index.insert node.key store.size })

/-- Put a node into a reserved slot.  An equal node that is stored already stays
the one that is found. -/
def fill (store : Store) (handle : Handle) (node : Node Name Handle) : Store :=
  { store with
    slots := store.slots.modify handle fun slot => { slot with node? := some node }
    index := store.index.insertIfNew node.key handle }

/-- Drop every slot from the mark on, and every mention of one. -/
def rollback (store : Store) (mark : Nat) : Store :=
  if store.size ≤ mark then store
  else
    { store with
      slots := store.slots.take mark
      index := store.index.retain (· < mark)
      built := store.built.retain (· < mark)
      ids := store.ids.retain (· < mark) }

/-- Remember what a type was built as. -/
def remember (store : Store) (direction : Direction) (type : TypeDef) (handle : Handle) : Store :=
  { store with built := store.built.insert (direction, type) handle }

/-- The handle of a node made by hand.  Everything below it has to be in the
store. -/
def internChecked (node : Node Name Handle) : EStateM Error Store Handle := fun store =>
  match node.children.find? fun child => store.size ≤ child with
  | some child => .error (.unknownNode child) store
  | none =>
    let (handle, store) := store.intern node
    .ok handle store

end Store

end WireSchema

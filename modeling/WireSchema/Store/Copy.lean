/-
# Copying graphs between stores

A graph is rebuilt in another store from the bottom up.  A node that is met
again while it is being copied gets a slot at once, which is filled when its
copy is finished.  Before a node that is referred to by id is copied, an
equivalent node of the other store is looked for, because interning alone cannot
see that two cycles are the same.
-/

import WireSchema.Store.Equivalence

namespace WireSchema.Store

/-- The store that receives copies, with the copies that have been made and the
slots reserved for those that are being made. -/
structure Copying where
  target : Store
  copied : Table Handle Handle
  reserved : Table Handle Handle

namespace Copying

/-- Nothing has been copied. -/
def start (target : Store) : Copying :=
  ⟨target, .empty, .empty⟩

/-- The slot of an open node, reserved now if it has none yet. -/
def slotFor (handle : Handle) : EStateM Error Copying Handle := fun state =>
  match state.reserved.get? handle with
  | some slot => .ok slot state
  | none =>
    let (slot, target) := state.target.reserve
    .ok slot { state with target, reserved := state.reserved.insert handle slot }

/-- Remember the copy of a node. -/
def settle (handle copy : Handle) : EStateM Error Copying Handle := fun state =>
  .ok copy { state with copied := state.copied.insert handle copy }

/-- Store the finished copy of a node. -/
def close (handle : Handle) (node : Node Name Handle) : EStateM Error Copying Handle :=
  fun state =>
    match state.reserved.get? handle with
    | none =>
      let (copy, target) := state.target.intern node
      settle handle copy { state with target }
    | some slot =>
      settle handle slot
        { state with
          target := state.target.fill slot node
          reserved := state.reserved.erase handle }

/-- The node of the receiving store that can stand for a node without copying. -/
def existing? (source : Store) (handle : Handle) (node : Node Name Handle) (target : Store) :
    Option Handle :=
  if node.isByReference then source.firstEquivalent? handle target target.finished else none

end Copying

set_option linter.unusedVariables false in
/-- Copy a node with everything below it, where the nodes in `opened` are being
copied already. -/
def copyNode (source : Store) (opened : List Handle) (handle : Handle) :
    EStateM Error Copying Handle := do
  let state ← get
  match state.copied.get? handle with
  | some copy => return copy
  | none =>
    if hopened : handle ∈ opened then Copying.slotFor handle
    else
      match hnode : source.node? handle with
      | none => throw (.unknownNode handle)
      | some node =>
        match Copying.existing? source handle node state.target with
        | some copy => Copying.settle handle copy
        | none => do
          let node ← node.traverse fun child _ => source.copyNode (handle :: opened) child
          Copying.close handle node
termination_by unseen (List.range source.size) opened
decreasing_by exact unseen_cons_lt (List.mem_range.2 (lt_size_of_node? hnode)) hopened

/-- Copy the graph under a node of another store.  A copy that fails leaves
nothing behind. -/
def copyFrom (source : Store) (handle : Handle) : EStateM Error Store Handle := fun target =>
  match source.copyNode [] handle (Copying.start target) with
  | .ok copy state => .ok copy state.target
  | .error error state => .error error (state.target.rollback target.size)

end WireSchema.Store

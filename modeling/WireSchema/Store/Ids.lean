/-
# Ids of nodes

A node that is referred to by id gets one when it is first needed.  The id is
the name of its kind with a number, counted up for the whole store; a number is
passed over when a document has brought an id of the same form.
-/

import WireSchema.Store.Basic

namespace WireSchema.Store

/-- The generated id of a kind for a number. -/
def generatedId (kind : Kind) (number : Nat) : String :=
  kind.name ++ toString number

/-- The first number, from the store's counter on, whose id is free.  One number
more is tried than there are ids, so one of them is. -/
def freshNumber (store : Store) (kind : Kind) : Nat :=
  let numbers := (List.range (store.ids.size + 1)).map (store.nextId + ·)
  (numbers.find? fun number => !store.ids.contains (generatedId kind number)).getD store.nextId

/-- Give a node an id that is free. -/
def setId (store : Store) (handle : Handle) (id : String) : Store :=
  { store with
    slots := store.slots.modify handle fun slot => { slot with id? := some id }
    ids := store.ids.insert id handle }

/-- The store in which nothing is found under the id of a node any more. -/
def dropId (store : Store) (handle : Handle) : Store :=
  match store.id? handle with
  | some id => { store with ids := store.ids.erase id }
  | none => store

/-- Give a node an id, in place of the one that it has.  An id that another node carries
cannot be given. -/
def claimId (handle : Handle) (id : String) : EStateM Error Store Unit := fun store =>
  if (store.lookupId? id).any fun owner => owner ≠ handle then
    .error (.malformedDocument (.idInUse id)) store
  else if store.size ≤ handle then .error (.unknownNode handle) store
  else .ok () ((store.dropId handle).setId handle id)

/-- Giving an id that is free to a node that has none. -/
theorem claimId_of_free {store : Store} {handle : Handle} {id : String}
    (hlt : handle < store.size) (hid : store.id? handle = none)
    (hfree : store.lookupId? id = none) :
    claimId handle id store = .ok () (store.setId handle id) := by
  have hnone : ¬ (none : Option Handle).any (fun owner => owner ≠ handle) := Bool.false_ne_true
  rw [claimId, hfree, if_neg hnone, if_neg (Nat.not_le.2 hlt), dropId, hid]

/-- The id of a node that is referred to by id, given to it now if it has none
yet.  A node that is written inline has none. -/
def assignId (handle : Handle) : EStateM Error Store (Option String) := fun store =>
  match store.node handle with
  | .error error => .error error store
  | .ok node =>
    if node.isByReference then
      match store.id? handle with
      | some id => .ok (some id) store
      | none =>
        let number := store.freshNumber node.kind
        let id := generatedId node.kind number
        match claimId handle id { store with nextId := number + 1 } with
        | .error error store => .error error store
        | .ok () store => .ok (some id) store
    else .ok none store

end WireSchema.Store

/-
# What the operations of a store do to its slots

Each operation of a store is described by what can be found in the store
afterwards: the number of slots, the node and the id under a handle, and the
handle under a node or an id.  Nothing else about a store is used later on.
-/

import WireSchema.Proofs.Node.Arranged
import WireSchema.Store.Equivalence
import WireSchema.Store.Ids

namespace WireSchema.Store

variable {store : Store} {handle slot mark : Handle} {node : Node Name Handle}

theorem node?_eq_none_of_le (h : store.size ≤ handle) : store.node? handle = none := by
  rw [node?, Array.getElem?_eq_none h]
  rfl

theorem id?_eq_none_of_le (h : store.size ≤ handle) : store.id? handle = none := by
  rw [id?, Array.getElem?_eq_none h]
  rfl

theorem lt_size_of_id? {id : String} (h : store.id? handle = some id) : handle < store.size := by
  by_contra hle
  rw [id?_eq_none_of_le (Nat.le_of_not_lt hle)] at h
  cases h

theorem node_eq_ok_iff : store.node handle = .ok node ↔ store.node? handle = some node := by
  rw [Store.node]
  cases store.node? handle <;> simp

/-! ## The empty store -/

theorem node?_empty (handle : Handle) : empty.node? handle = none :=
  node?_eq_none_of_le (Nat.zero_le handle)

theorem id?_empty (handle : Handle) : empty.id? handle = none :=
  id?_eq_none_of_le (Nat.zero_le handle)

/-! ## A slot more -/

theorem size_push (store : Store) (new : Slot) : (store.push new).size = store.size + 1 :=
  Array.size_push new

theorem slots_push (store : Store) (new : Slot) (handle : Handle) :
    (store.push new).slots[handle]? =
      if handle = store.size then some new else store.slots[handle]? :=
  Array.getElem?_push

theorem node?_push (store : Store) (new : Slot) (handle : Handle) :
    (store.push new).node? handle =
      if handle = store.size then new.node? else store.node? handle := by
  rw [node?, slots_push]
  split <;> rfl

theorem id?_push (store : Store) (new : Slot) (handle : Handle) :
    (store.push new).id? handle = if handle = store.size then new.id? else store.id? handle := by
  rw [id?, slots_push]
  split <;> rfl

theorem size_reserve (store : Store) : store.reserve.2.size = store.size + 1 :=
  size_push store _

/-- A reserved slot has no node, and every other slot is as it was. -/
theorem node?_reserve (store : Store) (handle : Handle) :
    store.reserve.2.node? handle = store.node? handle := by
  rw [reserve, node?_push]
  split
  next h => rw [h, node?_eq_none_of_le (Nat.le_refl _)]
  next => rfl

theorem id?_reserve (store : Store) (handle : Handle) :
    store.reserve.2.id? handle = store.id? handle := by
  rw [reserve, id?_push]
  split
  next h => rw [h, id?_eq_none_of_le (Nat.le_refl _)]
  next => rfl

/-! ## Interning -/

theorem intern_of_get?_eq_some (h : store.index.get? node.key = some handle) :
    store.intern node = (handle, store) := by
  rw [intern, h]

theorem intern_of_get?_eq_none (h : store.index.get? node.key = none) :
    store.intern node = (store.size,
      { store.push ⟨some node, none⟩ with
        index := store.index.insert node.key store.size }) := by
  rw [intern, h]

theorem built_intern (store : Store) (node : Node Name Handle) :
    (store.intern node).2.built = store.built := by
  rw [intern]
  split <;> rfl

/-- What has been stored is found in the index. -/
theorem index_intern (store : Store) (node : Node Name Handle) :
    (store.intern node).2.index.get? node.key = some (store.intern node).1 := by
  cases hget : store.index.get? node.key with
  | some handle =>
      rw [intern_of_get?_eq_some hget]
      exact hget
  | none =>
      rw [intern_of_get?_eq_none hget]
      exact Table.get?_insert_self _ _ _

/-! ## Filling -/

theorem size_fill (store : Store) (slot : Handle) (node : Node Name Handle) :
    (store.fill slot node).size = store.size :=
  Array.size_modify

theorem node?_fill (hslot : slot < store.size) (node : Node Name Handle) (handle : Handle) :
    (store.fill slot node).node? handle =
      if handle = slot then some node else store.node? handle := by
  rw [node?, fill, Array.getElem?_modify]
  by_cases h : handle = slot
  · rw [h, if_pos rfl, if_pos rfl, Array.getElem?_eq_getElem hslot]
    rfl
  · rw [if_neg (Ne.symm h), if_neg h]
    rfl

theorem node?_fill_self (hslot : slot < store.size) (node : Node Name Handle) :
    (store.fill slot node).node? slot = some node :=
  (node?_fill hslot node slot).trans (if_pos rfl)

/-- Filling a slot that has no node leaves the nodes that there are. -/
theorem node?_fill_of_eq_some (hslot : slot < store.size) (hempty : store.node? slot = none)
    (hnode : store.node? handle = some node) (filling : Node Name Handle) :
    (store.fill slot filling).node? handle = some node := by
  rw [node?_fill hslot, if_neg, hnode]
  rintro rfl
  rw [hempty] at hnode
  cases hnode

/-- A node of the store with a filled slot is the new one or was there before. -/
theorem eq_or_of_node?_fill (hslot : slot < store.size) {filling : Node Name Handle}
    (h : (store.fill slot filling).node? handle = some node) :
    handle = slot ∧ node = filling ∨ store.node? handle = some node := by
  rw [node?_fill hslot] at h
  split at h
  next heq =>
    cases h
    exact .inl ⟨heq, rfl⟩
  next => exact .inr h

theorem id?_fill (store : Store) (slot : Handle) (node : Node Name Handle) (handle : Handle) :
    (store.fill slot node).id? handle = store.id? handle := by
  rw [id?, fill, Array.getElem?_modify, id?]
  split
  · cases store.slots[handle]? <;> rfl
  · rfl

/-! ## Rolling back -/

theorem size_rollback (store : Store) (mark : Handle) :
    (store.rollback mark).size = min mark store.size := by
  rw [rollback]
  split
  next h => exact (Nat.min_eq_right h).symm
  next h => simp [size, Array.take_eq_extract]

theorem slots_rollback (store : Store) (mark handle : Handle) :
    (store.rollback mark).slots[handle]? =
      if handle < mark then store.slots[handle]? else none := by
  rw [rollback]
  split
  next h =>
    split
    · rfl
    next hmark => exact Array.getElem?_eq_none (h.trans (Nat.le_of_not_lt hmark))
  next h =>
    rw [Array.take_eq_extract, Array.getElem?_extract, Nat.sub_zero, Nat.zero_add]
    have hmin : min mark store.slots.size = mark :=
      Nat.min_eq_left (Nat.le_of_lt (Nat.lt_of_not_le h))
    rw [hmin]

theorem node?_rollback (store : Store) (mark handle : Handle) :
    (store.rollback mark).node? handle = if handle < mark then store.node? handle else none := by
  rw [node?, slots_rollback]
  split <;> rfl

theorem id?_rollback (store : Store) (mark handle : Handle) :
    (store.rollback mark).id? handle = if handle < mark then store.id? handle else none := by
  rw [id?, slots_rollback]
  split <;> rfl

theorem index_rollback {key : Node String Handle}
    (hlt : ∀ {key handle}, store.index.get? key = some handle → handle < store.size) :
    (store.rollback mark).index.get? key = some handle ↔
      store.index.get? key = some handle ∧ handle < mark := by
  rw [rollback]
  split
  next h => exact ⟨fun hget => ⟨hget, Nat.lt_of_lt_of_le (hlt hget) h⟩, And.left⟩
  next => rw [Table.get?_retain_eq_some_iff, decide_eq_true_iff]

theorem built_rollback {entry : Direction × TypeDef}
    (hlt : ∀ {entry handle}, store.built.get? entry = some handle → handle < store.size) :
    (store.rollback mark).built.get? entry = some handle ↔
      store.built.get? entry = some handle ∧ handle < mark := by
  rw [rollback]
  split
  next h => exact ⟨fun hget => ⟨hget, Nat.lt_of_lt_of_le (hlt hget) h⟩, And.left⟩
  next => rw [Table.get?_retain_eq_some_iff, decide_eq_true_iff]

theorem ids_rollback {id : String}
    (hlt : ∀ {id handle}, store.ids.get? id = some handle → handle < store.size) :
    (store.rollback mark).ids.get? id = some handle ↔
      store.ids.get? id = some handle ∧ handle < mark := by
  rw [rollback]
  split
  next h => exact ⟨fun hget => ⟨hget, Nat.lt_of_lt_of_le (hlt hget) h⟩, And.left⟩
  next => rw [Table.get?_retain_eq_some_iff, decide_eq_true_iff]

/-! ## Ids -/

theorem size_setId (store : Store) (slot : Handle) (id : String) :
    (store.setId slot id).size = store.size :=
  Array.size_modify

theorem node?_setId (store : Store) (slot : Handle) (id : String) (handle : Handle) :
    (store.setId slot id).node? handle = store.node? handle := by
  rw [node?, setId, Array.getElem?_modify, node?]
  split
  · cases store.slots[handle]? <;> rfl
  · rfl

theorem id?_setId (hslot : slot < store.size) (id : String) (handle : Handle) :
    (store.setId slot id).id? handle = if handle = slot then some id else store.id? handle := by
  rw [id?, setId, Array.getElem?_modify]
  by_cases h : handle = slot
  · rw [h, if_pos rfl, if_pos rfl, Array.getElem?_eq_getElem hslot]
    rfl
  · rw [if_neg (Ne.symm h), if_neg h]
    rfl

end WireSchema.Store

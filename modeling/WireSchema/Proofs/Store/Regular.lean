/-
# Regular stores

A store is regular when its tables and its slots agree, also while some slots
wait for their nodes: children are in the store, names are in order, and the
index, the built types and the ids point at what they say.  Operations only ever
add to a store (`Extends`), and dropping what has been added to a regular store
leaves a regular store, because nothing that was there refers to what came later.
-/

import WireSchema.Proofs.Store.Slots

namespace WireSchema.Store

/-- The tables and the slots of the store agree. -/
structure Regular (store : Store) : Prop where
  children_lt : ∀ {handle node}, store.node? handle = some node →
    ∀ child ∈ node.children, child < store.size
  arranged : ∀ {handle node}, store.node? handle = some node → node.Arranged
  /-- Every entry of the index is about the node that it points at. -/
  index_sound : ∀ {key handle}, store.index.get? key = some handle →
    ∃ node, store.node? handle = some node ∧ node.key = key
  /-- Every node has an entry in the index. -/
  index_complete : ∀ {handle node}, store.node? handle = some node →
    ∃ other, store.index.get? node.key = some other
  built_filled : ∀ {entry handle}, store.built.get? entry = some handle →
    ∃ node, store.node? handle = some node
  id_iff : ∀ {id handle}, store.ids.get? id = some handle ↔ store.id? handle = some id

/-- The second store has everything that the first has, under the same handles. -/
structure Extends (before after : Store) : Prop where
  size_le : before.size ≤ after.size
  node?_eq : ∀ {handle}, handle < before.size → after.node? handle = before.node? handle
  index_of : ∀ {key handle}, before.index.get? key = some handle →
    after.index.get? key = some handle

variable {store before after : Store} {handle slot : Handle} {node : Node Name Handle}

namespace Regular

theorem index_lt (h : Regular store) {key : Node String Handle}
    (hget : store.index.get? key = some handle) : handle < store.size := by
  obtain ⟨node, hnode, -⟩ := h.index_sound hget
  exact lt_size_of_node? hnode

theorem built_lt (h : Regular store) {entry : Direction × TypeDef}
    (hget : store.built.get? entry = some handle) : handle < store.size := by
  obtain ⟨node, hnode⟩ := h.built_filled hget
  exact lt_size_of_node? hnode

theorem ids_lt (h : Regular store) {id : String}
    (hget : store.ids.get? id = some handle) : handle < store.size :=
  lt_size_of_id? (h.id_iff.1 hget)

theorem empty : Regular Store.empty where
  children_lt h := by rw [node?_empty] at h; cases h
  arranged h := by rw [node?_empty] at h; cases h
  index_sound h := by cases h
  index_complete h := by rw [node?_empty] at h; cases h
  built_filled h := by cases h
  id_iff {id handle} := by
    rw [id?_empty]
    exact ⟨nofun, nofun⟩

end Regular

namespace Extends

theorem refl (store : Store) : Extends store store :=
  ⟨Nat.le_refl _, fun _ => rfl, fun h => h⟩

theorem trans {s t u : Store} (h : Extends s t) (h' : Extends t u) : Extends s u where
  size_le := h.size_le.trans h'.size_le
  node?_eq hlt := (h'.node?_eq (hlt.trans_le h.size_le)).trans (h.node?_eq hlt)
  index_of hget := h'.index_of (h.index_of hget)

/-- What is in a store stays there. -/
theorem node?_of (h : Extends before after) (hnode : before.node? handle = some node) :
    after.node? handle = some node :=
  (h.node?_eq (lt_size_of_node? hnode)).trans hnode

end Extends

/-! ## Reserving a slot -/

theorem extends_reserve (store : Store) : Extends store store.reserve.2 where
  size_le := by rw [size_reserve]; exact Nat.le_succ _
  node?_eq _ := node?_reserve store _
  index_of hget := hget

theorem Regular.reserve (h : Regular store) : Regular store.reserve.2 where
  children_lt hnode child hchild := by
    rw [node?_reserve] at hnode
    rw [size_reserve]
    exact (h.children_lt hnode child hchild).trans (Nat.lt_succ_self _)
  arranged hnode := by
    rw [node?_reserve] at hnode
    exact h.arranged hnode
  index_sound hget := by
    obtain ⟨node, hnode, hkey⟩ := h.index_sound hget
    exact ⟨node, (node?_reserve store _).trans hnode, hkey⟩
  index_complete hnode := by
    rw [node?_reserve] at hnode
    exact h.index_complete hnode
  built_filled hget := by
    obtain ⟨node, hnode⟩ := h.built_filled hget
    exact ⟨node, (node?_reserve store _).trans hnode⟩
  id_iff := by
    intro id handle
    rw [id?_reserve]
    exact h.id_iff

/-! ## Interning a node -/

/-- What interning does: an equal node is found, or the node gets a slot of its own. -/
theorem intern_cases (h : Regular store) (node : Node Name Handle) :
    (∃ stored, store.node? (store.intern node).1 = some stored ∧ stored.key = node.key ∧
      (store.intern node).2 = store) ∨
    (store.index.get? node.key = none ∧ (store.intern node).1 = store.size ∧
      (store.intern node).2 =
        { store.push ⟨some node, none⟩ with
          index := store.index.insert node.key store.size }) := by
  cases hget : store.index.get? node.key with
  | some handle =>
      obtain ⟨stored, hstored, hkey⟩ := h.index_sound hget
      rw [intern_of_get?_eq_some hget]
      exact .inl ⟨stored, hstored, hkey, rfl⟩
  | none =>
      rw [intern_of_get?_eq_none hget]
      exact .inr ⟨rfl, rfl, rfl⟩

theorem node?_intern_of_new (store : Store) (node : Node Name Handle) (handle : Handle) :
    Store.node? { store.push ⟨some node, none⟩ with
        index := store.index.insert node.key store.size } handle =
      if handle = store.size then some node else store.node? handle :=
  node?_push store ⟨some node, none⟩ handle

theorem id?_intern_of_new (store : Store) (node : Node Name Handle) (handle : Handle) :
    Store.id? { store.push ⟨some node, none⟩ with
        index := store.index.insert node.key store.size } handle = store.id? handle := by
  refine (id?_push store ⟨some node, none⟩ handle).trans ?_
  split
  next heq => rw [heq, id?_eq_none_of_le (Nat.le_refl _)]
  next => rfl

/-- Interning gives no ids. -/
theorem id?_intern (h : Regular store) (node : Node Name Handle) (handle : Handle) :
    (store.intern node).2.id? handle = store.id? handle := by
  rcases intern_cases h node with ⟨stored, -, -, heq⟩ | ⟨-, -, heq⟩
  · rw [heq]
  · rw [heq, id?_intern_of_new]

theorem extends_intern (h : Regular store) (node : Node Name Handle) :
    Extends store (store.intern node).2 := by
  rcases intern_cases h node with ⟨stored, -, -, heq⟩ | ⟨hnew, -, heq⟩
  · rw [heq]
    exact Extends.refl store
  · rw [heq]
    refine ⟨(size_push store _).symm ▸ Nat.le_succ _, fun {other} hlt => ?_,
      fun {key other} hget => ?_⟩
    · rw [node?_intern_of_new, if_neg (Nat.ne_of_lt hlt)]
    · refine (Table.get?_insert_of_ne _ _ ?_).trans hget
      rintro rfl
      rw [hnew] at hget
      cases hget

/-- The handle of an interned node leads to a node that is equal up to the case of names. -/
theorem exists_node?_intern (h : Regular store) (node : Node Name Handle) :
    ∃ stored, (store.intern node).2.node? (store.intern node).1 = some stored ∧
      stored.key = node.key := by
  rcases intern_cases h node with ⟨stored, hstored, hkey, heq⟩ | ⟨-, hhandle, heq⟩
  · exact ⟨stored, heq.symm ▸ hstored, hkey⟩
  · refine ⟨node, ?_, rfl⟩
    rw [heq, hhandle, node?_intern_of_new, if_pos rfl]

/-- A node of the store in which a node was interned is that node or was there before. -/
theorem old_or_new_of_node?_intern (h : Regular store) {found : Node Name Handle}
    (hfound : (store.intern node).2.node? handle = some found) :
    store.node? handle = some found ∨ handle = (store.intern node).1 ∧ found = node := by
  rcases intern_cases h node with ⟨stored, -, -, heq⟩ | ⟨-, hhandle, heq⟩
  · rw [heq] at hfound
    exact .inl hfound
  · rw [heq, node?_intern_of_new] at hfound
    split at hfound
    next hsize =>
      cases hfound
      exact .inr ⟨hsize.trans hhandle.symm, rfl⟩
    next => exact .inl hfound

/-- Interning leaves no slot without a node that was not there before. -/
theorem node?_intern_eq_none (h : Regular store)
    (hlt : handle < (store.intern node).2.size)
    (hnone : (store.intern node).2.node? handle = none) :
    handle < store.size ∧ store.node? handle = none := by
  rcases intern_cases h node with ⟨stored, -, -, heq⟩ | ⟨-, -, heq⟩
  · rw [heq] at hlt hnone
    exact ⟨hlt, hnone⟩
  · rw [heq] at hlt hnone
    rw [node?_intern_of_new] at hnone
    split at hnone
    · cases hnone
    next hne =>
      have hle : handle < store.size + 1 := hlt.trans_eq (size_push store _)
      exact ⟨lt_of_le_of_ne (Nat.le_of_lt_succ hle) hne, hnone⟩

/-- Interning adds no node but the one that it returns. -/
theorem eq_or_of_node?_intern (h : Regular store) {found : Node Name Handle}
    (hfound : (store.intern node).2.node? handle = some found) :
    handle = (store.intern node).1 ∨ store.node? handle = some found := by
  rcases intern_cases h node with ⟨stored, -, -, heq⟩ | ⟨-, hhandle, heq⟩
  · rw [heq] at hfound
    exact .inr hfound
  · rw [heq, node?_intern_of_new] at hfound
    rw [hhandle]
    split at hfound
    next hhandle => exact .inl hhandle
    next => exact .inr hfound

theorem Regular.intern (h : Regular store) (hchildren : ∀ child ∈ node.children, child < store.size)
    (harranged : node.Arranged) : Regular (store.intern node).2 := by
  rcases intern_cases h node with ⟨stored, -, -, heq⟩ | ⟨hnew, -, heq⟩
  · rw [heq]
    exact h
  have hextends := extends_intern h node
  rw [heq] at hextends ⊢
  refine ⟨?_, ?_, ?_, ?_, ?_, ?_⟩
  · intro handle found hfound child hchild
    refine lt_of_lt_of_le ?_ hextends.size_le
    rw [node?_intern_of_new] at hfound
    split at hfound
    · cases hfound
      exact hchildren child hchild
    · exact h.children_lt hfound child hchild
  · intro handle found hfound
    rw [node?_intern_of_new] at hfound
    split at hfound
    · cases hfound
      exact harranged
    · exact h.arranged hfound
  · intro key handle hget
    rcases Table.get?_insert_eq_some_iff.1 hget with ⟨rfl, rfl⟩ | ⟨-, hget⟩
    · exact ⟨node, by rw [node?_intern_of_new, if_pos rfl], rfl⟩
    · obtain ⟨found, hfound, hkey⟩ := h.index_sound hget
      exact ⟨found, hextends.node?_of hfound, hkey⟩
  · intro handle found hfound
    rw [node?_intern_of_new] at hfound
    split at hfound
    · cases hfound
      exact ⟨store.size, Table.get?_insert_self _ _ _⟩
    · obtain ⟨other, hother⟩ := h.index_complete hfound
      exact ⟨other, hextends.index_of hother⟩
  · intro entry handle hget
    obtain ⟨found, hfound⟩ := h.built_filled hget
    exact ⟨found, hextends.node?_of hfound⟩
  · intro id handle
    rw [id?_intern_of_new]
    exact h.id_iff

/-! ## Filling a slot -/

/-- Filling a slot that is not in an earlier store leaves that store as it is. -/
theorem Extends.fill (h : Extends before after) (hbefore : before.size ≤ slot)
    (hslot : slot < after.size) (node : Node Name Handle) :
    Extends before (after.fill slot node) where
  size_le := by rw [size_fill]; exact h.size_le
  node?_eq {handle} hlt := by
    rw [node?_fill hslot, if_neg (Nat.ne_of_lt (hlt.trans_le hbefore))]
    exact h.node?_eq hlt
  index_of {key handle} hget := by
    refine (Table.get?_insertIfNew _ _ _ _).trans ?_
    split
    next heq => rw [← heq, h.index_of hget]; rfl
    next => exact h.index_of hget

theorem Regular.fill (h : Regular store) (hslot : slot < store.size)
    (hempty : store.node? slot = none) (hchildren : ∀ child ∈ node.children, child < store.size)
    (harranged : node.Arranged) : Regular (store.fill slot node) := by
  have hindex : ∀ key, (store.fill slot node).index.get? key =
      if key = node.key then some ((store.index.get? node.key).getD slot)
      else store.index.get? key :=
    fun key => Table.get?_insertIfNew _ _ _ _
  refine ⟨?_, ?_, ?_, ?_, ?_, ?_⟩
  · intro handle found hfound child hchild
    rw [size_fill]
    rcases eq_or_of_node?_fill hslot hfound with ⟨-, rfl⟩ | hfound
    · exact hchildren child hchild
    · exact h.children_lt hfound child hchild
  · intro handle found hfound
    rcases eq_or_of_node?_fill hslot hfound with ⟨-, rfl⟩ | hfound
    · exact harranged
    · exact h.arranged hfound
  · intro key handle hget
    rw [hindex] at hget
    split at hget
    next hkey =>
      cases hold : store.index.get? node.key with
      | none =>
          rw [hold] at hget
          cases hget
          exact ⟨node, node?_fill_self hslot node, hkey.symm⟩
      | some other =>
          rw [hold] at hget
          cases hget
          obtain ⟨found, hfound, hkey'⟩ := h.index_sound hold
          exact ⟨found, node?_fill_of_eq_some hslot hempty hfound node, hkey'.trans hkey.symm⟩
    next =>
      obtain ⟨found, hfound, hkey⟩ := h.index_sound hget
      exact ⟨found, node?_fill_of_eq_some hslot hempty hfound node, hkey⟩
  · intro handle found hfound
    rw [hindex]
    split
    · exact ⟨_, rfl⟩
    next hkey =>
      rcases eq_or_of_node?_fill hslot hfound with ⟨-, rfl⟩ | hfound
      · exact absurd rfl hkey
      · exact h.index_complete hfound
  · intro entry handle hget
    obtain ⟨found, hfound⟩ := h.built_filled hget
    exact ⟨found, node?_fill_of_eq_some hslot hempty hfound node⟩
  · intro id handle
    rw [id?_fill]
    exact h.id_iff

/-! ## Remembering a type -/

theorem extends_remember (store : Store) (direction : Direction) (type : TypeDef)
    (handle : Handle) : Extends store (store.remember direction type handle) :=
  ⟨Nat.le_refl _, fun _ => rfl, fun h => h⟩

theorem Regular.remember (h : Regular store) (hnode : store.node? handle = some node)
    (direction : Direction) (type : TypeDef) :
    Regular (store.remember direction type handle) where
  children_lt := h.children_lt
  arranged := h.arranged
  index_sound := h.index_sound
  index_complete := h.index_complete
  built_filled {entry other} hget := by
    rcases Table.get?_insert_eq_some_iff.1 hget with ⟨-, rfl⟩ | ⟨-, hget⟩
    · exact ⟨node, hnode⟩
    · exact h.built_filled hget
  id_iff := h.id_iff

/-! ## Rolling back -/

/-- Rolling back to an earlier store leaves what that store has. -/
theorem Extends.rollback (h : Extends before after) (hbefore : Regular before)
    (hafter : Regular after) : Extends before (after.rollback before.size) where
  size_le := by
    rw [size_rollback]
    exact le_min (Nat.le_refl _) h.size_le
  node?_eq hlt := by
    rw [node?_rollback, if_pos hlt]
    exact h.node?_eq hlt
  index_of hget :=
    (index_rollback hafter.index_lt).2 ⟨h.index_of hget, hbefore.index_lt hget⟩

theorem Extends.size_rollback_eq (h : Extends before after) :
    (after.rollback before.size).size = before.size := by
  rw [size_rollback]
  exact Nat.min_eq_left h.size_le

/-- Rolling back leaves the nodes of the earlier store and no others. -/
theorem Extends.node?_rollback_eq (h : Extends before after) (handle : Handle) :
    (after.rollback before.size).node? handle = before.node? handle := by
  rw [node?_rollback]
  split
  next hlt => exact h.node?_eq hlt
  next hle => exact (node?_eq_none_of_le (Nat.le_of_not_lt hle)).symm

theorem Regular.rollback (hafter : Regular after) (hbefore : Regular before)
    (h : Extends before after) : Regular (after.rollback before.size) where
  children_lt hnode := by
    rw [h.size_rollback_eq]
    rw [h.node?_rollback_eq] at hnode
    exact hbefore.children_lt hnode
  arranged hnode := by
    rw [h.node?_rollback_eq] at hnode
    exact hbefore.arranged hnode
  index_sound hget := by
    obtain ⟨hget, hlt⟩ := (index_rollback hafter.index_lt).1 hget
    obtain ⟨node, hnode, hkey⟩ := hafter.index_sound hget
    exact ⟨node, by rw [node?_rollback, if_pos hlt, hnode], hkey⟩
  index_complete hnode := by
    rw [h.node?_rollback_eq] at hnode
    obtain ⟨other, hother⟩ := hbefore.index_complete hnode
    exact ⟨other, (h.rollback hbefore hafter).index_of hother⟩
  built_filled hget := by
    obtain ⟨hget, hlt⟩ := (built_rollback hafter.built_lt).1 hget
    obtain ⟨node, hnode⟩ := hafter.built_filled hget
    exact ⟨node, by rw [node?_rollback, if_pos hlt, hnode]⟩
  id_iff {id handle} := by
    rw [ids_rollback hafter.ids_lt, id?_rollback, hafter.id_iff]
    split
    next hlt => exact ⟨And.left, fun hid => ⟨hid, hlt⟩⟩
    next hle => exact ⟨fun hid => absurd hid.2 hle, nofun⟩

/-! ## Giving an id -/

/-- A node that has no id gets one that no other node has. -/
theorem Regular.setId (h : Regular store) (hnode : store.node? slot = some node) {id : String}
    (hfree : store.ids.get? id = none) (hnone : store.id? slot = none) :
    Regular (store.setId slot id) where
  children_lt hnode := by
    rw [size_setId]
    rw [node?_setId] at hnode
    exact h.children_lt hnode
  arranged hnode := by
    rw [node?_setId] at hnode
    exact h.arranged hnode
  index_sound hget := by
    obtain ⟨found, hfound, hkey⟩ := h.index_sound hget
    exact ⟨found, (node?_setId _ _ _ _).trans hfound, hkey⟩
  index_complete hnode := by
    rw [node?_setId] at hnode
    exact h.index_complete hnode
  built_filled hget := by
    obtain ⟨found, hfound⟩ := h.built_filled hget
    exact ⟨found, (node?_setId _ _ _ _).trans hfound⟩
  id_iff {other handle} := by
    rw [id?_setId (lt_size_of_node? hnode), Store.setId, Table.get?_insert]
    by_cases hhandle : handle = slot
    · rw [if_pos hhandle, hhandle]
      by_cases hother : other = id
      · rw [if_pos hother, hother]
        exact ⟨fun _ => rfl, fun _ => rfl⟩
      · rw [if_neg hother, h.id_iff, hnone]
        exact ⟨fun hid => absurd hid.symm (Option.some_ne_none _),
          fun hid => absurd (Option.some.inj hid).symm hother⟩
    · rw [if_neg hhandle]
      by_cases hother : other = id
      · rw [if_pos hother, ← h.id_iff, hother, hfree]
        exact ⟨fun hid => absurd (Option.some.inj hid).symm hhandle,
          fun hid => absurd hid.symm (Option.some_ne_none _)⟩
      · rw [if_neg hother]
        exact h.id_iff

theorem extends_setId (store : Store) (slot : Handle) (id : String) :
    Extends store (store.setId slot id) :=
  ⟨(size_setId store slot id).ge, fun _ => node?_setId store slot id _, fun h => h⟩

end WireSchema.Store

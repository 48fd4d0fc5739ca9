/-
# What holds between operations

Building, copying and reading documents hand out slots before they fill them, drop
parts of what they have built, and may fail anywhere.  None of that can be seen
between operations: in every reachable catalog the slots, the index and the tables
agree, and nothing is left half done.
-/

import WireSchema.Proofs.Catalog.Reachable
import WireSchema.Proofs.Store.Unfold

namespace WireSchema.Catalog

/-- The slots, the index and the tables of the catalog agree. -/
structure Consistent (catalog : Catalog) : Prop where
  /-- Every slot has its node. -/
  filled : ∀ handle < catalog.store.size, ∃ node, catalog.store.node? handle = some node
  children_lt : ∀ handle node, catalog.store.node? handle = some node →
    ∀ child ∈ node.children, child < catalog.store.size
  /-- The names of a record, an enumeration or a union are strictly increasing by their
  lower-case forms. -/
  names_increasing : ∀ handle node, catalog.store.node? handle = some node →
    (node.names.map Name.folded).Pairwise (· < ·)
  /-- Every way from a node back to itself passes a node that is referred to by id. -/
  cycle_byReference : ∀ first rest,
    List.IsChain catalog.store.IsChild (first :: (rest ++ [first])) →
      ∃ handle ∈ first :: rest, ∃ node, catalog.store.node? handle = some node ∧
        node.isByReference = true
  /-- Every node can be written inline down to the nearest nodes that are referred to by
  id, -/
  unfolds : ∀ handle < catalog.store.size, ∃ tree, catalog.store.unfold handle = .ok tree
  /-- what it refers to can be told, -/
  refers : ∀ handle < catalog.store.size, ∃ targets, catalog.store.successors handle = .ok targets
  /-- and what is below it can be numbered. -/
  numbered : ∀ handle < catalog.store.size,
    ∃ order, catalog.store.visitOrder [] [handle] = .ok order
  /-- Every entry of the index is about the node that it points at. -/
  index_sound : ∀ key handle, catalog.store.index.get? key = some handle →
    ∃ node, catalog.store.node? handle = some node ∧ node.key = key
  /-- Every node has an entry in the index. -/
  index_complete : ∀ handle node, catalog.store.node? handle = some node →
    ∃ other, catalog.store.index.get? node.key = some other
  built_filled : ∀ direction type handle,
    catalog.store.built.get? (direction, type) = some handle →
      ∃ node, catalog.store.node? handle = some node
  /-- No type is under construction, -/
  opened_nil : catalog.opened = []
  /-- and no slot is reserved. -/
  reserved_size : catalog.reserved.size = 0

/-- In every reachable catalog everything is finished and every table is right. -/
theorem consistent_of_reachable {catalog : Catalog} (h : Reachable catalog) :
    catalog.Consistent := by
  have hsound := h.sound
  have hstore := hsound.store
  refine ⟨fun _ hlt => hstore.filled hlt, fun _ _ hnode => hstore.children_lt hnode,
    fun handle node hnode => ?_, fun _ _ hchain => hstore.grounded.exists_byReference hchain,
    fun _ hlt => Store.exists_unfold hstore hlt, fun _ hlt => Store.exists_successors hstore hlt,
    fun handle hlt => ?_, fun _ _ hget => hstore.index_sound hget,
    fun _ _ hnode => hstore.index_complete hnode, fun _ _ _ hget => hstore.built_filled hget,
    hsound.opened, ?_⟩
  · rw [List.pairwise_map]
    exact hstore.arranged hnode
  · apply Store.exists_visitOrder hstore
    intro other hother
    cases List.mem_singleton.1 hother
    exact hlt
  · rw [Table.size, List.length_eq_zero_iff, List.eq_nil_iff_forall_not_mem]
    rintro ⟨type, slot⟩ hmem
    have hget := (Table.mem_bindings_iff _ _ _).1 hmem
    rw [hsound.reserved] at hget
    cases hget

/-- A record that refers to itself, built in a new catalog after a build that failed. -/
theorem consistent_of_recursive_record :
    (Operation.apply
      (Operation.apply
        (Operation.apply (withProviders Provider.standard)
          (.register (.record "Node" [⟨"next", .nullable (.named "Node"), true⟩])))
        (.getOrAdd .read (.record "Pair" [⟨"first", .named "Node", false⟩,
          ⟨"second", .foreign "Key", false⟩])))
      (.getOrAdd .write (.named "Node"))).Consistent :=
  consistent_of_reachable (.step _ (.step _ (.step _ (.start _))))

end WireSchema.Catalog

/-
# Equivalence of the nodes of catalogs

The comparison of two nodes, in one reachable catalog or in two, comes to an end however it
recurs, and says that the nodes are equivalent exactly if a relation that unfolds into itself
relates them.  So it is an equivalence of all nodes in all reachable catalogs.
-/

import WireSchema.Proofs.Catalog.Fingerprint
import WireSchema.Proofs.Store.Equivalence
import WireSchema.Proofs.Store.FindsItself

namespace WireSchema.Catalog

/-- A node of a reachable catalog. -/
structure FinishedNode where
  catalog : Catalog
  reachable : Reachable catalog
  handle : Handle
  /-- The slot of the handle is there and filled. -/
  finished : (catalog.store.node? handle).isSome

/-- The comparison finds no difference between the two nodes. -/
def FinishedNode.Equivalent (p q : FinishedNode) : Prop :=
  p.catalog.store.equivalent p.handle q.catalog.store q.handle = true

theorem FinishedNode.equivalent_iff {p q : FinishedNode} :
    p.Equivalent q ↔ p.catalog.store.Bisimilar p.handle q.catalog.store q.handle :=
  Store.equivalent_eq_true_iff

/-- The nodes of reachable catalogs fall into classes of equivalent ones. -/
theorem FinishedNode.equivalence : Equivalence FinishedNode.Equivalent where
  refl p := by
    obtain ⟨node, hnode⟩ := Option.isSome_iff_exists.1 p.finished
    exact equivalent_iff.2 (Store.bisimilar_self p.reachable.sound.store
      (Store.lt_size_of_node? hnode))
  symm h := equivalent_iff.2 (equivalent_iff.1 h).symm
  trans h h' := equivalent_iff.2 ((equivalent_iff.1 h).trans (equivalent_iff.1 h'))

/-- The comparison of two nodes ends with calls no deeper than there are pairs of nodes, and its
answer is whether a bisimulation relates them.  So on the nodes of reachable catalogs it is an
equivalence. -/
theorem equivalent_decides :
    (∀ (source target : Store) (a b : Handle),
      (∀ depth, source.size * target.size < depth → ∃ met,
        (Store.equivalentWithin source target depth (a, b)).run [] =
          some (source.equivalent a target b, met)) ∧
      (source.equivalent a target b = true ↔
        ∃ R, Store.IsBisimulation source target R ∧ R a b)) ∧
    Equivalence FinishedNode.Equivalent := by
  refine ⟨fun source target a b => ⟨fun depth hdepth => ?_, ?_⟩, FinishedNode.equivalence⟩
  · exact Store.exists_equivalentWithin hdepth a b
  · rw [Store.equivalent_eq_true_iff, Store.bisimilar_iff_exists_isBisimulation]

/-- A record on the longer of two cycles is equivalent to the record on the shorter one, in
another catalog, and that is found with at most three calls inside each other. -/
theorem equivalent_decides_twice : Reachable twiceCatalog ∧ Reachable onceCatalog ∧
    (∃ met, (Store.equivalentWithin twiceCatalog.store onceCatalog.store 3 (1, 0)).run [] =
      some (true, met)) ∧
    ∃ R, Store.IsBisimulation twiceCatalog.store onceCatalog.store R ∧ R 1 0 := by
  have hequivalent : twiceCatalog.store.equivalent 1 onceCatalog.store 0 = true := by cbv
  have hsize : twiceCatalog.store.size * onceCatalog.store.size < 3 := by cbv
  obtain ⟨hends, hiff⟩ := equivalent_decides.1 twiceCatalog.store onceCatalog.store 1 0
  exact ⟨reachable_twiceCatalog, reachable_onceCatalog, hequivalent ▸ hends 3 hsize,
    hiff.1 hequivalent⟩

end WireSchema.Catalog

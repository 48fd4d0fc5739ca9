/-
# How the nodes of a catalog refer to each other

The graph under a root has the nodes below it that are referred to by id.  Their order has each of
them once, after all that it leads to without being led back to, and nodes that recur with each
other stand together.  The dependencies of a node are what it refers to past what is written inline,
and the nodes that lead back to themselves are divided into groups that recur.
-/

import WireSchema.Proofs.Catalog.Reachable
import WireSchema.Proofs.Graph.Recursion
import WireSchema.Proofs.Store.Isomorphism

namespace WireSchema.Catalog

variable {catalog : Catalog} {root : Handle} {node : Node Name Handle}

/-- The order of the graph under a root has every node below the root that is referred to by id,
each once, and no other.  Where one of them leads to another that does not lead back, the other
comes first, and the nodes that recur with any one of them stand together in ascending order. -/
theorem dependencies_come_first (h : Reachable catalog)
    (hroot : catalog.store.node? root = some node) :
    ∃ graph, Graph.ofRoot catalog.store root = .ok graph ∧ graph.emissionOrder.Nodup ∧
      (∀ handle, handle ∈ graph.emissionOrder ↔ handle ∈ catalog.store.ReferredBelow root) ∧
      (∀ a ∈ graph.emissionOrder, ∀ b ∈ graph.emissionOrder, catalog.store.Below a b →
        ¬catalog.store.Below b a → [b, a].Sublist graph.emissionOrder) ∧
      ∀ a ∈ graph.emissionOrder, ∃ before group behind,
        graph.emissionOrder = before ++ group ++ behind ∧ group.Pairwise (· < ·) ∧
          ∀ b, b ∈ group ↔ b ∈ catalog.store.Group a := by
  have hstore := h.sound.store
  have hlt := Store.lt_size_of_node? hroot
  obtain ⟨graph, hgraph, hnodup, hnodes⟩ := Graph.exists_ofRoot hstore hlt
  have hperm := Graph.perm_emissionOrder hnodup
  refine ⟨graph, hgraph, hperm.nodup_iff.2 hnodup,
    fun handle => hperm.mem_iff.trans (hnodes handle), fun a ha b hb hbelow hback => ?_,
    fun a ha => Graph.exists_emissionOrder_eq_append hstore hlt hgraph ha⟩
  have hne : a ≠ b := by
    rintro rfl
    exact hback .refl
  exact Graph.sublist_of_pairwise (Graph.pairwise_emissionOrder hstore hlt hgraph) ha hb hne
    fun hall => hback (hall hbelow)

/-! ## A tree -/

/-- A record with a list of records of its own type, an enumeration, and a union that leads back
to the record. -/
def treeType : TypeDef :=
  .record "T" [⟨"c", .list (.named "T"), false⟩, ⟨"k", .enumeration "K" ["x"], false⟩,
    ⟨"o", .union "O" [⟨"t", .named "T"⟩], true⟩]

/-- A catalog in which a list of such records has been built. -/
def treeCatalog : Catalog :=
  after (getOrAdd .write (.list (.named "T")))
    (after (register treeType) (withProviders Provider.standard))

theorem reachable_treeCatalog : Reachable treeCatalog :=
  .step (.getOrAdd .write (.list (.named "T")))
    (.step (.register treeType) (.start Provider.standard))

/-- The references of the tree. -/
def treeGraph : Graph where
  entryPoints := [0]
  nodes := [0, 2, 3]
  edges := [(0, 0), (0, 2), (0, 3), (3, 0)]

theorem ofRoot_treeCatalog : Graph.ofRoot treeCatalog.store 1 = .ok treeGraph ∧
    treeCatalog.store.node? 1 = some (.list .write 0) ∧
    treeCatalog.store.node? 2 = some (.enumeration [⟨"x"⟩]) := by
  cbv
  exact ⟨rfl, rfl⟩

/-- The enumeration comes before the record, and the union stands beside the record. -/
theorem dependencies_come_first_tree : treeGraph.emissionOrder = [2, 0, 3] ∧
    [2, 0].Sublist treeGraph.emissionOrder ∧
    ∃ before group behind, treeGraph.emissionOrder = before ++ group ++ behind ∧
      ∀ b, b ∈ group ↔ b ∈ treeCatalog.store.Group 0 := by
  obtain ⟨hroot, hlist, henumeration⟩ := ofRoot_treeCatalog
  obtain ⟨graph, hgraph, -, -, hfirst, hblocks⟩ :=
    dependencies_come_first reachable_treeCatalog hlist
  cases hroot.symm.trans hgraph
  have horder : treeGraph.emissionOrder = [2, 0, 3] := by cbv
  have hrefers := ((Graph.mem_outgoing_iff hgraph).1 (show 2 ∈ treeGraph.outgoing 0 by decide)).2
  have hback : ¬treeCatalog.store.Below 2 0 := by
    intro hbelow
    rcases hbelow.cases_head with heq | ⟨child, ⟨node, hnode, hchild⟩, -⟩
    · cases heq
    · cases henumeration.symm.trans hnode
      cases hchild
  obtain ⟨before, group, behind, heq, -, hgroup⟩ := hblocks 0 (by rw [horder]; decide)
  refine ⟨horder, ?_, before, group, behind, heq, hgroup⟩
  exact hfirst 0 (by rw [horder]; decide) 2 (by rw [horder]; decide) hrefers.toBelow hback

/-- For every node below the root that is referred to by id, its dependencies are the nodes that it
refers to past what is written inline, each once and in ascending order, and it is recursive exactly
if a way leads from it back to itself.  The recursion groups have each of the recursive nodes once,
together with the nodes that recur with it. -/
theorem references_and_recursion (h : Reachable catalog)
    (hroot : catalog.store.node? root = some node) :
    ∃ graph, Graph.ofRoot catalog.store root = .ok graph ∧
      (∀ handle ∈ catalog.store.ReferredBelow root,
        (graph.dependencies handle).Pairwise (· < ·) ∧
        (∀ target, target ∈ graph.dependencies handle ↔ catalog.store.Refers handle target) ∧
        (graph.isRecursive handle = true ↔
          Relation.TransGen catalog.store.IsChild handle handle)) ∧
      [] ∉ graph.recursionGroups ∧ graph.recursionGroups.flatten.Nodup ∧
      (∀ handle, handle ∈ graph.recursionGroups.flatten ↔
        handle ∈ catalog.store.ReferredBelow root ∧
          Relation.TransGen catalog.store.IsChild handle handle) ∧
      ∀ group ∈ graph.recursionGroups, ∀ a ∈ group, ∀ b,
        b ∈ group ↔ b ∈ catalog.store.Group a := by
  have hstore := h.sound.store
  have hlt := Store.lt_size_of_node? hroot
  obtain ⟨graph, hgraph, -, hnodes⟩ := Graph.exists_ofRoot hstore hlt
  obtain ⟨hnonempty, honce, hrecursive, hgroups⟩ := Graph.recursionGroups_spec hstore hlt hgraph
  refine ⟨graph, hgraph, fun handle hhandle => ?_, hnonempty, honce, fun handle => ?_, hgroups⟩
  · have hmem := (hnodes handle).2 hhandle
    obtain ⟨hascending, hdependencies⟩ := Graph.dependencies_spec hgraph handle
    refine ⟨hascending, fun target => (hdependencies target).trans (and_iff_right hmem), ?_⟩
    rw [Graph.isRecursive_iff, hrecursive, and_iff_right hmem]
  · rw [hrecursive, hnodes]
    rfl

/-- The record refers to itself, from within a list, and recurs with the union.  The enumeration
does not recur. -/
theorem references_and_recursion_tree : treeGraph.dependencies 0 = [0, 2, 3] ∧
    treeCatalog.store.Refers 0 0 ∧ treeGraph.recursionGroups = [[0, 3]] ∧
    3 ∈ treeCatalog.store.Group 0 ∧
    ¬Relation.TransGen treeCatalog.store.IsChild 2 2 := by
  obtain ⟨hroot, hlist, -⟩ := ofRoot_treeCatalog
  obtain ⟨graph, hgraph, hnodes, -, -, -, hgroups⟩ :=
    references_and_recursion reachable_treeCatalog hlist
  cases hroot.symm.trans hgraph
  obtain ⟨-, hmem⟩ := Graph.nodes_of_ofRoot reachable_treeCatalog.sound.store
    (Store.lt_size_of_node? hlist) hgraph
  have hdependencies : treeGraph.dependencies 0 = [0, 2, 3] := by cbv
  have hrecursion : treeGraph.recursionGroups = [[0, 3]] := by cbv
  obtain ⟨-, hrefers, -⟩ := hnodes 0 ((hmem 0).1 (by decide))
  obtain ⟨-, -, hrecursive⟩ := hnodes 2 ((hmem 2).1 (by decide))
  refine ⟨hdependencies, (hrefers 0).1 (by rw [hdependencies]; decide), hrecursion, ?_, ?_⟩
  · exact (hgroups [0, 3] (by rw [hrecursion]; decide) 0 (by decide) 3).1 (by decide)
  · rw [← hrecursive, Graph.isRecursive, hrecursion]
    decide

end WireSchema.Catalog

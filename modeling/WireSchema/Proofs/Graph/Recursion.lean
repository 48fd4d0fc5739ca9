/-
# Dependencies and recursion

The graph under a root notes every reference once, so the dependencies of a node are its
references in ascending order.  A node leads back to itself if it refers to itself or if another
node recurs with it.  The recursion groups are the components where that is so: every node that
leads back to itself is in exactly one of them, together with just those that recur with it.
-/

import WireSchema.Proofs.Graph.EmissionOrder

namespace WireSchema

namespace Store

variable {store : Store} {handle target : Handle} {node : Node Name Handle}

/-- The way to a node that is referred to by id leads through a nearest such node. -/
theorem Below.exists_nearest (h : store.Below handle target)
    (hnode : store.node? target = some node) (hreference : node.isByReference = true) :
    ∃ nearest, store.Nearest handle nearest ∧ store.Below nearest target := by
  induction h using Relation.ReflTransGen.head_induction_on with
  | refl => exact ⟨target, .here hnode hreference, .refl⟩
  | @head parent child hchild hbelow ih =>
      obtain ⟨found, hfound, hmem⟩ := hchild
      cases hparent : found.isByReference with
      | true => exact ⟨parent, .here hfound hparent, .head ⟨found, hfound, hmem⟩ hbelow⟩
      | false =>
          obtain ⟨nearest, hnearest, hrest⟩ := ih
          exact ⟨nearest, .inline ⟨found, hfound, hparent, hmem⟩ hnearest, hrest⟩

theorem Refers.transGen (h : store.Refers handle target) :
    Relation.TransGen store.IsChild handle target := by
  obtain ⟨child, hchild, hnearest⟩ := h
  exact .head' hchild hnearest.toBelow

/-- A node leads back to itself if it refers to itself or another node recurs with it. -/
theorem transGen_isChild_iff (hnode : store.node? handle = some node)
    (hreference : node.isByReference = true) :
    Relation.TransGen store.IsChild handle handle ↔
      store.Refers handle handle ∨ ∃ other ∈ store.Group handle, other ≠ handle := by
  constructor
  · intro hcycle
    obtain ⟨child, hchild, hbelow⟩ := Relation.TransGen.head'_iff.1 hcycle
    obtain ⟨nearest, hnearest, hback⟩ := Below.exists_nearest hbelow hnode hreference
    by_cases heq : nearest = handle
    · exact .inl ⟨child, hchild, heq ▸ hnearest⟩
    · exact .inr ⟨nearest, ⟨.head hchild hnearest.toBelow, hback, hnearest.exists_node⟩, heq⟩
  · rintro (hrefers | ⟨other, ⟨hto, hback, -⟩, hne⟩)
    · exact hrefers.transGen
    · exact ((Relation.reflTransGen_iff_eq_or_transGen.1 hto).resolve_left hne).trans_left hback

end Store

namespace Graph

variable {store : Store} {root handle target : Handle} {graph : Graph}
variable {nodes nodes' pending component group : List Handle}
variable {edges edges' : List (Handle × Handle)}

/-- What holds while the graph is explored: the pending nodes are among those that have been found,
each once, and the edges that have been noted, each once, begin at the others. -/
structure Noted (nodes pending : List Handle) (edges : List (Handle × Handle)) : Prop where
  pending_subset : ∀ handle ∈ pending, handle ∈ nodes
  nodup_pending : pending.Nodup
  source : ∀ edge ∈ edges, edge.1 ∈ nodes ∧ edge.1 ∉ pending
  nodup_edges : edges.Nodup

/-- Exploring a node notes its edges, which are new because the node was pending. -/
theorem Noted.step {found : List Handle} (h : Noted nodes (handle :: pending) edges)
    (hfound : found.Nodup) :
    Noted (nodes ++ found.filter fun target => target ∉ nodes)
      ((found.filter fun target => target ∉ nodes).reverse ++ pending)
      (edges ++ found.map fun target => (handle, target)) := by
  obtain ⟨hhandle, hpending⟩ := List.forall_mem_cons.1 h.pending_subset
  obtain ⟨hfresh, hnodup⟩ := List.nodup_cons.1 h.nodup_pending
  have hnew : ∀ other ∈ (found.filter fun target => target ∉ nodes).reverse, other ∉ nodes :=
    fun other hother => of_decide_eq_true (List.mem_filter.1 (List.mem_reverse.1 hother)).2
  refine ⟨fun other hother => ?_, ?_, fun edge hedge => ?_, ?_⟩
  · rcases List.mem_append.1 hother with hother | hother
    · exact List.mem_append_right _ (List.mem_reverse.1 hother)
    · exact List.mem_append_left _ (hpending other hother)
  · refine (List.nodup_reverse.2 (hfound.filter _)).append hnodup fun other hother hwaiting => ?_
    exact hnew other hother (hpending other hwaiting)
  · have hsource : edge.1 ∈ nodes ∧ edge.1 ∉ pending := by
      rcases List.mem_append.1 hedge with hedge | hedge
      · exact (h.source edge hedge).imp_right fun hnot hwaiting =>
          hnot (List.mem_cons_of_mem _ hwaiting)
      · obtain ⟨target, -, rfl⟩ := List.mem_map.1 hedge
        exact ⟨hhandle, hfresh⟩
    refine ⟨List.mem_append_left _ hsource.1, fun hwaiting => ?_⟩
    rcases List.mem_append.1 hwaiting with hwaiting | hwaiting
    · exact hnew _ hwaiting hsource.1
    · exact hsource.2 hwaiting
  · refine h.nodup_edges.append (hfound.map fun _ _ heq => congrArg Prod.snd heq) ?_
    intro edge hold hedge
    obtain ⟨target, -, rfl⟩ := List.mem_map.1 hedge
    exact (h.source _ hold).2 List.mem_cons_self

/-- Every node is explored once, so no edge is noted twice. -/
theorem Noted.nodup_edges_of_explore (hnoted : Noted nodes pending edges)
    (h : explore store nodes edges pending = .ok (nodes', edges')) : edges'.Nodup := by
  induction nodes, edges, pending using explore.induct store with
  | case1 nodes edges =>
      rw [explore] at h
      cases h
      exact hnoted.nodup_edges
  | case2 nodes edges handle pending error herror =>
      obtain ⟨found, hfound, -⟩ := exists_targets_of_explore h
      cases herror.symm.trans hfound
  | case3 nodes edges handle pending found hfound ih =>
      rw [explore_cons hfound] at h
      exact ih (hnoted.step (targets_spec hfound).1) h

theorem nodup_outgoing (h : ofRoot store root = .ok graph) (handle : Handle) :
    (graph.outgoing handle).Nodup := by
  obtain ⟨nearest, -, hexplore⟩ := exists_explore_of_ofRoot h
  have hstart : Noted nearest.eraseDups nearest.eraseDups.reverse [] :=
    ⟨fun _ h => List.mem_reverse.1 h, List.nodup_reverse.2 (nodup_eraseDups _), nofun, .nil⟩
  have hedges := hstart.nodup_edges_of_explore hexplore
  refine List.nodup_reverse.2 ((hedges.filter _).map_on fun edge hedge edge' hedge' heq => ?_)
  have hfrom := of_decide_eq_true (List.mem_filter.1 hedge).2
  have hfrom' := of_decide_eq_true (List.mem_filter.1 hedge').2
  exact Prod.ext (hfrom.trans hfrom'.symm) heq

/-- The dependencies of a node are what it refers to, in ascending order. -/
theorem dependencies_spec (h : ofRoot store root = .ok graph) (handle : Handle) :
    (graph.dependencies handle).Pairwise (· < ·) ∧
      ∀ target, target ∈ graph.dependencies handle ↔
        handle ∈ graph.nodes ∧ store.Refers handle target :=
  ⟨pairwise_lt_ascending (nodup_outgoing h handle),
    fun _ => mem_ascending.trans (mem_outgoing_iff h)⟩

/-- The nodes of a component that recurs are those that lead back to themselves. -/
theorem recurs_iff (h : store.Sound) (hroot : root < store.size)
    (hgraph : ofRoot store root = .ok graph) (hcomponent : component ∈ graph.components)
    (hhandle : handle ∈ component) :
    graph.recurs component = true ↔ Relation.TransGen store.IsChild handle handle := by
  obtain ⟨hnodup, hnodes⟩ := nodes_of_ofRoot h hroot hgraph
  have hmem := mem_nodes_of_mem_component hnodup hcomponent hhandle
  obtain ⟨-, node, hnode, hreference⟩ := (hnodes handle).1 hmem
  have hgroup : ∀ other, other ∈ component ↔ other ∈ store.Group handle := fun _ =>
    mem_component_iff h hroot hgraph hcomponent hhandle
  have hdistinct := nodup_component hnodup hcomponent
  rw [Store.transGen_isChild_iff hnode hreference]
  match component with
  | [only] =>
      obtain rfl := List.mem_singleton.1 hhandle
      rw [recurs, decide_eq_true_iff, mem_outgoing_iff hgraph, and_iff_right hmem]
      refine ⟨.inl, fun hrecurs => hrecurs.resolve_right ?_⟩
      rintro ⟨other, hother, hne⟩
      exact hne (List.mem_singleton.1 ((hgroup other).2 hother))
  | first :: second :: rest =>
      refine iff_of_true rfl (.inr ?_)
      have hne : first ≠ second := fun heq =>
        (List.nodup_cons.1 hdistinct).1 (heq ▸ List.mem_cons_self)
      by_cases heq : first = handle
      · exact ⟨second, (hgroup second).1 (by simp), fun hsecond => hne (heq.trans hsecond.symm)⟩
      · exact ⟨first, (hgroup first).1 (by simp), heq⟩

theorem mem_recursionGroups_iff :
    group ∈ graph.recursionGroups ↔ group ∈ graph.components ∧ graph.recurs group = true := by
  rw [recursionGroups, List.mem_mergeSort, List.mem_filter]

theorem isRecursive_iff :
    graph.isRecursive handle = true ↔ handle ∈ graph.recursionGroups.flatten := by
  simp [isRecursive]

/-- No node is in two recursion groups. -/
theorem nodup_flatten_recursionGroups (h : graph.emissionOrder.Nodup) :
    graph.recursionGroups.flatten.Nodup := by
  have hperm : graph.recursionGroups.Perm (graph.components.filter graph.recurs) :=
    List.mergeSort_perm _ _
  rw [hperm.flatten.nodup_iff]
  obtain ⟨hgroups, hdisjoint⟩ := List.nodup_flatten.1 h
  exact List.nodup_flatten.2 ⟨fun group hgroup => hgroups group (List.mem_filter.1 hgroup).1,
    hdisjoint.filter _⟩

/-- The recursion groups have the nodes below the root that are referred to by id and lead back to
themselves, and each has the nodes that recur with any one of them. -/
theorem recursionGroups_spec (h : store.Sound) (hroot : root < store.size)
    (hgraph : ofRoot store root = .ok graph) :
    [] ∉ graph.recursionGroups ∧ graph.recursionGroups.flatten.Nodup ∧
    (∀ handle, handle ∈ graph.recursionGroups.flatten ↔ handle ∈ graph.nodes ∧
      Relation.TransGen store.IsChild handle handle) ∧
    ∀ group ∈ graph.recursionGroups, ∀ handle ∈ group, ∀ other,
      other ∈ group ↔ other ∈ store.Group handle := by
  obtain ⟨hnodup, -⟩ := nodes_of_ofRoot h hroot hgraph
  have hperm := perm_emissionOrder hnodup
  refine ⟨fun hempty => ?_, nodup_flatten_recursionGroups (hperm.nodup_iff.2 hnodup), ?_, ?_⟩
  · exact (ordered_components hgraph hnodup).nonempty (mem_recursionGroups_iff.1 hempty).1
  · intro handle
    rw [List.mem_flatten]
    constructor
    · rintro ⟨group, hgroup, hhandle⟩
      obtain ⟨hcomponent, hrecurs⟩ := mem_recursionGroups_iff.1 hgroup
      exact ⟨mem_nodes_of_mem_component hnodup hcomponent hhandle,
        (recurs_iff h hroot hgraph hcomponent hhandle).1 hrecurs⟩
    · rintro ⟨hmem, hcycle⟩
      obtain ⟨component, hcomponent, hhandle⟩ := List.mem_flatten.1 (hperm.mem_iff.2 hmem)
      exact ⟨component, mem_recursionGroups_iff.2
        ⟨hcomponent, (recurs_iff h hroot hgraph hcomponent hhandle).2 hcycle⟩, hhandle⟩
  · intro group hgroup handle hhandle other
    exact mem_component_iff h hroot hgraph (mem_recursionGroups_iff.1 hgroup).1 hhandle

end Graph

end WireSchema

/-
# The order in which elements are written

The edges of the graph under a root are the references of the store, so its components are
the groups of nodes that lead to each other, and what a group leads to comes before it.  A
root that is referred to by id leads to every node, so its own group comes last, and the
last of all nodes is the one of the greatest handle in that group.
-/

import Mathlib.Data.List.Sort
import Mathlib.Order.Bounds.Defs
import WireSchema.Proofs.Graph.Nodes
import WireSchema.Proofs.Graph.StrongComponents

namespace WireSchema

namespace Store

/-- The nodes that are referred to by id and recur with the root: each leads to the
other. -/
def Group (store : Store) (root : Handle) : Set Handle :=
  {handle | store.Below root handle ∧ store.Below handle root ∧
    ∃ node, store.node? handle = some node ∧ node.isByReference = true}

variable {store : Store} {root handle target : Handle} {node node' : Node Name Handle}

/-- What is below a node that is referred to by id is led to by references, if it is
referred to by id itself. -/
theorem Below.reflTransGen_refers (h : store.Below handle target)
    (hnode : store.node? handle = some node) (hreference : node.isByReference = true)
    (htarget : store.node? target = some node') (htargetReference : node'.isByReference = true) :
    Relation.ReflTransGen store.Refers handle target := by
  refine h.nearest_mem (fun nearest hnearest => ?_) (fun _ hpath _ hrefers => hpath.tail hrefers)
    target (.here htarget htargetReference)
  cases hnearest with
  | here => exact .refl
  | inline hinlines _ =>
      obtain ⟨other, hother, hinline, -⟩ := hinlines
      cases hnode.symm.trans hother
      rw [hreference] at hinline
      cases hinline

end Store

namespace Graph

variable {store : Store} {root handle target : Handle} {graph : Graph}
variable {nodes nodes' pending : List Handle} {edges edges' : List (Handle × Handle)}

/-- Edges are references, and nodes that are not pending have all of theirs. -/
theorem mem_edges_of_explore (hpending : ∀ handle ∈ pending, handle ∈ nodes)
    (hsound : ∀ edge ∈ edges, edge.1 ∈ nodes ∧ store.Refers edge.1 edge.2)
    (hdone : ∀ handle ∈ nodes, handle ∈ pending ∨
      ∀ target, store.Refers handle target → (handle, target) ∈ edges)
    (h : explore store nodes edges pending = .ok (nodes', edges')) :
    ∀ edge, edge ∈ edges' ↔ edge.1 ∈ nodes' ∧ store.Refers edge.1 edge.2 := by
  induction nodes, edges, pending using explore.induct store with
  | case1 nodes edges =>
      rw [explore] at h
      cases h
      refine fun edge => ⟨hsound edge, fun hedge => ?_⟩
      exact (hdone edge.1 hedge.1).resolve_left List.not_mem_nil edge.2 hedge.2
  | case2 nodes edges handle pending error herror =>
      obtain ⟨found, hfound, -⟩ := exists_targets_of_explore h
      cases herror.symm.trans hfound
  | case3 nodes edges handle pending found hfound ih =>
      rw [explore_cons hfound] at h
      have hrefers := (targets_spec hfound).2
      refine ih ?_ ?_ ?_ h
      · intro other hother
        rcases List.mem_append.1 hother with hother | hother
        · exact List.mem_append_right _ (List.mem_reverse.1 hother)
        · exact List.mem_append_left _ (hpending other (List.mem_cons_of_mem _ hother))
      · intro edge hedge
        rcases List.mem_append.1 hedge with hedge | hedge
        · exact (hsound edge hedge).imp_left (List.mem_append_left _)
        · obtain ⟨target, htarget, rfl⟩ := List.mem_map.1 hedge
          have hmem := hpending handle List.mem_cons_self
          exact ⟨List.mem_append_left _ hmem, (hrefers target).1 htarget⟩
      · intro other hother
        rcases List.mem_append.1 hother with hother | hother
        · rcases hdone other hother with hwaiting | hdone
          · rcases List.mem_cons.1 hwaiting with rfl | hwaiting
            · refine .inr fun target htarget => List.mem_append_right _ ?_
              exact List.mem_map.2 ⟨target, (hrefers target).2 htarget, rfl⟩
            · exact .inl (List.mem_append_right _ hwaiting)
          · exact .inr fun target htarget => List.mem_append_left _ (hdone target htarget)
        · exact .inl (List.mem_append_left _ (List.mem_reverse.2 hother))

/-- A node has an edge to what it refers to. -/
theorem mem_outgoing_iff (h : ofRoot store root = .ok graph) :
    target ∈ graph.outgoing handle ↔ handle ∈ graph.nodes ∧ store.Refers handle target := by
  obtain ⟨nearest, -, hexplore⟩ := exists_explore_of_ofRoot h
  have hedges := mem_edges_of_explore (fun _ h => List.mem_reverse.1 h)
    (fun _ h => absurd h List.not_mem_nil) (fun _ h => .inl (List.mem_reverse.2 h)) hexplore
  simp only [outgoing, List.mem_reverse, List.mem_map, List.mem_filter, decide_eq_true_eq]
  constructor
  · rintro ⟨edge, ⟨hedge, rfl⟩, rfl⟩
    exact (hedges edge).1 hedge
  · rintro h
    exact ⟨(handle, target), ⟨(hedges (handle, target)).2 h, rfl⟩, rfl⟩

theorem mem_incoming_iff : handle ∈ graph.incoming target ↔ target ∈ graph.outgoing handle := by
  simp only [incoming, outgoing, List.mem_reverse, List.mem_map, List.mem_filter,
    decide_eq_true_eq]
  constructor
  · rintro ⟨edge, ⟨hedge, rfl⟩, rfl⟩
    exact ⟨edge, ⟨hedge, rfl⟩, rfl⟩
  · rintro ⟨edge, ⟨hedge, rfl⟩, rfl⟩
    exact ⟨edge, ⟨hedge, rfl⟩, rfl⟩

theorem mem_ascending {handles : List Handle} : handle ∈ ascending handles ↔ handle ∈ handles :=
  List.mem_mergeSort

theorem pairwise_ascending (handles : List Handle) :
    (ascending handles).Pairwise fun a b => a ≤ b := by
  refine List.Pairwise.imp of_decide_eq_true (List.pairwise_mergeSort (fun a b c => ?_)
    (fun a b => ?_) handles)
  · simpa using Nat.le_trans
  · simpa using Nat.le_total a b

/-- Handles that are put in order are strictly ascending if none occurs twice. -/
theorem pairwise_lt_ascending {handles : List Handle} (h : handles.Nodup) :
    (ascending handles).Pairwise (· < ·) := by
  have hnodup : (ascending handles).Nodup := (List.mergeSort_perm handles _).nodup_iff.2 h
  exact ((pairwise_ascending handles).and hnodup).imp fun hle => Nat.lt_of_le_of_ne hle.1 hle.2

/-- The components of the graph under a root are in order. -/
theorem ordered_components (h : ofRoot store root = .ok graph) (hnodup : graph.nodes.Nodup) :
    Components.Ordered graph.outgoing graph.components := by
  have hordered : Components.Ordered graph.outgoing
      (Components.components graph.nodes graph.outgoing graph.incoming) :=
    Components.ordered_components hnodup (fun _ _ => mem_incoming_iff)
      fun _ _ hmem => ((mem_outgoing_iff h).1 hmem).1
  refine ⟨fun hmem => ?_, fun component hmem handle hhandle other => ?_, ?_⟩
  · obtain ⟨component, hcomponent, hempty⟩ := List.mem_map.1 hmem
    have hlength := congrArg List.length hempty
    rw [ascending, List.length_mergeSort] at hlength
    exact hordered.nonempty (List.eq_nil_of_length_eq_zero hlength ▸ hcomponent)
  · obtain ⟨component, hcomponent, rfl⟩ := List.mem_map.1 hmem
    rw [mem_ascending] at hhandle ⊢
    exact hordered.strong component hcomponent handle hhandle other
  · rw [components, List.pairwise_map]
    refine hordered.later.imp fun hlater u hu v hv => ?_
    exact hlater u (mem_ascending.1 hu) v (mem_ascending.1 hv)

/-- Among the nodes of the graph, edges lead to what is below. -/
theorem path_outgoing_iff (hgraph : ofRoot store root = .ok graph)
    (hmem : ∀ handle, handle ∈ graph.nodes ↔ store.Below root handle ∧
      ∃ node, store.node? handle = some node ∧ node.isByReference = true)
    (hhandle : handle ∈ graph.nodes) (htarget : target ∈ graph.nodes) :
    Components.Path graph.outgoing handle target ↔ store.Below handle target := by
  constructor
  · intro hpath
    induction hpath with
    | refl => exact .refl
    | tail _ hedge ih =>
        obtain ⟨hmiddle, hrefers⟩ := (mem_outgoing_iff hgraph).1 hedge
        exact (ih hmiddle).trans hrefers.toBelow
  · intro hbelow
    obtain ⟨hroot, node, hnode, hreference⟩ := (hmem handle).1 hhandle
    obtain ⟨-, other, hother, hotherReference⟩ := (hmem target).1 htarget
    have hpath := hbelow.reflTransGen_refers hnode hreference hother hotherReference
    clear hbelow hother htarget
    induction hpath with
    | refl => exact .refl
    | tail hpath hrefers ih =>
        have hmiddle := Store.Nearest.toBelow_of_refers (.here hnode hreference) hpath
        have hnodes := (hmem _).2 ⟨hroot.trans hmiddle.1, hmiddle.2⟩
        exact ih.tail ((mem_outgoing_iff hgraph).2 ⟨hnodes, hrefers⟩)

/-- The nodes of a component are those that recur with any one of them. -/
theorem mem_component_iff (h : store.Sound) (hroot : root < store.size)
    (hgraph : ofRoot store root = .ok graph) {component : List Handle}
    (hcomponent : component ∈ graph.components) (hhandle : handle ∈ component) :
    target ∈ component ↔ target ∈ store.Group handle := by
  obtain ⟨hnodup, hmem⟩ := nodes_of_ofRoot h hroot hgraph
  have hnodes : ∀ {other}, other ∈ component → other ∈ graph.nodes :=
    mem_nodes_of_mem_component hnodup hcomponent
  have hself := hnodes hhandle
  have hstrong := (ordered_components hgraph hnodup).strong component hcomponent handle hhandle
  rw [hstrong target]
  constructor
  · rintro ⟨hto, hback⟩
    have htarget := hnodes ((hstrong target).2 ⟨hto, hback⟩)
    exact ⟨(path_outgoing_iff hgraph hmem hself htarget).1 hto,
      (path_outgoing_iff hgraph hmem htarget hself).1 hback, ((hmem target).1 htarget).2⟩
  · rintro ⟨hbelow, hback, hreferred⟩
    have htarget := (hmem target).2 ⟨((hmem handle).1 hself).1.trans hbelow, hreferred⟩
    exact ⟨(path_outgoing_iff hgraph hmem hself htarget).2 hbelow,
      (path_outgoing_iff hgraph hmem htarget hself).2 hback⟩

/-- What leads to a node that comes later is led to by it in turn. -/
theorem pairwise_emissionOrder (h : store.Sound) (hroot : root < store.size)
    (hgraph : ofRoot store root = .ok graph) :
    graph.emissionOrder.Pairwise fun earlier later =>
      store.Below earlier later → store.Below later earlier := by
  obtain ⟨hnodup, hmem⟩ := nodes_of_ofRoot h hroot hgraph
  have hordered := ordered_components hgraph hnodup
  rw [emissionOrder, List.pairwise_flatten]
  constructor
  · intro component hcomponent
    refine List.pairwise_of_forall_mem_list fun a ha b hb _ => ?_
    exact ((mem_component_iff h hroot hgraph hcomponent hb).1 ha).1
  · refine hordered.later.imp_of_mem fun {first second} hfirst hsecond hlater a ha b hb hbelow => ?_
    have hpath := (path_outgoing_iff hgraph hmem (mem_nodes_of_mem_component hnodup hfirst ha)
      (mem_nodes_of_mem_component hnodup hsecond hb)).2 hbelow
    exact absurd hpath (hlater a ha b hb)

/-- Of two items of a list, the one that may not come first comes second. -/
theorem sublist_of_pairwise {α : Type} {R : α → α → Prop} {items : List α} {a b : α}
    (h : items.Pairwise R) (ha : a ∈ items) (hb : b ∈ items) (hne : a ≠ b) (hab : ¬R a b) :
    [b, a].Sublist items := by
  obtain ⟨before, behind, rfl⟩ := List.append_of_mem ha
  rcases List.mem_append.1 hb with hb | hb
  · exact (List.singleton_sublist.2 hb).append (List.singleton_sublist.2 List.mem_cons_self)
  · have hbehind := (List.mem_cons.1 hb).resolve_left (Ne.symm hne)
    exact absurd ((List.pairwise_cons.1 (List.pairwise_append.1 h).2.1).1 b hbehind) hab

/-- Nodes that recur with each other stand together, in ascending order. -/
theorem exists_emissionOrder_eq_append (h : store.Sound) (hroot : root < store.size)
    (hgraph : ofRoot store root = .ok graph) (hhandle : handle ∈ graph.emissionOrder) :
    ∃ before group behind, graph.emissionOrder = before ++ group ++ behind ∧
      group.Pairwise (· < ·) ∧ ∀ other, other ∈ group ↔ other ∈ store.Group handle := by
  obtain ⟨hnodup, -⟩ := nodes_of_ofRoot h hroot hgraph
  obtain ⟨group, hgroup, hmem⟩ := List.mem_flatten.1 hhandle
  obtain ⟨before, behind, hsplit⟩ := List.append_of_mem hgroup
  refine ⟨before.flatten, group, behind.flatten, ?_, ?_, fun _ =>
    mem_component_iff h hroot hgraph hgroup hmem⟩
  · rw [emissionOrder, hsplit, List.flatten_append, List.flatten_cons, List.append_assoc]
  · have hdistinct := nodup_component hnodup hgroup
    obtain ⟨component, -, rfl⟩ := List.mem_map.1 hgroup
    exact pairwise_lt_ascending ((List.mergeSort_perm component _).nodup_iff.1 hdistinct)

/-- A root that is referred to by id comes in the last component, which has just the nodes
that recur with it. -/
theorem exists_components_eq (h : store.Sound) {node : Node Name Handle}
    (hnode : store.node? root = some node) (hreference : node.isByReference = true)
    (hgraph : ofRoot store root = .ok graph) :
    ∃ before group, graph.components = before ++ [group] ∧
      ∀ handle, handle ∈ group ↔ handle ∈ store.Group root := by
  obtain ⟨hnodup, hmem⟩ := nodes_of_ofRoot h (Store.lt_size_of_node? hnode) hgraph
  have hordered := ordered_components hgraph hnodup
  have hself : root ∈ graph.nodes := (hmem root).2 ⟨.refl, node, hnode, hreference⟩
  have hpath : ∀ handle ∈ graph.nodes, Components.Path graph.outgoing root handle :=
    fun handle hhandle =>
      (path_outgoing_iff hgraph hmem hself hhandle).2 ((hmem handle).1 hhandle).1
  obtain ⟨own, hown, hrootOwn⟩ :=
    List.mem_flatten.1 ((perm_emissionOrder hnodup).symm.subset hself)
  rcases List.eq_nil_or_concat graph.components with hempty | ⟨before, last, hcomponents⟩
  · rw [hempty] at hown
    cases hown
  rw [List.concat_eq_append] at hcomponents
  have hlast : last ∈ graph.components := by simp [hcomponents]
  -- the root leads to the last component, so it is in none before it
  obtain rfl : own = last := by
    have hlater := hordered.later
    rw [hcomponents, List.pairwise_append] at hlater
    rw [hcomponents, List.mem_append, List.mem_singleton] at hown
    refine hown.resolve_left fun hbefore => ?_
    obtain ⟨handle, hhandle⟩ := List.exists_mem_of_ne_nil last fun heq =>
      hordered.nonempty (heq ▸ hlast)
    exact hlater.2.2 own hbefore last (by simp) root hrootOwn handle hhandle
      (hpath handle (mem_nodes_of_mem_component hnodup hlast hhandle))
  exact ⟨before, own, hcomponents, fun _ =>
    mem_component_iff h (Store.lt_size_of_node? hnode) hgraph hlast hrootOwn⟩

/-- The last node is the one of the greatest handle among those that recur with the root. -/
theorem exists_emissionOrder_eq (h : store.Sound) {node : Node Name Handle}
    (hnode : store.node? root = some node) (hreference : node.isByReference = true)
    (hgraph : ofRoot store root = .ok graph) :
    ∃ before last, graph.emissionOrder = before ++ [last] ∧ IsGreatest (store.Group root) last := by
  obtain ⟨before, group, hcomponents, hgroup⟩ := exists_components_eq h hnode hreference hgraph
  have hsorted : group.Pairwise fun a b => a ≤ b := by
    have hmem : group ∈ graph.components := by simp [hcomponents]
    obtain ⟨component, -, rfl⟩ := List.mem_map.1 hmem
    exact pairwise_ascending component
  rcases List.eq_nil_or_concat group with rfl | ⟨smaller, last, rfl⟩
  · have hself : root ∈ ([] : List Handle) :=
      (hgroup root).2 ⟨.refl, .refl, node, hnode, hreference⟩
    cases hself
  rw [List.concat_eq_append] at hcomponents hgroup hsorted
  refine ⟨before.flatten ++ smaller, last, ?_, (hgroup last).1 (by simp), fun handle hhandle => ?_⟩
  · simp [emissionOrder, hcomponents]
  · rcases List.mem_append.1 ((hgroup handle).2 hhandle) with hsmaller | hlast
    · exact (List.pairwise_append.1 hsorted).2.2 handle hsmaller last (by simp)
    · rw [List.mem_singleton.1 hlast]

end Graph

end WireSchema

/-
# The nodes of the graph under a root

Following references from a root finds every node below the root that is referred to by
id, each once, and nothing else.  The order in which their elements are written has the
same nodes.
-/

import Mathlib.Logic.Relation
import WireSchema.Graph
import WireSchema.Proofs.Graph.Components
import WireSchema.Proofs.Node.Recursion
import WireSchema.Proofs.Store.Written

namespace WireSchema

/-- What is left when repetitions are erased has none. -/
theorem nodup_eraseDups {α : Type} [DecidableEq α] (items : List α) : items.eraseDups.Nodup := by
  cases items with
  | nil => exact List.nodup_nil
  | cons item items =>
      have hshorter := List.length_filter_le (fun other => !other == item) items
      rw [List.eraseDups_cons, List.nodup_cons]
      refine ⟨fun hmem => ?_, nodup_eraseDups _⟩
      have hother := (List.mem_filter.1 (List.mem_eraseDups.1 hmem)).2
      simp at hother
termination_by items.length
decreasing_by exact Nat.lt_succ_of_le hshorter

namespace Store

/-- The first node leads to the second. -/
abbrev Below (store : Store) (root handle : Handle) : Prop :=
  Relation.ReflTransGen store.IsChild root handle

/-- The first node refers to the second by id, directly or from within what is written
inline. -/
def Refers (store : Store) (handle target : Handle) : Prop :=
  ∃ child, store.IsChild handle child ∧ store.Nearest child target

variable {store : Store} {root handle target : Handle}

theorem Inlines.isChild {child parent : Handle} (h : store.Inlines child parent) :
    store.IsChild parent child := by
  obtain ⟨node, hnode, -, hchild⟩ := h
  exact ⟨node, hnode, hchild⟩

theorem Nearest.toBelow (h : store.Nearest handle target) : store.Below handle target := by
  induction h with
  | here => exact .refl
  | inline hinlines _ ih => exact .head hinlines.isChild ih

theorem Refers.toBelow (h : store.Refers handle target) : store.Below handle target := by
  obtain ⟨child, hchild, hnearest⟩ := h
  exact .head hchild hnearest.toBelow

/-- References lead from a nearest node to nodes below that are referred to by id. -/
theorem Nearest.toBelow_of_refers {start : Handle} (h : store.Nearest root start)
    (hpath : Relation.ReflTransGen store.Refers start handle) :
    store.Below root handle ∧
      ∃ node, store.node? handle = some node ∧ node.isByReference = true := by
  induction hpath with
  | refl => exact ⟨h.toBelow, h.exists_node⟩
  | tail _ hrefers ih =>
      have hbelow := ih.1.trans hrefers.toBelow
      obtain ⟨child, -, hnearest⟩ := hrefers
      exact ⟨hbelow, hnearest.exists_node⟩

theorem Below.lt_size (h : store.Below root handle) (hregular : store.Regular)
    (hroot : root < store.size) : handle < store.size := by
  induction h with
  | refl => exact hroot
  | tail _ hchild _ =>
      obtain ⟨node, hnode, hchild⟩ := hchild
      exact hregular.children_lt hnode _ hchild

theorem Below.finite (h : store.Below root handle) (hfinite : Layering.Finite store.node? root) :
    Layering.Finite store.node? handle := by
  induction h with
  | refl => exact hfinite
  | tail _ hchild ih =>
      obtain ⟨node, hnode, hmem⟩ := hchild
      obtain ⟨known, below⟩ := ih
      cases hnode.symm.trans known
      exact below _ hmem

/-- A set that has the nearest nodes to the root, and all that its nodes refer to, has the
nearest nodes to everything below the root. -/
theorem Below.nearest_mem {inside : Handle → Prop} (h : store.Below root handle)
    (hroot : ∀ target, store.Nearest root target → inside target)
    (hclosed : ∀ node, inside node → ∀ target, store.Refers node target → inside target) :
    ∀ target, store.Nearest handle target → inside target := by
  induction h with
  | refl => exact hroot
  | @tail parent child _ hchild ih =>
      intro target htarget
      obtain ⟨node, hnode, hmem⟩ := hchild
      cases hreference : node.isByReference with
      | true =>
          have hparent := ih parent (.here hnode hreference)
          exact hclosed parent hparent target ⟨child, ⟨node, hnode, hmem⟩, htarget⟩
      | false => exact ih target (.inline ⟨node, hnode, hreference, hmem⟩ htarget)

end Store

namespace Graph

variable {store : Store} {root handle target : Handle}
variable {nodes nodes' pending : List Handle} {edges edges' : List (Handle × Handle)}

theorem targets_spec {found : List Handle} (h : targets store handle = .ok found) :
    found.Nodup ∧ ∀ target, target ∈ found ↔ store.Refers handle target := by
  simp only [targets, bind, Except.bind] at h
  split at h <;> cases h
  next successors hsuccessors =>
    refine ⟨nodup_eraseDups _, fun target => ?_⟩
    rw [List.mem_eraseDups]
    exact Store.mem_successors_iff hsuccessors

theorem explore_cons {found : List Handle} (h : targets store handle = .ok found) :
    explore store nodes edges (handle :: pending) =
      explore store (nodes ++ found.filter fun target => target ∉ nodes)
        (edges ++ found.map fun target => (handle, target))
        ((found.filter fun target => target ∉ nodes).reverse ++ pending) := by
  rw [explore]
  split
  next error herror =>
    rw [h] at herror
    cases herror
  next other hother =>
    cases h.symm.trans hother
    rfl

theorem explore_of_error {error : Error} (h : targets store handle = .error error) :
    explore store nodes edges (handle :: pending) = .error error := by
  rw [explore]
  split
  next other hother =>
    cases h.symm.trans hother
    rfl
  next found hfound => cases h.symm.trans hfound

/-- Exploring succeeds only if the node has targets. -/
theorem exists_targets_of_explore {result : List Handle × List (Handle × Handle)}
    (h : explore store nodes edges (handle :: pending) = .ok result) :
    ∃ found, targets store handle = .ok found ∧
      explore store (nodes ++ found.filter fun target => target ∉ nodes)
        (edges ++ found.map fun target => (handle, target))
        ((found.filter fun target => target ∉ nodes).reverse ++ pending) = .ok result := by
  cases hfound : targets store handle with
  | error error =>
      rw [explore_of_error hfound] at h
      cases h
  | ok found => exact ⟨found, rfl, (explore_cons hfound).symm.trans h⟩

theorem exists_explore (nodes : List Handle) (edges : List (Handle × Handle))
    (hsound : store.Sound) (hlt : ∀ handle ∈ pending, handle < store.size) :
    ∃ result, explore store nodes edges pending = .ok result := by
  induction nodes, edges, pending using explore.induct store with
  | case1 nodes edges => exact ⟨(nodes, edges), by rw [explore]⟩
  | case2 nodes edges handle pending error herror =>
      obtain ⟨successors, hsuccessors⟩ :=
        Store.exists_successors hsound (hlt handle List.mem_cons_self)
      simp only [targets, bind, Except.bind, hsuccessors] at herror
      cases herror
  | case3 nodes edges handle pending found hfound ih =>
      rw [explore_cons hfound]
      apply ih
      intro other hother
      rcases List.mem_append.1 hother with hother | hother
      · have hmem := (List.mem_filter.1 (List.mem_reverse.1 hother)).1
        obtain ⟨node, hnode⟩ := node?_of_mem_targets hfound hmem
        exact Store.lt_size_of_node? hnode
      · exact hlt other (List.mem_cons_of_mem _ hother)

/-- What a finished exploration has found: the nodes that it began with, all that they refer
to, and no more. -/
structure Explored (store : Store) (nodes nodes' : List Handle) : Prop where
  nodup : nodes'.Nodup
  subset : ∀ handle ∈ nodes, handle ∈ nodes'
  closed : ∀ handle ∈ nodes', ∀ target, store.Refers handle target → target ∈ nodes'
  reached : ∀ handle ∈ nodes', ∃ start ∈ nodes,
    Relation.ReflTransGen store.Refers start handle

/-- All nodes but the pending ones have what they refer to among the nodes. -/
theorem explored_of_explore (hnodup : nodes.Nodup)
    (hpending : ∀ handle ∈ pending, handle ∈ nodes)
    (hdone : ∀ handle ∈ nodes, handle ∈ pending ∨
      ∀ target, store.Refers handle target → target ∈ nodes)
    (h : explore store nodes edges pending = .ok (nodes', edges')) :
    Explored store nodes nodes' := by
  induction nodes, edges, pending using explore.induct store with
  | case1 nodes edges =>
      rw [explore] at h
      cases h
      refine ⟨hnodup, fun _ h => h, fun handle hmem => ?_, fun handle hmem => ⟨handle, hmem, .refl⟩⟩
      exact (hdone handle hmem).resolve_left List.not_mem_nil
  | case2 nodes edges handle pending error herror =>
      obtain ⟨found, hfound, -⟩ := exists_targets_of_explore h
      cases herror.symm.trans hfound
  | case3 nodes edges handle pending found hfound ih =>
      rw [explore_cons hfound] at h
      obtain ⟨hfoundNodup, hrefers⟩ := targets_spec hfound
      have hfresh : ∀ target, target ∈ found.filter (fun target => target ∉ nodes) ↔
          store.Refers handle target ∧ target ∉ nodes := fun target => by
        rw [List.mem_filter, hrefers, decide_eq_true_eq]
      have hexplored := ih ?_ ?_ ?_ h
      · refine ⟨hexplored.nodup, fun other hother => ?_, hexplored.closed, fun other hother => ?_⟩
        · exact hexplored.subset other (List.mem_append_left _ hother)
        · obtain ⟨start, hstart, hpath⟩ := hexplored.reached other hother
          rcases List.mem_append.1 hstart with hstart | hstart
          · exact ⟨start, hstart, hpath⟩
          · have hrefers := ((hfresh start).1 hstart).1
            exact ⟨handle, hpending handle List.mem_cons_self, .head hrefers hpath⟩
      · apply hnodup.append (hfoundNodup.filter _)
        intro target hold hnew
        exact ((hfresh target).1 hnew).2 hold
      · intro other hother
        rcases List.mem_append.1 hother with hother | hother
        · exact List.mem_append_right _ (List.mem_reverse.1 hother)
        · exact List.mem_append_left _ (hpending other (List.mem_cons_of_mem _ hother))
      · intro other hother
        rcases List.mem_append.1 hother with hother | hother
        · rcases hdone other hother with hwaiting | hdone
          · rcases List.mem_cons.1 hwaiting with rfl | hwaiting
            · refine .inr fun target htarget => List.mem_append.2 ?_
              by_cases hold : target ∈ nodes
              · exact .inl hold
              · exact .inr ((hfresh target).2 ⟨htarget, hold⟩)
            · exact .inl (List.mem_append_right _ hwaiting)
          · exact .inr fun target htarget => List.mem_append_left _ (hdone target htarget)
        · exact .inl (List.mem_append_left _ (List.mem_reverse.2 hother))

/-- A graph has been explored from the nearest nodes to the root. -/
theorem exists_explore_of_ofRoot {graph : Graph} (h : ofRoot store root = .ok graph) :
    ∃ nearest, store.nearest root = .ok nearest ∧
      explore store nearest.eraseDups [] nearest.eraseDups.reverse =
        .ok (graph.nodes, graph.edges) := by
  simp only [ofRoot, bind, Except.bind] at h
  split at h
  · cases h
  next nearest hnearest =>
    split at h <;> cases h
    next result hresult => exact ⟨nearest, hnearest, hresult⟩

/-- The graph under a root has the nodes below it that are referred to by id, each once. -/
theorem exists_ofRoot (hsound : store.Sound) (hroot : root < store.size) :
    ∃ graph, ofRoot store root = .ok graph ∧ graph.nodes.Nodup ∧
      ∀ handle, handle ∈ graph.nodes ↔ store.Below root handle ∧
        ∃ node, store.node? handle = some node ∧ node.isByReference = true := by
  obtain ⟨nearest, hnearest⟩ := Store.exists_nearest hsound hroot
  have hentry : ∀ target, target ∈ nearest.eraseDups ↔ store.Nearest root target := fun target => by
    rw [List.mem_eraseDups, Store.mem_nearest_iff hnearest]
  have hlt : ∀ handle ∈ nearest.eraseDups.reverse, handle < store.size := fun handle hmem => by
    obtain ⟨node, hnode, -⟩ := ((hentry handle).1 (List.mem_reverse.1 hmem)).exists_node
    exact Store.lt_size_of_node? hnode
  obtain ⟨⟨nodes, edges⟩, hexplore⟩ := exists_explore nearest.eraseDups [] hsound hlt
  have hexplored := explored_of_explore (nodup_eraseDups _) (fun _ h => List.mem_reverse.1 h)
    (fun _ h => .inl (List.mem_reverse.2 h)) hexplore
  refine ⟨⟨nearest.eraseDups, nodes, edges⟩, ?_, hexplored.nodup, fun handle => ?_⟩
  · simp only [ofRoot, bind, Except.bind, hnearest, hexplore]
    rfl
  constructor
  · intro hmem
    obtain ⟨start, hstart, hpath⟩ := hexplored.reached handle hmem
    exact ((hentry start).1 hstart).toBelow_of_refers hpath
  · rintro ⟨hbelow, node, hnode, hreference⟩
    refine hbelow.nearest_mem (fun target htarget => ?_) hexplored.closed handle
      (.here hnode hreference)
    exact hexplored.subset target ((hentry target).2 htarget)

theorem nodes_of_ofRoot (hsound : store.Sound) (hroot : root < store.size) {graph : Graph}
    (h : ofRoot store root = .ok graph) :
    graph.nodes.Nodup ∧ ∀ handle, handle ∈ graph.nodes ↔ store.Below root handle ∧
      ∃ node, store.node? handle = some node ∧ node.isByReference = true := by
  obtain ⟨graph', hgraph', hnodes⟩ := exists_ofRoot hsound hroot
  cases h.symm.trans hgraph'
  exact hnodes

/-- Exploring depends on the nodes of the store alone. -/
theorem explore_congr {before after : Store}
    (htargets : ∀ handle, targets after handle = targets before handle) :
    explore after nodes edges pending = explore before nodes edges pending := by
  induction nodes, edges, pending using explore.induct before with
  | case1 nodes edges => rw [explore, explore]
  | case2 nodes edges handle pending error herror =>
      rw [explore_of_error herror, explore_of_error ((htargets handle).trans herror)]
  | case3 nodes edges handle pending found hfound ih =>
      rw [explore_cons hfound, explore_cons ((htargets handle).trans hfound), ih]

theorem ofRoot_congr {before after : Store} (hsize : after.size = before.size)
    (hnodes : ∀ handle, after.node? handle = before.node? handle) (root : Handle) :
    ofRoot after root = ofRoot before root := by
  have htargets : ∀ handle, targets after handle = targets before handle := fun handle => by
    rw [targets, Store.successors_congr hnodes hsize, targets]
  simp only [ofRoot, Store.nearest_congr hnodes hsize, explore_congr htargets]

/-- The order of elements has the nodes of the graph. -/
theorem perm_emissionOrder {graph : Graph} (hnodup : graph.nodes.Nodup) :
    graph.emissionOrder.Perm graph.nodes := by
  have hperm := Components.perm_components graph.outgoing graph.incoming hnodup
  refine List.Perm.trans ?_ hperm
  rw [emissionOrder, components, List.flatten_eq_flatMap, List.flatMap_map,
    List.flatten_eq_flatMap]
  exact List.Perm.flatMap_left _ fun component _ => List.mergeSort_perm component _

theorem mem_nodes_of_mem_component {graph : Graph} {component : List Handle}
    (hnodup : graph.nodes.Nodup) (hcomponent : component ∈ graph.components)
    (hhandle : handle ∈ component) : handle ∈ graph.nodes :=
  (perm_emissionOrder hnodup).subset (List.mem_flatten.2 ⟨component, hcomponent, hhandle⟩)

theorem nodup_component {graph : Graph} {component : List Handle} (hnodup : graph.nodes.Nodup)
    (hcomponent : component ∈ graph.components) : component.Nodup :=
  (List.nodup_flatten.1 ((perm_emissionOrder hnodup).nodup_iff.2 hnodup)).1 component hcomponent

end Graph

end WireSchema

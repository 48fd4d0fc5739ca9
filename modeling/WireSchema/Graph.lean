/-
# The graph of references

The nodes that can be reached from a root and are referred to by id, with an
edge wherever one refers to another, directly or from within what is written
inline.  The graph has exactly the nodes that get an element in a document; its
components give the order of the elements and the groups of nodes that recur.
-/

import WireSchema.Components
import WireSchema.Store.Equivalence
import WireSchema.Store.Unfold

namespace WireSchema

/-- References among nodes.  Nodes and edges are in the order of their
discovery. -/
structure Graph where
  /-- The nodes that the root refers to, or the root itself. -/
  entryPoints : List Handle
  nodes : List Handle
  edges : List (Handle × Handle)

namespace Graph

/-- The targets of a node in the order of discovery, each once. -/
def targets (store : Store) (handle : Handle) : Except Error (List Handle) := do
  let found ← store.successors handle
  return found.eraseDups

theorem node?_of_mem_targets {store : Store} {handle target : Handle} {found : List Handle}
    (h : targets store handle = .ok found) (hmem : target ∈ found) :
    ∃ node, store.node? target = some node := by
  simp only [targets, bind, Except.bind] at h
  split at h <;> cases h
  next successors hsuccessors =>
    exact Store.node?_of_mem_successors hsuccessors (List.mem_eraseDups.1 hmem)

theorem measure_lt {store : Store} {handle : Handle} {nodes found pending : List Handle}
    (h : targets store handle = .ok found) :
    Prod.Lex (· < ·) (· < ·)
      (unseen (List.range store.size) (nodes ++ found.filter fun target => target ∉ nodes),
        ((found.filter fun target => target ∉ nodes).reverse ++ pending).length)
      (unseen (List.range store.size) nodes, (handle :: pending).length) := by
  cases hfresh : found.filter fun target => target ∉ nodes with
  | nil => simpa using Prod.Lex.right _ (Nat.lt_succ_self _)
  | cons target fresh =>
    have hmem : target ∈ found.filter fun target => target ∉ nodes :=
      hfresh ▸ List.mem_cons_self
    obtain ⟨hfound, hnew⟩ := List.mem_filter.1 hmem
    obtain ⟨node, hnode⟩ := node?_of_mem_targets h hfound
    refine Prod.Lex.left _ _ (unseen_lt (List.mem_range.2 (Store.lt_size_of_node? hnode))
      (by simpa using hnew) (by simp) fun x hx => List.mem_append_left _ hx)

set_option linter.unusedVariables false in
/-- Follow the references of the pending nodes, the first of the list first, and
of every node that this discovers. -/
def explore (store : Store) (nodes : List Handle) (edges : List (Handle × Handle)) :
    List Handle → Except Error (List Handle × List (Handle × Handle))
  | [] => .ok (nodes, edges)
  | handle :: pending =>
    match h : targets store handle with
    | .error error => .error error
    | .ok found =>
      explore store (nodes ++ found.filter fun target => target ∉ nodes)
        (edges ++ found.map fun target => (handle, target))
        ((found.filter fun target => target ∉ nodes).reverse ++ pending)
termination_by pending => (unseen (List.range store.size) nodes, pending.length)
decreasing_by exact measure_lt h

/-- The graph under a root. -/
def ofRoot (store : Store) (root : Handle) : Except Error Graph := do
  let nearest ← store.nearest root
  let entryPoints := nearest.eraseDups
  let (nodes, edges) ← explore store entryPoints [] entryPoints.reverse
  return ⟨entryPoints, nodes, edges⟩

/-- The nodes that a node refers to, the latest edge first. -/
def outgoing (graph : Graph) (handle : Handle) : List Handle :=
  ((graph.edges.filter fun edge => edge.1 = handle).map Prod.snd).reverse

/-- The nodes that refer to a node, the latest edge first. -/
def incoming (graph : Graph) (handle : Handle) : List Handle :=
  ((graph.edges.filter fun edge => edge.2 = handle).map Prod.fst).reverse

/-- Handles in ascending order. -/
def ascending (handles : List Handle) : List Handle :=
  handles.mergeSort fun a b => a ≤ b

/-- The nodes that a node refers to, in ascending order. -/
def dependencies (graph : Graph) (handle : Handle) : List Handle :=
  ascending (graph.outgoing handle)

/-- The strongly connected components, each in ascending order, and what a
component refers to before it. -/
def components (graph : Graph) : List (List Handle) :=
  (Components.components graph.nodes graph.outgoing graph.incoming).map ascending

/-- Every node, after all that it depends on without being depended on in turn. -/
def emissionOrder (graph : Graph) : List Handle :=
  graph.components.flatten

/-- The nodes of the component refer back to themselves. -/
def recurs (graph : Graph) (component : List Handle) : Bool :=
  match component with
  | [handle] => handle ∈ graph.outgoing handle
  | _ => true

/-- The components whose nodes refer back to themselves, in ascending order. -/
def recursionGroups (graph : Graph) : List (List Handle) :=
  (graph.components.filter graph.recurs).mergeSort fun a b => !b.lex a

/-- The node refers back to itself. -/
def isRecursive (graph : Graph) (handle : Handle) : Bool :=
  graph.recursionGroups.any fun group => handle ∈ group

end Graph

end WireSchema

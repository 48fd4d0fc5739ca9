/-
# Writing nodes inline comes to an end

In a sound store going down from an inline node never comes back to a node that it
has passed, so the depth that `unfold` allows is enough for every node.  What is
inline in the tree of a node is the tree of the node below.
-/

import Mathlib.Data.List.Chain
import Mathlib.Order.RelClasses
import WireSchema.Fingerprint
import WireSchema.Proofs.Store.Grounded

namespace WireSchema.Store

variable {store : Store} {handle child : Handle} {node : Node Name Handle} {depth : Nat}
variable {tree : Markup Handle}

/-- The child is directly below the node of the parent. -/
def IsChild (store : Store) (parent child : Handle) : Prop :=
  ∃ node, store.node? parent = some node ∧ child ∈ node.children

theorem transGen_of_chain {parent last : Handle} {rest : List Handle}
    (hchain : List.IsChain store.IsChild (parent :: (rest ++ [last])))
    (hinline : ∀ handle ∈ parent :: rest, ∀ node, store.node? handle = some node →
      node.isByReference = false) :
    Relation.TransGen store.Inlines last parent := by
  induction rest generalizing parent with
  | nil =>
      obtain ⟨⟨node, hnode, hchild⟩, -⟩ := List.isChain_cons_cons.1 hchain
      exact .single ⟨node, hnode, hinline parent List.mem_cons_self node hnode, hchild⟩
  | cons next rest ih =>
      obtain ⟨⟨node, hnode, hchild⟩, hrest⟩ := List.isChain_cons_cons.1 hchain
      have hbelow := ih hrest fun handle hhandle =>
        hinline handle (List.mem_cons_of_mem _ hhandle)
      exact hbelow.tail ⟨node, hnode, hinline parent List.mem_cons_self node hnode, hchild⟩

/-- Every way from a node back to itself passes through a node that is referred to by
id. -/
theorem Grounded.exists_byReference (h : store.Grounded) {first : Handle} {rest : List Handle}
    (hchain : List.IsChain store.IsChild (first :: (rest ++ [first]))) :
    ∃ handle ∈ first :: rest, ∃ node, store.node? handle = some node ∧
      node.isByReference = true := by
  by_contra hnone
  have hcycle := transGen_of_chain hchain fun handle hhandle node hnode => by
    by_contra hreference
    exact hnone ⟨handle, hhandle, node, hnode, Bool.eq_true_of_not_eq_false hreference⟩
  exact h.transGen.asymmetric first first hcycle hcycle

/-! ## Totality -/

theorem children_of_unfoldWithin (hnode : store.node? handle = some node)
    (hbelow : node.isByReference = false →
      ∀ child ∈ node.children, ∃ tree, store.unfoldWithin depth child = .ok tree) :
    ∃ tree, store.unfoldWithin (depth + 1) handle = .ok tree := by
  have hok := node_eq_ok_iff.2 hnode
  cases node with
  | primitive | empty | enumeration | recordWrite | recordRead | union =>
      exact ⟨_, by rw [unfoldWithin, hok]; rfl⟩
  | nullable direction inner =>
      obtain ⟨tree, htree⟩ := hbelow rfl inner List.mem_cons_self
      exact ⟨.nullable tree, by rw [unfoldWithin, hok]; simp only [bind, Except.bind, htree]; rfl⟩
  | list direction item =>
      obtain ⟨tree, htree⟩ := hbelow rfl item List.mem_cons_self
      exact ⟨.list tree, by rw [unfoldWithin, hok]; simp only [bind, Except.bind, htree]; rfl⟩
  | dictionary direction key value =>
      obtain ⟨tree, htree⟩ := hbelow rfl key List.mem_cons_self
      obtain ⟨tree', htree'⟩ := hbelow rfl value (List.mem_cons_of_mem _ List.mem_cons_self)
      refine ⟨.dictionary tree tree', ?_⟩
      rw [unfoldWithin, hok]
      simp only [bind, Except.bind, htree, htree']
      rfl

/-- The nodes that have been passed are all above the node, so there are fewer left than
the depth allows. -/
theorem exists_unfoldWithin (h : store.Sound) (passed : List Handle)
    (hpassed : ∀ above ∈ passed, Relation.TransGen store.Inlines handle above)
    (hlt : handle < store.size) (hdepth : unseen (List.range store.size) passed < depth) :
    ∃ tree, store.unfoldWithin depth handle = .ok tree := by
  induction depth generalizing handle passed with
  | zero => exact absurd hdepth (Nat.not_lt_zero _)
  | succ depth ih =>
      obtain ⟨node, hnode⟩ := h.filled hlt
      apply children_of_unfoldWithin hnode
      intro hinline child hchild
      have hnew : handle ∉ passed := fun hmem =>
        h.grounded.transGen.asymmetric handle handle (hpassed handle hmem) (hpassed handle hmem)
      have hbelow : store.Inlines child handle := ⟨node, hnode, hinline, hchild⟩
      refine ih (handle :: passed) (fun above habove => ?_)
        (h.children_lt hnode child hchild) ?_
      · rcases List.mem_cons.1 habove with rfl | habove
        · exact .single hbelow
        · exact .trans (.single hbelow) (hpassed above habove)
      · have hless := unseen_cons_lt (List.mem_range.2 hlt) hnew
        exact lt_of_lt_of_le hless (Nat.le_of_lt_succ hdepth)

/-- Every node of a sound store can be written inline. -/
theorem exists_unfold (h : store.Sound) (hlt : handle < store.size) :
    ∃ tree, store.unfold handle = .ok tree := by
  refine exists_unfoldWithin h [] nofun hlt ?_
  apply Nat.lt_succ_of_le
  exact (List.countP_le_length).trans_eq (List.length_range)

/-- The nearest nodes that are referred to by id can be told of every node. -/
theorem exists_nearest (h : store.Sound) (hlt : handle < store.size) :
    ∃ targets, store.nearest handle = .ok targets := by
  obtain ⟨tree, htree⟩ := exists_unfold h hlt
  exact ⟨tree.references, by rw [nearest, htree]; rfl⟩

theorem exists_nearestAll (h : store.Sound) {handles : List Handle}
    (hlt : ∀ handle ∈ handles, handle < store.size) :
    ∃ targets, store.nearestAll handles = .ok targets := by
  induction handles with
  | nil => exact ⟨[], rfl⟩
  | cons handle handles ih =>
      obtain ⟨targets, htargets⟩ := exists_nearest h (hlt handle List.mem_cons_self)
      obtain ⟨more, hmore⟩ := ih fun other hother => hlt other (List.mem_cons_of_mem _ hother)
      refine ⟨targets ++ more, ?_⟩
      rw [nearestAll]
      simp only [bind, Except.bind, htargets, hmore]
      rfl

/-- What a node refers to by id can be told of every node. -/
theorem exists_successors (h : store.Sound) (hlt : handle < store.size) :
    ∃ targets, store.successors handle = .ok targets := by
  obtain ⟨node, hnode⟩ := h.filled hlt
  obtain ⟨targets, htargets⟩ := exists_nearestAll h (h.children_lt hnode)
  refine ⟨targets, ?_⟩
  rw [successors, node_eq_ok_iff.2 hnode]
  exact htargets

/-! ## What a result tells -/

theorem exists_unfold_of_nearest {targets : List Handle}
    (h : store.nearest handle = .ok targets) :
    ∃ tree, store.unfold handle = .ok tree ∧ targets = tree.references := by
  simp only [nearest, bind, Except.bind] at h
  split at h <;> cases h
  next tree htree => exact ⟨tree, htree, rfl⟩

theorem exists_of_nearestAll_cons {handles targets : List Handle}
    (h : store.nearestAll (handle :: handles) = .ok targets) :
    ∃ first more, store.nearest handle = .ok first ∧ store.nearestAll handles = .ok more ∧
      targets = first ++ more := by
  simp only [nearestAll, bind, Except.bind] at h
  split at h
  · cases h
  next first hfirst =>
    split at h <;> cases h
    next more hmore => exact ⟨first, more, hfirst, hmore, rfl⟩

theorem exists_node_of_successors {targets : List Handle}
    (h : store.successors handle = .ok targets) :
    ∃ node, store.node? handle = some node ∧ store.nearestAll node.children = .ok targets := by
  simp only [successors, bind, Except.bind] at h
  split at h
  · cases h
  next node hnode => exact ⟨node, node_eq_ok_iff.1 hnode, h⟩

/-! ## Visits -/

/-- A node that has not been met is visited before what it refers to. -/
theorem visitOrder_cons {visited pending targets : List Handle} (hseen : handle ∉ visited)
    (htargets : store.successors handle = .ok targets) :
    store.visitOrder visited (handle :: pending) =
      store.visitOrder (visited ++ [handle]) (targets ++ pending) := by
  rw [visitOrder, dif_neg hseen]
  split
  next error herror =>
    rw [htargets] at herror
    cases herror
  next found hfound =>
    cases htargets.symm.trans hfound
    rfl

theorem exists_successors_of_visitOrder {visited pending order : List Handle}
    (hseen : handle ∉ visited) (h : store.visitOrder visited (handle :: pending) = .ok order) :
    ∃ targets, store.successors handle = .ok targets ∧
      store.visitOrder (visited ++ [handle]) (targets ++ pending) = .ok order := by
  rw [visitOrder, dif_neg hseen] at h
  split at h
  · cases h
  next targets htargets => exact ⟨targets, htargets, h⟩

/-- Every visit of what nodes refer to comes to an end. -/
theorem exists_visitOrder (h : store.Sound) {visited pending : List Handle}
    (hlt : ∀ handle ∈ pending, handle < store.size) :
    ∃ order, store.visitOrder visited pending = .ok order := by
  induction visited, pending using visitOrder.induct store with
  | case1 visited => exact ⟨visited, by rw [visitOrder]⟩
  | case2 visited handle pending hseen ih =>
      rw [visitOrder, dif_pos hseen]
      exact ih fun other hother => hlt other (List.mem_cons_of_mem _ hother)
  | case3 visited handle pending hseen error herror =>
      obtain ⟨targets, htargets⟩ := exists_successors h (hlt handle List.mem_cons_self)
      rw [herror] at htargets
      cases htargets
  | case4 visited handle pending hseen targets htargets ih =>
      obtain ⟨order, horder⟩ := ih fun other hother => by
        rcases List.mem_append.1 hother with hother | hother
        · obtain ⟨node, hnode⟩ := node?_of_mem_successors htargets hother
          exact lt_size_of_node? hnode
        · exact hlt other (List.mem_cons_of_mem _ hother)
      exact ⟨order, (visitOrder_cons hseen htargets).trans horder⟩

/-! ## Stores with the same nodes -/

section Congruence

variable {before after : Store} (hnodes : ∀ handle, after.node? handle = before.node? handle)

include hnodes

/-- The tree under a node depends on the nodes alone. -/
theorem unfoldWithin_congr (depth : Nat) (handle : Handle) :
    after.unfoldWithin depth handle = before.unfoldWithin depth handle := by
  induction depth generalizing handle with
  | zero => rfl
  | succ depth ih => simp only [unfoldWithin, node, hnodes, ih]

theorem nearest_congr (hsize : after.size = before.size) (handle : Handle) :
    after.nearest handle = before.nearest handle := by
  simp only [nearest, unfold, hsize, unfoldWithin_congr hnodes]

theorem successors_congr (hsize : after.size = before.size) (handle : Handle) :
    after.successors handle = before.successors handle := by
  have hall : ∀ handles, after.nearestAll handles = before.nearestAll handles := by
    intro handles
    induction handles with
    | nil => rfl
    | cons handle handles ih => simp only [nearestAll, nearest_congr hnodes hsize, ih]
  simp only [successors, node, hnodes, hall]

end Congruence

end WireSchema.Store

/-
# Writing nodes inline

A node that is not referred to by id is written out wherever it is used, down to
the nearest nodes that are.  `unfold` gives that tree over handles; naming its
references gives the markup of a node.  Every cycle of a store passes through
nodes that are referred to by id, so the tree is finite and no deeper than the
store has slots.
-/

import WireSchema.Store.Basic

namespace WireSchema.Store

/-- The tree under a node, at most `depth` levels of it. -/
def unfoldWithin (store : Store) : Nat → Handle → Except Error (Markup Handle)
  | 0, handle => .error (.unknownNode handle)
  | depth + 1, handle => do
    let node ← store.node handle
    match node with
    | .primitive type => return .primitive type
    | .empty => return .empty
    | .nullable _ inner => do
      let inner ← store.unfoldWithin depth inner
      return .nullable inner
    | .list _ item => do
      let item ← store.unfoldWithin depth item
      return .list item
    | .dictionary _ key value => do
      let key ← store.unfoldWithin depth key
      let value ← store.unfoldWithin depth value
      return .dictionary key value
    | .enumeration _ | .recordWrite _ | .recordRead _ | .union .. => return .ref handle

/-- The tree under a node down to the nearest nodes that are referred to by id. -/
def unfold (store : Store) (handle : Handle) : Except Error (Markup Handle) :=
  store.unfoldWithin (store.size + 1) handle

/-- The markup of a node, with references named by `label`. -/
def markupWith (store : Store) (label : Handle → Except Error String) (handle : Handle) :
    Except Error (Markup String) := do
  let tree ← store.unfold handle
  tree.mapRefs label

/-- The nearest nodes at or below a node that are referred to by id, from left to
right and with repetitions. -/
def nearest (store : Store) (handle : Handle) : Except Error (List Handle) := do
  let tree ← store.unfold handle
  return tree.references

/-- The nearest nodes at or below each of several nodes, in order. -/
def nearestAll (store : Store) : List Handle → Except Error (List Handle)
  | [] => .ok []
  | handle :: handles => do
    let targets ← store.nearest handle
    let more ← store.nearestAll handles
    return targets ++ more

/-- The nodes that a node refers to by id, directly or from within what is
written inline. -/
def successors (store : Store) (handle : Handle) : Except Error (List Handle) := do
  let node ← store.node handle
  store.nearestAll node.children

/-- The id of a node that is referred to by id, which has to be assigned. -/
def assignedLabel (store : Store) (handle : Handle) : Except Error String := do
  let node ← store.node handle
  match store.id? handle with
  | some id => return id
  | none => throw (.missingId node.kind)

/-- The id of a node, or its kind and handle if it has none. -/
def diagnosticLabel (store : Store) (handle : Handle) : Except Error String := do
  let node ← store.node handle
  match store.id? handle with
  | some id => return id
  | none => return node.kind.name ++ "@" ++ toString handle

/-- The text that refers to a node in documents. -/
def reference (store : Store) (handle : Handle) : Except Error String := do
  let markup ← store.markupWith store.assignedLabel handle
  return markup.display

/-- The markup of a node for messages.  It needs no ids and never fails. -/
def describe (store : Store) (handle : Handle) : String :=
  match store.markupWith store.diagnosticLabel handle with
  | .ok markup => markup.display
  | .error _ => "<unknown @" ++ toString handle ++ ">"

/-- The text of a node that is written inline; a node that is referred to by id
has none. -/
def inlineText? (store : Store) (handle : Handle) : Except Error (Option String) := do
  let node ← store.node handle
  if node.isByReference then return none
  else
    let text ← store.reference handle
    return some text

theorem node?_of_mem_references {store : Store} {depth : Nat} {handle target : Handle}
    {tree : Markup Handle} (h : store.unfoldWithin depth handle = .ok tree)
    (hmem : target ∈ tree.references) : ∃ node, store.node? target = some node := by
  induction depth generalizing handle tree with
  | zero => cases h
  | succ depth ih =>
    rw [unfoldWithin, node] at h
    cases hnode : store.node? handle with
    | none => rw [hnode] at h; cases h
    | some found =>
      rw [hnode] at h
      cases found with
      | primitive | empty => cases h; simp [Markup.references] at hmem
      | enumeration | recordWrite | recordRead | union =>
        cases h
        simp only [Markup.references, List.mem_singleton] at hmem
        exact ⟨_, hmem ▸ hnode⟩
      | nullable _ inner =>
        simp only [bind, Except.bind] at h
        split at h <;> cases h
        next inner hinner => exact ih hinner hmem
      | list _ item =>
        simp only [bind, Except.bind] at h
        split at h <;> cases h
        next item hitem => exact ih hitem hmem
      | dictionary _ key value =>
        simp only [bind, Except.bind] at h
        split at h
        · cases h
        next key hkey =>
          split at h <;> cases h
          next value hvalue =>
            rcases List.mem_append.1 hmem with hmem | hmem
            · exact ih hkey hmem
            · exact ih hvalue hmem

theorem node?_of_mem_nearest {store : Store} {handle target : Handle} {targets : List Handle}
    (h : store.nearest handle = .ok targets) (hmem : target ∈ targets) :
    ∃ node, store.node? target = some node := by
  simp only [nearest, bind, Except.bind] at h
  split at h <;> cases h
  next tree htree => exact node?_of_mem_references htree hmem

theorem node?_of_mem_nearestAll {store : Store} {handles targets : List Handle} {target : Handle}
    (h : store.nearestAll handles = .ok targets) (hmem : target ∈ targets) :
    ∃ node, store.node? target = some node := by
  induction handles generalizing targets with
  | nil => cases h; cases hmem
  | cons handle handles ih =>
    simp only [nearestAll, bind, Except.bind] at h
    split at h
    · cases h
    next first hfirst =>
      split at h <;> cases h
      next more hmore =>
        rcases List.mem_append.1 hmem with hmem | hmem
        · exact node?_of_mem_nearest hfirst hmem
        · exact ih hmore hmem

theorem node?_of_mem_successors {store : Store} {handle target : Handle} {targets : List Handle}
    (h : store.successors handle = .ok targets) (hmem : target ∈ targets) :
    ∃ node, store.node? target = some node := by
  simp only [successors, bind, Except.bind] at h
  split at h
  · cases h
  · exact node?_of_mem_nearestAll h hmem

theorem node?_of_successors {store : Store} {handle : Handle} {targets : List Handle}
    (h : store.successors handle = .ok targets) : ∃ node, store.node? handle = some node := by
  unfold successors node at h
  cases hnode : store.node? handle with
  | none => rw [hnode] at h; cases h
  | some node => exact ⟨node, rfl⟩

end WireSchema.Store

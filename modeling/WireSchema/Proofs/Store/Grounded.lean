/-
# Grounded stores

What is written inline is followed down to the nearest nodes that are referred to
by id, so going down must come to an end.  It does if the edges out of inline
nodes are well-founded, which is to say that every cycle passes through a node
that is referred to by id.  A store is sound when it is regular, grounded, and
every slot has its node; that is what holds between operations.
-/

import WireSchema.Proofs.Store.Regular

namespace WireSchema.Store

/-- The parent is written inline and the child is directly below it. -/
def Inlines (store : Store) (child parent : Handle) : Prop :=
  ∃ node, store.node? parent = some node ∧ node.isByReference = false ∧ child ∈ node.children

/-- Whatever is written inline comes to an end. -/
def Grounded (store : Store) : Prop :=
  WellFounded store.Inlines

/-- What holds of a store between operations. -/
structure Sound (store : Store) : Prop extends Regular store where
  filled : ∀ {handle}, handle < store.size → ∃ node, store.node? handle = some node
  grounded : store.Grounded

variable {store before after : Store} {handle slot : Handle} {node : Node Name Handle}

/-- A store with fewer edges is grounded as well. -/
theorem Grounded.of_inlines (h : before.Grounded)
    (hsub : ∀ child parent, after.Inlines child parent → before.Inlines child parent) :
    after.Grounded :=
  Subrelation.wf (fun {child parent} => hsub child parent) h

theorem Grounded.of_node? (h : before.Grounded)
    (hsub : ∀ handle node, after.node? handle = some node → before.node? handle = some node) :
    after.Grounded := by
  apply h.of_inlines
  intro child parent hinlines
  obtain ⟨node, hnode, hinline, hchild⟩ := hinlines
  exact ⟨node, hsub parent node hnode, hinline, hchild⟩

theorem grounded_empty : empty.Grounded := by
  refine ⟨fun handle => ⟨_, fun child hinlines => ?_⟩⟩
  obtain ⟨node, hnode, -⟩ := hinlines
  rw [node?_empty] at hnode
  cases hnode

theorem Grounded.reserve (h : store.Grounded) : store.reserve.2.Grounded :=
  h.of_node? fun handle _ hnode => (node?_reserve store handle).symm.trans hnode

/-- In a later store what was there before comes to an end as it did. -/
theorem acc_of_extends (hregular : Regular before) (hextends : Extends before after)
    (hacc : Acc before.Inlines handle) (hlt : handle < before.size) :
    Acc after.Inlines handle := by
  induction hacc with
  | intro parent _ ih =>
      refine ⟨_, fun child hinlines => ?_⟩
      obtain ⟨node, hnode, hinline, hchild⟩ := hinlines
      rw [hextends.node?_eq hlt] at hnode
      exact ih child ⟨node, hnode, hinline, hchild⟩ (hregular.children_lt hnode child hchild)

/-- A new node has nothing but older nodes below it. -/
theorem Grounded.intern (h : store.Grounded) (hregular : Regular store)
    (hchildren : ∀ child ∈ node.children, child < store.size) :
    (store.intern node).2.Grounded := by
  rcases intern_cases hregular node with ⟨stored, -, -, heq⟩ | ⟨-, -, heq⟩
  · rw [heq]
    exact h
  have hextends := extends_intern hregular node
  rw [heq] at hextends ⊢
  have hold : ∀ {handle}, handle < store.size → Acc (Inlines _) handle := fun hlt =>
    acc_of_extends hregular hextends (h.apply _) hlt
  refine ⟨fun handle => ⟨_, fun child hinlines => ?_⟩⟩
  obtain ⟨found, hfound, -, hchild⟩ := hinlines
  rw [node?_intern_of_new] at hfound
  split at hfound
  · cases hfound
    exact hold (hchildren child hchild)
  · exact hold (hregular.children_lt hfound child hchild)

/-- A node that is referred to by id ends what is written inline. -/
theorem Grounded.fill (h : store.Grounded) (hslot : slot < store.size)
    (hnode : node.isByReference = true) : (store.fill slot node).Grounded := by
  apply h.of_inlines
  intro child parent hinlines
  obtain ⟨found, hfound, hinline, hchild⟩ := hinlines
  rcases eq_or_of_node?_fill hslot hfound with ⟨-, rfl⟩ | hfound
  · rw [hnode] at hinline
    cases hinline
  · exact ⟨found, hfound, hinline, hchild⟩

theorem Grounded.rollback (h : store.Grounded) (mark : Handle) :
    (store.rollback mark).Grounded := by
  apply h.of_node?
  intro handle node hnode
  rw [node?_rollback] at hnode
  split at hnode
  · exact hnode
  · cases hnode

namespace Sound

theorem empty : Sound Store.empty where
  toRegular := Regular.empty
  filled hlt := absurd hlt (Nat.not_lt_zero _)
  grounded := grounded_empty

theorem intern (h : Sound store) (hchildren : ∀ child ∈ node.children, child < store.size)
    (harranged : node.Arranged) : Sound (store.intern node).2 where
  toRegular := h.toRegular.intern hchildren harranged
  grounded := h.grounded.intern h.toRegular hchildren
  filled {handle} hlt := by
    cases hfound : Store.node? (store.intern node).2 handle with
    | some found => exact ⟨found, rfl⟩
    | none =>
        obtain ⟨hlt', hnone⟩ := node?_intern_eq_none h.toRegular hlt hfound
        obtain ⟨found, hfound'⟩ := h.filled hlt'
        rw [hnone] at hfound'
        cases hfound'

/-- An operation that adds nothing but ids keeps a store sound. -/
theorem of_node?_eq (h : Sound before) (hafter : Regular after) (hsize : after.size = before.size)
    (hnode : ∀ handle, after.node? handle = before.node? handle) : Sound after where
  toRegular := hafter
  filled {handle} hlt := by
    rw [hnode]
    exact h.filled (hlt.trans_eq hsize)
  grounded := h.grounded.of_node? fun handle _ hfound => (hnode handle).symm.trans hfound

/-- The number from which the next id is tried does not matter. -/
theorem withNextId (h : Sound store) (nextId : Nat) : Sound { store with nextId } where
  children_lt := h.children_lt
  arranged := h.arranged
  index_sound := h.index_sound
  index_complete := h.index_complete
  built_filled := h.built_filled
  id_iff := h.id_iff
  filled := h.filled
  grounded := h.grounded

/-- Rolling back to a sound store gives a sound store. -/
theorem rollback (hbefore : Sound before) (hafter : Regular after) (h : Extends before after) :
    Sound (after.rollback before.size) :=
  hbefore.of_node?_eq (hafter.rollback hbefore.toRegular h) h.size_rollback_eq
    h.node?_rollback_eq

end Sound

end WireSchema.Store

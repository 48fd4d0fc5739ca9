/-
# Nodes that find themselves

A graph that is looked for in the store that holds it need not be found as the node that was
looked for: another node can describe the same graph.  A node finds itself if what is
written for it leads only to nodes that are the first of their graphs, and if the nodes that
are written inline on the way are those of the index.
-/

import WireSchema.Proofs.Store.CanonicalForm
import WireSchema.Proofs.Store.Frugal
import WireSchema.Proofs.Store.Settled

namespace WireSchema

/-- Nodes that are written inline have no names, so similar ones have the same parts. -/
theorem Node.Similar.lift_of_inline {α β : Type} {R : α → β → Prop} {a : Node Name α}
    {b : Node Name β} (h : a.Similar R b) (hinline : a.isByReference = false) : a.Lift R b := by
  have hshape := h.shape_eq
  have hchildren := h.children
  cases a <;> cases hinline <;> cases b <;> cases hshape <;> exact ⟨rfl, hchildren⟩

namespace Store

variable {store source target : Store} {root a b c : Handle} {node : Node Name Handle}

/-- What is written for the root has the node in it, down to the nearest nodes that are
referred to by id. -/
abbrev Spans (store : Store) (root handle : Handle) : Prop :=
  Relation.ReflTransGen (fun parent child => store.Inlines child parent) root handle

/-- Looking for the graph of the root finds the root. -/
structure FindsItself (store : Store) (root : Handle) : Prop where
  first : ∀ {a}, store.Spans root a → store.Referred a → store.IsFirst a store a
  indexed : ∀ {a node}, store.Spans root a → store.node? a = some node →
    node.isByReference = false → store.index.get? node.key = some a

theorem Spans.toBelow (h : store.Spans root a) : store.Below root a :=
  Relation.ReflTransGen.mono (fun _ _ hinlines => Inlines.isChild hinlines) _ _ h

theorem IsFirst.of_bisimilar {middle : Store} (h : middle.IsFirst b target c)
    (hsame : source.Bisimilar a middle b) : source.IsFirst a target c where
  same := hsame.trans h.same
  le other hother := h.le other (hsame.symm.trans hother)

/-- Each node describes its own graph. -/
theorem bisimilar_self (h : store.Sound) (hlt : a < store.size) : store.Bisimilar a store a := by
  refine Layering.Agree.of_closed (R := fun a b => a = b ∧ a < store.size) ?_ ⟨rfl, hlt⟩
  rintro a _ ⟨rfl, hlt⟩
  obtain ⟨node, hnode⟩ := h.filled hlt
  exact ⟨node, node, hnode, hnode, .refl node fun child hchild =>
    ⟨rfl, h.children_lt hnode child hchild⟩⟩

/-- A node finds itself if no other nodes describe what is written for it. -/
theorem findsItself_of_unique (h : store.Sound) (hroot : root < store.size)
    (hunique : ∀ a b, store.Spans root a → store.Bisimilar a store b → a = b) :
    store.FindsItself root := by
  have hself : ∀ {a}, store.Spans root a → store.Bisimilar a store a := fun hspans =>
    bisimilar_self h (hspans.toBelow.lt_size h.toRegular hroot)
  constructor
  · exact fun hspans _ => ⟨hself hspans, fun other hother =>
      Nat.le_of_eq (hunique _ other hspans hother)⟩
  · intro a node hspans hnode _
    obtain ⟨other, hget⟩ := h.index_complete hnode
    obtain ⟨stored, hstored, hkey⟩ := h.index_sound hget
    obtain ⟨x, hx, hsimilar⟩ := (hself hspans).unfold.exists_left hnode
    have hsame : store.Bisimilar a store other :=
      Alike.of_match ⟨x, stored, hx, hstored, hsimilar.congr_key hkey⟩
    rw [hget, hunique a other hspans hsame]

/-- Nothing else describes what is written for the root, as far as it goes on for ever. -/
def HeldAlone (store : Store) (root : Handle) : Prop :=
  ∀ a b, store.Spans root a → ¬ Layering.Finite store.node? a → store.Bisimilar a store b → a = b

theorem heldAlone_of_finite (h : Layering.Finite store.node? root) : store.HeldAlone root :=
  fun _ _ hspans hendless => absurd (hspans.toBelow.finite h) hendless

theorem HeldAlone.findsItself (h : store.HeldAlone root) (hstore : store.Sound)
    (hfrugal : store.Frugal) (hroot : root < store.size) : store.FindsItself root := by
  refine findsItself_of_unique hstore hroot fun a b hspans hsame => ?_
  by_cases hfinite : Layering.Finite store.node? a
  · exact hfrugal.eq_of_bisimilar hfinite hsame
  · exact h a b hspans hfinite hsame

/-- First nodes are found for nodes that are referred to by id. -/
theorem settled_isFirst (source target : Store) : source.Settled target fun a b =>
    source.Referred a ∧ source.IsFirst a target b := by
  rintro a b ⟨⟨node, hnode, hreference⟩, hfirst⟩
  exact .reference hnode hreference hfirst

/-- Where a node finds itself it is found for every node of the same graph. -/
theorem FindsItself.settled (h : target.FindsItself root) : source.Settled target fun a b =>
    source.Referred a ∧ source.IsFirst a target b ∨
      target.Spans root b ∧ source.Bisimilar a target b := by
  rintro a b (⟨⟨node, hnode, hreference⟩, hfirst⟩ | ⟨hspans, hsame⟩)
  · exact .reference hnode hreference hfirst
  obtain ⟨x, y, hx, hy, hsimilar⟩ := hsame.unfold
  cases hreference : x.isByReference with
  | true =>
      have hreferred : target.Referred b := Referred.of_bisimilar ⟨x, hx, hreference⟩ hsame
      exact .reference hx hreference ((h.first hspans hreferred).of_bisimilar hsame)
  | false =>
      have hinline : y.isByReference = false := hsimilar.isByReference_eq.symm.trans hreference
      have hspanned : ∀ child ∈ y.children, target.Spans root child := fun child hchild =>
        hspans.tail ⟨y, hy, hinline, hchild⟩
      have hlift := (hsimilar.and_right hspanned).lift_of_inline hreference
      exact .inline hx hreference (hlift.imp fun _ _ hpair => .inr hpair.symm)
        (h.indexed hspans hy hinline)

end Store

end WireSchema

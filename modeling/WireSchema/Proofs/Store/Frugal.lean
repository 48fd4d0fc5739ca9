/-
# Equal nodes

A node that is finished when it is stored gets the handle of an equal node, if there is
one.  A node that gets the slot reserved for it comes too late for that: an equal node
may have been stored since the slot was reserved.  But such a node is met again below
itself.  So equal nodes have one handle wherever their graph comes to an end.
-/

import WireSchema.Proofs.Node.Recursion
import WireSchema.Proofs.Store.Bisimulation
import WireSchema.Proofs.Store.Scaffold

namespace WireSchema.Store

/-- Equal nodes of graphs that come to an end have one handle. -/
structure Frugal (store : Store) : Prop where
  eq_of_key : ∀ {a b x y}, store.node? a = some x → store.node? b = some y → x.key = y.key →
    Layering.Finite store.node? a → a = b

variable {store after : Store} {a b slot : Handle} {x y node : Node Name Handle}

/-- Graphs of equal nodes come to an end together. -/
theorem finite_of_key_eq (ha : store.node? a = some x) (hb : store.node? b = some y)
    (hkey : x.key = y.key) (h : Layering.Finite store.node? a) :
    Layering.Finite store.node? b := by
  cases h with
  | intro known below =>
      cases ha.symm.trans known
      refine .intro hb fun child hchild => below child ?_
      rwa [← Node.children_key, hkey, Node.children_key]

namespace Frugal

theorem of_node?_eq (h : store.Frugal) (heq : ∀ handle, after.node? handle = store.node? handle) :
    after.Frugal := by
  have hnodes : after.node? = store.node? := funext heq
  constructor
  rw [hnodes]
  exact h.eq_of_key

theorem empty : Store.empty.Frugal where
  eq_of_key ha := by
    rw [node?_empty] at ha
    cases ha

theorem intern (h : store.Frugal) (hregular : Regular store) (node : Node Name Handle) :
    (store.intern node).2.Frugal := by
  rcases intern_cases hregular node with ⟨stored, -, -, heq⟩ | ⟨hnew, -, heq⟩
  · rw [heq]
    exact h
  rw [heq]
  -- The index knows every older node, so none of them is equal to the new one.
  have hother : ∀ {a x}, store.node? a = some x → x.key ≠ node.key := by
    intro a x ha hkey
    obtain ⟨other, hget⟩ := hregular.index_complete ha
    rw [hkey, hnew] at hget
    cases hget
  constructor
  intro a b x y ha hb hkey hfinite
  have ha' := (node?_intern_of_new store node a).symm.trans ha
  have hb' := (node?_intern_of_new store node b).symm.trans hb
  split at ha' <;> split at hb'
  next hsize hsize' => exact hsize.trans hsize'.symm
  · cases ha'
    exact absurd hkey.symm (hother hb')
  · cases hb'
    exact absurd hkey (hother ha')
  · refine h.eq_of_key ha' hb' hkey
      (hfinite.restrict (P := (· < store.size)) (lt_size_of_node? ha') ?_)
    intro handle z hlt _ hz
    have hz' := (node?_intern_of_new store node handle).symm.trans hz
    rw [if_neg (Nat.ne_of_lt hlt)] at hz'
    exact ⟨hz', hregular.children_lt hz'⟩

/-- A slot can be filled with a node whose graph does not come to an end. -/
theorem fill (h : store.Frugal) (hslot : slot < store.size)
    (hendless : ¬ Layering.Finite (store.fill slot node).node? slot) :
    (store.fill slot node).Frugal := by
  have hold : ∀ {a}, Layering.Finite (store.fill slot node).node? a →
      (store.fill slot node).node? a = store.node? a := by
    intro a hfinite
    rw [node?_fill hslot, if_neg]
    rintro rfl
    exact hendless hfinite
  constructor
  intro a b x y ha hb hkey hfinite
  have hfinite' := finite_of_key_eq ha hb hkey hfinite
  refine h.eq_of_key ((hold hfinite).symm.trans ha) ((hold hfinite').symm.trans hb) hkey
    (hfinite.restrict (P := fun _ => True) trivial fun handle z _ hbelow hz => ?_)
  exact ⟨(hold hbelow).symm.trans hz, fun _ _ => trivial⟩

/-- A graph that comes to an end has one node for all that is the same. -/
theorem eq_of_bisimilar (h : store.Frugal) (hfinite : Layering.Finite store.node? a)
    (hsame : store.Bisimilar a store b) : a = b := by
  induction hfinite generalizing b with
  | @intro a x known below ih =>
      obtain ⟨y, hy, hsimilar⟩ := hsame.unfold.exists_right known
      have hchildren : y.Similar (fun other child => other = child) x :=
        (hsimilar.symm.and_right (P := (· ∈ x.children)) fun _ hchild => hchild).imp
          fun other child ⟨hagree, hchild⟩ => (ih child hchild hagree).symm
      exact h.eq_of_key known hy hchildren.key_eq.symm (.intro known below)

end Frugal

theorem maintains_frugal : Maintains Frugal where
  reserve h := h.of_node?_eq (node?_reserve _)
  intern node hregular h := h.intern hregular node
  fill _ _ _ h hslot _ hendless := h.fill hslot hendless

end WireSchema.Store

/-
# Equivalence of graphs

Two nodes, in one store or in two, are equivalent when the graphs below them
cannot be told apart by kind, names, flags and the order of children.  Pairs
that the comparison has met are taken as equal from then on; that is sound
because the first difference anywhere ends it, and it is what makes it end on
cycles.
-/

import WireSchema.Store.Basic
import WireSchema.Unseen

namespace WireSchema.Store

theorem lt_size_of_node? {store : Store} {handle : Handle} {node : Node Name Handle}
    (h : store.node? handle = some node) : handle < store.size := by
  obtain ⟨slot, hslot, -⟩ := Option.bind_eq_some_iff.1 h
  exact (Array.getElem?_eq_some_iff.1 hslot).1

set_option linter.unusedVariables false in
/-- No pair of the work list leads to a difference, when the pairs in `assumed`
are taken as equal. -/
def equivalentFrom (source target : Store) (assumed : List (Handle × Handle)) :
    List (Handle × Handle) → Bool
  | [] => true
  | pair :: work =>
    if hseen : pair ∈ assumed then equivalentFrom source target assumed work
    else
      match ha : source.node? pair.1, hb : target.node? pair.2 with
      | some a, some b =>
        if a.key.shape = b.key.shape then
          equivalentFrom source target (pair :: assumed) (a.children.zip b.children ++ work)
        else false
      | _, _ => false
termination_by work => (unseen (pairsBelow source.size target.size) assumed, work.length)
decreasing_by
  · exact Prod.Lex.right _ (Nat.lt_succ_self _)
  · exact Prod.Lex.left _ _ (unseen_cons_lt
      (mem_pairsBelow (lt_size_of_node? ha) (lt_size_of_node? hb)) hseen)

/-- The nodes describe the same graph. -/
def equivalent (source : Store) (a : Handle) (target : Store) (b : Handle) : Bool :=
  equivalentFrom source target [] [(a, b)]

/-- The first of the given handles whose node in `target` describes the same
graph as `handle` in `source`.  Only nodes of the same kind are compared. -/
def firstEquivalent? (source : Store) (handle : Handle) (target : Store)
    (candidates : List (Handle × Node Name Handle)) : Option Handle :=
  match source.node? handle with
  | none => none
  | some node =>
    ((candidates.filter fun candidate => candidate.2.kind = node.kind).map Prod.fst).find?
      fun candidate => source.equivalent handle target candidate

end WireSchema.Store

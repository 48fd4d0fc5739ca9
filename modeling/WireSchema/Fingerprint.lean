/-
# Fingerprints

A fingerprint is the hash of a text that describes the graph under a root.  In
the text, nodes that are referred to by id have numbers in the order of a
depth-first visit and names are in lower case, so neither handles, nor ids, nor
spelling, nor unrelated nodes have a part in it.
-/

import WireSchema.Document.Export
import WireSchema.Sha256

namespace WireSchema

namespace Store

set_option linter.unusedVariables false in
/-- Visit the pending nodes, the first of the list first and what it refers to
before the rest, and list each after those that were met before it. -/
def visitOrder (store : Store) (visited : List Handle) :
    List Handle → Except Error (List Handle)
  | [] => .ok visited
  | handle :: pending =>
    if hseen : handle ∈ visited then store.visitOrder visited pending
    else
      match h : store.successors handle with
      | .error error => .error error
      | .ok targets => store.visitOrder (visited ++ [handle]) (targets ++ pending)
termination_by pending => (unseen (List.range store.size) visited, pending.length)
decreasing_by
  · exact Prod.Lex.right _ (Nat.lt_succ_self _)
  · obtain ⟨node, hnode⟩ := node?_of_successors h
    exact Prod.Lex.left _ _ (unseen_lt (List.mem_range.2 (lt_size_of_node? hnode)) hseen
      (by simp) fun x hx => List.mem_append_left _ hx)

/-- The number of a node in an order. -/
def numberLabel (store : Store) (order : List Handle) (handle : Handle) : Except Error String := do
  let node ← store.node handle
  match order.idxOf? handle with
  | some number => return toString number
  | none => throw (.missingId node.kind)

/-- The markup of a node whose references are numbers in an order. -/
def numberedReference (store : Store) (order : List Handle) (handle : Handle) :
    Except Error String := do
  let markup ← store.markupWith (store.numberLabel order) handle
  return markup.display

/-- The lines of the nodes of an order, the first of which has the given number. -/
def canonicalLines (store : Store) (order : List Handle) (number : Nat) :
    List Handle → Except Error (List String)
  | [] => .ok []
  | handle :: handles => do
    let node ← store.node handle
    let folded := node.mapNames fun name => Name.mk name.folded
    let element? ← folded.toElement? (some (toString number)) (store.numberedReference order)
    let lines ← store.canonicalLines order (number + 1) handles
    return element?.toList.map (Element.render .compact) ++ lines

/-- The text that stands for the graph under a root: the markup of the root, and
a line for every node that is referred to by id. -/
def canonicalText (store : Store) (root : Handle) : Except Error String := do
  let nearest ← store.nearest root
  let order ← store.visitOrder [] nearest
  let reference ← store.numberedReference order root
  let lines ← store.canonicalLines order 0 order
  return "\n".intercalate (reference :: lines)

end Store

/-- The hash of a sequence of bytes or of the text of a graph, in hexadecimal. -/
structure Fingerprint where
  hex : String
  deriving DecidableEq

namespace Fingerprint

/-- The fingerprint of bytes. -/
def ofBytes (bytes : List UInt8) : Fingerprint :=
  ⟨Sha256.hexDigest bytes⟩

/-- The fingerprint of a text. -/
def ofText (text : String) : Fingerprint :=
  ofBytes text.toUTF8.toList

/-- The fingerprint of the graph under a root. -/
def ofGraph (store : Store) (root : Handle) : Except Error Fingerprint := do
  let text ← store.canonicalText root
  return ofText text

/-- The graph under a root has the fingerprint. -/
def verify (fingerprint : Fingerprint) (store : Store) (root : Handle) : Except Error Bool := do
  let actual ← ofGraph store root
  return fingerprint = actual

end Fingerprint

end WireSchema

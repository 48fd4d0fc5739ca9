/-
# The two sides of a node

A node that reads has a counterpart that writes: the same kind, names and children,
without the flags that only a reader has.  What a node that writes has is kept.
-/

import WireSchema.Proofs.Node.Arranged

namespace WireSchema.Node

variable {ν α : Type}

/-- The node that writes what this one reads. -/
def written : Node ν α → Node ν α
  | primitive type => primitive type
  | empty => empty
  | enumeration members => enumeration members
  | nullable _ inner => nullable .write inner
  | list _ item => list .write item
  | dictionary _ key value => dictionary .write key value
  | recordWrite fields => recordWrite fields
  | recordRead inputs => recordWrite (inputs.map fun i => ⟨i.name, i.target⟩)
  | union _ members => union .write members

@[simp]
theorem children_written (node : Node ν α) : node.written.children = node.children := by
  cases node <;> simp [written, children]

@[simp]
theorem names_written (node : Node ν α) : node.written.names = node.names := by
  cases node <;> simp [written, names]

@[simp]
theorem arranged_written_iff {node : Node Name α} : node.written.Arranged ↔ node.Arranged := by
  rw [Arranged, Arranged, names_written]

end WireSchema.Node

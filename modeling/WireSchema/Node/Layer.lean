/-
# One layer of a type

A node describes the outermost layer of a type; the types directly below become
its children.  This file says which node that is, and that the types below are
smaller, so that building layer by layer comes to an end.
-/

import WireSchema.Error

namespace WireSchema

/-- One layer of a type definition: the node for one side whose children are the
types below, with names in the order of the definition. -/
def TypeDef.layer (direction : Direction) (type : TypeDef) :
    Except Error (Node Name TypeDef) :=
  match type with
  | .primitive p => .ok (.primitive p)
  | .unit => .ok .empty
  | .enumeration _ members =>
    if members.isEmpty then .error (.invalidType (.memberless type))
    else .ok (.enumeration (members.map Name.mk))
  | .nullable (.nullable _) => .error (.invalidType (.nestedNullable type))
  | .nullable inner => .ok (.nullable direction inner)
  | .list item => .ok (.list direction item)
  | .dictionary key value => .ok (.dictionary direction key value)
  | .record _ fields =>
    match direction with
    | .write => .ok (.recordWrite (fields.map fun f => ⟨⟨f.name⟩, f.type⟩))
    | .read => .ok (.recordRead (fields.map fun f => ⟨⟨f.name⟩, f.type, !f.hasDefault⟩))
  | .union _ members =>
    if members.isEmpty then .error (.invalidType (.memberless type))
    else .ok (.union direction (members.map fun m => ⟨⟨m.name⟩, m.type⟩))
  | .named _ | .foreign _ => .error (.unsupportedType type)

/-- The types below a type are smaller than the type. -/
theorem TypeDef.sizeOf_lt_of_mem_layer {direction : Direction} {type child : TypeDef}
    {node : Node Name TypeDef} (hlayer : type.layer direction = .ok node)
    (hchild : child ∈ node.children) : sizeOf child < sizeOf type := by
  unfold TypeDef.layer at hlayer
  split at hlayer <;> (try split at hlayer) <;> cases hlayer <;>
    simp only [Node.children, List.map_map, List.mem_map, List.mem_cons, List.not_mem_nil,
      or_false, Function.comp] at hchild
  · subst hchild; simp
  · subst hchild; simp
  · rcases hchild with rfl | rfl <;> rw [TypeDef.dictionary.sizeOf_spec] <;> omega
  · obtain ⟨field, hmem, rfl⟩ := hchild
    have := List.sizeOf_lt_of_mem hmem
    cases field; simp at *; omega
  · obtain ⟨field, hmem, rfl⟩ := hchild
    have := List.sizeOf_lt_of_mem hmem
    cases field; simp at *; omega
  · obtain ⟨member, hmem, rfl⟩ := hchild
    have := List.sizeOf_lt_of_mem hmem
    cases member; simp at *; omega

end WireSchema

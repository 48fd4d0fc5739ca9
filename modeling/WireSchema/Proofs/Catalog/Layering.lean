/-
# The graph that a type describes

A type definition is finite, but through registered names it stands for a graph
that may go on for ever.  The layering of a plan gives that graph node by node: the
layer of the type that a name stands for, with its names in order.

Before the names of a layer are put in order, it is not known whether that can be done.
`Plan.Below` is about layers as they are built from, not as they are described.
-/

import WireSchema.Catalog.Build
import WireSchema.Proofs.Node.Arranged
import WireSchema.Proofs.Node.Recursion

namespace WireSchema

theorem toOption_eq_some_iff {ε α : Type} {x : Except ε α} {a : α} :
    x.toOption = some a ↔ x = .ok a := by
  cases x <;> simp [Except.toOption]

namespace Plan

variable {plan : Plan} {type target : TypeDef} {layer node : Node Name TypeDef}

/-- The arranged layer of a type, if it can be built. -/
def layering (plan : Plan) : Layering TypeDef := fun type => do
  let target ← (plan.target type).toOption
  let layer ← (target.layer plan.direction).toOption
  layer.arrange.toOption

/-- The plan for the other side or the same. -/
def toward (plan : Plan) (direction : Direction) : Plan :=
  { plan with direction }

theorem target_eq_self (h : target.definitionName.isSome) : plan.target target = .ok target := by
  cases target <;> first | rfl | cases h

/-- Only names stand for something else. -/
theorem target_of_ne_named (h : ∀ name, type ≠ .named name) : plan.target type = .ok type := by
  cases type with
  | named name => exact absurd rfl (h name)
  | _ => rfl

/-- What a type stands for stands for itself. -/
theorem target_target (h : plan.target type = .ok target) : plan.target target = .ok target := by
  rcases target_eq_or_mem h with rfl | ⟨-, hname⟩
  · exact h
  · exact target_eq_self hname

theorem layering_eq_some (htarget : plan.target type = .ok target)
    (hlayer : target.layer plan.direction = .ok layer) (hnode : layer.arrange = .ok node) :
    plan.layering type = some node := by
  simp [layering, htarget, hlayer, hnode, Except.toOption]

/-- The layer of a type is that of the type it stands for, arranged. -/
theorem layering_eq_some_iff : plan.layering type = some node ↔
    ∃ target layer, plan.target type = .ok target ∧ target.layer plan.direction = .ok layer ∧
      layer.arrange = .ok node := by
  constructor
  · intro h
    obtain ⟨target, htarget, h⟩ := Option.bind_eq_some_iff.1 h
    obtain ⟨layer, hlayer, h⟩ := Option.bind_eq_some_iff.1 h
    exact ⟨target, layer, toOption_eq_some_iff.1 htarget,
      toOption_eq_some_iff.1 hlayer, toOption_eq_some_iff.1 h⟩
  · rintro ⟨target, layer, htarget, hlayer, hnode⟩
    exact layering_eq_some htarget hlayer hnode

theorem layering_eq_of_target (h : plan.target type = .ok target) :
    plan.layering type = plan.layering target := by
  simp [layering, h, target_target h]

/-- A definition that is registered later does not change what a type stands for. -/
theorem target_append (h : plan.target type = .ok target) (definitions : List Definition) :
    Plan.target { plan with definitions := plan.definitions ++ definitions } type =
      .ok target := by
  cases type with
  | named name =>
      simp only [Plan.target] at h ⊢
      cases hfind : plan.definitions.find? fun definition => definition.name = name with
      | none => rw [hfind] at h; cases h
      | some definition =>
          rw [hfind] at h
          rw [List.find?_append, hfind]
          exact h
  | _ => exact h

/-- What the child stands for is built below what the parent stands for. -/
def Below (plan : Plan) (child parent : TypeDef) : Prop :=
  ∃ target layer type, plan.target parent = .ok target ∧
    target.layer plan.direction = .ok layer ∧ type ∈ layer.children ∧
      plan.target type = .ok child

/-- The type is met again below itself. -/
def Recurs (plan : Plan) (type : TypeDef) : Prop :=
  Relation.TransGen plan.Below type type

end Plan

/-- Types that can be met again while they are built become nodes that are referred to
by id. -/
theorem TypeDef.isByReference_of_mayRecur {direction : Direction} {type : TypeDef}
    {layer : Node Name TypeDef} (h : type.mayRecur = true)
    (hlayer : type.layer direction = .ok layer) : layer.isByReference = true := by
  cases type with
  | record name fields => cases direction <;> cases hlayer <;> rfl
  | union name members =>
      rw [TypeDef.layer] at hlayer
      split at hlayer <;> cases hlayer
      rfl
  | _ => cases h

end WireSchema

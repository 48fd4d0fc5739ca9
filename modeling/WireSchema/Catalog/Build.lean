/-
# Building nodes from types

A type is built layer by layer, the types below first.  A record or union that
is met again while it is being built gets a slot at once, which is filled when
it is finished; that is how a recursive type becomes a cycle.  A finished cycle
that describes the same graph as an older node is dropped in favour of that
node, unless a slot that an enclosing type is waiting for would be dropped with
it.  Every build that fails drops the slots that it has added, those of the types
below before those of the type itself.

Building ends because the types that are open can only be registered definitions
finitely often, and between two of them types get smaller.
-/

import WireSchema.Catalog.Basic
import WireSchema.Node.Arrange
import WireSchema.Node.Layer
import WireSchema.Store.Equivalence

namespace WireSchema

/-- The type can be met again while it is being built. -/
def TypeDef.mayRecur : TypeDef → Bool
  | .record .. | .union .. => true
  | _ => false

/-- A type that has a name and something below can be met again there. -/
theorem TypeDef.mayRecur_of_layer {direction : Direction} {type child : TypeDef}
    {layer : Node Name TypeDef} (hname : type.definitionName.isSome)
    (hlayer : type.layer direction = .ok layer) (hchild : child ∈ layer.children) :
    type.mayRecur = true := by
  cases type with
  | record | union => rfl
  | enumeration name members =>
    rw [TypeDef.layer] at hlayer
    split at hlayer <;> cases hlayer
    cases hchild
  | _ => cases hname

/-- What stays the same while a type is being built. -/
structure Plan where
  direction : Direction
  providers : List Provider
  definitions : List Definition

/-- The store during a build, with the open types and the slots reserved for them. -/
structure Building where
  store : Store
  opened : List TypeDef
  reserved : Table TypeDef Handle

namespace Plan

/-- The type that is to be built for a type: the registered one for a name, and
otherwise the type itself. -/
def target (plan : Plan) (type : TypeDef) : Except Error TypeDef :=
  match type with
  | .named name =>
    match plan.definitions.find? fun definition => definition.name = name with
    | some definition => .ok definition.type
    | none => .error (.unknownType name)
  | type => .ok type

/-- The registered types. -/
def types (plan : Plan) : List TypeDef :=
  plan.definitions.map Definition.type

/-- A registered type has a name. -/
theorem definitionName_of_mem_types {plan : Plan} {type : TypeDef} (h : type ∈ plan.types) :
    type.definitionName.isSome := by
  obtain ⟨definition, -, rfl⟩ := List.mem_map.1 h
  rw [definition.definitionName_eq]
  rfl

theorem target_eq_or_mem {plan : Plan} {type target : TypeDef}
    (h : plan.target type = .ok target) :
    target = type ∨ (target ∈ plan.types ∧ target.definitionName.isSome) := by
  unfold Plan.target at h
  split at h
  · split at h <;> cases h
    next definition hfind =>
      have hmem : definition.type ∈ plan.types :=
        List.mem_map_of_mem (List.mem_of_find?_eq_some hfind)
      exact .inr ⟨hmem, definitionName_of_mem_types hmem⟩
  · cases h
    exact .inl rfl

end Plan

namespace Building

/-- The slot of an open type, reserved now if it has none yet. -/
def slotFor (type : TypeDef) : EStateM Error Building Handle := fun state =>
  match state.reserved.get? type with
  | some handle => .ok handle state
  | none =>
    let (handle, store) := state.store.reserve
    .ok handle { state with store, reserved := state.reserved.insert type handle }

/-- The older node, from before `mark`, that makes the cycle through a filled
slot superfluous. -/
def superseding? (store : Store) (reserved : Table TypeDef Handle) (mark : Nat)
    (slot : Handle) : Option Handle :=
  if reserved.bindings.any fun binding => mark ≤ binding.2 then none
  else store.firstEquivalent? slot store (store.finished.filter fun entry => entry.1 < mark)

/-- Put a type under construction, if it can be met again. -/
def enter (state : Building) (type : TypeDef) : Building :=
  if type.mayRecur then { state with opened := type :: state.opened } else state

/-- The type is no longer under construction. -/
def leave (state : Building) (type : TypeDef) : Building :=
  { state with opened := state.opened.erase type, reserved := state.reserved.erase type }

/-- Build what is below a type, which is under construction meanwhile.  When that
fails, the type is under construction no longer. -/
def below {α : Type} (type : TypeDef) (action : EStateM Error Building α) :
    EStateM Error Building α := fun state =>
  match action (state.enter type) with
  | .ok result state => .ok result state
  | .error error state => .error error (state.leave type)

/-- When the action fails, the slots that it has added are dropped. -/
def undoing {α : Type} (action : EStateM Error Building α) : EStateM Error Building α :=
  fun state =>
    match action state with
    | .ok result later => .ok result later
    | .error error later =>
      .error error { later with store := later.store.rollback state.store.size }

/-- Store the finished node of a type whose build began when the store had
`mark` slots. -/
def close (direction : Direction) (type : TypeDef) (mark : Nat) (node : Node Name Handle) :
    EStateM Error Building Handle := fun state =>
  let closed := state.leave type
  match node.arrangeFor type with
  | .error error => .error error closed
  | .ok node =>
    match state.reserved.get? type with
    | none =>
      let (handle, store) := state.store.intern node
      .ok handle { closed with store := store.remember direction type handle }
    | some slot =>
      let store := state.store.fill slot node
      match superseding? store closed.reserved mark slot with
      | some handle =>
        .ok handle { closed with store := (store.rollback mark).remember direction type handle }
      | none => .ok slot { closed with store := store.remember direction type slot }

end Building

/-- Every child of a layer is nearer to the end of the build than the type it is
a child of. -/
theorem Plan.child_lt {plan : Plan} {opened : List TypeDef} {type target child : TypeDef}
    {layer : Node Name TypeDef} (htarget : plan.target type = .ok target)
    (hopened : target ∉ opened) (hlayer : target.layer plan.direction = .ok layer)
    (hchild : child ∈ layer.children) :
    Prod.Lex (· < ·) (· < ·)
      (unseen plan.types (if target.mayRecur then target :: opened else opened), sizeOf child)
      (unseen plan.types opened, sizeOf type) := by
  have hsize := TypeDef.sizeOf_lt_of_mem_layer hlayer hchild
  have hle : unseen plan.types (if target.mayRecur then target :: opened else opened) ≤
      unseen plan.types opened := by
    split
    · exact unseen_cons_le ..
    · exact Nat.le_refl _
  rcases Plan.target_eq_or_mem htarget with rfl | ⟨hmem, hname⟩
  · rcases Nat.lt_or_eq_of_le hle with hlt | heq
    · exact Prod.Lex.left _ _ hlt
    · rw [heq]
      exact Prod.Lex.right _ hsize
  · rw [if_pos (TypeDef.mayRecur_of_layer hname hlayer hchild)]
    exact Prod.Lex.left _ _ (unseen_cons_lt hmem hopened)

set_option linter.unusedVariables false in
/-- Build a type, where the types in `opened` are being built already. -/
def Building.build (plan : Plan) (opened : List TypeDef) (type : TypeDef) :
    EStateM Error Building Handle :=
  match htarget : plan.target type with
  | .error error => throw error
  | .ok target => do
    let state ← get
    match state.store.built.get? (plan.direction, target) with
    | some handle => return handle
    | none =>
      if hopened : target ∈ opened then slotFor target
      else if plan.providers.any (·.accepts target) then
        match hlayer : target.layer plan.direction with
        | .error error => throw error
        | .ok layer => do
          let node ← below target (layer.traverse fun child hchild =>
            undoing (build plan (if target.mayRecur then target :: opened else opened) child))
          close plan.direction target state.store.size node
      else throw (.unsupportedType target)
termination_by (unseen plan.types opened, sizeOf type)
decreasing_by exact Plan.child_lt htarget hopened hlayer hchild

namespace Catalog

/-- The plan by which a catalog builds for one side. -/
def plan (catalog : Catalog) (direction : Direction) : Plan :=
  ⟨direction, catalog.providers, catalog.definitions⟩

/-- The state of a catalog in which a build begins. -/
def building (catalog : Catalog) : Building :=
  ⟨catalog.store, catalog.opened, catalog.reserved⟩

/-- The handle of a type's node for one side, built now unless it has been built
before. -/
def getOrAdd (direction : Direction) (type : TypeDef) : EStateM Error Catalog Handle :=
  fun catalog =>
    match Building.undoing (Building.build (catalog.plan direction) catalog.opened type)
        catalog.building with
    | .ok handle state =>
      .ok handle
        { catalog with store := state.store, opened := state.opened, reserved := state.reserved }
    | .error error state =>
      .error error
        { catalog with store := state.store, opened := state.opened, reserved := state.reserved }

/-- The layer of a type that has to be of the given kind. -/
def layerOfKind (kind : Kind) (direction : Direction) (type : TypeDef) :
    Except Error (Node Name TypeDef) :=
  if kind.provider.accepts type then type.layer direction
  else .error (.invalidType (.mismatched type kind.provider))

/-- The node of the given kind for a type, without storing it.  Only the types
below are built, each as if by itself, so what has been built for the first of
them stays when a later one fails. -/
def nodeOfKind (kind : Kind) (type : TypeDef) : EStateM Error Catalog (Node Name Handle) :=
  let direction := kind.direction?.getD .write
  match layerOfKind kind direction type with
  | .error error => throw error
  | .ok layer => do
    let node ← layer.traverse fun child _ => getOrAdd direction child
    match node.arrangeFor type with
    | .error error => throw error
    | .ok node => return node

end Catalog

end WireSchema

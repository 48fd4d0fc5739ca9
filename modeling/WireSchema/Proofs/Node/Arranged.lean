/-
# Arranged nodes

A node is arranged when its names are strictly increasing by their lower-case
forms.  `arrange` gives an arranged node with the same children in another order,
does nothing to an arranged node, and cannot tell apart nodes that differ below
only (`Lift.arrange`).
-/

import WireSchema.Proofs.Name.Order
import WireSchema.Proofs.Node.Lifting

namespace WireSchema.Node

variable {ν α β : Type} {R : α → β → Prop}

/-- The names that belong to a node: of the members of an enumeration or union,
or of the fields of a record. -/
def names : Node ν α → List ν
  | enumeration members => members
  | recordWrite fields => fields.map (·.name)
  | recordRead fields => fields.map (·.name)
  | union _ members => members.map (·.name)
  | primitive _ | empty | nullable .. | list .. | dictionary .. => []

/-- The names of the node are strictly increasing, so none occurs twice. -/
def Arranged (node : Node Name α) : Prop :=
  Name.Increasing node.names

theorem names_mapChildren (f : α → β) (node : Node ν α) :
    (node.mapChildren f).names = node.names := by
  cases node <;> simp [mapChildren, names]

theorem names_mapNames {ν' : Type} (f : ν → ν') (node : Node ν α) :
    (node.mapNames f).names = node.names.map f := by
  cases node <;> simp [mapNames, names]

theorem Lift.names_eq {a : Node ν α} {b : Node ν β} (h : Lift R a b) : a.names = b.names := by
  have hshape := congrArg names h.shape_eq
  rwa [shape, shape, names_mapChildren, names_mapChildren] at hshape

theorem arranged_iff_key {node : Node Name α} :
    node.Arranged ↔ node.key.names.Pairwise (· < ·) := by
  rw [key, names_mapNames, List.pairwise_map]
  rfl

theorem Similar.arranged_iff {a : Node Name α} {b : Node Name β} (h : Similar R a b) :
    a.Arranged ↔ b.Arranged := by
  rw [arranged_iff_key, arranged_iff_key, Lift.names_eq h]

/-- Nodes without names are arranged. -/
theorem arranged_of_names_eq_nil {node : Node Name α} (h : node.names = []) : node.Arranged := by
  rw [Arranged, h]
  exact Name.increasing_nil

/-! ## What arranging does -/

/-- Sorted items of distinct names have increasing names. -/
theorem increasing_sortBy (nameOf : α → Name) {items : List α}
    (h : ((items.map nameOf).map Name.folded).Nodup) :
    Name.Increasing ((Name.sortBy nameOf items).map nameOf) := by
  apply Name.increasing_of_nodup
  · rw [List.pairwise_map]
    exact Name.pairwise_sortBy nameOf items
  · exact (((Name.perm_sortBy nameOf items).map nameOf).map Name.folded).nodup_iff.2 h

theorem firstRepeat?_of_nodup {names : List Name} (h : (names.map Name.folded).Nodup) :
    Name.firstRepeat? [] names = none :=
  Name.firstRepeat?_eq_none_iff.2 ⟨h, fun _ _ => List.not_mem_nil⟩

theorem arrange_enumeration {members : List Name} (h : (members.map Name.folded).Nodup) :
    (enumeration members : Node Name α).arrange = .ok (enumeration (Name.sortBy id members)) := by
  rw [arrange, firstRepeat?_of_nodup h]

theorem arrange_recordWrite {fields : List (Member Name α)}
    (h : ((fields.map Member.name).map Name.folded).Nodup) :
    (recordWrite fields).arrange = .ok (recordWrite (Name.sortBy Member.name fields)) := by
  simp only [arrange, Name.firstTwin?_eq_none (increasing_sortBy Member.name h)]

theorem arrange_recordRead {inputs : List (Input Name α)}
    (h : ((inputs.map Input.name).map Name.folded).Nodup) :
    (recordRead inputs).arrange = .ok (recordRead (Name.sortBy Input.name inputs)) := by
  simp only [arrange, Name.firstTwin?_eq_none (increasing_sortBy Input.name h)]

theorem arrange_union {direction : Direction} {members : List (Member Name α)}
    (h : ((members.map Member.name).map Name.folded).Nodup) :
    (union direction members).arrange =
      .ok (union direction (Name.sortBy Member.name members)) := by
  rw [arrange, firstRepeat?_of_nodup h]

/-- An arranged node is left as it is. -/
theorem arrange_eq_self {node : Node Name α} (h : node.Arranged) : node.arrange = .ok node := by
  cases node with
  | primitive | empty | nullable | list | dictionary => rfl
  | enumeration members =>
      have hincreasing : Name.Increasing members := h
      have hsort : Name.sortBy id members = members :=
        Name.sortBy_eq_self id (by rw [List.map_id]; exact hincreasing)
      rw [arrange_enumeration hincreasing.nodup, hsort]
  | recordWrite fields =>
      exact (arrange_recordWrite h.nodup).trans (by rw [Name.sortBy_eq_self _ h])
  | recordRead fields =>
      exact (arrange_recordRead h.nodup).trans (by rw [Name.sortBy_eq_self _ h])
  | union direction members =>
      exact (arrange_union h.nodup).trans (by rw [Name.sortBy_eq_self _ h])

/-- Sorted items without neighbours of one name have increasing names. -/
theorem increasing_sortBy_of_firstTwin? {nameOf : α → Name} {items : List α}
    (h : Name.firstTwin? ((Name.sortBy nameOf items).map nameOf) = none) :
    Name.Increasing ((Name.sortBy nameOf items).map nameOf) := by
  refine Name.increasing_of_firstTwin? ?_ h
  rw [List.pairwise_map]
  exact Name.pairwise_sortBy nameOf items

theorem arranged_of_arrange {node arranged : Node Name α} (h : node.arrange = .ok arranged) :
    arranged.Arranged := by
  cases node with
  | primitive | empty | nullable | list | dictionary =>
      cases h
      exact arranged_of_names_eq_nil rfl
  | enumeration members =>
      rw [arrange] at h
      split at h <;> cases h
      next hrepeat =>
        have hnodup : ((members.map id).map Name.folded).Nodup := by
          rw [List.map_id]
          exact (Name.firstRepeat?_eq_none_iff.1 hrepeat).1
        have hincreasing := increasing_sortBy id hnodup
        rwa [List.map_id] at hincreasing
  | recordWrite fields | recordRead fields =>
      simp only [arrange] at h
      split at h <;> cases h
      next htwin => exact increasing_sortBy_of_firstTwin? htwin
  | union direction members =>
      rw [arrange] at h
      split at h <;> cases h
      next hrepeat => exact increasing_sortBy _ (Name.firstRepeat?_eq_none_iff.1 hrepeat).1

theorem kind_of_arrange {node arranged : Node Name α} (h : node.arrange = .ok arranged) :
    arranged.kind = node.kind := by
  cases node <;> simp only [arrange] at h <;> (try split at h) <;> cases h <;> rfl

/-- Arranging changes nothing but the order of the children. -/
theorem perm_children_of_arrange {node arranged : Node Name α}
    (h : node.arrange = .ok arranged) : arranged.children.Perm node.children := by
  cases node <;> simp only [arrange] at h <;> (try split at h) <;> cases h <;>
    first
    | exact List.Perm.refl _
    | exact (Name.perm_sortBy _ _).map _

/-- A node can be arranged only if its names are different. -/
theorem nodup_names_of_arrange {node arranged : Node Name α} (h : node.arrange = .ok arranged) :
    (node.names.map Name.folded).Nodup := by
  have hincreasing : Name.Increasing arranged.names := arranged_of_arrange h
  have hperm : arranged.names.Perm node.names := by
    cases node <;> simp only [arrange] at h <;> (try split at h) <;> cases h <;>
      first
      | exact List.Perm.refl _
      | exact (Name.perm_sortBy _ _).map _
      | exact Name.perm_sortBy _ _
  exact (hperm.map Name.folded).nodup_iff.1 hincreasing.nodup

theorem exists_arrange_of_nodup {node : Node Name α} (h : (node.names.map Name.folded).Nodup) :
    ∃ arranged, node.arrange = .ok arranged := by
  cases node with
  | primitive | empty | nullable | list | dictionary => exact ⟨_, rfl⟩
  | enumeration members => exact ⟨_, arrange_enumeration h⟩
  | recordWrite fields => exact ⟨_, arrange_recordWrite h⟩
  | recordRead inputs => exact ⟨_, arrange_recordRead h⟩
  | union direction members => exact ⟨_, arrange_union h⟩

/-! ## Arranging looks at names alone -/

theorem sortBy_members (f : α → β) (members : List (Member Name α)) :
    Name.sortBy Member.name (members.map fun m => Member.mk m.name (f m.target)) =
      (Name.sortBy Member.name members).map fun m => Member.mk m.name (f m.target) :=
  (Name.map_sortBy (fun m : Member Name α => Member.mk m.name (f m.target)) (fun _ => rfl)
    members).symm

theorem sortBy_inputs (f : α → β) (inputs : List (Input Name α)) :
    Name.sortBy Input.name (inputs.map fun i => Input.mk i.name (f i.target) i.required) =
      (Name.sortBy Input.name inputs).map fun i => Input.mk i.name (f i.target) i.required :=
  (Name.map_sortBy (fun i : Input Name α => Input.mk i.name (f i.target) i.required)
    (fun _ => rfl) inputs).symm

theorem map_name_members (f : α → β) (members : List (Member Name α)) :
    (members.map fun m => Member.mk m.name (f m.target)).map Member.name =
      members.map Member.name := by
  rw [List.map_map]
  rfl

theorem map_name_inputs (f : α → β) (inputs : List (Input Name α)) :
    (inputs.map fun i => Input.mk i.name (f i.target) i.required).map Input.name =
      inputs.map Input.name := by
  rw [List.map_map]
  rfl

theorem arrange_mapChildren (f : α → β) (node : Node Name α) :
    (node.mapChildren f).arrange = node.arrange.map (mapChildren f) := by
  cases node with
  | primitive | empty | nullable | list | dictionary => rfl
  | enumeration members =>
      simp only [mapChildren, arrange]
      cases Name.firstRepeat? [] members <;> rfl
  | recordWrite fields =>
      simp only [mapChildren, arrange]
      rw [sortBy_members, map_name_members]
      cases Name.firstTwin? ((Name.sortBy Member.name fields).map Member.name) <;> rfl
  | recordRead fields =>
      simp only [mapChildren, arrange]
      rw [sortBy_inputs, map_name_inputs]
      cases Name.firstTwin? ((Name.sortBy Input.name fields).map Input.name) <;> rfl
  | union direction members =>
      simp only [mapChildren, arrange]
      rw [sortBy_members, map_name_members]
      cases Name.firstRepeat? [] (members.map Member.name) <;> rfl

/-- Corresponding nodes are arranged to corresponding nodes. -/
theorem Lift.arrange {a a' : Node Name α} {b : Node Name β} (h : Lift R a b)
    (ha : a.arrange = .ok a') : ∃ b', b.arrange = .ok b' ∧ Lift R a' b' := by
  obtain ⟨z, rfl, rfl⟩ := exists_span h
  rw [arrange_mapChildren] at ha
  cases hz : z.arrange with
  | error flaw => rw [hz] at ha; cases ha
  | ok arranged =>
      rw [hz] at ha
      cases ha
      refine ⟨arranged.mapChildren fun p => p.1.2, ?_, lift_mapChildren _ fun p => p.2⟩
      rw [arrange_mapChildren, hz]
      rfl

theorem arrangeFor_eq_ok_iff {type : TypeDef} {node arranged : Node Name α} :
    node.arrangeFor type = .ok arranged ↔ node.arrange = .ok arranged := by
  rw [arrangeFor]
  cases node.arrange <;> simp

end WireSchema.Node

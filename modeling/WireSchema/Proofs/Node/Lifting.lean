/-
# Nodes that differ below only

Two nodes over different kinds of children correspond when they have the same
names and flags and their children are related one by one.  A pair of such nodes
is one node over related pairs, seen from its two sides (`exists_span`); that is
why whatever looks at names alone treats both alike.
-/

import Mathlib.Data.List.Forall2
import WireSchema.Node.Basic

namespace WireSchema.Node

variable {ν ν' α β γ : Type} {R : α → β → Prop} {a : Node ν α} {b : Node ν β}

/-- The nodes are the same except for what is below them, which is related. -/
structure Lift (R : α → β → Prop) (a : Node ν α) (b : Node ν β) : Prop where
  shape_eq : a.shape = b.shape
  children : List.Forall₂ R a.children b.children

/-- The nodes are the same except for the case of names and for what is below
them, which is related. -/
def Similar (R : α → β → Prop) (a : Node Name α) (b : Node Name β) : Prop :=
  Lift R a.key b.key

theorem shape_mapNames (f : ν → ν') (a : Node ν α) :
    (a.mapNames f).shape = a.shape.mapNames f := by
  cases a <;> simp [mapNames, shape, mapChildren]

theorem shape_mapChildren (f : α → β) (a : Node ν α) : (a.mapChildren f).shape = a.shape := by
  cases a <;> simp [shape, mapChildren]

theorem kind_shape (a : Node ν α) : a.shape.kind = a.kind :=
  kind_mapChildren _ a

@[simp]
theorem kind_key (a : Node Name α) : a.key.kind = a.kind :=
  kind_mapNames _ a

@[simp]
theorem isByReference_key (a : Node Name α) : a.key.isByReference = a.isByReference :=
  congrArg Kind.isByReference (kind_key a)

@[simp]
theorem children_key (a : Node Name α) : a.key.children = a.children :=
  children_mapNames _ a

/-! ## Members and inputs in pairs -/

/-- Two members have the same name, and their targets are related. -/
def SameMember (R : α → β → Prop) (x : Member ν α) (y : Member ν β) : Prop :=
  x.name = y.name ∧ R x.target y.target

/-- Two inputs have the same name and flag, and their targets are related. -/
def SameInput (R : α → β → Prop) (x : Input ν α) (y : Input ν β) : Prop :=
  x.name = y.name ∧ x.required = y.required ∧ R x.target y.target

theorem forall₂_sameMember_iff {xs : List (Member ν α)} {ys : List (Member ν β)} :
    List.Forall₂ (SameMember R) xs ys ↔
      xs.map (fun m => Member.mk m.name ()) = ys.map (fun m => Member.mk m.name ()) ∧
        List.Forall₂ R (xs.map (·.target)) (ys.map (·.target)) := by
  induction xs generalizing ys with
  | nil => cases ys <;> simp
  | cons x xs ih =>
      cases ys with
      | nil => simp
      | cons y ys => simp only [List.forall₂_cons, List.map_cons, List.cons_eq_cons, ih,
          SameMember, Member.mk.injEq]; tauto

theorem forall₂_sameInput_iff {xs : List (Input ν α)} {ys : List (Input ν β)} :
    List.Forall₂ (SameInput R) xs ys ↔
      xs.map (fun i => Input.mk i.name () i.required) =
          ys.map (fun i => Input.mk i.name () i.required) ∧
        List.Forall₂ R (xs.map (·.target)) (ys.map (·.target)) := by
  induction xs generalizing ys with
  | nil => cases ys <;> simp
  | cons x xs ih =>
      cases ys with
      | nil => simp
      | cons y ys => simp only [List.forall₂_cons, List.map_cons, List.cons_eq_cons, ih,
          SameInput, Input.mk.injEq]; tauto

theorem lift_recordWrite_iff {xs : List (Member ν α)} {ys : List (Member ν β)} :
    Lift R (recordWrite xs) (recordWrite ys) ↔ List.Forall₂ (SameMember R) xs ys := by
  rw [forall₂_sameMember_iff]
  exact ⟨fun h => ⟨recordWrite.inj h.shape_eq, h.children⟩,
    fun h => ⟨congrArg recordWrite h.1, h.2⟩⟩

theorem lift_recordRead_iff {xs : List (Input ν α)} {ys : List (Input ν β)} :
    Lift R (recordRead xs) (recordRead ys) ↔ List.Forall₂ (SameInput R) xs ys := by
  rw [forall₂_sameInput_iff]
  exact ⟨fun h => ⟨recordRead.inj h.shape_eq, h.children⟩,
    fun h => ⟨congrArg recordRead h.1, h.2⟩⟩

theorem lift_union_iff {direction direction' : Direction} {xs : List (Member ν α)}
    {ys : List (Member ν β)} :
    Lift R (union direction xs) (union direction' ys) ↔
      direction = direction' ∧ List.Forall₂ (SameMember R) xs ys := by
  rw [forall₂_sameMember_iff]
  constructor
  · intro h
    obtain ⟨hdirection, hmembers⟩ := union.inj h.shape_eq
    exact ⟨hdirection, hmembers, h.children⟩
  · rintro ⟨rfl, hmembers, hrel⟩
    exact ⟨congrArg (union direction) hmembers, hrel⟩

/-! ## One node over related pairs -/

/-- Members in pairs are the two sides of members over related pairs. -/
theorem exists_member_span {xs : List (Member ν α)} {ys : List (Member ν β)}
    (h : List.Forall₂ (SameMember R) xs ys) :
    ∃ zs : List (Member ν { p : α × β // R p.1 p.2 }),
      zs.map (fun m => Member.mk m.name m.target.1.1) = xs ∧
        zs.map (fun m => Member.mk m.name m.target.1.2) = ys := by
  induction h with
  | nil => exact ⟨[], rfl, rfl⟩
  | @cons x y xs ys hxy _ ih =>
      obtain ⟨zs, rfl, rfl⟩ := ih
      obtain ⟨hname, hR⟩ := hxy
      obtain ⟨name, target⟩ := y
      cases hname
      exact ⟨⟨x.name, (x.target, target), hR⟩ :: zs, rfl, rfl⟩

/-- Inputs in pairs are the two sides of inputs over related pairs. -/
theorem exists_input_span {xs : List (Input ν α)} {ys : List (Input ν β)}
    (h : List.Forall₂ (SameInput R) xs ys) :
    ∃ zs : List (Input ν { p : α × β // R p.1 p.2 }),
      zs.map (fun i => Input.mk i.name i.target.1.1 i.required) = xs ∧
        zs.map (fun i => Input.mk i.name i.target.1.2 i.required) = ys := by
  induction h with
  | nil => exact ⟨[], rfl, rfl⟩
  | @cons x y xs ys hxy _ ih =>
      obtain ⟨zs, rfl, rfl⟩ := ih
      obtain ⟨hname, hrequired, hR⟩ := hxy
      obtain ⟨name, target, required⟩ := y
      cases hname
      cases hrequired
      exact ⟨⟨x.name, ⟨(x.target, target), hR⟩, x.required⟩ :: zs, rfl, rfl⟩

/-- Corresponding nodes are the two sides of a node over related pairs. -/
theorem exists_span (h : Lift R a b) :
    ∃ z : Node ν { p : α × β // R p.1 p.2 },
      z.mapChildren (fun p => p.1.1) = a ∧ z.mapChildren (fun p => p.1.2) = b := by
  have hshape := h.shape_eq
  have hrel := h.children
  cases a <;> cases b <;> simp only [shape, mapChildren, reduceCtorEq] at hshape
  case primitive.primitive type type' =>
    obtain rfl := primitive.inj hshape
    exact ⟨.primitive type, rfl, rfl⟩
  case empty.empty => exact ⟨.empty, rfl, rfl⟩
  case enumeration.enumeration members members' =>
    obtain rfl := enumeration.inj hshape
    exact ⟨.enumeration members, rfl, rfl⟩
  case nullable.nullable d x d' y =>
    obtain ⟨rfl, -⟩ := nullable.inj hshape
    exact ⟨.nullable d ⟨(x, y), (List.forall₂_cons.1 hrel).1⟩, rfl, rfl⟩
  case list.list d x d' y =>
    obtain ⟨rfl, -⟩ := list.inj hshape
    exact ⟨.list d ⟨(x, y), (List.forall₂_cons.1 hrel).1⟩, rfl, rfl⟩
  case dictionary.dictionary d k v d' k' v' =>
    obtain ⟨rfl, -⟩ := dictionary.inj hshape
    obtain ⟨hkey, hrel⟩ := List.forall₂_cons.1 hrel
    exact ⟨.dictionary d ⟨(k, k'), hkey⟩ ⟨(v, v'), (List.forall₂_cons.1 hrel).1⟩, rfl, rfl⟩
  case recordWrite.recordWrite fields fields' =>
    obtain ⟨zs, rfl, rfl⟩ := exists_member_span (lift_recordWrite_iff.1 h)
    exact ⟨.recordWrite zs, rfl, rfl⟩
  case recordRead.recordRead fields fields' =>
    obtain ⟨zs, rfl, rfl⟩ := exists_input_span (lift_recordRead_iff.1 h)
    exact ⟨.recordRead zs, rfl, rfl⟩
  case union.union d members d' members' =>
    obtain ⟨rfl, hmembers⟩ := lift_union_iff.1 h
    obtain ⟨zs, rfl, rfl⟩ := exists_member_span hmembers
    exact ⟨.union d zs, rfl, rfl⟩

/-- The two sides of a node over related pairs correspond. -/
theorem lift_mapChildren {ζ : Type} {f : ζ → α} {g : ζ → β} (z : Node ν ζ)
    (h : ∀ x, R (f x) (g x)) : Lift R (z.mapChildren f) (z.mapChildren g) where
  shape_eq := by rw [shape_mapChildren, shape_mapChildren]
  children := by
    rw [children_mapChildren, children_mapChildren, List.forall₂_map_left_iff,
      List.forall₂_map_right_iff]
    exact List.forall₂_same.2 fun x _ => h x

namespace Lift

theorem refl {R : α → α → Prop} (a : Node ν α) (h : ∀ x ∈ a.children, R x x) : Lift R a a :=
  ⟨rfl, List.forall₂_same.2 h⟩

theorem imp {S : α → β → Prop} (h : Lift R a b) (himp : ∀ x y, R x y → S x y) : Lift S a b :=
  ⟨h.shape_eq, h.children.imp himp⟩

theorem kind_eq (h : Lift R a b) : a.kind = b.kind := by
  rw [← kind_shape a, ← kind_shape b, h.shape_eq]

theorem isByReference_eq (h : Lift R a b) : a.isByReference = b.isByReference :=
  congrArg Kind.isByReference h.kind_eq

theorem mapNames (f : ν → ν') (h : Lift R a b) : Lift R (a.mapNames f) (b.mapNames f) where
  shape_eq := by rw [shape_mapNames, shape_mapNames, h.shape_eq]
  children := by rw [children_mapNames, children_mapNames]; exact h.children

theorem symm (h : Lift R a b) : Lift (fun y x => R x y) b a :=
  ⟨h.shape_eq.symm, h.children.flip⟩

end Lift

/-- Lists related through a third list. -/
theorem forall₂_comp {S : β → γ → Prop} {as : List α} {bs : List β} {cs : List γ}
    (h : List.Forall₂ R as bs) (h' : List.Forall₂ S bs cs) :
    List.Forall₂ (fun x z => ∃ y, R x y ∧ S y z) as cs := by
  induction h generalizing cs with
  | nil =>
      cases h'
      exact .nil
  | cons hxy _ ih =>
      cases h' with
      | cons hyz h' => exact .cons ⟨_, hxy, hyz⟩ (ih h')

/-- Lists that are related through something are related through a list. -/
theorem exists_of_forall₂_comp {S : β → γ → Prop} {as : List α} {cs : List γ}
    (h : List.Forall₂ (fun x z => ∃ y, R x y ∧ S y z) as cs) :
    ∃ bs, List.Forall₂ R as bs ∧ List.Forall₂ S bs cs := by
  induction h with
  | nil => exact ⟨[], .nil, .nil⟩
  | cons hxz _ ih =>
      obtain ⟨y, hxy, hyz⟩ := hxz
      obtain ⟨bs, hR, hS⟩ := ih
      exact ⟨y :: bs, .cons hxy hR, .cons hyz hS⟩

theorem exists_left_of_forall₂ {as : List α} {bs : List β} (h : List.Forall₂ R as bs) {y : β}
    (hy : y ∈ bs) : ∃ x ∈ as, R x y := by
  induction h with
  | nil => cases hy
  | cons hxy _ ih =>
      rcases List.mem_cons.1 hy with rfl | hy
      · exact ⟨_, List.mem_cons_self, hxy⟩
      · obtain ⟨x, hx, hR⟩ := ih hy
        exact ⟨x, List.mem_cons_of_mem _ hx, hR⟩

theorem exists_right_of_forall₂ {as : List α} {bs : List β} (h : List.Forall₂ R as bs) {x : α}
    (hx : x ∈ as) : ∃ y ∈ bs, R x y :=
  exists_left_of_forall₂ (R := fun y x => R x y) h.flip hx

/-- What holds of every child on one side can be added to the relation. -/
theorem Lift.and_right {P : β → Prop} (h : Lift R a b) (hP : ∀ y ∈ b.children, P y) :
    Lift (fun x y => R x y ∧ P y) a b := by
  refine ⟨h.shape_eq, ?_⟩
  have hrel := h.children
  generalize a.children = as at hrel ⊢
  generalize b.children = bs at hrel hP ⊢
  induction hrel with
  | nil => exact .nil
  | cons hxy _ ih =>
      refine .cons ⟨hxy, hP _ List.mem_cons_self⟩ (ih fun y hy => ?_)
      exact hP y (List.mem_cons_of_mem _ hy)

theorem Lift.trans {S : β → γ → Prop} {c : Node ν γ} (h : Lift R a b) (h' : Lift S b c) :
    Lift (fun x z => ∃ y, R x y ∧ S y z) a c :=
  ⟨h.shape_eq.trans h'.shape_eq, forall₂_comp h.children h'.children⟩

namespace Similar

variable {a : Node Name α} {b : Node Name β}

theorem of_lift (h : Lift R a b) : Similar R a b :=
  h.mapNames Name.folded

theorem children (h : Similar R a b) : List.Forall₂ R a.children b.children := by
  simpa using Lift.children h

theorem imp {S : α → β → Prop} (h : Similar R a b) (himp : ∀ x y, R x y → S x y) :
    Similar S a b :=
  Lift.imp h himp

/-- Only the key of a node counts. -/
theorem congr_key {b' : Node Name β} (h : Similar R a b) (hkey : b'.key = b.key) :
    Similar R a b' := by
  rw [Similar, hkey]
  exact h

theorem kind_eq (h : Similar R a b) : a.kind = b.kind := by
  simpa using Lift.kind_eq h

theorem isByReference_eq (h : Similar R a b) : a.isByReference = b.isByReference := by
  simpa using Lift.isByReference_eq h

theorem symm (h : Similar R a b) : Similar (fun y x => R x y) b a :=
  Lift.symm h

theorem trans {S : β → γ → Prop} {c : Node Name γ} (h : Similar R a b) (h' : Similar S b c) :
    Similar (fun x z => ∃ y, R x y ∧ S y z) a c :=
  Lift.trans h h'

theorem refl {R : α → α → Prop} (a : Node Name α) (h : ∀ x ∈ a.children, R x x) :
    Similar R a a :=
  of_lift (Lift.refl a h)

/-- Nodes over the same children have the same key. -/
theorem key_eq {a b : Node Name α} (h : Similar (fun x y => x = y) a b) : a.key = b.key := by
  obtain ⟨z, ha, hb⟩ := exists_span h
  have hsides : (fun p : { p : α × α // p.1 = p.2 } => p.1.1) = fun p => p.1.2 :=
    funext fun p => p.2
  rw [← ha, ← hb, hsides]

/-- Every child on one side is related to a child on the other. -/
theorem exists_left (h : Similar R a b) {y : β} (hy : y ∈ b.children) :
    ∃ x ∈ a.children, R x y :=
  exists_left_of_forall₂ h.children hy

theorem exists_right (h : Similar R a b) {x : α} (hx : x ∈ a.children) :
    ∃ y ∈ b.children, R x y :=
  exists_right_of_forall₂ h.children hx

theorem and_right {P : β → Prop} (h : Similar R a b) (hP : ∀ y ∈ b.children, P y) :
    Similar (fun x y => R x y ∧ P y) a b :=
  Lift.and_right h fun y hy => hP y (children_key b ▸ hy)

end Similar

/-! ## Similar nodes of one kind -/

theorem forall₂_congr {S : α → β → Prop} {as : List α} {bs : List β}
    (h : ∀ a b, R a b ↔ S a b) : List.Forall₂ R as bs ↔ List.Forall₂ S as bs :=
  ⟨.imp fun a b => (h a b).1, .imp fun a b => (h a b).2⟩

theorem same_iff_folded_eq {a b : Name} : b.same a = true ↔ a.folded = b.folded := by
  rw [Name.same, decide_eq_true_eq, eq_comm]

theorem similar_enumeration_iff {members members' : List Name} :
    (enumeration members : Node Name α).Similar R (enumeration members' : Node Name β) ↔
      List.Forall₂ (fun a b => b.same a = true) members members' := by
  have hnames : List.Forall₂ (fun a b : Name => b.same a = true) members members' ↔
      members.map Name.folded = members'.map Name.folded := by
    rw [← List.forall₂_eq_eq_eq, List.forall₂_map_left_iff, List.forall₂_map_right_iff]
    exact forall₂_congr fun _ _ => same_iff_folded_eq
  rw [hnames]
  exact ⟨fun h => enumeration.inj h.shape_eq, fun h => ⟨congrArg enumeration h, .nil⟩⟩

theorem similar_recordWrite_iff {fields : List (Member Name α)} {fields' : List (Member Name β)} :
    (recordWrite fields).Similar R (recordWrite fields') ↔
      List.Forall₂ (fun a b => b.name.same a.name = true ∧ R a.target b.target)
        fields fields' := by
  refine lift_recordWrite_iff.trans ?_
  rw [List.forall₂_map_left_iff, List.forall₂_map_right_iff]
  exact forall₂_congr fun _ _ => and_congr_left' same_iff_folded_eq.symm

theorem similar_recordRead_iff {inputs : List (Input Name α)} {inputs' : List (Input Name β)} :
    (recordRead inputs).Similar R (recordRead inputs') ↔
      List.Forall₂ (fun a b => b.name.same a.name = true ∧ R a.target b.target ∧
        b.required = a.required) inputs inputs' := by
  refine lift_recordRead_iff.trans ?_
  rw [List.forall₂_map_left_iff, List.forall₂_map_right_iff]
  refine forall₂_congr fun _ _ => and_congr same_iff_folded_eq.symm ?_
  exact and_comm.trans (and_congr_right' eq_comm)

theorem similar_union_iff {direction direction' : Direction} {members : List (Member Name α)}
    {members' : List (Member Name β)} :
    (union direction members).Similar R (union direction' members') ↔ direction = direction' ∧
      List.Forall₂ (fun a b => b.name.same a.name = true ∧ R a.target b.target)
        members members' := by
  refine lift_union_iff.trans (and_congr_right' ?_)
  rw [List.forall₂_map_left_iff, List.forall₂_map_right_iff]
  exact forall₂_congr fun _ _ => and_congr_left' same_iff_folded_eq.symm

/-! ## Nodes similar to a known one -/

variable {node : Node Name β}

theorem exists_of_similar_enumeration {members : List Name}
    (h : (enumeration members : Node Name α).Similar R node) :
    ∃ members', node = enumeration members' ∧
      List.Forall₂ (fun a b => b.same a = true) members members' := by
  have hshape := h.shape_eq
  cases node with
  | enumeration members' => exact ⟨members', rfl, similar_enumeration_iff.1 h⟩
  | _ => cases hshape

theorem exists_of_similar_recordWrite {fields : List (Member Name α)}
    (h : (recordWrite fields).Similar R node) :
    ∃ fields', node = recordWrite fields' ∧
      List.Forall₂ (fun a b => b.name.same a.name = true ∧ R a.target b.target) fields fields' := by
  have hshape := h.shape_eq
  cases node with
  | recordWrite fields' => exact ⟨fields', rfl, similar_recordWrite_iff.1 h⟩
  | _ => cases hshape

theorem exists_of_similar_recordRead {inputs : List (Input Name α)}
    (h : (recordRead inputs).Similar R node) :
    ∃ inputs', node = recordRead inputs' ∧
      List.Forall₂ (fun a b => b.name.same a.name = true ∧ R a.target b.target ∧
        b.required = a.required) inputs inputs' := by
  have hshape := h.shape_eq
  cases node with
  | recordRead inputs' => exact ⟨inputs', rfl, similar_recordRead_iff.1 h⟩
  | _ => cases hshape

theorem exists_of_similar_union {direction : Direction} {members : List (Member Name α)}
    (h : (union direction members).Similar R node) :
    ∃ members', node = union direction members' ∧
      List.Forall₂ (fun a b => b.name.same a.name = true ∧ R a.target b.target)
        members members' := by
  have hshape := h.shape_eq
  cases node with
  | union direction' members' =>
      obtain ⟨rfl, hmembers⟩ := similar_union_iff.1 h
      exact ⟨members', rfl, hmembers⟩
  | _ => cases hshape

end WireSchema.Node

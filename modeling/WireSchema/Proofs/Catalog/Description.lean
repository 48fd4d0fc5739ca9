/-
# What a node says about a type

A node describes a type from one side when it is of the same kind, has the same names
up to case, and has below it what describes the types below; names may be in another
order.  The handle that a catalog returns for a type leads to a graph of which this is
true at every node, whatever the catalog had built before and however the definitions
refer to each other.
-/

import WireSchema.Proofs.Catalog.Reachable
import WireSchema.Proofs.Node.Paired

namespace WireSchema

/-- The member is what a node has for a field that is written. -/
structure FieldDef.WrittenAs (R : TypeDef → Handle → Prop) (field : FieldDef TypeDef)
    (member : Member Name Handle) : Prop where
  same_name : member.name.same ⟨field.name⟩ = true
  target : R field.type member.target

/-- The input is what a node has for a field that is read. -/
structure FieldDef.ReadAs (R : TypeDef → Handle → Prop) (field : FieldDef TypeDef)
    (input : Input Name Handle) : Prop where
  same_name : input.name.same ⟨field.name⟩ = true
  target : R field.type input.target
  required_eq : input.required = !field.hasDefault

/-- The member is what a node has for an alternative of a union. -/
structure MemberDef.KnownAs (R : TypeDef → Handle → Prop) (alternative : MemberDef TypeDef)
    (member : Member Name Handle) : Prop where
  same_name : member.name.same ⟨alternative.name⟩ = true
  target : R alternative.type member.target

/-- The node is one for the type on one side, with related types and handles below. -/
inductive TypeDef.Describes (direction : Direction) (R : TypeDef → Handle → Prop) :
    TypeDef → Node Name Handle → Prop
  | primitive (type : Primitive) : Describes direction R (.primitive type) (.primitive type)
  | unit : Describes direction R .unit .empty
  | enumeration {name : String} {spellings : List String} {members : List Name} :
      Paired (fun spelling member => member.same ⟨spelling⟩ = true) spellings members →
        Describes direction R (.enumeration name spellings) (.enumeration members)
  | nullable {inner : TypeDef} {handle : Handle} : R inner handle →
      Describes direction R (.nullable inner) (.nullable direction handle)
  | list {item : TypeDef} {handle : Handle} : R item handle →
      Describes direction R (.list item) (.list direction handle)
  | dictionary {key value : TypeDef} {keyHandle valueHandle : Handle} : R key keyHandle →
      R value valueHandle →
        Describes direction R (.dictionary key value) (.dictionary direction keyHandle valueHandle)
  | recordWrite {name : String} {fields : List (FieldDef TypeDef)}
      {members : List (Member Name Handle)} : direction = .write →
        Paired (FieldDef.WrittenAs R) fields members →
          Describes direction R (.record name fields) (.recordWrite members)
  | recordRead {name : String} {fields : List (FieldDef TypeDef)}
      {inputs : List (Input Name Handle)} : direction = .read →
        Paired (FieldDef.ReadAs R) fields inputs →
          Describes direction R (.record name fields) (.recordRead inputs)
  | union {name : String} {alternatives : List (MemberDef TypeDef)}
      {members : List (Member Name Handle)} : Paired (MemberDef.KnownAs R) alternatives members →
        Describes direction R (.union name alternatives) (.union direction members)

/-! ## Layers and the nodes made of them -/

/-- A node with the arranged layer of a type describes the type. -/
theorem TypeDef.describes_of_layer {direction : Direction} {R : TypeDef → Handle → Prop}
    {target : TypeDef} {layer arranged : Node Name TypeDef} {node : Node Name Handle}
    (hlayer : target.layer direction = .ok layer) (harrange : layer.arrange = .ok arranged)
    (hsimilar : arranged.Similar R node) : target.Describes direction R node := by
  have hshape := hsimilar.shape_eq
  have hchildren := hsimilar.children
  cases target with
  | named | foreign => cases hlayer
  | primitive type =>
      cases hlayer
      cases harrange
      cases node <;> cases hshape
      exact .primitive type
  | unit =>
      cases hlayer
      cases harrange
      cases node <;> cases hshape
      exact .unit
  | enumeration name spellings =>
      rw [TypeDef.layer] at hlayer
      split at hlayer <;> cases hlayer
      rw [Node.arrange] at harrange
      split at harrange <;> cases harrange
      obtain ⟨members, rfl, hrel⟩ := Node.exists_of_similar_enumeration hsimilar
      exact .enumeration (paired_of_sortBy hrel fun _ _ h => h)
  | nullable inner =>
      have hlayer : layer = .nullable direction inner := by
        cases inner <;> cases hlayer <;> rfl
      subst hlayer
      cases harrange
      cases node <;> cases hshape
      exact .nullable (List.forall₂_cons.1 hchildren).1
  | list item =>
      cases hlayer
      cases harrange
      cases node <;> cases hshape
      exact .list (List.forall₂_cons.1 hchildren).1
  | dictionary key value =>
      cases hlayer
      cases harrange
      cases node <;> cases hshape
      obtain ⟨hkey, hrest⟩ := List.forall₂_cons.1 hchildren
      exact .dictionary hkey (List.forall₂_cons.1 hrest).1
  | record name fields =>
      cases direction with
      | write =>
          cases hlayer
          simp only [Node.arrange] at harrange
          split at harrange <;> cases harrange
          obtain ⟨members, rfl, hrel⟩ := Node.exists_of_similar_recordWrite hsimilar
          exact .recordWrite rfl (paired_of_sortBy hrel fun _ _ h => ⟨h.1, h.2⟩)
      | read =>
          cases hlayer
          simp only [Node.arrange] at harrange
          split at harrange <;> cases harrange
          obtain ⟨inputs, rfl, hrel⟩ := Node.exists_of_similar_recordRead hsimilar
          exact .recordRead rfl (paired_of_sortBy hrel fun _ _ h => ⟨h.1, h.2.1, h.2.2⟩)
  | union name alternatives =>
      rw [TypeDef.layer] at hlayer
      split at hlayer <;> cases hlayer
      rw [Node.arrange] at harrange
      split at harrange <;> cases harrange
      obtain ⟨members, rfl, hrel⟩ := Node.exists_of_similar_union hsimilar
      exact .union (paired_of_sortBy hrel fun _ _ h => ⟨h.1, h.2⟩)

namespace Catalog

/-- What a type definition stands for among the definitions of a catalog: what is
registered under a name, and any other definition itself. -/
inductive StandsFor (catalog : Catalog) : TypeDef → TypeDef → Prop
  | name {name : String} {definition : Definition} :
      catalog.definition? name = some definition → StandsFor catalog (.named name) definition.type
  | itself {type : TypeDef} : (∀ name, type ≠ .named name) → StandsFor catalog type type

/-- Every handle leads to a node for the type that it is related to, with related types and
handles below. -/
def Explains (catalog : Catalog) (direction : Direction) (R : TypeDef → Handle → Prop) : Prop :=
  ∀ type handle, R type handle → ∃ target node, catalog.StandsFor type target ∧
    catalog.store.node? handle = some node ∧ target.Describes direction R node

variable {catalog : Catalog} {direction : Direction} {type : TypeDef} {handle : Handle}

theorem standsFor_of_target {target : TypeDef}
    (h : (catalog.plan direction).target type = .ok target) : catalog.StandsFor type target := by
  unfold Plan.target at h
  split at h
  · split at h <;> cases h
    next hfind => exact .name hfind
  next hnamed =>
    cases h
    exact .itself hnamed

/-- The graph of a type is explained node by node. -/
theorem explains_describes : catalog.Explains direction (catalog.Describes direction) := by
  intro type handle h
  obtain ⟨arranged, node, hlayering, hnode, hsimilar⟩ := h.unfold
  obtain ⟨target, layer, htarget, hlayer, harrange⟩ := Plan.layering_eq_some_iff.1 hlayering
  exact ⟨target, node, standsFor_of_target htarget, hnode,
    TypeDef.describes_of_layer hlayer harrange hsimilar⟩

/-! ## The record that refers to itself -/

/-- The store in which the record has a slot and the type of its field a node. -/
def chainBelow : Store :=
  (Store.empty.reserve.2.intern (.nullable .write 0)).2.remember .write
    (.nullable (.named "Node")) 1

/-- The store with the node of the record. -/
def chainStore : Store :=
  (chainBelow.fill 0 (.recordWrite [⟨⟨"next"⟩, 1⟩])).remember .write chainType 0

/-- The field is built while the record is open, so the record gets a slot. -/
theorem build_chain_field :
    Building.build (chainCatalog.plan .write) [chainType] (.nullable (.named "Node"))
        ⟨Store.empty, [chainType], .empty⟩ =
      .ok 1 ⟨chainBelow, [chainType], Table.empty.insert chainType 0⟩ := by
  have hfield : (chainCatalog.plan .write).target (.nullable (.named "Node")) =
      .ok (.nullable (.named "Node")) := rfl
  have hlayer : TypeDef.layer .write (.nullable (.named "Node")) =
      .ok (.nullable .write (.named "Node")) := rfl
  have hrecord : (chainCatalog.plan .write).target (.named "Node") = .ok chainType := rfl
  rw [Building.build_of_layer hfield rfl (by decide) (by decide) hlayer]
  dsimp only [Node.traverse, Building.below, Building.undoing, bind, EStateM.bind]
  rw [Building.build_of_mem hrecord rfl (by decide)]
  rfl

theorem close_chain :
    Building.close .write chainType 0 (.recordWrite [⟨⟨"next"⟩, 1⟩])
        ⟨chainBelow, [chainType], Table.empty.insert chainType 0⟩ =
      .ok 0 ⟨chainStore, [], (Table.empty.insert chainType 0).erase chainType⟩ := by
  have harrange : Node.arrangeFor (κ := Handle) chainType (.recordWrite [⟨⟨"next"⟩, 1⟩]) =
      .ok (.recordWrite [⟨⟨"next"⟩, 1⟩]) := by
    simp only [Node.arrangeFor, Node.arrange, Name.sortBy, List.mergeSort_singleton]
    rfl
  rw [Building.close, harrange]
  rfl

theorem getOrAdd_chain : getOrAdd .write (.named "Node") chainCatalog =
    .ok 0 { chainCatalog with
      store := chainStore
      reserved := (Table.empty.insert chainType 0).erase chainType } := by
  have hbuild : Building.build (chainCatalog.plan .write) [] (.named "Node")
      ⟨Store.empty, [], .empty⟩ =
        .ok 0 ⟨chainStore, [], (Table.empty.insert chainType 0).erase chainType⟩ := by
    have hrecord : (chainCatalog.plan .write).target (.named "Node") = .ok chainType := rfl
    have hlayer : chainType.layer .write =
        .ok (.recordWrite [⟨⟨"next"⟩, .nullable (.named "Node")⟩]) := rfl
    rw [Building.build_of_layer hrecord rfl List.not_mem_nil (by decide) hlayer]
    refine Eq.trans ?_ close_chain
    have hrecur : chainType.mayRecur = true := rfl
    dsimp only [Node.traverse, Node.visitAll, Building.below, Building.undoing, bind, EStateM.bind,
      Building.enter, Building.openedBelow]
    simp only [hrecur, if_true, build_chain_field]
    rfl
  have hstart : chainCatalog.building = ⟨Store.empty, [], .empty⟩ := rfl
  have hclosed : chainCatalog.opened = [] := rfl
  rw [getOrAdd, hstart, hclosed, Building.undoing, hbuild]
  rfl

/-! ## Built types are described -/

/-- The handle that is returned for a type leads to a graph that describes it. -/
theorem exists_explains_of_getOrAdd {after : Catalog} (h : Reachable catalog)
    (hbuild : getOrAdd direction type catalog = .ok handle after) :
    ∃ R, after.Explains direction R ∧ R type handle := by
  have hends := getOrAdd_ends h.sound direction type
  rw [hbuild] at hends
  exact ⟨after.Describes direction, explains_describes, hends.2⟩

theorem exists_explains_of_getOrAdd_chain : ∃ handle after,
    getOrAdd .write (.named "Node") chainCatalog = .ok handle after ∧
      ∃ R, after.Explains .write R ∧ R (.named "Node") handle :=
  ⟨_, _, getOrAdd_chain, exists_explains_of_getOrAdd reachable_chainCatalog getOrAdd_chain⟩

end Catalog

end WireSchema

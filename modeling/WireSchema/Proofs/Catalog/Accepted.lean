/-
# Which types are accepted

Whether a type can be built depends on the definitions and the providers of the catalog alone, not
on what has been built before nor on the order of the providers.  A type that has been built is not
looked at again, but the graph under its handle says that it was accepted, with all that it
involves.
-/

import WireSchema.Proofs.Catalog.FailedBuild
import WireSchema.Proofs.Catalog.Providers

namespace WireSchema

namespace TypeDef

variable {direction : Direction} {type : TypeDef} {layer : Node Name TypeDef}

/-- The types of which a type is made up directly. -/
def components : TypeDef → List TypeDef
  | nullable inner => [inner]
  | list item => [item]
  | dictionary key value => [key, value]
  | record _ fields => fields.map FieldDef.type
  | union _ members => members.map MemberDef.type
  | primitive _ | unit | enumeration .. | named _ | foreign _ => []

/-- The names of members or fields that the type itself gives. -/
def ownNames : TypeDef → List Name
  | enumeration _ members => members.map Name.mk
  | record _ fields => fields.map fun field => ⟨field.name⟩
  | union _ members => members.map fun member => ⟨member.name⟩
  | primitive _ | unit | nullable _ | list _ | dictionary .. | named _ | foreign _ => []

/-- The type is well formed, whatever the types are of which it is made up. -/
structure Proper (type : TypeDef) : Prop where
  enumeration_ne_nil : ∀ name members, type = .enumeration name members → members ≠ []
  union_ne_nil : ∀ name members, type = .union name members → members ≠ []
  nullable_once : ∀ inner, type ≠ .nullable (.nullable inner)
  /-- Names are distinct, without regard to case. -/
  distinct : (type.ownNames.map Name.folded).Nodup

theorem children_of_layer (h : type.layer direction = .ok layer) :
    layer.children = type.components := by
  unfold TypeDef.layer at h
  split at h <;> (try split at h) <;> cases h <;> simp [Node.children, components]

theorem names_of_layer (h : type.layer direction = .ok layer) : layer.names = type.ownNames := by
  unfold TypeDef.layer at h
  split at h <;> (try split at h) <;> cases h <;> simp [Node.names, ownNames]

/-- A type whose layer has distinct names is well formed. -/
theorem proper_of_layer {arranged : Node Name TypeDef} (hlayer : type.layer direction = .ok layer)
    (harrange : layer.arrange = .ok arranged) : type.Proper where
  enumeration_ne_nil := by
    rintro name members rfl rfl
    cases hlayer
  union_ne_nil := by
    rintro name members rfl rfl
    cases hlayer
  nullable_once := by
    rintro inner rfl
    cases hlayer
  distinct := names_of_layer hlayer ▸ Node.nodup_names_of_arrange harrange

/-- A well-formed type for which there is a provider has a layer with distinct names. -/
theorem Proper.exists_layer (h : type.Proper) {provider : Provider}
    (haccepts : provider.accepts type = true) (direction : Direction) :
    ∃ layer arranged, type.layer direction = .ok layer ∧ layer.arrange = .ok arranged := by
  have hlayer : ∃ layer, type.layer direction = .ok layer := by
    cases type with
    | primitive | unit | list | dictionary => exact ⟨_, rfl⟩
    | enumeration name members =>
        exact ⟨_, if_neg fun hnil => h.enumeration_ne_nil _ _ rfl (List.isEmpty_iff.1 hnil)⟩
    | nullable inner =>
        cases inner with
        | nullable inner => exact absurd rfl (h.nullable_once inner)
        | _ => exact ⟨_, rfl⟩
    | record name fields => cases direction <;> exact ⟨_, rfl⟩
    | union name members =>
        exact ⟨_, if_neg fun hnil => h.union_ne_nil _ _ rfl (List.isEmpty_iff.1 hnil)⟩
    | named | foreign => cases provider <;> cases haccepts
  obtain ⟨layer, hlayer⟩ := hlayer
  obtain ⟨arranged, harrange⟩ := Node.exists_arrange_of_nodup (names_of_layer hlayer ▸ h.distinct)
  exact ⟨layer, arranged, hlayer, harrange⟩

end TypeDef

namespace Catalog

variable {catalog : Catalog} {direction : Direction} {type part : TypeDef} {handle : Handle}
variable {store : Store}

/-- The second type is the first, a type of which it is made up, or registered under a name that
occurs in it, and so on. -/
inductive Involves (catalog : Catalog) (type : TypeDef) : TypeDef → Prop
  | refl : Involves catalog type type
  | component {part child : TypeDef} : Involves catalog type part → child ∈ part.components →
      Involves catalog type child
  | definition {name : String} {definition : Definition} : Involves catalog type (.named name) →
      catalog.definition? name = some definition → Involves catalog type definition.type

/-- A name is registered; any other type has a provider and is well formed. -/
def Admits (catalog : Catalog) : TypeDef → Prop
  | .named name => ∃ definition, catalog.definition? name = some definition
  | type => (∃ provider ∈ catalog.providers, provider.accepts type = true) ∧ type.Proper

theorem Involves.trans {inner : TypeDef} (h : catalog.Involves type part)
    (h' : catalog.Involves part inner) : catalog.Involves type inner := by
  induction h' with
  | refl => exact h
  | component _ hchild ih => exact ih.component hchild
  | definition _ hfind ih => exact ih.definition hfind

theorem target_of_definition? {name : String} {definition : Definition}
    (h : catalog.definition? name = some definition) :
    (catalog.plan direction).target (.named name) = .ok definition.type := by
  rw [definition?] at h
  rw [Plan.target, plan]
  simp only [h]

/-- An admitted type stands for a type that is not a name. -/
theorem exists_target_of_admits (direction : Direction) (h : catalog.Admits part) :
    ∃ target, (catalog.plan direction).target part = .ok target ∧ catalog.Involves part target ∧
      ∀ name, target ≠ .named name := by
  cases part with
  | named name =>
      obtain ⟨definition, hfind⟩ := h
      refine ⟨definition.type, target_of_definition? hfind, .definition .refl hfind, ?_⟩
      intro name hnamed
      have hname := definition.definitionName_eq
      rw [hnamed] at hname
      cases hname
  | _ => exact ⟨_, rfl, .refl, nofun⟩

theorem admits_iff_of_ne_named (h : ∀ name, part ≠ .named name) : catalog.Admits part ↔
    (∃ provider ∈ catalog.providers, provider.accepts part = true) ∧ part.Proper := by
  cases part with
  | named name => exact absurd rfl (h name)
  | _ => exact Iff.rfl

/-- What a graph describes has its parts described by the graph. -/
theorem describes_of_involves {allowed : Kind → Prop}
    (hdescribes : (catalog.plan direction).layering.Agree store.node? type handle)
    (hamong : store.KindsAmong allowed handle) (hpart : catalog.Involves type part) :
    ∃ handle, (catalog.plan direction).layering.Agree store.node? part handle ∧
      store.KindsAmong allowed handle := by
  induction hpart with
  | refl => exact ⟨handle, hdescribes, hamong⟩
  | @component part child _ hchild ih =>
      obtain ⟨handle, hdescribes, hamong⟩ := ih
      obtain ⟨x, y, hx, hy, hsimilar⟩ := hdescribes.unfold
      obtain ⟨target, layer, htarget, hlayer, harrange⟩ := Plan.layering_eq_some_iff.1 hx
      have hself : target = part := by
        cases part <;> first | cases htarget; rfl | cases hchild
      have hmem : child ∈ x.children := by
        rw [(Node.perm_children_of_arrange harrange).mem_iff, TypeDef.children_of_layer hlayer,
          hself]
        exact hchild
      obtain ⟨below, hbelow, hagree⟩ := hsimilar.exists_right hmem
      exact ⟨below, hagree, hamong.child hy below hbelow⟩
  | definition _ hfind ih =>
      obtain ⟨handle, hdescribes, hamong⟩ := ih
      exact ⟨handle, Alike.congr_left hdescribes
        (Plan.layering_eq_of_target (target_of_definition? hfind)).symm id, hamong⟩

/-- What a graph of kinds that have providers describes is admitted. -/
theorem admits_of_describes
    (hdescribes : (catalog.plan direction).layering.Agree store.node? part handle)
    (hamong : store.KindsAmong (fun kind => kind.provider ∈ catalog.providers) handle) :
    catalog.Admits part := by
  obtain ⟨x, y, hx, hy, hsimilar⟩ := hdescribes.unfold
  obtain ⟨target, layer, htarget, hlayer, harrange⟩ := Plan.layering_eq_some_iff.1 hx
  have hkind : layer.kind.provider ∈ catalog.providers := by
    rw [← Node.kind_of_arrange harrange, hsimilar.kind_eq]
    exact hamong.kind hy
  by_cases hnamed : ∃ name, part = .named name
  · obtain ⟨name, rfl⟩ := hnamed
    rw [Plan.target] at htarget
    split at htarget
    next definition hfind => exact ⟨definition, hfind⟩
    next => cases htarget
  · have hself : (catalog.plan direction).target part = .ok part :=
      Plan.target_of_ne_named fun name h => hnamed ⟨name, h⟩
    cases hself.symm.trans htarget
    exact (admits_iff_of_ne_named fun name h => hnamed ⟨name, h⟩).2
      ⟨⟨_, hkind, (TypeDef.accepts_iff_of_layer hlayer).2 rfl⟩,
        TypeDef.proper_of_layer hlayer harrange⟩

/-- Nothing stands against building a type if all that it involves is admitted. -/
theorem grants_of_admits (direction : Direction)
    (h : ∀ inner, catalog.Involves part inner → catalog.Admits inner) :
    Building.Grants (catalog.plan direction)
      (fun part => ∀ inner, catalog.Involves part inner → catalog.Admits inner) part := by
  obtain ⟨target, htarget, hinvolves, hnamed⟩ := exists_target_of_admits direction (h part .refl)
  obtain ⟨⟨provider, hprovider, haccepts⟩, hproper⟩ :=
    (admits_iff_of_ne_named hnamed).1 (h target hinvolves)
  obtain ⟨layer, arranged, hlayer, harrange⟩ := hproper.exists_layer haccepts direction
  refine ⟨target, layer, arranged, htarget, List.any_eq_true.2 ⟨provider, hprovider, haccepts⟩,
    hlayer, harrange, fun child hchild inner hinner => ?_⟩
  rw [TypeDef.children_of_layer hlayer] at hchild
  exact h inner ((hinvolves.component hchild).trans hinner)

/-- A type is accepted exactly if all types that it involves are admitted: every name is
registered, and every other type has a provider and is well formed. -/
theorem exists_getOrAdd_iff (h : Reachable catalog) (direction : Direction) (type : TypeDef) :
    (∃ handle after, getOrAdd direction type catalog = .ok handle after) ↔
      ∀ part, catalog.Involves type part → catalog.Admits part := by
  constructor
  · rintro ⟨handle, after, hbuild⟩ part hpart
    have hends := getOrAdd_ends h.sound direction type
    have hamong := getOrAdd_among h.sound h.buildsProvided direction type
    rw [hbuild] at hends hamong
    obtain ⟨state, -, rfl⟩ := exists_build_of_getOrAdd h.sound hbuild
    -- The definitions are the same before and after the build.
    have hdescribes : (catalog.plan direction).layering.Agree state.store.node? type handle :=
      hends.2
    obtain ⟨below, hdescribes, hkinds⟩ := describes_of_involves hdescribes hamong.2 hpart
    exact admits_of_describes hdescribes hkinds
  · exact exists_getOrAdd_of_grants _ fun part hpart => grants_of_admits direction hpart

/-- The ring is accepted, and a record with a foreign field is not. -/
theorem exists_getOrAdd_iff_ring :
    (∃ handle after, getOrAdd .write (.named "Ring") ringCatalog = .ok handle after) ∧
    (∀ part, ringCatalog.Involves (.named "Ring") part → ringCatalog.Admits part) ∧
    ¬ ∃ handle after, getOrAdd .write halfType ringCatalog = .ok handle after := by
  have hring : ∃ handle after, getOrAdd .write (.named "Ring") ringCatalog = .ok handle after :=
    ⟨0, _, eq_ok_of_answer (by cbv)⟩
  refine ⟨hring, (exists_getOrAdd_iff reachable_ringCatalog .write _).1 hring, fun hhalf => ?_⟩
  have hadmits := (exists_getOrAdd_iff reachable_ringCatalog .write _).1 hhalf (.foreign "Socket")
    (.component .refl (by decide))
  obtain ⟨⟨provider, -, haccepts⟩, -⟩ := hadmits
  cases provider <;> cases haccepts

end Catalog

end WireSchema

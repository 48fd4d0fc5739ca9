/-
# Sound catalogs

Between operations the store of a catalog is sound, no type is under construction,
and whatever a type has been built as leads to the graph of that type.  Every
operation keeps this up, whether it succeeds or fails, and never takes away a node
or changes what a name stands for (`Keeps`).
-/

import WireSchema.Proofs.Catalog.Build
import WireSchema.Proofs.Document.Import
import WireSchema.Proofs.Store.Ids

namespace WireSchema

/-- An agreement outlasts what is added on either side. -/
theorem Layering.Agree.mono {α β : Type} {f f' : Layering α} {g g' : Layering β} {a : α} {b : β}
    (h : f.Agree g a b) (hf : ∀ a x, f a = some x → f' a = some x)
    (hg : ∀ b y, g b = some y → g' b = some y) : f'.Agree g' a b := by
  refine of_closed (R := f.Agree g) (fun a b h => ?_) h
  obtain ⟨x, y, hx, hy, hsimilar⟩ := h.unfold
  exact ⟨x, y, hf a x hx, hg b y hy, hsimilar⟩

namespace Catalog

/-- The handle leads to the graph of the type on one side. -/
def Describes (catalog : Catalog) (direction : Direction) (type : TypeDef) (handle : Handle) :
    Prop :=
  (catalog.plan direction).layering.Agree catalog.store.node? type handle

/-- What holds of a catalog between operations. -/
structure Sound (catalog : Catalog) : Prop where
  store : catalog.store.Sound
  opened : catalog.opened = []
  reserved : ∀ type, catalog.reserved.get? type = none
  built : ∀ {direction type handle}, catalog.store.built.get? (direction, type) = some handle →
    catalog.Describes direction type handle

/-- The second catalog has the definitions of the first, perhaps with others after them,
and its nodes under the same handles. -/
structure Keeps (before after : Catalog) : Prop where
  definitions : ∃ more, after.definitions = before.definitions ++ more
  node?_of : ∀ {handle node}, before.store.node? handle = some node →
    after.store.node? handle = some node

/-- A sound catalog that has all of an earlier one. -/
structure Follows (before after : Catalog) : Prop where
  sound : after.Sound
  keeps : Keeps before after

namespace Keeps

variable {s t u : Catalog}

theorem refl (catalog : Catalog) : Keeps catalog catalog :=
  ⟨⟨[], (List.append_nil _).symm⟩, fun h => h⟩

theorem trans (h : Keeps s t) (h' : Keeps t u) : Keeps s u where
  definitions := by
    obtain ⟨more, hmore⟩ := h.definitions
    obtain ⟨more', hmore'⟩ := h'.definitions
    exact ⟨more ++ more', by rw [hmore', hmore, List.append_assoc]⟩
  node?_of hnode := h'.node?_of (h.node?_of hnode)

/-- A name goes on to stand for what is registered under it. -/
theorem definition?_of (h : Keeps s t) {name : String} {definition : Definition}
    (hfind : s.definition? name = some definition) : t.definition? name = some definition := by
  obtain ⟨more, hmore⟩ := h.definitions
  rw [definition?] at hfind ⊢
  rw [hmore, List.find?_append, hfind]
  rfl

theorem target_of (h : Keeps s t) {direction : Direction} {type target : TypeDef}
    (htarget : (s.plan direction).target type = .ok target) :
    (t.plan direction).target type = .ok target := by
  obtain ⟨more, hmore⟩ := h.definitions
  have happend := Plan.target_append htarget more
  rw [plan, hmore]
  exact happend

/-- A handle goes on to lead to the graph of a type. -/
theorem describes (h : Keeps s t) {direction : Direction} {type : TypeDef} {handle : Handle}
    (hdescribes : s.Describes direction type handle) : t.Describes direction type handle := by
  refine hdescribes.mono (fun type node hnode => ?_) fun _ _ hnode => h.node?_of hnode
  obtain ⟨target, layer, htarget, hlayer, harrange⟩ := Plan.layering_eq_some_iff.1 hnode
  exact Plan.layering_eq_some (h.target_of htarget) hlayer harrange

end Keeps

theorem Follows.refl {catalog : Catalog} (h : catalog.Sound) : Follows catalog catalog :=
  ⟨h, .refl catalog⟩

theorem Follows.trans {s t u : Catalog} (h : Follows s t) (h' : Follows t u) : Follows s u :=
  ⟨h'.sound, h.keeps.trans h'.keeps⟩

variable {catalog : Catalog}

theorem sound_withProviders (providers : List Provider) : (withProviders providers).Sound where
  store := Store.Sound.empty
  opened := rfl
  reserved _ := rfl
  built h := by cases h

/-! ## Building -/

theorem valid_of_sound (h : catalog.Sound) (direction : Direction) :
    Building.Valid (catalog.plan direction) [] ⟨catalog.store, catalog.reserved⟩ where
  scaffold := .start h.store h.reserved
  grounded := h.store.grounded
  built hget := (h.built hget).alike
  recurs hget := by
    rw [h.reserved] at hget
    cases hget

theorem agree_of_depicts {plan : Plan} {direction : Direction} {state : Store.Scaffold TypeDef}
    {type : TypeDef} {handle : Handle} (h : Building.Depicts plan direction state type handle)
    (hvalid : state.Valid []) :
    (plan.toward direction).layering.Agree state.store.node? type handle :=
  Store.Scaffold.Depicts.agree h hvalid

/-- A build that has come to an end leaves a sound catalog. -/
theorem follows_of_records {direction : Direction} {state : Building}
    (hrecords : Building.Records (catalog.plan direction) [] state)
    (hstep : catalog.store.Extends state.store) :
    Follows catalog { catalog with
      store := state.store
      opened := state.opened
      reserved := state.reserved } where
  sound :=
    have hvalid := hrecords.valid
    { store :=
        { toRegular := hvalid.scaffold.regular
          filled := fun hlt => hvalid.scaffold.exists_node? hlt
          grounded := hvalid.grounded }
      opened := hrecords.opened_eq
      reserved := hvalid.scaffold.get?_eq_none
      built := fun hget => agree_of_depicts (hvalid.built hget) hvalid.scaffold }
  keeps := ⟨⟨[], (List.append_nil _).symm⟩, fun hnode => hstep.node?_of hnode⟩

/-- A build that has failed leaves what was there before. -/
theorem follows_of_leaves (h : catalog.Sound) {direction : Direction} {state : Building}
    (hleaves : Building.Leaves (catalog.plan direction) [] catalog.building state) :
    Follows catalog { catalog with
      store := state.store.rollback catalog.store.size
      opened := state.opened
      reserved := state.reserved } where
  sound :=
    have hfails := hleaves.fails
    { opened := hleaves.opened_eq
      store := h.store.rollback hfails.regular hfails.grown
      reserved := fun type => by
        cases hget : state.reserved.get? type with
        | none => rfl
        | some slot => cases hfails.is_open hget
      built := fun {direction type handle} hget => by
        obtain ⟨hget, hlt⟩ := (Store.built_rollback hfails.regular.built_lt).1 hget
        have hagree := agree_of_depicts (hfails.built hget hlt)
          (valid_of_sound h direction).scaffold
        apply Layering.Agree.mono hagree (fun _ _ h => h)
        intro handle node hnode
        exact (hfails.grown.node?_rollback_eq handle).trans hnode }
  keeps := by
    refine ⟨⟨[], (List.append_nil _).symm⟩, fun {handle node} hnode => ?_⟩
    exact (hleaves.fails.grown.node?_rollback_eq handle).trans hnode

/-- The handle that is returned for a type leads to its graph, and what the steps of the
build keep is kept.  A build that fails is taken back to the size of the store. -/
theorem getOrAdd_keeps {direction : Direction} {Keeps : Store → Prop}
    (hkeeps : Building.Maintains direction Keeps) (h : catalog.Sound)
    (hkept : Keeps catalog.store) (type : TypeDef) :
    Ends (getOrAdd direction type catalog)
      (fun handle after => (Follows catalog after ∧ after.Describes direction type handle) ∧
        Keeps after.store)
      fun _ after => Follows catalog after ∧ ∃ state : Store, state.Regular ∧
        catalog.store.Extends state ∧ Keeps state ∧
          after.store = state.rollback catalog.store.size := by
  have hstart : Building.Records (catalog.plan direction) catalog.opened catalog.building := by
    refine ⟨?_, rfl⟩
    rw [h.opened]
    exact valid_of_sound h direction
  have hruns := Building.build_runs (catalog.plan direction) hkeeps catalog.opened type
    (h.opened ▸ nofun) catalog.building ⟨hstart, hkept⟩
  unfold getOrAdd Building.undoing
  cases hbuild : Building.build (catalog.plan direction) catalog.opened type catalog.building with
  | ok handle state =>
      rw [hbuild, h.opened] at hruns
      obtain ⟨⟨hrecords, hkept'⟩, hstep, hdepicts⟩ := hruns
      exact ⟨⟨follows_of_records hrecords hstep.grown,
        agree_of_depicts hdepicts hrecords.valid.scaffold⟩, hkept'⟩
  | error error state =>
      rw [hbuild, h.opened] at hruns
      exact ⟨follows_of_leaves h hruns.1, state.store, hruns.1.fails.regular,
        hruns.1.fails.grown, hruns.2, rfl⟩

theorem getOrAdd_ends (h : catalog.Sound) (direction : Direction) (type : TypeDef) :
    Ends (getOrAdd direction type catalog)
      (fun handle after => Follows catalog after ∧ after.Describes direction type handle)
      fun _ after => Follows catalog after :=
  Ends.imp (getOrAdd_keeps (Building.maintains_true _) h trivial type) (fun _ _ h => h.1)
    fun _ _ h => h.1

/-- A build that has come to an end came to an end in the store of the catalog. -/
theorem exists_build_of_getOrAdd (h : catalog.Sound) {direction : Direction} {type : TypeDef}
    {handle : Handle} {later : Catalog}
    (hbuild : getOrAdd direction type catalog = .ok handle later) :
    ∃ state, Building.build (catalog.plan direction) [] type catalog.building =
        .ok handle state ∧
      later = { catalog with
        store := state.store
        opened := state.opened
        reserved := state.reserved } := by
  unfold getOrAdd at hbuild
  rw [h.opened] at hbuild
  split at hbuild
  next state hstate =>
    cases hbuild
    exact ⟨state, Building.undoing_eq_ok_iff.1 hstate, rfl⟩
  next => cases hbuild

/-- A type can be built if nothing stands against building any of the types below. -/
theorem exists_getOrAdd_of_grants {direction : Direction} {type : TypeDef} (good : TypeDef → Prop)
    (hgood : ∀ part, good part → Building.Grants (catalog.plan direction) good part)
    (htype : good type) : ∃ handle later, getOrAdd direction type catalog = .ok handle later := by
  have hruns := Building.build_succeeds (catalog.plan direction) hgood catalog.opened type htype
    catalog.building
  unfold getOrAdd Building.undoing
  cases hbuild : Building.build (catalog.plan direction) catalog.opened type catalog.building with
  | ok handle state => exact ⟨_, _, rfl⟩
  | error error state =>
      rw [hbuild] at hruns
      exact hruns.elim

/-- Operations one after the other that keep the property, also where they fail. -/
def keeping (P : Catalog → Prop) : Session Catalog where
  Valid := P
  Step _ _ := True
  Fails _ t := P t
  refl _ := trivial
  trans _ _ := trivial
  fails_of_step _ _ _ h := h

/-- Making a node for a type keeps what building keeps. -/
theorem nodeOfKind_keeps {P : Catalog → Prop}
    (hbuild : ∀ direction type s, P s →
      Ends (getOrAdd direction type s) (fun _ t => P t) fun _ t => P t)
    (h : P catalog) (kind : Kind) (type : TypeDef) :
    Ends (nodeOfKind kind type catalog) (fun _ t => P t) fun _ t => P t := by
  unfold nodeOfKind
  cases layerOfKind kind (kind.direction?.getD .write) type with
  | error error => exact h
  | ok layer =>
      have hbelow : ∀ child (_ : child ∈ layer.children) (s : Catalog), P s →
          (keeping P).Runs s (getOrAdd (kind.direction?.getD .write) child s) fun _ _ => True :=
        fun child _ s hs => Ends.imp (hbuild _ child s hs)
          (fun _ _ ht => ⟨ht, trivial, trivial⟩) fun _ _ ht => ht
      refine ends_bind.2 (Ends.imp (Session.runs_traverse (S := keeping P)
        (R := fun _ _ _ => True) (fun _ _ _ _ _ _ _ h => h) hbelow h) ?_ fun _ _ ht => ht)
      rintro node t ⟨ht, -, -⟩
      cases node.arrangeFor type with
      | error error => exact ht
      | ok arranged => exact ht

/-! ## Registering -/

/-- Registering changes nothing but the definitions. -/
theorem register_changes (type : TypeDef) (catalog : Catalog) :
    Ends (register type catalog)
      (fun _ after => ∃ definitions, after = { catalog with definitions })
      fun _ after => ∃ definitions, after = { catalog with definitions } := by
  unfold register
  split
  · exact ⟨_, rfl⟩
  · split
    · exact ⟨_, rfl⟩
    · split <;> exact ⟨_, rfl⟩

theorem register_ends (h : catalog.Sound) (type : TypeDef) :
    Ends (register type catalog) (fun _ after => Follows catalog after)
      fun _ after => Follows catalog after := by
  unfold register
  split
  · exact .refl h
  next definition _ =>
    split
    · have hkeeps : Keeps catalog
          { catalog with definitions := catalog.definitions ++ [definition] } :=
        ⟨⟨[definition], rfl⟩, fun hnode => hnode⟩
      exact ⟨⟨h.store, h.opened, h.reserved, fun hget => hkeeps.describes (h.built hget)⟩, hkeeps⟩
    · split
      · exact .refl h
      · exact .refl h

/-! ## Operations of the store -/

theorem follows_of_progress (h : catalog.Sound) {store : Store}
    (hprogress : catalog.store.Progress store) : Follows catalog { catalog with store } := by
  have hkeeps : Keeps catalog { catalog with store } :=
    ⟨⟨[], (List.append_nil _).symm⟩, fun hnode => hprogress.grown.node?_of hnode⟩
  exact ⟨⟨hprogress.sound, h.opened, h.reserved,
    fun hget => hkeeps.describes (h.built (hprogress.built hget))⟩, hkeeps⟩

theorem onStore_eq_ok {α : Type} {operation : EStateM Error Store α} {result : α} {store : Store}
    (h : operation catalog.store = .ok result store) :
    onStore operation catalog = .ok result { catalog with store } := by
  rw [onStore, h]

theorem onStore_eq_error {α : Type} {operation : EStateM Error Store α} {error : Error}
    {store : Store} (h : operation catalog.store = .error error store) :
    onStore operation catalog = .error error { catalog with store } := by
  rw [onStore, h]

theorem eq_ok_of_onStore {α : Type} {operation : EStateM Error Store α} {result : α}
    {after : Catalog} (h : onStore operation catalog = .ok result after) :
    operation catalog.store = .ok result after.store := by
  unfold onStore at h
  split at h
  next heq =>
    cases h
    exact heq
  next => cases h

/-- An operation of the store leaves the catalog as it is when it leaves the store so. -/
theorem onStore_eq_self_iff {α : Type} {operation : EStateM Error Store α} {result : α} :
    onStore operation catalog = .ok result catalog ↔
      operation catalog.store = .ok result catalog.store :=
  ⟨eq_ok_of_onStore, onStore_eq_ok⟩

theorem onStore_ends {α : Type} {operation : EStateM Error Store α} {ok : α → Store → Prop}
    {error : Error → Store → Prop} (h : Ends (operation catalog.store) ok error) :
    Ends (onStore operation catalog) (fun a after =>
        ∃ store, after = { catalog with store } ∧ ok a store)
      fun e after => ∃ store, after = { catalog with store } ∧ error e store := by
  unfold onStore
  cases hrun : operation catalog.store with
  | ok a store =>
      rw [hrun] at h
      exact ⟨store, rfl, h⟩
  | error e store =>
      rw [hrun] at h
      exact ⟨store, rfl, h⟩

end Catalog

end WireSchema

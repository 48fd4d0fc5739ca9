/-
# Ids are a registry

The table of ids and the ids of the nodes say the same in every reachable catalog, so no two nodes
share an id.  Ids are given to nodes that are referred to by id only: those in a document are, and
so is a node that is given an id when it is exported.  A node that has none yet gets the first
generated id that is free, whatever ids documents have brought.
-/

import WireSchema.Proofs.Catalog.Kept

namespace WireSchema

namespace Store

variable {store before after : Store} {slot : Handle}

/-- Only nodes that are referred to by id have ids. -/
structure IdsReferred (store : Store) : Prop where
  referred : ∀ {handle id}, store.id? handle = some id →
    ∃ node, store.node? handle = some node ∧ node.isByReference = true

namespace IdsReferred

theorem empty : Store.empty.IdsReferred where
  referred hid := by
    rw [id?_empty] at hid
    cases hid

/-- Nodes that are added have no ids. -/
theorem of_id?_eq (h : before.IdsReferred) (hids : ∀ handle, after.id? handle = before.id? handle)
    (hnodes : ∀ {handle node}, before.node? handle = some node →
      after.node? handle = some node) : after.IdsReferred where
  referred hid := by
    obtain ⟨node, hnode, hreference⟩ := h.referred ((hids _).symm.trans hid)
    exact ⟨node, hnodes hnode, hreference⟩

theorem rollback (h : store.IdsReferred) (mark : Nat) : (store.rollback mark).IdsReferred where
  referred {handle id} hid := by
    rw [id?_rollback] at hid
    split at hid
    next hlt =>
      obtain ⟨node, hnode, hreference⟩ := h.referred hid
      exact ⟨node, by rw [node?_rollback, if_pos hlt, hnode], hreference⟩
    next => cases hid

theorem labels (h : before.IdsReferred) (hlabels : before.Labels after) : after.IdsReferred where
  referred {handle id} hid := by
    have hnode : ∃ node, before.node? handle = some node ∧ node.isByReference = true :=
      (hlabels.referred hid).elim h.referred fun hnode => hnode
    obtain ⟨node, hnode, hreference⟩ := hnode
    exact ⟨node, (hlabels.node?_eq handle).trans hnode, hreference⟩

end IdsReferred

end Store

theorem Building.maintains_idsReferred (direction : Direction) :
    Building.Maintains direction Store.IdsReferred where
  reserve {store} h := h.of_id?_eq (Store.id?_reserve store) (Store.extends_reserve store).node?_of
  intern node hregular h := h.of_id?_eq (Store.id?_intern hregular node)
    (Store.extends_intern hregular node).node?_of
  fill node _ _ h hslot hempty _ := h.of_id?_eq (Store.id?_fill _ _ node)
    fun hnode => Store.node?_fill_of_eq_some hslot hempty hnode node
  rollback _ _ _ h _ := h.rollback _
  remember _ _ _ h := h.of_id?_eq (fun _ => rfl) id

namespace Catalog

variable {catalog : Catalog}

theorem maintains_idsReferred : Maintains (fun _ => True) Store.IdsReferred where
  toPreserves := .of_labels Building.maintains_idsReferred fun h => h.labels
  empty := .empty

/-- Looking up an id and asking a node for its id agree, so no two nodes share an id, and only
nodes that are referred to by id have one.  Such a node always has an id after it has been asked to
be given one: the one that it had, or else the first generated id that no node has. -/
theorem ids_one_to_one (h : Reachable catalog) :
    (∀ id handle, catalog.store.lookupId? id = some handle ↔
      catalog.store.id? handle = some id) ∧
    (∀ id handle handle', catalog.store.id? handle = some id →
      catalog.store.id? handle' = some id → handle = handle') ∧
    (∀ id handle, catalog.store.id? handle = some id →
      ∃ node, catalog.store.node? handle = some node ∧ node.isByReference = true) ∧
    ∀ handle node, catalog.store.node? handle = some node → node.isByReference = true →
      (∀ id, catalog.store.id? handle = some id →
        onStore (Store.assignId handle) catalog = .ok (some id) catalog) ∧
      (catalog.store.id? handle = none → ∃ number later,
        onStore (Store.assignId handle) catalog =
          .ok (some (Store.generatedId node.kind number)) later ∧
        later.store.id? handle = some (Store.generatedId node.kind number) ∧
        (∀ other, catalog.store.id? other ≠ some (Store.generatedId node.kind number)) ∧
        catalog.store.nextId ≤ number ∧ ∀ taken, catalog.store.nextId ≤ taken → taken < number →
          ∃ other, catalog.store.id? other = some (Store.generatedId node.kind taken)) := by
  have hiff : ∀ {id handle}, catalog.store.ids.get? id = some handle ↔
      catalog.store.id? handle = some id := h.sound.store.toRegular.id_iff
  refine ⟨fun _ _ => hiff, fun id handle handle' hid hid' => ?_,
    fun _ _ => (maintains_idsReferred.keeps h.importing).referred,
    fun handle node hnode hreference => ⟨fun id hid => ?_, fun hnone => ?_⟩⟩
  · exact Option.some.inj ((hiff.2 hid).symm.trans (hiff.2 hid'))
  · exact onStore_eq_ok (Store.assignId_of_id?_eq_some hnode hreference hid)
  · obtain ⟨hle, htaken⟩ := Store.taken_of_lt_freshNumber catalog.store node.kind
    refine ⟨catalog.store.freshNumber node.kind, _,
      onStore_eq_ok (Store.assignId_of_id?_eq_none hnode hreference hnone),
      (Store.id?_setId (Store.lt_size_of_node? hnode) _ handle).trans (if_pos rfl),
      fun other hother => ?_, hle, fun taken hle hlt => (htaken taken hle hlt).imp fun _ => hiff.1⟩
    cases (hiff.2 hother).symm.trans (Store.get?_generatedId catalog.store node.kind)

/-! ## An id that has been taken -/

/-- A document of an enumeration whose id has the form of a generated one. -/
def takenDocument : Element :=
  ((Element.new documentName).withAttribute "Root" "#Enum0").withChild
    (((Element.new "Enum").withAttribute "Id" "Enum0").withChild
      ((Element.new "Member").withAttribute "Name" "x"))

/-- A catalog into which that document has been imported and in which another enumeration has been
built. -/
def takenCatalog : Catalog :=
  after (getOrAdd .write (.enumeration "E" ["y"]))
    (after (onStore (Store.importDocument .write takenDocument))
      (withProviders Provider.standard))

theorem reachable_takenCatalog : Reachable takenCatalog :=
  .step (.getOrAdd .write (.enumeration "E" ["y"]))
    (.step (.importDocument .write takenDocument) (.start Provider.standard))

/-- The other enumeration gets another id than the one that the document has brought. -/
theorem ids_one_to_one_taken : takenCatalog.store.id? 0 = some "Enum0" ∧
    takenCatalog.store.lookupId? "Enum0" = some 0 ∧ takenCatalog.store.id? 1 = none ∧
    ∃ number later, onStore (Store.assignId 1) takenCatalog =
        .ok (some (Store.generatedId .enumeration number)) later ∧
      ∀ other, takenCatalog.store.id? other ≠ some (Store.generatedId .enumeration number) := by
  obtain ⟨hlookup, -, -, hassign⟩ := ids_one_to_one reachable_takenCatalog
  have hid : takenCatalog.store.id? 0 = some "Enum0" := by cbv
  have hnone : takenCatalog.store.id? 1 = none := by cbv
  have hnode : takenCatalog.store.node? 1 = some (.enumeration [⟨"y"⟩]) := by cbv
  obtain ⟨number, later, hrun, -, hfree, -⟩ := (hassign 1 _ hnode rfl).2 hnone
  exact ⟨hid, (hlookup _ _).2 hid, hnone, number, later, hrun, hfree⟩

end Catalog

end WireSchema

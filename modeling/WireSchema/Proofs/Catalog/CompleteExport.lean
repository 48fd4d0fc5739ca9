/-
# Exports are complete

Every node of a catalog can be exported, with the document naming it or not.  The document has one
element for each node below it that is referred to by id, under ids that are different, and nothing
else.  Those of these nodes that had no id get one and nothing else is changed, so another export
of the node changes nothing and gives the same document.
-/

import WireSchema.Proofs.Catalog.References
import WireSchema.Proofs.Document.Complete

namespace WireSchema.Catalog

variable {catalog : Catalog} {root : Handle} {node : Node Name Handle}

/-- A node is exported as a document of all nodes below it that are referred to by id, each once.
They have ids then, under which they are found, and the ids that there were are kept.  Exporting
the node again gives the same document and leaves the catalog as it is. -/
theorem export_comprises (h : Reachable catalog) (hroot : catalog.store.node? root = some node)
    (includeRoot : Bool) : ∃ document store order,
      onStore (Store.exportGraph root includeRoot) catalog = .ok document { catalog with store } ∧
      order.Nodup ∧
      (∀ handle, handle ∈ order ↔ handle ∈ catalog.store.ReferredBelow root) ∧
      store.Comprises (if includeRoot then some root else none) order document ∧
      catalog.store.Labelled order store ∧
      (∀ id handle, store.lookupId? id = some handle ↔ store.id? handle = some id) ∧
      onStore (Store.exportGraph root includeRoot) { catalog with store } =
        .ok document { catalog with store } := by
  have hstore := h.sound.store
  have hlt := Store.lt_size_of_node? hroot
  obtain ⟨document, store, order, hexport, hprogress, hnodup, horder, hcomprises, hlabelled⟩ :=
    Store.exists_exportGraph_comprises hstore hlt includeRoot
  have hagain := Store.exportGraph_again hstore hlt hexport
  exact ⟨document, store, order, onStore_eq_ok hexport, hnodup, horder, hcomprises, hlabelled,
    fun _ _ => hprogress.sound.id_iff, onStore_eq_ok hagain⟩

/-- A document of the enumeration of the tree, under an id of the form of those of unions. -/
def leafDocument : Element :=
  ((Element.new documentName).withAttribute "Root" "#UnionWrite1").withChild
    (((Element.new "Enum").withAttribute "Id" "UnionWrite1").withChild
      ((Element.new "Member").withAttribute "Name" "x"))

/-- A catalog in which the list of the tree has been built after that document was imported. -/
def leafCatalog : Catalog :=
  after (getOrAdd .write (.list (.named "T")))
    (after (register treeType)
      (after (onStore (Store.importDocument .write leafDocument))
        (withProviders Provider.standard)))

theorem reachable_leafCatalog : Reachable leafCatalog :=
  .step (.getOrAdd .write (.list (.named "T")))
    (.step (.register treeType)
      (.step (.importDocument .write leafDocument) (.start Provider.standard)))

/-- The enumeration keeps its id, and the union takes the next one. -/
theorem export_comprises_tree : leafCatalog.store.id? 0 = some "UnionWrite1" ∧
    ∃ document store,
      onStore (Store.exportGraph 2 true) leafCatalog = .ok document { leafCatalog with store } ∧
      document.ids = ["UnionWrite1", "ComplexWrite0", "UnionWrite2"] ∧
      store.id? 0 = some "UnionWrite1" ∧
      onStore (Store.exportGraph 2 true) { leafCatalog with store } =
        .ok document { leafCatalog with store } := by
  obtain ⟨hid, hlist, hrun⟩ : leafCatalog.store.id? 0 = some "UnionWrite1" ∧
      leafCatalog.store.node? 2 = some (.list .write 1) ∧
      (answer (onStore (Store.exportGraph 2 true)) leafCatalog).map Element.ids =
        some ["UnionWrite1", "ComplexWrite0", "UnionWrite2"] := by cbv
  obtain ⟨document, store, order, hexport, -, -, -, hlabelled, -, hagain⟩ :=
    export_comprises reachable_leafCatalog hlist true
  obtain ⟨other, hother, hids⟩ := Option.map_eq_some_iff.1 hrun
  obtain ⟨rfl, -⟩ := EStateM.Result.ok.inj (hexport.symm.trans (eq_ok_of_answer hother))
  exact ⟨hid, document, store, hexport, hids, hlabelled.id?_of hid, hagain⟩

end WireSchema.Catalog

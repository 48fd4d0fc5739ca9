/-
# Importing what has been exported

A document that a catalog has exported is known to it node by node.  Importing it gives back
the handle, and changes nothing, exactly if the handle finds itself.  A graph without cycles
always does, and so does a graph that nothing else describes.  Where a cycle goes round its
graph more than once, the first of the nodes is found.
-/

import WireSchema.Proofs.Catalog.CopyAgain
import WireSchema.Proofs.Catalog.SameText
import WireSchema.Proofs.Document.ImportAgain

namespace WireSchema.Catalog

variable {catalog : Catalog} {direction : Direction} {type : TypeDef} {handle : Handle}

/-- A handle that was returned for a type is exported, and importing the document into the same
catalog gives it back and changes nothing exactly if it finds itself, which it does if nothing
else describes its graph.  For a handle that is referred to by id nothing is ever changed. -/
theorem import_exported (h : catalog.Returned direction type handle)
    (hids : catalog.store.AllReferable handle) :
    ∃ document exported,
      onStore (Store.exportGraph handle true) catalog = .ok document exported ∧
      (onStore (Store.importDocument direction document) exported = .ok handle exported ↔
        catalog.store.FindsItself handle) ∧
      (catalog.store.HeldAlone handle →
        onStore (Store.importDocument direction document) exported = .ok handle exported) ∧
      (catalog.store.Referred handle → ∃ first,
        catalog.store.IsFirst handle catalog.store first ∧
          onStore (Store.importDocument direction document) exported = .ok first exported) := by
  have hsound := h.reachable.sound.store
  obtain ⟨document, store, hexport, hiff, hreferred⟩ :=
    Store.exists_importAgain hsound h.lt_size h.describes.oneSided hids
  refine ⟨document, { catalog with store }, onStore_eq_ok hexport, ?_, fun halone => ?_,
    fun hreference => ?_⟩
  · rw [onStore_eq_self_iff]
    exact hiff
  · exact onStore_eq_self_iff.2 (hiff.2 (halone.findsItself hsound h.reachable.frugal h.lt_size))
  · obtain ⟨first, hfirst, himport⟩ := hreferred hreference
    exact ⟨first, hfirst, onStore_eq_self_iff.2 himport⟩

/-- Where no ids have been given, all of them can be written. -/
theorem allReferable_of_ids_eq (h : catalog.store.Regular) (hids : catalog.store.ids = .empty)
    (handle : Handle) : catalog.store.AllReferable handle := by
  intro other node id _ _ _ hid
  rw [← h.id_iff, hids] at hid
  cases hid

/-- The chain is exported and imported again. -/
theorem import_exported_chain : ∃ document exported,
    onStore (Store.exportGraph 0 true) writtenCatalog = .ok document exported ∧
      onStore (Store.importDocument .write document) exported = .ok 0 exported := by
  have hids := allReferable_of_ids_eq reachable_writtenCatalog.sound.store.toRegular (by cbv) 0
  obtain ⟨document, exported, hexport, -, hagain, -⟩ :=
    import_exported returned_writtenCatalog hids
  exact ⟨document, exported, hexport, hagain fun _ _ _ _ => eq_of_bisimilar_writtenCatalog⟩

/-! ## A cycle that goes round twice -/

/-- The inner record of the longer cycle, or nothing. -/
def turnedType : TypeDef :=
  .nullable (fieldType "B" (.named "A"))

/-- A catalog in which it has been built after the cycle. -/
def turnedCatalog : Catalog :=
  after (getOrAdd .write turnedType) twiceCatalog

/-- The inner record is found as the outer one, which describes the same graph, so another
nullable is added. -/
theorem import_differs_turned : turnedCatalog.Returned .write turnedType 2 ∧
    turnedCatalog.store.AllReferable 2 ∧ turnedCatalog.store.size = 3 ∧
      ∃ document exported imported,
        onStore (Store.exportGraph 2 true) turnedCatalog = .ok document exported ∧
          onStore (Store.importDocument .write document) exported = .ok 3 imported := by
  have hreturned : turnedCatalog.Returned .write turnedType 2 :=
    returned_of_answer reachable_twiceCatalog (by cbv) .refl
  have hids : turnedCatalog.store.AllReferable 2 :=
    allReferable_of_ids_eq hreturned.reachable.sound.store.toRegular (by cbv) 2
  have hround : answer (do
      let document ← onStore (Store.exportGraph 2 true)
      onStore (Store.importDocument .write document)) turnedCatalog = some 3 := by cbv
  obtain ⟨document, store, hexport, -⟩ := Store.exists_importAgain
    hreturned.reachable.sound.store hreturned.lt_size hreturned.describes.oneSided hids
  have hrun : onStore (Store.exportGraph 2 true) turnedCatalog =
      .ok document { turnedCatalog with store } := onStore_eq_ok hexport
  exact ⟨hreturned, hids, by cbv, document, _, _, hrun,
    (run_bind_of_ok hrun).symm.trans (eq_ok_of_answer hround)⟩

end WireSchema.Catalog

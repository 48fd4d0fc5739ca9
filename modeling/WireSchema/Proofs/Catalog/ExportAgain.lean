/-
# Exporting what has been imported

A document that has been exported is imported into a catalog that has nothing, and the copy is
exported.  That gives the document again, but for the order of elements whose nodes recur with
each other: these come in the order of their handles, and the other catalog has given the handles
in another order.  Where no two nodes recur with each other, it is the same document.
-/

import WireSchema.Proofs.Catalog.ImportAgain
import WireSchema.Proofs.Document.ExportAgain

namespace WireSchema.Catalog

variable {catalog : Catalog} {direction : Direction} {type : TypeDef} {handle : Handle}

/-- A handle that was returned for a type is exported, the document is imported into a new catalog,
and what this returns is exported, if the ids can be written and no two nodes that are referred to
by id describe the same graph.  Both documents have the same name and attributes and the same
elements, group by group of nodes that recur with each other; they are the same if no two nodes
do. -/
theorem export_imported (h : catalog.Returned direction type handle)
    (hids : catalog.store.AllReferable handle) (hreduced : catalog.store.Reduced handle)
    (providers : List Provider) : ∃ document exported copy imported again final,
      onStore (Store.exportGraph handle true) catalog = .ok document exported ∧
      onStore (Store.importDocument direction document) (withProviders providers) =
        .ok copy imported ∧
      onStore (Store.exportGraph copy true) imported = .ok again final ∧
      exported.store.SameByGroup handle document again ∧
      ((∀ a ∈ catalog.store.ReferredBelow handle, ∀ b ∈ catalog.store.Group a, b = a) →
        again = document) := by
  have hdistinct : catalog.store.Distinct handle := fun a ha b hb hsame =>
    hreduced.eq h.reachable.frugal ha.1 hb.1 ha.2 hsame
  obtain ⟨document, exported, copy, imported, again, final, hexport, hrelabels, himport, hagain,
    hsame⟩ := Store.exists_exportAgain h.reachable.sound.store h.lt_size h.describes.oneSided hids
      hdistinct
  have hnodes : exported.node? = catalog.store.node? := funext hrelabels.node?_eq
  refine ⟨document, { catalog with store := exported }, copy,
    { withProviders providers with store := imported }, again, _, onStore_eq_ok hexport,
    onStore_eq_ok himport, onStore_eq_ok hagain, hsame, fun hsingle => hsame.eq ?_⟩
  rw [Store.referredBelow_congr hnodes, Store.group_congr hnodes]
  exact hsingle

/-- The nodes of the chain that are referred to by id are one, so it has the same document. -/
theorem export_imported_chain : ∃ document exported copy imported final,
    onStore (Store.exportGraph 0 true) writtenCatalog = .ok document exported ∧
      onStore (Store.importDocument .write document) (withProviders Provider.standard) =
        .ok copy imported ∧
      onStore (Store.exportGraph copy true) imported = .ok document final := by
  have hids := allReferable_of_ids_eq reachable_writtenCatalog.sound.store.toRegular (by cbv) 0
  have hreduced : writtenCatalog.store.Reduced 0 := fun _ _ _ _ _ _ =>
    eq_of_bisimilar_writtenCatalog
  obtain ⟨document, exported, copy, imported, again, final, hexport, himport, hagain, -, hsame⟩ :=
    export_imported returned_writtenCatalog hids hreduced Provider.standard
  obtain rfl : again = document := hsame fun a ha b hb => by
    rw [referred_writtenCatalog ha.2, referred_writtenCatalog hb.2.2]
  exact ⟨again, exported, copy, imported, final, hexport, himport, hagain⟩

/-! ## A group in another order -/

/-- A record that is part of what it refers to. -/
def leadType : TypeDef :=
  fieldType "B" (.named "A")

/-- A record that refers to the other, and to itself. -/
def lassoType : TypeDef :=
  .record "A" [⟨"z", leadType, false⟩, ⟨"q", .named "A", false⟩]

/-- A catalog in which the two records have been built. -/
def lassoCatalog : Catalog :=
  after (getOrAdd .write leadType) (after (register lassoType) (withProviders Provider.standard))

/-- The element of a field. -/
def fieldElement (name markup : String) : Element :=
  ((Element.new "Field").withAttribute "Name" name).withAttribute "Contract" markup

/-- The element of a record. -/
def recordElement (id : String) (fields : List Element) : Element :=
  { (Element.new "ComplexWrite").withAttribute "Id" id with children := fields }

/-- The document of the two records. -/
def lassoDocument : Element :=
  { (Element.new documentName).withAttribute "Root" "#ComplexWrite0" with
    children :=
      [recordElement "ComplexWrite0" [fieldElement "q" "#ComplexWrite1"],
        recordElement "ComplexWrite1"
          [fieldElement "q" "#ComplexWrite1", fieldElement "z" "#ComplexWrite0"]] }

/-- While the field `z` is built, which comes first in the type, the record `B` gets its handle. -/
theorem export_lassoType : answer (do
    let handle ← getOrAdd .write leadType
    let before ← get
    let document ← onStore (Store.exportGraph handle true)
    return (handle, before.store.ids, document))
      (after (register lassoType) (withProviders Provider.standard)) =
        some (0, .empty, lassoDocument) := by
  cbv

/-- While the field `q` is read, which comes first in the document, the record `A` gets its
handle. -/
theorem export_lassoDocument : answer (do
    let copy ← onStore (Store.importDocument .write lassoDocument)
    let again ← onStore (Store.exportGraph copy true)
    return again.ids) (withProviders Provider.standard) =
      some ["ComplexWrite1", "ComplexWrite0"] := by
  cbv

/-- The elements of the two records change places. -/
theorem export_differs_lasso : lassoCatalog.Returned .write leadType 0 ∧
    lassoCatalog.store.ids = .empty ∧ ∃ document exported copy imported again final,
      onStore (Store.exportGraph 0 true) lassoCatalog = .ok document exported ∧
      onStore (Store.importDocument .write document) (withProviders Provider.standard) =
        .ok copy imported ∧
      onStore (Store.exportGraph copy true) imported = .ok again final ∧
      document.ids = ["ComplexWrite0", "ComplexWrite1"] ∧
      again.ids = ["ComplexWrite1", "ComplexWrite0"] := by
  obtain ⟨handle, catalog, hbuild, hrun⟩ := exists_ok_of_answer_bind export_lassoType
  obtain ⟨_, _, ⟨⟩, hrun⟩ := exists_ok_of_answer_bind hrun
  obtain ⟨document, exported, hexport, hrun⟩ := exists_ok_of_answer_bind hrun
  obtain ⟨rfl, hids, rfl⟩ : handle = 0 ∧ catalog.store.ids = .empty ∧ document = lassoDocument := by
    simpa only [Prod.mk.injEq] using Option.some.inj hrun
  obtain ⟨copy, imported, himport, hround⟩ := exists_ok_of_answer_bind export_lassoDocument
  obtain ⟨again, final, hagain, hround⟩ := exists_ok_of_answer_bind hround
  obtain rfl : lassoCatalog = catalog := by
    rw [lassoCatalog, after, hbuild]
  have hreturned : lassoCatalog.Returned .write leadType 0 :=
    ⟨_, _, .step (.register lassoType) (.start Provider.standard), hbuild, .refl⟩
  exact ⟨hreturned, hids, lassoDocument, exported, copy, imported, again, final, hexport,
    himport, hagain, by cbv, Option.some.inj hround⟩

end WireSchema.Catalog

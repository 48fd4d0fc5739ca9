/-
# Exporting without naming the root

A document that names no root is for its last element, and by-reference nodes come after
what they depend on.  Where the root recurs with other nodes, though, these come in the order
of their handles, and the last of them need not be the root.
-/

import WireSchema.Proofs.Catalog.ImportAgain
import WireSchema.Proofs.Document.Rootless

namespace WireSchema.Catalog

variable {catalog : Catalog} {direction : Direction} {type : TypeDef} {handle : Handle}

/-- A handle that was returned for a type and is referred to by id is exported without being
named, the text of the document is read back in either layout, and importing it into any
catalog gives the graph of the node of the greatest handle among those that recur with it.
This is the graph of the handle itself exactly if the two describe the same graph. -/
theorem rootless_roundTrip (h : catalog.Returned direction type handle)
    (hreference : catalog.store.Referred handle) (hids : catalog.store.AllReferable handle) :
    ∃ document exported last,
      onStore (Store.exportGraph handle false) catalog = .ok document exported ∧
      IsGreatest (catalog.store.Group handle) last ∧
      (∀ format, Element.read (document.render format) = .ok document) ∧
      ∀ target, Reachable target → ∃ copy imported,
        onStore (Store.importDocument direction document) target = .ok copy imported ∧
        catalog.store.Bisimilar last imported.store copy ∧
        (catalog.store.Bisimilar handle imported.store copy ↔
          catalog.store.Bisimilar handle catalog.store last) := by
  obtain ⟨node, hnode, hreference⟩ := hreference
  obtain ⟨document, store, last, hexport, hlast, hread, himport⟩ := Store.exists_rootlessRoundTrip
    h.reachable.sound.store hnode hreference h.describes.oneSided hids
  refine ⟨document, { catalog with store }, last, onStore_eq_ok hexport, hlast, hread,
    fun target htarget => ?_⟩
  obtain ⟨copy, result, hrun, hsame⟩ := himport target.store htarget.sound.store
  exact ⟨copy, { target with store := result }, onStore_eq_ok hrun, hsame,
    fun hcopy => hcopy.trans hsame.symm, fun hown => hown.trans hsame⟩

/-- The record of the chain recurs with no other node, so it is what is imported. -/
theorem rootless_roundTrip_chain : ∃ document exported,
    onStore (Store.exportGraph 0 false) writtenCatalog = .ok document exported ∧
      ∀ target, Reachable target → ∃ copy imported,
        onStore (Store.importDocument .write document) target = .ok copy imported ∧
          writtenCatalog.store.Bisimilar 0 imported.store copy := by
  have hids := allReferable_of_ids_eq reachable_writtenCatalog.sound.store.toRegular (by cbv) 0
  have hreference : writtenCatalog.store.Referred 0 :=
    ⟨.recordWrite [⟨⟨"next"⟩, 1⟩], by cbv, rfl⟩
  obtain ⟨document, exported, last, hexport, hlast, -, himport⟩ :=
    rootless_roundTrip returned_writtenCatalog hreference hids
  obtain rfl : last = 0 := referred_writtenCatalog hlast.1.2.2
  refine ⟨document, exported, hexport, fun target htarget => ?_⟩
  obtain ⟨copy, imported, hrun, hsame, -⟩ := himport target htarget
  exact ⟨copy, imported, hrun, hsame⟩

/-! ## A root that is not the last of its group -/

/-- A record within which another, with a field of another name, leads back to it. -/
def outerType : TypeDef :=
  .record "A" [⟨"b", .record "B" [⟨"a", .named "A", false⟩], false⟩]

/-- A catalog in which it has been built. -/
def outerCatalog : Catalog :=
  after (getOrAdd .write (.named "A"))
    (after (register outerType) (withProviders Provider.standard))

theorem returned_outerCatalog : outerCatalog.Returned .write (.named "A") 0 :=
  returned_of_answer (.step (.register outerType) (.start Provider.standard)) (by cbv) .refl

/-- The outer record is exported, and its document is imported as the inner one. -/
theorem rootless_differs_outer : outerCatalog.Returned .write (.named "A") 0 ∧
    outerCatalog.store.Referred 0 ∧ outerCatalog.store.ids = .empty ∧
      ∃ document exported copy imported,
        onStore (Store.exportGraph 0 false) outerCatalog = .ok document exported ∧
        Element.read (document.render .pretty) = .ok document ∧
        onStore (Store.importDocument .write document) (withProviders Provider.standard) =
          .ok copy imported ∧
        ¬ outerCatalog.store.Bisimilar 0 imported.store copy := by
  have hstore := returned_outerCatalog.reachable.sound.store
  have hnone : outerCatalog.store.ids = .empty := by cbv
  have hnode : outerCatalog.store.node? 0 = some (.recordWrite [⟨⟨"b"⟩, 1⟩]) := by cbv
  have hinner : outerCatalog.store.node? 1 = some (.recordWrite [⟨⟨"a"⟩, 0⟩]) := by cbv
  have hids := allReferable_of_ids_eq hstore.toRegular hnone 0
  obtain ⟨document, store, last, hexport, hlast, hread, himport⟩ := Store.exists_rootlessRoundTrip
    hstore hnode rfl returned_outerCatalog.describes.oneSided hids
  have hgroup : 1 ∈ outerCatalog.store.Group 0 :=
    ⟨.single ⟨_, hnode, List.mem_cons_self⟩, .single ⟨_, hinner, List.mem_cons_self⟩, _, hinner,
      rfl⟩
  obtain rfl : last = 1 := by
    obtain ⟨-, -, other, hother, -⟩ := hlast.1
    have hsize : outerCatalog.store.size = 2 := by cbv
    have hlt : last < 2 := hsize ▸ Store.lt_size_of_node? hother
    exact Nat.le_antisymm (Nat.le_of_lt_succ hlt) (hlast.2 hgroup)
  obtain ⟨copy, result, hrun, hsame⟩ :=
    himport (withProviders Provider.standard).store (Reachable.start _).sound.store
  refine ⟨returned_outerCatalog, ⟨_, hnode, rfl⟩, hnone, document, _, copy, _,
    onStore_eq_ok hexport, hread .pretty, onStore_eq_ok hrun, fun hown => ?_⟩
  have hdiffers : outerCatalog.store.equivalent 0 outerCatalog.store 1 = false := by cbv
  have hequivalent := Store.equivalent_eq_true_iff.2 (hown.trans hsame.symm)
  rw [hdiffers] at hequivalent
  cases hequivalent

end WireSchema.Catalog

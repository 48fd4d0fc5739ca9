/-
# What every operation keeps

A property of the store holds of every catalog that comes about if it holds of the empty store,
and if the steps of building and copying keep it, giving generated ids, and importing.  Importing
may be restricted to documents that are admitted, because it takes over what these say.
-/

import WireSchema.Proofs.Catalog.Reachable
import WireSchema.Proofs.Document.Labels

namespace WireSchema.Catalog

/-- The steps of all operations keep the property, where only admitted documents are imported. -/
structure Preserves (admits : Element → Prop) (Keeps : Store → Prop) : Prop where
  building : ∀ direction, Building.Maintains direction Keeps
  relabels : ∀ {before after : Store}, Keeps before → before.Relabels after → Keeps after
  imports : ∀ {store : Store} (direction : Direction) {document : Element}, admits document →
    store.Sound → Keeps store → Ends (Store.importDocument direction document store)
      (fun _ after => Keeps after) fun _ after => Keeps after

/-- Besides, the empty store has the property. -/
structure Maintains (admits : Element → Prop) (Keeps : Store → Prop) : Prop
    extends Preserves admits Keeps where
  empty : Keeps .empty

/-- The catalog comes from a new one by operations, where only admitted documents are imported into
it.  What is copied into it may come from any catalog. -/
inductive ReachableImporting (admits : Element → Prop) : Catalog → Prop
  | start (providers : List Provider) : ReachableImporting admits (withProviders providers)
  | step {catalog : Catalog} (operation : Operation) :
      (∀ direction document, operation = .importDocument direction document → admits document) →
        ReachableImporting admits catalog → ReachableImporting admits (operation.apply catalog)
  | copy {source target : Catalog} (handle : Handle) : Reachable source →
      ReachableImporting admits target →
        ReachableImporting admits (after (onStore (source.store.copyFrom handle)) target)

variable {admits : Element → Prop} {Keeps : Store → Prop} {catalog source : Catalog}

theorem ReachableImporting.reachable (h : ReachableImporting admits catalog) :
    Reachable catalog := by
  induction h with
  | start providers => exact .start providers
  | step operation _ _ ih => exact .step operation ih
  | copy handle hsource _ ih => exact .copy handle hsource ih

/-- Every reachable catalog is one into which some documents have been imported. -/
theorem Reachable.importing (h : Reachable catalog) :
    ReachableImporting (fun _ => True) catalog := by
  induction h with
  | start providers => exact .start providers
  | step operation _ ih => exact .step operation (fun _ _ _ => trivial) ih
  | copy handle hsource _ _ ih => exact .copy handle hsource ih

theorem store_after_register (type : TypeDef) (catalog : Catalog) :
    (after (register type) catalog).store = catalog.store := by
  obtain ⟨definitions, heq⟩ := after_of_ends (P := fun t => ∃ definitions,
    t = { catalog with definitions }) (register_changes type catalog)
  rw [heq]

theorem keeps_after_onStore {α : Type} {operation : EStateM Error Store α}
    (h : Ends (operation catalog.store) (fun _ t => Keeps t) fun _ t => Keeps t) :
    Keeps (after (onStore operation) catalog).store := by
  refine after_of_ends (P := fun t => Keeps t.store) (Ends.imp (onStore_ends h) ?_ ?_)
  · rintro _ _ ⟨store, rfl, hstore⟩
    exact hstore
  · rintro _ _ ⟨store, rfl, hstore⟩
    exact hstore

/-- What building keeps, and what giving ids to nodes that are referred to by id keeps, is kept by
all operations. -/
theorem Preserves.of_labels (hbuilding : ∀ direction, Building.Maintains direction Keeps)
    (hlabels : ∀ {before after : Store}, Keeps before → before.Labels after → Keeps after) :
    Preserves admits Keeps where
  building := hbuilding
  relabels h hrelabels := hlabels h hrelabels.toLabels
  imports direction document _ hstore h :=
    Store.keeps_importDocument (hbuilding .write).toMaintains hlabels hstore h direction document

namespace Preserves

variable (hkeeps : Preserves admits Keeps)

include hkeeps

/-- A build keeps the property; one that fails is taken back to where it began. -/
theorem getOrAdd_ends (h : catalog.Sound ∧ Keeps catalog.store) (direction : Direction)
    (type : TypeDef) :
    Ends (getOrAdd direction type catalog) (fun _ t => t.Sound ∧ Keeps t.store)
      fun _ t => t.Sound ∧ Keeps t.store := by
  refine Ends.imp (getOrAdd_keeps (hkeeps.building direction) h.1 h.2 type) ?_ ?_
  · rintro _ t ⟨⟨hfollows, -⟩, hkept⟩
    exact ⟨hfollows.sound, hkept⟩
  · rintro _ t ⟨hfollows, state, hregular, hextends, hkept, hback⟩
    exact ⟨hfollows.sound, hback ▸ (hkeeps.building direction).rollback h.1.store.toRegular h.2
      hregular hkept hextends⟩

theorem apply (h : catalog.Sound) (hkept : Keeps catalog.store) (operation : Operation)
    (hadmits : ∀ direction document, operation = .importDocument direction document →
      admits document) : Keeps (operation.apply catalog).store := by
  cases operation with
  | register type => exact (store_after_register type catalog).symm ▸ hkept
  | getOrAdd direction type =>
      exact (after_of_ends (hkeeps.getOrAdd_ends ⟨h, hkept⟩ direction type)).2
  | nodeOfKind kind type =>
      exact (after_of_ends (nodeOfKind_keeps (fun direction type _ hs =>
        hkeeps.getOrAdd_ends hs direction type) ⟨h, hkept⟩ kind type)).2
  | intern node =>
      rw [Operation.apply]
      split
      next arranged _ =>
        apply keeps_after_onStore
        unfold Store.internChecked
        split
        · exact hkept
        · exact (hkeeps.building .write).intern arranged h.store.toRegular hkept
      next => exact hkept
  | assignId handle =>
      refine keeps_after_onStore (Ends.imp (Store.assignId_ends h.store handle)
        (fun _ _ h => hkeeps.relabels hkept h.1) ?_)
      rintro _ t ⟨rfl, -⟩
      exact hkept
  | exportGraph root includeRoot =>
      exact keeps_after_onStore (Ends.imp (Store.exportGraph_ends h.store root includeRoot)
        (fun _ _ h => hkeeps.relabels hkept h) fun _ _ h => hkeeps.relabels hkept h)
  | importDocument direction document =>
      exact keeps_after_onStore
        (hkeeps.imports direction (hadmits direction document rfl) h.store hkept)

theorem copy (hsource : source.Sound) (h : catalog.Sound) (hkept : Keeps catalog.store)
    (handle : Handle) : Keeps (after (onStore (source.store.copyFrom handle)) catalog).store := by
  apply keeps_after_onStore
  rcases Nat.lt_or_ge handle source.store.size with hlt | hle
  · obtain ⟨copy, state, hcopy, -, hkept, -⟩ := Store.exists_copyFrom hsource.store h.store
      (Store.Copying.maintains_of_store (hkeeps.building .write).toMaintains) hkept trivial hlt
    rw [hcopy]
    exact hkept
  · rw [Store.copyFrom_of_size_le hle]
    exact hkept

end Preserves

/-- A property that all operations keep holds of every later catalog. -/
theorem Preserves.later {later : Catalog} (hkeeps : Preserves (fun _ => True) Keeps)
    (h : catalog.Sound) (hkept : Keeps catalog.store) (hlater : Later catalog later) :
    Keeps later.store := by
  induction hlater with
  | refl => exact hkept
  | step operation hlater ih =>
      exact hkeeps.apply (hlater.follows h).sound ih operation fun _ _ _ => trivial
  | copy handle hsource hlater ih =>
      exact hkeeps.copy hsource.sound (hlater.follows h).sound ih handle

/-- The property holds of every catalog into which only admitted documents have been imported. -/
theorem Maintains.keeps (hkeeps : Maintains admits Keeps)
    (h : ReachableImporting admits catalog) : Keeps catalog.store := by
  induction h with
  | start providers => exact hkeeps.empty
  | step operation hadmits hcatalog ih =>
      exact hkeeps.apply hcatalog.reachable.sound ih operation hadmits
  | copy handle hsource htarget ih =>
      exact hkeeps.copy hsource.sound htarget.reachable.sound ih handle

end WireSchema.Catalog

/-
# Ids that can be referred to

The ids that a catalog generates can be referred to in markup.  Besides, it takes over the ids in
documents that are imported, whatever they are.  Where these can be referred to, so can every id
that is held, and what is exported can be read back.
-/

import WireSchema.Proofs.Catalog.Kept
import WireSchema.Proofs.Catalog.WellFormedImport
import WireSchema.Proofs.Document.Markup

namespace WireSchema

variable {admitted : String → Prop}

namespace Store

variable {store : Store} {named : List (String × Handle)}

/-- Every id that a node has is admitted. -/
structure IdsAmong (admitted : String → Prop) (store : Store) : Prop where
  admits : ∀ {handle id}, store.id? handle = some id → admitted id

namespace IdsAmong

theorem of_id?_eq {after : Store} (h : store.IdsAmong admitted)
    (heq : ∀ handle, after.id? handle = store.id? handle) : after.IdsAmong admitted :=
  ⟨fun {handle _} hid => h.admits ((heq handle).symm.trans hid)⟩

theorem empty : Store.empty.IdsAmong admitted where
  admits hid := by
    rw [id?_empty] at hid
    cases hid

theorem intern (h : store.IdsAmong admitted) (hregular : store.Regular)
    (node : Node Name Handle) : (store.intern node).2.IdsAmong admitted :=
  h.of_id?_eq (id?_intern hregular node)

theorem rollback (h : store.IdsAmong admitted) (mark : Nat) :
    (store.rollback mark).IdsAmong admitted where
  admits {handle id} hid := by
    rw [id?_rollback] at hid
    split at hid
    · exact h.admits hid
    · cases hid

theorem setId {slot : Handle} {id : String} (h : store.IdsAmong admitted)
    (hslot : slot < store.size) (hid : admitted id) : (store.setId slot id).IdsAmong admitted where
  admits {handle other} hother := by
    rw [id?_setId hslot] at hother
    split at hother
    · cases hother
      exact hid
    · exact h.admits hother

/-- Taking over ids adds no others than these. -/
theorem adoptIds (h : store.IdsAmong admitted)
    (hnamed : ∀ entry ∈ named, admitted entry.1 ∧ entry.2 < store.size) :
    (store.adoptIds named).IdsAmong admitted := by
  induction named generalizing store with
  | nil => exact h
  | cons entry named ih =>
      obtain ⟨⟨hid, hlt⟩, hnamed⟩ := List.forall_mem_cons.1 hnamed
      rw [Store.adoptIds]
      split
      · refine ih (h.setId hlt hid) fun other hother => ?_
        rw [size_setId]
        exact hnamed other hother
      · exact ih h hnamed

end IdsAmong

theorem maintains_idsAmong : Maintains (IdsAmong admitted) where
  reserve h := h.of_id?_eq (id?_reserve _)
  intern node hregular h := h.intern hregular node
  fill node _ _ h _ _ _ := h.of_id?_eq (id?_fill _ _ node)

/-- Importing takes over ids of the document and no others. -/
theorem idsAmong_importDocument (hstore : store.Sound) (h : store.IdsAmong admitted)
    (direction : Direction) {document : Element} (hdocument : ∀ id ∈ document.ids, admitted id) :
    Ends (importDocument direction document store) (fun _ after => after.IdsAmong admitted)
      fun _ after => after.IdsAmong admitted := by
  rcases importDocument_cases hstore direction document with
    ⟨source, state, named, root, hsource, hdone, himport⟩ | ⟨⟨error, himport⟩, -⟩
  · obtain ⟨copies, copy, copying, hadopt, hvalid, hkept, hcopies, -⟩ := exists_adopt hdone.sound
      hstore (Copying.maintains_of_store maintains_idsAmong) h
      (fun entry hentry => ⟨trivial, hdone.lt_size hentry⟩) trivial hdone.root_lt_size
    obtain ⟨-, -, hchildren, hid, -⟩ := DocumentSource.ofDocument_eq_ok_iff.1 hsource
    rw [Element.ids, hchildren, DocumentSource.filterMap_children hid] at hdocument
    rw [himport, hadopt]
    refine hkept.adoptIds fun entry hentry => ?_
    obtain ⟨original, horiginal, hsame, hget⟩ := Node.exists_left_of_forall₂ hcopies hentry
    obtain ⟨x, y, -, hy, -⟩ := ((hvalid.copied hget).agree hvalid.scaffold).unfold
    exact ⟨hsame ▸ hdocument _ (hdone.exists_id horiginal).1, lt_size_of_node? hy⟩
  · rw [himport]
    exact h

end Store

namespace Catalog

variable {catalog : Catalog}

/-- If generated ids are admitted, and those of the documents that are imported, all ids are. -/
theorem maintains_idsAmong (hgenerated : ∀ kind number, admitted (Store.generatedId kind number)) :
    Maintains (fun document => ∀ id ∈ document.ids, admitted id) (Store.IdsAmong admitted) where
  empty := .empty
  building _ :=
    { toMaintains := Store.maintains_idsAmong
      rollback := fun _ _ _ h _ => h.rollback _
      remember := fun _ _ _ h => h.of_id?_eq fun _ => rfl }
  relabels h hrelabels := ⟨fun hid => (hrelabels.generated hid).elim h.admits fun
    ⟨kind, number, heq⟩ => heq ▸ hgenerated kind number⟩
  imports direction _ hdocument hstore h :=
    Store.idsAmong_importDocument hstore h direction hdocument

/-- Where every document that was imported has ids that can be referred to, every id that a node
has can be referred to.  Then every graph is exported, the text of the document is read back, and
so is all markup in it; and if the graph is of one side, as that of every type is, the document is
accepted by every catalog. -/
theorem read_held_ids (h : ReachableImporting (fun document => ∀ id ∈ document.ids,
      Markup.read ("#" ++ id) = .ok (.ref id)) catalog) :
    (∀ handle id, catalog.store.id? handle = some id →
      Markup.read ("#" ++ id) = .ok (.ref id)) ∧
    ∀ handle, handle < catalog.store.size → ∀ includeRoot, ∃ document exported,
      onStore (Store.exportGraph handle includeRoot) catalog = .ok document exported ∧
      (∀ format, Element.read (document.render format) = .ok document) ∧
      (∀ text, document.HasMarkup text → ∃ markup, Markup.read text = .ok markup) ∧
      ∀ direction, includeRoot = true → catalog.store.OneSided direction handle →
        ∀ target, Reachable target → ∃ copy imported,
          onStore (Store.importDocument direction document) target = .ok copy imported := by
  have hheld := (maintains_idsAmong fun kind number =>
    Markup.read_hash_iff.2 (referable_generatedId kind number)).keeps h
  have hstore := h.reachable.sound.store
  refine ⟨fun _ _ => hheld.admits, fun handle hlt includeRoot => ?_⟩
  have hids : catalog.store.AllReferable handle := fun _ _ _ _ _ _ hid =>
    Markup.read_hash_iff.1 (hheld.admits hid)
  obtain ⟨document, store, hexport, hrender, hmarkup⟩ :=
    Store.exists_exportGraph_read hstore hlt hids includeRoot
  refine ⟨document, _, onStore_eq_ok hexport, hrender, hmarkup, ?_⟩
  rintro direction rfl hsided target htarget
  obtain ⟨other, state, hother, himport⟩ := Store.exists_roundTrip hstore hlt hsided hids
  obtain ⟨rfl, rfl⟩ := EStateM.Result.ok.inj (hexport.symm.trans hother)
  obtain ⟨copy, result, hrun, -⟩ := himport target.store htarget.sound.store
  exact ⟨copy, _, onStore_eq_ok hrun⟩

/-- A catalog into which the document of the chain has been imported. -/
def importedCatalog : Catalog :=
  after (onStore (Store.importDocument .read chainDocument)) (withProviders Provider.standard)

theorem read_held_ids_chain : importedCatalog.store.id? 0 = some "Node" ∧
    Markup.read ("#" ++ "Node") = .ok (.ref "Node") ∧ ∃ document exported,
      onStore (Store.exportGraph 0 true) importedCatalog = .ok document exported ∧
        ∀ format, Element.read (document.render format) = .ok document := by
  have hids : ∀ id ∈ chainDocument.ids, Markup.read ("#" ++ id) = .ok (.ref id) :=
    List.forall_mem_singleton.2 (by cbv)
  have himporting : ReachableImporting (fun document => ∀ id ∈ document.ids,
      Markup.read ("#" ++ id) = .ok (.ref id)) importedCatalog :=
    .step (.importDocument .read chainDocument) (by rintro _ _ ⟨⟩; exact hids) (.start _)
  obtain ⟨hheld, hexport⟩ := read_held_ids himporting
  have hid : importedCatalog.store.id? 0 = some "Node" := by cbv
  obtain ⟨document, exported, hrun, hrender, -⟩ := hexport 0 (Store.lt_size_of_id? hid) true
  exact ⟨hid, hheld 0 "Node" hid, document, exported, hrun, hrender⟩

/-! ## An id with a space -/

/-- A document of an enumeration whose id is two words.  The root does not refer to it. -/
def spacedDocument : Element :=
  ((Element.new documentName).withAttribute "Root" "i32").withChild
    (((Element.new "Enum").withAttribute "Id" "a b").withChild
      ((Element.new "Member").withAttribute "Name" "x"))

/-- A catalog into which that document has been imported. -/
def spacedCatalog : Catalog :=
  after (onStore (Store.importDocument .write spacedDocument)) (withProviders Provider.standard)

/-- The enumeration holds an id that is not read as a reference, and no catalog accepts the
document that is exported for it. -/
theorem unreadable_spaced : Reachable spacedCatalog ∧ spacedCatalog.store.id? 0 = some "a b" ∧
    Markup.read ("#" ++ "a b") ≠ .ok (.ref "a b") ∧ ∃ document exported,
      onStore (Store.exportGraph 0 true) spacedCatalog = .ok document exported ∧
      ∀ direction target, Reachable target → ∀ handle imported,
        onStore (Store.importDocument direction document) target ≠ .ok handle imported := by
  have hreachable : Reachable spacedCatalog :=
    .step (.importDocument .write spacedDocument) (.start Provider.standard)
  have hid : spacedCatalog.store.id? 0 = some "a b" := by cbv
  have hread : ∀ markup, Markup.read "#a b" ≠ .ok markup := by
    intro markup hread
    have hfails : (Markup.read "#a b").toOption = none := by cbv
    rw [hread] at hfails
    cases hfails
  obtain ⟨document, hanswer, hroot⟩ : ∃ document,
      answer (onStore (Store.exportGraph 0 true)) spacedCatalog = some document ∧
        document.rootText? = some "#a b" := ⟨_, by cbv, by cbv⟩
  refine ⟨hreachable, hid, hread _, document, _, eq_ok_of_answer hanswer, ?_⟩
  intro direction target htarget handle imported hrun
  obtain ⟨text, htext, markup, hmarkup, -⟩ :=
    ((import_wellFormed htarget direction document).1.1 ⟨handle, imported, hrun⟩).root
  cases hroot.symm.trans htext
  exact hread markup hmarkup

end Catalog

end WireSchema

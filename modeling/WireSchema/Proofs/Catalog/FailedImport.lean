/-
# Imports that fail

An import fails before anything is added, while its document is taken apart or read.  What has been
read can always be adopted: its nodes are copied, no id is given that another node carries, and its
root is of the side that the document is for.  So an import that fails leaves nothing behind, and
nothing has to be taken back.  That matters for ids, since a rollback removes nodes and would leave
the ids that older nodes had been given.
-/

import WireSchema.Proofs.Catalog.Registry

namespace WireSchema.Catalog

variable {catalog : Catalog}

/-- An import that fails leaves the catalog as it was in every part.  Whatever has been read from
a document is adopted, and its root is answered. -/
theorem eq_of_import_eq_error (h : Reachable catalog) (direction : Direction) (document : Element) :
    (∀ error failed, onStore (Store.importDocument direction document) catalog =
      .error error failed → failed = catalog) ∧
    ∀ source named root state, DocumentSource.ofDocument direction document = .ok source →
      Importing.resolveDocument source .start = .ok (named, root) state →
        ∃ copy adopted, state.store.adopt named root catalog.store = .ok copy adopted ∧
          adopted.serving direction copy = .ok copy ∧
            onStore (Store.importDocument direction document) catalog =
              .ok copy { catalog with store := adopted } := by
  have hstore := h.sound.store
  refine ⟨fun error failed hfails => ?_, fun source named root state hsource hread => ?_⟩
  · have himport := onStore_ends
      (Store.importDocument_ends hstore Store.maintains_true trivial direction document)
    rw [hfails] at himport
    obtain ⟨store, rfl, rfl, -⟩ := himport
    rfl
  · have hdone := Importing.resolveDocument_ends source
    rw [hread] at hdone
    obtain ⟨copy, adopted, hadopt, hserving⟩ := Store.exists_adopt_of_done hstore hdone
    rw [DocumentSource.direction_ofDocument hsource] at hserving
    have himport := (Store.importDocument_eq_adopt hstore hsource hread).trans hadopt
    exact ⟨copy, adopted, hadopt, hserving, onStore_eq_ok himport⟩

/-! ## A reference that leads nowhere -/

/-- The element of an enumeration under an id that has been taken. -/
def rivalElement : Element :=
  ((Element.new "Enum").withAttribute "Id" "Enum0").withChild
    ((Element.new "Member").withAttribute "Name" "z")

/-- The document of the enumeration. -/
def rivalDocument : Element :=
  ((Element.new documentName).withAttribute "Root" "#Enum0").withChild rivalElement

/-- The same enumeration with a record after it of which the second field is nowhere described. -/
def danglingDocument : Element :=
  rivalDocument.withChild
    ((((Element.new "ComplexWrite").withAttribute "Id" "ComplexWrite7").withChild
        (((Element.new "Field").withAttribute "Name" "a").withAttribute "Contract"
          "#Enum0")).withChild
        (((Element.new "Field").withAttribute "Name" "b").withAttribute "Contract" "#Missing"))

/-- The second document is refused and leaves nothing behind.  The first is adopted, without the
id, because that has been taken. -/
theorem eq_of_import_eq_error_dangling :
    (∃ error, onStore (Store.importDocument .write danglingDocument) takenCatalog =
      .error error takenCatalog) ∧
    ∃ source named root state adopted,
      DocumentSource.ofDocument .write rivalDocument = .ok source ∧
      Importing.resolveDocument source .start = .ok (named, root) state ∧
      state.store.adopt named root takenCatalog.store = .ok 2 adopted ∧
      adopted.serving .write 2 = .ok 2 ∧ adopted.id? 2 = none := by
  obtain ⟨hfailed, -⟩ := eq_of_import_eq_error reachable_takenCatalog .write danglingDocument
  obtain ⟨-, hadopted⟩ := eq_of_import_eq_error reachable_takenCatalog .write rivalDocument
  obtain ⟨hnone, hcopy, hid⟩ :
      answer (onStore (Store.importDocument .write danglingDocument)) takenCatalog = none ∧
      answer (onStore (Store.importDocument .write rivalDocument)) takenCatalog = some 2 ∧
      (after (onStore (Store.importDocument .write rivalDocument)) takenCatalog).store.id? 2 =
        none := by cbv
  obtain ⟨error, hfails⟩ := exists_error_of_answer_eq_none hnone
  refine ⟨⟨error, hfails.trans (congrArg _ (hfailed error _ hfails))⟩, ?_⟩
  have hsource : DocumentSource.ofDocument .write rivalDocument =
      .ok ⟨.write, [("Enum0", rivalElement)], "#Enum0"⟩ := by cbv
  have hread : ∃ result state, Importing.resolveDocument
      ⟨.write, [("Enum0", rivalElement)], "#Enum0"⟩ .start = .ok result state :=
    ⟨_, _, by cbv⟩
  obtain ⟨⟨named, root⟩, state, hread⟩ := hread
  obtain ⟨copy, adopted, hadopt, hserving, himport⟩ :=
    hadopted _ named root state hsource hread
  obtain ⟨rfl, hafter⟩ := EStateM.Result.ok.inj ((eq_ok_of_answer hcopy).symm.trans himport)
  rw [hafter] at hid
  exact ⟨_, named, root, state, adopted, hsource, hread, hadopt, hserving, hid⟩

end WireSchema.Catalog

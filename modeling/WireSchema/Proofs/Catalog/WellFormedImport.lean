/-
# Which documents are accepted

A catalog accepts the well-formed documents and no others, whatever it holds already, and answers
with a handle from which the graph can be followed that the document describes.
-/

import WireSchema.Proofs.Catalog.Reachable
import WireSchema.Proofs.Document.Description

namespace WireSchema.Catalog

variable {catalog : Catalog}

/-- Importing a document succeeds exactly if the document is well formed for its side.  Then the
document explains the store that is left: the handle that is returned leads to what the root stands
for, every element has a node, and below each node are nodes for the markup that the element gives
there. -/
theorem import_wellFormed (h : Reachable catalog) (direction : Direction) (document : Element) :
    ((∃ handle imported, onStore (Store.importDocument direction document) catalog =
        .ok handle imported) ↔ document.WellFormedDocument direction) ∧
      ∀ handle imported, onStore (Store.importDocument direction document) catalog =
          .ok handle imported →
        ∃ R, document.Explains direction imported.store R ∧
          (∃ text root, document.rootText? = some text ∧ Markup.read text = .ok root ∧
            R root handle) ∧
          ∀ id ∈ document.ids, ∃ handle, R (.ref id) handle := by
  have hends := Store.importDocument_ends h.sound.store Store.maintains_true trivial direction
    document
  have himport : ∀ {handle imported}, onStore (Store.importDocument direction document) catalog =
      .ok handle imported → ∃ source,
        DocumentSource.ofDocument direction document = .ok source ∧
          Store.Holds source imported.store handle := fun hrun => by
    rw [eq_ok_of_onStore hrun] at hends
    exact hends.2
  refine ⟨⟨?_, fun hdocument => ?_⟩, fun handle imported hrun => ?_⟩
  · rintro ⟨handle, imported, hrun⟩
    obtain ⟨source, hsource, hholds⟩ := himport hrun
    exact DocumentSource.exists_allReadable_iff.1 ⟨source, hsource, hholds.readable⟩
  · cases hrun : Store.importDocument direction document catalog.store with
    | ok handle store => exact ⟨handle, _, onStore_eq_ok hrun⟩
    | error error store =>
        obtain ⟨source, hsource, hreadable⟩ := DocumentSource.exists_allReadable_iff.2 hdocument
        rw [hrun] at hends
        exact absurd hreadable (hends.2 source hsource)
  · obtain ⟨source, hsource, hholds⟩ := himport hrun
    exact hholds.exists_explains hsource

/-! ## A document that refers to itself -/

/-- A document of one record whose field may hold the record again. -/
def chainDocument : Element :=
  (Element.new documentName).withChild
    (((Element.new "ComplexRead").withAttribute "Id" "Node").withChild
      ((((Element.new "Field").withAttribute "Name" "next").withAttribute "Contract"
        "\x7bnullable #Node\x7d").withAttribute "Required" "false"))

theorem wellFormed_chainDocument : chainDocument.WellFormedDocument .read where
  name := rfl
  identified := List.forall_mem_singleton.2 ⟨"Node", rfl⟩
  distinct := by decide
  elements := by
    refine List.forall_mem_singleton.2 (.parts .record rfl ?_ (by decide))
    refine List.forall_mem_singleton.2 ⟨⟨"next", rfl⟩, ⟨"\x7bnullable #Node\x7d", rfl, ?_⟩, ?_⟩
    · exact ⟨.nullable (.ref "Node"), by cbv, by decide, nofun, trivial⟩
    · rintro - value hvalue
      cases hvalue
      exact .inr rfl
  root := ⟨"#Node", rfl, .ref "Node", by cbv, by decide, trivial⟩

theorem import_wellFormed_chain : ∃ handle imported,
    onStore (Store.importDocument .read chainDocument) (withProviders Provider.standard) =
      .ok handle imported ∧
    ∃ R, chainDocument.Explains .read imported.store R ∧
      (∃ text root, chainDocument.rootText? = some text ∧ Markup.read text = .ok root ∧
        R root handle) ∧
      ∀ id ∈ chainDocument.ids, ∃ handle, R (.ref id) handle := by
  obtain ⟨haccepts, hexplains⟩ :=
    import_wellFormed (.start Provider.standard) .read chainDocument
  obtain ⟨handle, imported, hrun⟩ := haccepts.2 wellFormed_chainDocument
  exact ⟨handle, imported, hrun, hexplains handle imported hrun⟩

end WireSchema.Catalog

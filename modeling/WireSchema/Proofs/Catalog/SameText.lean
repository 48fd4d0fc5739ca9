/-
# Types with the same text

The text that a fingerprint hashes identifies the graph of a type up to the renaming of
handles.  Which catalog the graph is in, what else is there, which ids have been given and
how names are spelled have no part in it, and of the nodes nothing is lost.
-/

import WireSchema.Proofs.Catalog.Fingerprint
import WireSchema.Proofs.Catalog.StrictReading
import WireSchema.Proofs.Store.Isomorphism

namespace WireSchema.Catalog

variable {source target catalog earlier later : Catalog} {direction : Direction}
variable {type type' : TypeDef} {a b handle : Handle}

theorem Later.reachable (h : Later earlier later) (hearlier : Reachable earlier) :
    Reachable later := by
  induction h with
  | refl => exact hearlier
  | step operation _ ih => exact .step operation ih
  | copy handle hsource _ ih => exact .copy handle hsource ih

theorem Returned.reachable (h : catalog.Returned direction type handle) : Reachable catalog := by
  obtain ⟨before, returned, hbefore, hbuild, hlater⟩ := h
  have hafter : after (getOrAdd direction type) before = returned := by rw [after, hbuild]
  exact hlater.reachable (hafter ▸ .step (.getOrAdd direction type) hbefore)

theorem Returned.lt_size (h : catalog.Returned direction type handle) :
    handle < catalog.store.size := by
  obtain ⟨layer, node, -, hnode, -⟩ := h.describes.unfold
  exact Store.lt_size_of_node? hnode

/-- Handles that were returned for types of one side have the same canonical text exactly if the
nodes below them that are referred to by id can be taken one to one to each other, with all
that they and the roots have but the case of names. -/
theorem canonicalText_eq_iff_isomorphism (ha : source.Returned direction type a)
    (hb : target.Returned direction type' b) :
    ∃ text text', source.store.canonicalText a = .ok text ∧
      target.store.canonicalText b = .ok text' ∧
        (text = text' ↔ ∃ φ, Store.Isomorphism source.store a target.store b φ) :=
  Store.canonicalText_eq_iff ha.reachable.sound.store hb.reachable.sound.store ha.lt_size
    hb.lt_size ha.describes.oneSided hb.describes.oneSided

/-! ## One chain under two names -/

/-- The chain under another name, with a field that has no default. -/
def linkType : TypeDef :=
  .record "Link" [⟨"next", .nullable (.named "Link"), false⟩]

/-- A catalog that has a list of records before the chain. -/
def linkCatalog : Catalog :=
  after (getOrAdd .write (.named "Link")) (after (register linkType)
    (after (getOrAdd .write (.list (fieldType "Row" .unit))) (withProviders Provider.standard)))

theorem returned_linkCatalog : linkCatalog.Returned .write (.named "Link") 3 :=
  returned_of_answer (.step (.register linkType)
    (.step (.getOrAdd .write (.list (fieldType "Row" .unit))) (.start Provider.standard)))
    (by cbv) .refl

theorem returned_writtenCatalog : writtenCatalog.Returned .write chainType 0 :=
  returned_of_answer reachable_chainCatalog (by cbv) .refl

/-- The canonical text of either chain. -/
def chainText : String :=
  "#0\n\x7b\"name\":\"ComplexWrite\",\"attributes\":\x7b\"Id\":\"0\"\x7d,\"children\":[" ++
    "\x7b\"name\":\"Field\",\"attributes\":\x7b\"Contract\":\"\x7bnullable #0\x7d\"," ++
      "\"Name\":\"next\"\x7d\x7d]\x7d"

/-- The chains have the same text, so their nodes can be taken to each other. -/
theorem canonicalText_eq_iff_isomorphism_chain :
    writtenCatalog.store.canonicalText 0 = .ok chainText ∧
      linkCatalog.store.canonicalText 3 = .ok chainText ∧
        ∃ φ, Store.Isomorphism writtenCatalog.store 0 linkCatalog.store 3 φ := by
  have hwritten : writtenCatalog.store.canonicalText 0 = .ok chainText := by cbv
  have hlink : linkCatalog.store.canonicalText 3 = .ok chainText := by cbv
  obtain ⟨text, text', htext, htext', hiff⟩ :=
    canonicalText_eq_iff_isomorphism returned_writtenCatalog returned_linkCatalog
  cases hwritten.symm.trans htext
  cases hlink.symm.trans htext'
  exact ⟨hwritten, hlink, hiff.1 rfl⟩

end WireSchema.Catalog

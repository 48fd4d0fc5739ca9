/-
# Reference texts and markup

The text that refers to a node of a catalog is made of the texts that refer to the nodes below it,
as far as these are written inline.  It is also the text of a markup, from which the markup is read
back if its ids can be told from what stands around them.
-/

import WireSchema.Proofs.Catalog.Registry
import WireSchema.Proofs.Store.Reference

namespace WireSchema.Catalog

variable {catalog : Catalog} {handle : Handle} {node : Node Name Handle}

/-- The text that refers to a node is put together from those that refer to the nodes directly
below.  There is one exactly if every nearest node that is referred to by id has an id, and if not,
the kind of one that has none is reported.  It is the text of what is written for the node, whose
references are the ids of the nearest nodes from left to right and with repetitions; and if all
these can be told from what stands around them, this is the markup that is read from the text. -/
theorem reference_is_markup (h : Reachable catalog)
    (hnode : catalog.store.node? handle = some node) :
    catalog.store.reference handle =
      node.referenceText (catalog.store.assignedLabel handle) catalog.store.reference ∧
    ((∃ text, catalog.store.reference handle = .ok text) ↔
      ∀ target, catalog.store.Nearest handle target → ∃ id, catalog.store.id? target = some id) ∧
    (∀ error, catalog.store.reference handle = .error error → ∃ target x,
      catalog.store.Nearest handle target ∧ catalog.store.node? target = some x ∧
        catalog.store.id? target = none ∧ error = .missingId x.kind) ∧
    ∀ text, catalog.store.reference handle = .ok text → ∃ tree targets,
      catalog.store.Spelled handle tree ∧ text = tree.display ∧
      catalog.store.InOrder handle targets ∧
      List.Forall₂ (fun target id => catalog.store.id? target = some id) targets tree.references ∧
      ((∀ id ∈ tree.references, Referable id) → Markup.read text = .ok tree) := by
  have hstore := h.sound.store
  have hlt := Store.lt_size_of_node? hnode
  refine ⟨Store.reference_eq hstore hnode, Store.exists_reference_iff hstore hlt,
    fun error herror => ?_, fun text htext => ?_⟩
  · rcases Store.reference_cases hstore hlt with
      ⟨tree, -, hok⟩ | ⟨target, x, hnearest, hx, hid, hmissing⟩
    · cases herror.symm.trans hok
    · exact ⟨target, x, hnearest, hx, hid, Except.error.inj (herror.symm.trans hmissing)⟩
  · obtain ⟨tree, hspelled, rfl⟩ := (Store.reference_eq_ok_iff hstore hlt).1 htext
    obtain ⟨targets, horder, hids⟩ := hspelled.exists_inOrder
    exact ⟨tree, targets, hspelled, rfl, horder, hids, Markup.read_display⟩

/-- The catalog of the two enumerations, of which one has an id, with a dictionary of lists of the
one and optional values of either kind. -/
def mixedCatalog : Catalog :=
  after (getOrAdd .write (.nullable (.enumeration "E" ["y"])))
    (after (getOrAdd .write
      (.dictionary (.list (.enumeration "E" ["x"])) (.nullable (.enumeration "E" ["x"]))))
      takenCatalog)

theorem reachable_mixedCatalog : Reachable mixedCatalog :=
  .step (.getOrAdd .write (.nullable (.enumeration "E" ["y"])))
    (.step (.getOrAdd .write
      (.dictionary (.list (.enumeration "E" ["x"])) (.nullable (.enumeration "E" ["x"]))))
      reachable_takenCatalog)

theorem nodes_mixedCatalog : mixedCatalog.store.node? 0 = some (.enumeration [⟨"x"⟩]) ∧
    mixedCatalog.store.node? 1 = some (.enumeration [⟨"y"⟩]) ∧
    mixedCatalog.store.node? 2 = some (.list .write 0) ∧
    mixedCatalog.store.node? 3 = some (.nullable .write 0) ∧
    mixedCatalog.store.node? 4 = some (.dictionary .write 2 3) ∧
    mixedCatalog.store.node? 5 = some (.nullable .write 1) ∧
    mixedCatalog.store.id? 0 = some "Enum0" ∧ mixedCatalog.store.id? 1 = none := by
  cbv
  exact ⟨rfl, rfl, trivial⟩

/-- The markup of the dictionary refers to the enumeration twice.  Nothing can refer to the optional
value of the enumeration that has no id. -/
theorem reference_is_markup_mixed :
    (∃ text, mixedCatalog.store.reference 4 = .ok text ∧ Markup.read text =
      .ok (.dictionary (.list (.ref "Enum0")) (.nullable (.ref "Enum0")))) ∧
    (∃ targets, mixedCatalog.store.InOrder 4 targets ∧ targets.length = 2) ∧
    ¬∃ text, mixedCatalog.store.reference 5 = .ok text := by
  obtain ⟨hx, hy, hlist, hnullable, hdictionary, hother, hid, hnone⟩ := nodes_mixedCatalog
  obtain ⟨-, hiff, -, hmarkup⟩ := reference_is_markup reachable_mixedCatalog hdictionary
  obtain ⟨-, hiff', -⟩ := reference_is_markup reachable_mixedCatalog hother
  have hspelled : mixedCatalog.store.Spelled 4
      (.dictionary (.list (.ref "Enum0")) (.nullable (.ref "Enum0"))) :=
    .dictionary hdictionary (.list hlist (.ref hx rfl hid)) (.nullable hnullable (.ref hx rfl hid))
  have hids : ∀ target, mixedCatalog.store.Nearest 4 target →
      ∃ id, mixedCatalog.store.id? target = some id := fun target hnearest =>
    (hnearest.exists_mem_references hspelled).imp fun _ h => h.2
  obtain ⟨text, htext⟩ := hiff.2 hids
  obtain ⟨tree, targets, htree, rfl, horder, hlabels, hread⟩ := hmarkup text htext
  obtain rfl :=
    Store.Written.unique (fun ha hb => Option.some.inj (ha.symm.trans hb)) htree hspelled
  refine ⟨⟨_, htext, hread fun id hmem => ?_⟩, ⟨targets, horder, hlabels.length_eq⟩,
    fun hexists => ?_⟩
  · obtain rfl : id = "Enum0" := by simpa [Markup.references] using hmem
    exact ⟨by decide, Markup.wordChar_of_isWord (by decide)⟩
  · obtain ⟨id, hfound⟩ :=
      hiff'.1 hexists 1 (.inline ⟨_, hother, rfl, List.mem_cons_self⟩ (.here hy rfl))
    cases hnone.symm.trans hfound

end WireSchema.Catalog

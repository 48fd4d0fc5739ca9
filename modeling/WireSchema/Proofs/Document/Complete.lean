/-
# Documents are complete

A document that is exported has the element of every node below the root that is referred to by
id, under the id of the node, and nothing else.  Exporting gives ids to those of these nodes that
have none.  Once they all have ids, exporting changes nothing, and since the order of the elements
depends on the nodes alone, the same document is written again.
-/

import WireSchema.Proofs.Document.WellFormed
import WireSchema.Proofs.Store.Isomorphism

namespace WireSchema.Store

variable {store after : Store} {root : Handle} {order : List Handle} {document : Element}
variable {entries : List (String × Element)} {includeRoot : Bool}

/-- The document has the elements of the given nodes, in order, each under the id of its node and
no two under the same.  It names the root if there is one, and has nothing else. -/
structure Comprises (store : Store) (root? : Option Handle) (order : List Handle)
    (document : Element) : Prop where
  name_eq : document.name = documentName
  rooted : ∀ root ∈ root?, ∃ markup, store.Spelled root markup ∧
    document.attributes = [("Root", markup.display)]
  rootless : root? = none → document.attributes = []
  elements : List.Forall₂ (fun handle element => ∃ id, store.IsEntry handle (id, element)) order
    document.children
  ids : List.Forall₂ (fun handle id => store.id? handle = some id) order document.ids
  nodup_ids : document.ids.Nodup

/-- A document of entries has their elements and ids. -/
theorem Comprises.of_isEntry {root? : Option Handle} (h : store.Regular) (hnodup : order.Nodup)
    (hentries : List.Forall₂ store.IsEntry order entries) (hname : document.name = documentName)
    (hchildren : document.children = entries.map Prod.snd)
    (hrooted : ∀ root ∈ root?, ∃ markup, store.Spelled root markup ∧
      document.attributes = [("Root", markup.display)])
    (hrootless : root? = none → document.attributes = []) :
    store.Comprises root? order document := by
  have hids : document.ids = entries.map Prod.fst := by
    rw [Element.ids, hchildren]
    refine DocumentSource.filterMap_children fun entry hentry => ?_
    obtain ⟨owner, -, -, node, layer, -, -, -, helement⟩ :=
      Node.exists_left_of_forall₂ hentries hentry
    rw [helement]
    rfl
  refine ⟨hname, hrooted, hrootless, ?_, ?_, hids ▸ nodup_ids_of_isEntry h hnodup hentries⟩
  · rw [hchildren, List.forall₂_map_right_iff]
    exact hentries.imp fun handle entry hentry => ⟨entry.1, hentry⟩
  · rw [hids, List.forall₂_map_right_iff]
    exact hentries.imp fun handle entry hentry => hentry.1

/-- Exporting writes a document of the nodes below the root that are referred to by id, and gives
them ids. -/
theorem exists_exportGraph_comprises (h : store.Sound) (hroot : root < store.size)
    (includeRoot : Bool) : ∃ document after order,
      exportGraph root includeRoot store = .ok document after ∧ Progress store after ∧
      order.Nodup ∧ (∀ handle, handle ∈ order ↔ handle ∈ store.ReferredBelow root) ∧
      after.Comprises (if includeRoot then some root else none) order document ∧
      store.Labelled order after := by
  obtain ⟨graph, after, entries, markup, hgraph, hrelabels, hnodup, horder, hentries, hmarkup,
    hexport, hexportRootless⟩ := exists_entries h hroot
  have hregular := hrelabels.progress.sound.toRegular
  have hmem : ∀ handle, handle ∈ graph.emissionOrder ↔ handle ∈ store.ReferredBelow root := by
    intro handle
    rw [horder, below_iff_of_node?_eq hrelabels.node?_eq, hrelabels.node?_eq]
    rfl
  have hlabelled : store.Labelled graph.emissionOrder after := by
    obtain ⟨graph', hgraph', hrun, -⟩ := exportGraph_eq_ok_iff.1 hexport
    cases hgraph.symm.trans hgraph'
    exact labelled_of_assignIds h hrun
  cases includeRoot with
  | true =>
      refine ⟨_, after, _, hexport, hrelabels.progress, hnodup, hmem, ?_, hlabelled⟩
      refine .of_isEntry hregular hnodup hentries rfl rfl ?_ nofun
      intro root hroot
      cases hroot
      exact ⟨markup, hmarkup, rfl⟩
  | false =>
      refine ⟨_, after, _, hexportRootless, hrelabels.progress, hnodup, hmem, ?_, hlabelled⟩
      exact .of_isEntry hregular hnodup hentries rfl rfl nofun fun _ => rfl

/-- Exporting again writes the same document and changes nothing. -/
theorem exportGraph_again (h : store.Sound) (hroot : root < store.size)
    (hexport : exportGraph root includeRoot store = .ok document after) :
    exportGraph root includeRoot after = .ok document after := by
  obtain ⟨graph, hgraph, hrun, hdocument⟩ := exportGraph_eq_ok_iff.1 hexport
  obtain ⟨hnodup, hnodes⟩ := Graph.nodes_of_ofRoot h hroot hgraph
  have hlabelled := labelled_of_assignIds h hrun
  refine exportGraph_eq_ok_iff.2 ⟨graph, ?_, assignIds_of_ids fun handle hmem => ?_, hdocument⟩
  · rw [Graph.ofRoot_congr hlabelled.size_eq hlabelled.node?_eq, hgraph]
  · obtain ⟨-, node, hnode, hreference⟩ :=
      (hnodes handle).1 ((Graph.perm_emissionOrder hnodup).subset hmem)
    obtain ⟨id, hid⟩ := hlabelled.given handle hmem node hnode hreference
    exact ⟨node, id, (hlabelled.node?_eq handle).trans hnode, hreference, hid⟩

end WireSchema.Store

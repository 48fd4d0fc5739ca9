/-
# Documents without a root of their own

Such a document is for its last element.  The last element that is written for a root that is
referred to by id is that of the greatest handle among the nodes that recur with the root:
each of these leads to all that the others lead to, so the document presents the graph under
that node.
-/

import WireSchema.Proofs.Document.RoundTrip
import WireSchema.Proofs.Document.Text
import WireSchema.Proofs.Graph.EmissionOrder

namespace WireSchema.Store

variable {store : Store} {root handle last : Handle} {direction : Direction}

/-- The last item has the last partner. -/
theorem exists_getLast?_of_forall₂ {α β : Type} {R : α → β → Prop} {items : List α} {last : α}
    {partners : List β} (h : List.Forall₂ R (items ++ [last]) partners) :
    ∃ partner, partners.getLast? = some partner ∧ R last partner := by
  have hreverse := List.rel_reverse h
  rw [List.reverse_append, List.reverse_singleton, List.singleton_append] at hreverse
  obtain ⟨partner, others, hlast, -, hpartners⟩ := List.forall₂_cons_left_iff.1 hreverse
  exact ⟨partner, by rw [List.getLast?_eq_head?_reverse, hpartners, List.head?_cons], hlast⟩

/-- Nodes that recur with each other have the same nodes below them. -/
theorem below_iff_of_mem_group (h : last ∈ store.Group root) :
    store.Below last handle ↔ store.Below root handle :=
  ⟨h.1.trans, h.2.1.trans⟩

theorem OneSided.below (h : store.OneSided direction root) (hbelow : store.Below root last) :
    store.OneSided direction last where
  serves hhandle hnode := h.serves (hbelow.trans hhandle) hnode
  single hhandle hnode := h.single (hbelow.trans hhandle) hnode

theorem AllReferable.below (h : store.AllReferable root) (hbelow : store.Below root last) :
    store.AllReferable last :=
  fun handle node id hhandle => h handle node id (hbelow.trans hhandle)

/-- A root that is referred to by id is exported without being named, the text of the document
is read back, and importing it into any sound store gives the graph of the last of the nodes
that recur with the root. -/
theorem exists_rootlessRoundTrip (h : store.Sound) {node : Node Name Handle}
    (hnode : store.node? root = some node) (hreference : node.isByReference = true)
    (hsided : store.OneSided direction root) (hids : store.AllReferable root) :
    ∃ document after last, exportGraph root false store = .ok document after ∧
      IsGreatest (store.Group root) last ∧
      (∀ format, Element.read (document.render format) = .ok document) ∧
      ∀ target : Store, target.Sound → ∃ copy result,
        importDocument direction document target = .ok copy result ∧
          store.Bisimilar last result copy := by
  obtain ⟨graph, after, entries, -, hgraph, hrelabels, hnodup, horder, hentries, -, -, hexport⟩ :=
    exists_entries h (lt_size_of_node? hnode)
  obtain ⟨before, last, hemission, hlast⟩ :=
    Graph.exists_emissionOrder_eq h hnode hreference hgraph
  have hsound := hrelabels.progress.sound
  have hbelow := hlast.1.1
  have hbelowAfter : ∀ handle, after.Below last handle ↔ store.Below last handle :=
    fun _ => below_iff_of_node?_eq hrelabels.node?_eq
  rw [hemission] at hentries
  obtain ⟨entry, hentry, hisEntry⟩ := exists_getLast?_of_forall₂ hentries
  rw [← hemission] at hentries
  obtain ⟨hid, node', -, hnode', hreference', -, -⟩ := hisEntry
  have hspelled : after.Spelled last (.ref entry.1) := .ref hnode' hreference' hid
  have horderLast : ∀ handle, handle ∈ graph.emissionOrder ↔ after.Below last handle ∧
      ∃ node, after.node? handle = some node ∧ node.isByReference = true := fun handle => by
    rw [horder, hbelowAfter, below_iff_of_mem_group hlast.1,
      below_iff_of_node?_eq hrelabels.node?_eq]
  have hframe : (Element.new documentName).Keyed := .new _
  refine ⟨_, after, last, hexport, hlast,
    fun format => read_render_of_isEntry format hframe hentries, fun target htarget => ?_⟩
  have hpresents := presents_of_isEntry direction hsound.toRegular hnodup horderLast hentries
    hspelled
  have hsource := ofDocument_rootlessDocumentOf direction hsound.toRegular hnodup hentries hentry
  obtain ⟨copy, result, himport, hsame⟩ := hpresents.exists_importDocument hsound
    ((hsided.below hbelow).relabel hrelabels) ((hids.below hbelow).relabel hrelabels) hsource
    htarget
  rw [Bisimilar, funext hrelabels.node?_eq] at hsame
  exact ⟨copy, result, himport, hsame⟩

end WireSchema.Store

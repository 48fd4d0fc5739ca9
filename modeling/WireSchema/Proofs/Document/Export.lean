/-
# What an exported document says

Exporting gives an id to every node below the root that is referred to by id and writes
its element.  The elements stand under different ids, so each is found again under its
own, and the document presents the graph under the root.
-/

import WireSchema.Proofs.Document.Element
import WireSchema.Proofs.Graph.Nodes
import WireSchema.Proofs.Store.Ids

namespace WireSchema

namespace Store

/-- What is written for a node with the ids of the store. -/
abbrev Spelled (store : Store) (handle : Handle) (markup : Markup String) : Prop :=
  store.Written (fun handle id => store.id? handle = some id) handle markup

/-- The entry is the element of the node, under the id of the node. -/
def IsEntry (store : Store) (handle : Handle) (entry : String × Element) : Prop :=
  store.id? handle = some entry.1 ∧ ∃ (node : Node Name Handle) (layer : Node Name (Markup String)),
    store.node? handle = some node ∧ node.isByReference = true ∧
      layer.Lift (fun markup child => store.Spelled child markup) node ∧
        entry.2 = layer.encode entry.1

/-- The document has an element for every node below the root that is referred to by id,
and nothing else, and names the root. -/
structure Presents (store : Store) (root : Handle) (source : DocumentSource) : Prop where
  entry : ∀ handle node, store.Below root handle → store.node? handle = some node →
    node.isByReference = true → ∃ id element, store.IsEntry handle (id, element) ∧
      source.element? id = some element
  owner : ∀ id ∈ source.ids, ∃ handle element, store.Below root handle ∧
    store.IsEntry handle (id, element)
  root : ∃ markup, store.Spelled root markup ∧ source.root = markup.display

variable {store : Store} {root handle : Handle} {entries : List (String × Element)}

/-- Every child of a node has a markup, so the node has a layer over markup. -/
theorem exists_lift {α β ν : Type} [Nonempty α] {R : α → β → Prop} {node : Node ν β}
    (h : ∀ child ∈ node.children, ∃ x, R x child) : ∃ layer : Node ν α, layer.Lift R node := by
  classical
  refine ⟨node.mapChildren fun child => Classical.epsilon fun x => R x child,
    Node.shape_mapChildren _ node, ?_⟩
  rw [Node.children_mapChildren, List.forall₂_map_left_iff]
  exact List.forall₂_same.2 fun child hchild => Classical.epsilon_spec (h child hchild)

/-! ## The elements -/

/-- A node with an id whose children can be written has an entry. -/
theorem exists_isEntry {node : Node Name Handle} {id : String}
    (hnode : store.node? handle = some node) (hreference : node.isByReference = true)
    (hid : store.id? handle = some id)
    (hchildren : ∀ child ∈ node.children, ∃ markup, store.Spelled child markup) :
    ∃ element, store.IsEntry handle (id, element) := by
  have : Nonempty (Markup String) := ⟨.empty⟩
  obtain ⟨layer, hlift⟩ := exists_lift hchildren
  exact ⟨layer.encode id, hid, node, layer, hnode, hreference, hlift, rfl⟩

theorem element?_of_isEntry (h : store.Sound) {entry : String × Element}
    (hentry : store.IsEntry handle entry) : store.element? handle = .ok (some entry.2) := by
  obtain ⟨hid, node, layer, hnode, hreference, hlift, helement⟩ := hentry
  have hrefer : layer.Lift (fun markup child => store.reference child = .ok markup.display)
      node := by
    refine ⟨hlift.shape_eq, ?_⟩
    have hchildren := hlift.children
    rw [List.forall₂_iff_zip] at hchildren ⊢
    refine ⟨hchildren.1, fun {markup child} hmem => ?_⟩
    have hlt := h.children_lt hnode child (List.of_mem_zip hmem).2
    exact reference_of_written h hlt (hchildren.2 hmem)
  rw [element?, node_eq_ok_iff.2 hnode]
  simp only [bind, Except.bind, hid]
  rw [Node.toElement?_eq_ok hrefer hreference, helement]

theorem elements_of_isEntry (h : store.Sound) {order : List Handle}
    (hentries : List.Forall₂ store.IsEntry order entries) :
    store.elements order = .ok (entries.map Prod.snd) := by
  induction hentries with
  | nil => rfl
  | cons hentry _ ih =>
      rw [elements, element?_of_isEntry h hentry]
      simp only [bind, Except.bind, ih]
      rfl

/-- Different nodes have entries under different ids. -/
theorem nodup_ids_of_isEntry (h : store.Regular) {order : List Handle} (hnodup : order.Nodup)
    (hentries : List.Forall₂ store.IsEntry order entries) : (entries.map Prod.fst).Nodup := by
  induction hentries with
  | nil => exact List.nodup_nil
  | @cons handle entry order entries hentry hentries ih =>
      obtain ⟨hfresh, hnodup⟩ := List.nodup_cons.1 hnodup
      rw [List.map_cons, List.nodup_cons]
      refine ⟨fun hmem => hfresh ?_, ih hnodup⟩
      obtain ⟨other, hother, heq⟩ := List.mem_map.1 hmem
      obtain ⟨owner, howner, howned⟩ := Node.exists_left_of_forall₂ hentries hother
      have hsame := h.id_iff.2 hentry.1
      rw [← heq, h.id_iff.2 howned.1] at hsame
      cases hsame
      exact howner

end Store

namespace DocumentSource

/-- Elements under different ids are found under their ids. -/
theorem identify_eq_ok {found entries : List (String × Element)}
    (hid : ∀ entry ∈ entries, entry.2.requiredAttribute "Id" = .ok entry.1)
    (hnodup : ((found ++ entries).map Prod.fst).Nodup) :
    identify found (entries.map Prod.snd) = .ok (found ++ entries) := by
  induction entries generalizing found with
  | nil => rw [List.append_nil]; rfl
  | cons entry entries ih =>
      obtain ⟨hentry, hentries⟩ := List.forall_mem_cons.1 hid
      have hfresh : found.any (fun other => other.1 = entry.1) = false := by
        rw [List.any_eq_false]
        intro other hother heq
        rw [List.map_append, List.map_cons] at hnodup
        apply (List.nodup_middle.1 hnodup).notMem
        rw [← of_decide_eq_true heq]
        exact List.mem_append_left _ (List.mem_map_of_mem hother)
      rw [List.append_cons] at hnodup ⊢
      rw [List.map_cons, identify, hentry]
      simp only [bind, Except.bind, hfresh]
      exact ih hentries hnodup

theorem element?_of_mem (source : DocumentSource) (hnodup : (source.elements.map Prod.fst).Nodup)
    {entry : String × Element} (h : entry ∈ source.elements) :
    source.element? entry.1 = some entry.2 :=
  (Table.mem_bindings_iff ⟨source.elements, hnodup⟩ entry.1 entry.2).1 h

end DocumentSource

namespace Store

variable {store : Store} {root handle : Handle} {entries : List (String × Element)}
variable {order : List Handle} {markup : Markup String}

/-- The document with the given entries and root. -/
def documentOf (entries : List (String × Element)) (markup : Markup String) : Element :=
  { (Element.new documentName).withAttribute "Root" markup.display with
    children := entries.map Prod.snd }

/-- The document with the given entries that names no root. -/
def rootlessDocumentOf (entries : List (String × Element)) : Element :=
  { Element.new documentName with children := entries.map Prod.snd }

theorem document_of_isEntry (h : store.Sound) (hroot : root < store.size)
    (hentries : List.Forall₂ store.IsEntry order entries) (hmarkup : store.Spelled root markup) :
    store.document (some root) order = .ok (documentOf entries markup) := by
  rw [document, reference_of_written h hroot hmarkup]
  simp only [bind, Except.bind, pure, Except.pure, elements_of_isEntry h hentries]
  rfl

theorem rootlessDocument_of_isEntry (h : store.Sound)
    (hentries : List.Forall₂ store.IsEntry order entries) :
    store.document none order = .ok (rootlessDocumentOf entries) := by
  rw [document]
  simp only [bind, Except.bind, pure, Except.pure, elements_of_isEntry h hentries]
  rfl

theorem identify_of_isEntry (h : store.Regular) (hnodup : order.Nodup)
    (hentries : List.Forall₂ store.IsEntry order entries) :
    DocumentSource.identify [] (entries.map Prod.snd) = .ok entries := by
  refine DocumentSource.identify_eq_ok (fun entry hentry => ?_)
    (nodup_ids_of_isEntry h hnodup hentries)
  obtain ⟨owner, -, -, node, layer, -, -, -, helement⟩ :=
    Node.exists_left_of_forall₂ hentries hentry
  rw [helement]
  rfl

theorem ofDocument_documentOf (direction : Direction) (h : store.Regular) (hnodup : order.Nodup)
    (hentries : List.Forall₂ store.IsEntry order entries) (markup : Markup String) :
    DocumentSource.ofDocument direction (documentOf entries markup) =
      .ok ⟨direction, entries, markup.display⟩ := by
  have hname : (documentOf entries markup).name = documentName := rfl
  have hattribute : (documentOf entries markup).attribute? "Root" = some markup.display := rfl
  have hchildren : (documentOf entries markup).children = entries.map Prod.snd := rfl
  rw [DocumentSource.ofDocument, hname, hchildren, identify_of_isEntry h hnodup hentries,
    hattribute]
  rfl

/-- Without a root of its own a document is for its last entry. -/
theorem ofDocument_rootlessDocumentOf (direction : Direction) (h : store.Regular)
    (hnodup : order.Nodup) (hentries : List.Forall₂ store.IsEntry order entries)
    {last : String × Element} (hlast : entries.getLast? = some last) :
    DocumentSource.ofDocument direction (rootlessDocumentOf entries) =
      .ok ⟨direction, entries, (Markup.ref last.1).display⟩ := by
  have hname : (rootlessDocumentOf entries).name = documentName := rfl
  have hattribute : (rootlessDocumentOf entries).attribute? "Root" = none := rfl
  have hchildren : (rootlessDocumentOf entries).children = entries.map Prod.snd := rfl
  rw [DocumentSource.ofDocument, hname, hchildren, identify_of_isEntry h hnodup hentries,
    hattribute]
  simp only [bind, Except.bind, hlast, Markup.display_ref]
  rfl

/-- The entries of all nodes below the root present its graph. -/
theorem presents_of_isEntry (direction : Direction) (h : store.Regular) (hnodup : order.Nodup)
    (horder : ∀ handle, handle ∈ order ↔ store.Below root handle ∧
      ∃ node, store.node? handle = some node ∧ node.isByReference = true)
    (hentries : List.Forall₂ store.IsEntry order entries) (hmarkup : store.Spelled root markup) :
    store.Presents root ⟨direction, entries, markup.display⟩ where
  entry handle node hbelow hnode hreference := by
    have hmem := (horder handle).2 ⟨hbelow, node, hnode, hreference⟩
    obtain ⟨⟨id, element⟩, hentry, hisEntry⟩ := Node.exists_right_of_forall₂ hentries hmem
    have hnodupIds := nodup_ids_of_isEntry h hnodup hentries
    exact ⟨id, element, hisEntry, DocumentSource.element?_of_mem ⟨_, _, _⟩ hnodupIds hentry⟩
  owner id hid := by
    obtain ⟨⟨id, element⟩, hentry, rfl⟩ := List.mem_map.1 hid
    obtain ⟨handle, hmem, hisEntry⟩ := Node.exists_left_of_forall₂ hentries hentry
    exact ⟨handle, element, ((horder handle).1 hmem).1, hisEntry⟩
  root := ⟨markup, hmarkup, rfl⟩

/-! ## The whole export -/

/-- What is below a node depends on the nodes alone. -/
theorem below_iff_of_node?_eq {before after : Store}
    (h : ∀ handle, after.node? handle = before.node? handle) :
    after.Below root handle ↔ before.Below root handle := by
  have hchild : after.IsChild = before.IsChild := by
    funext parent child
    rw [IsChild, IsChild, h]
  rw [Below, hchild]

/-- Where all nodes below the root that are referred to by id have ids, every node below the
root can be written. -/
theorem exists_spelled (h : store.Sound) (hroot : root < store.size)
    (hids : ∀ handle node, store.Below root handle → store.node? handle = some node →
      node.isByReference = true → ∃ id, store.id? handle = some id)
    (hbelow : store.Below root handle) : ∃ markup, store.Spelled handle markup := by
  apply exists_written h (hbelow.lt_size h.toRegular hroot)
  intro target htarget
  obtain ⟨node, hnode, hreference⟩ := htarget.exists_node
  exact hids target node (hbelow.trans htarget.toBelow) hnode hreference

/-- Every handle of a list has a partner. -/
theorem exists_forall₂ {α β : Type} {R : α → β → Prop} {items : List α}
    (h : ∀ item ∈ items, ∃ partner, R item partner) :
    ∃ partners, List.Forall₂ R items partners := by
  induction items with
  | nil => exact ⟨[], .nil⟩
  | cons item items ih =>
      obtain ⟨partner, hpartner⟩ := h item List.mem_cons_self
      obtain ⟨partners, hpartners⟩ := ih fun other hother => h other (List.mem_cons_of_mem _ hother)
      exact ⟨partner :: partners, .cons hpartner hpartners⟩

/-- Exporting gives ids and writes the entries of all nodes below the root that are referred
to by id, in the order of the graph. -/
theorem exists_entries (h : store.Sound) (hroot : root < store.size) :
    ∃ graph after entries markup, Graph.ofRoot store root = .ok graph ∧ Relabels store after ∧
      graph.emissionOrder.Nodup ∧
      (∀ handle, handle ∈ graph.emissionOrder ↔ after.Below root handle ∧
        ∃ node, after.node? handle = some node ∧ node.isByReference = true) ∧
      List.Forall₂ after.IsEntry graph.emissionOrder entries ∧ after.Spelled root markup ∧
      exportGraph root true store = .ok (documentOf entries markup) after ∧
      exportGraph root false store = .ok (rootlessDocumentOf entries) after := by
  obtain ⟨graph, hgraph, hnodup, hnodes⟩ := Graph.exists_ofRoot h hroot
  have hperm := Graph.perm_emissionOrder hnodup
  have horder : ∀ handle, handle ∈ graph.emissionOrder ↔ store.Below root handle ∧
      ∃ node, store.node? handle = some node ∧ node.isByReference = true := fun handle => by
    rw [hperm.mem_iff, hnodes]
  have hassign := assignIds_ends h graph.emissionOrder
  cases hrun : assignIds graph.emissionOrder store with
  | error error after =>
      rw [hrun] at hassign
      obtain ⟨-, handle, hmem, hnone⟩ := hassign
      obtain ⟨-, node, hnode, -⟩ := (horder handle).1 hmem
      rw [hnone] at hnode
      cases hnode
  | ok result after =>
      rw [hrun] at hassign
      obtain ⟨hrelabels, hlabelled⟩ := hassign
      have hsound := hrelabels.progress.sound
      have hrootAfter : root < after.size := hrelabels.size_eq ▸ hroot
      have horder' : ∀ handle, handle ∈ graph.emissionOrder ↔ after.Below root handle ∧
          ∃ node, after.node? handle = some node ∧ node.isByReference = true := fun handle => by
        rw [below_iff_of_node?_eq hrelabels.node?_eq, hrelabels.node?_eq]
        exact horder handle
      have hidsBelow : ∀ handle node, after.Below root handle → after.node? handle = some node →
          node.isByReference = true → ∃ id, after.id? handle = some id := by
        intro handle node hbelow hnode hreference
        have hmem := (horder' handle).2 ⟨hbelow, node, hnode, hreference⟩
        exact hlabelled.given handle hmem node ((hrelabels.node?_eq handle).symm.trans hnode)
          hreference
      have hentry : ∀ handle ∈ graph.emissionOrder, ∃ entry, after.IsEntry handle entry := by
        intro handle hmem
        obtain ⟨hbelow, node, hnode, hreference⟩ := (horder' handle).1 hmem
        obtain ⟨id, hid⟩ := hidsBelow handle node hbelow hnode hreference
        obtain ⟨element, hentry⟩ := exists_isEntry hnode hreference hid fun child hchild =>
          exists_spelled hsound hrootAfter hidsBelow (hbelow.tail ⟨node, hnode, hchild⟩)
        exact ⟨_, hentry⟩
      obtain ⟨entries, hentries⟩ := exists_forall₂ hentry
      obtain ⟨markup, hmarkup⟩ := exists_spelled hsound hrootAfter hidsBelow .refl
      have hexport : ∀ {includeRoot document}, after.document
          (if includeRoot then some root else none) graph.emissionOrder = .ok document →
          exportGraph root includeRoot store = .ok document after := fun hdocument =>
        exportGraph_eq_ok_iff.2 ⟨graph, hgraph, hrun, hdocument⟩
      exact ⟨graph, after, entries, markup, hgraph, hrelabels, hperm.nodup_iff.2 hnodup, horder',
        hentries, hmarkup, hexport (document_of_isEntry hsound hrootAfter hentries hmarkup),
        hexport (rootlessDocument_of_isEntry hsound hentries)⟩

/-- Exporting succeeds, and the document presents the graph under the root in the store that
is left. -/
theorem exists_exportGraph (h : store.Sound) (hroot : root < store.size) :
    ∃ document after, exportGraph root true store = .ok document after ∧
      Relabels store after ∧ ∀ direction, ∃ source,
        DocumentSource.ofDocument direction document = .ok source ∧
          source.direction = direction ∧ after.Presents root source := by
  obtain ⟨graph, after, entries, markup, -, hrelabels, hnodup, horder, hentries, hmarkup, hexport,
    -⟩ := exists_entries h hroot
  have hregular := hrelabels.progress.sound.toRegular
  refine ⟨documentOf entries markup, after, hexport, hrelabels, fun direction => ?_⟩
  exact ⟨_, ofDocument_documentOf direction hregular hnodup hentries markup, rfl,
    presents_of_isEntry direction hregular hnodup horder hentries hmarkup⟩

end Store

end WireSchema

/-
# Exporting what has been imported

What is built again from a document is written as it was: the same ids, the same markup, the same
elements.  The components of its graph correspond to those of the graph that was exported, in the
same order, so the documents agree component by component.  Within a component the elements come
in the order of the handles, and this depends on the order in which the document was read.
-/

import WireSchema.Proofs.Document.Rebuilt
import WireSchema.Proofs.Graph.Correspondence
import WireSchema.Proofs.Graph.EmissionOrder

namespace WireSchema.Store

variable {store source target : Store} {root a b : Handle}

/-! ## The graph is there again -/

namespace Rebuilt

variable {after : Store} (h : source.Rebuilt root target)

include h

/-- More ids make no difference. -/
theorem relabel (hrelabels : Relabels target after) : source.Rebuilt root after := by
  have hnodes : after.node? = target.node? := funext hrelabels.node?_eq
  have hsame : source.BisimilarBelow root after = source.BisimilarBelow root target :=
    bisimilarBelow_congr hnodes
  refine ⟨hsame ▸ h.corresponds.congr rfl hnodes, fun hab => ?_, fun hab hreferred hid => ?_⟩
  · rw [hnodes]
    exact h.shape_eq (hsame ▸ hab)
  · exact hrelabels.id?_of (h.id?_of (hsame ▸ hab) hreferred hid)

/-- What describes a node below the root is written in the same way. -/
theorem spelled {markup : Markup String} (hmarkup : source.Spelled a markup)
    (hab : source.BisimilarBelow root target a b) : target.Spelled b markup := by
  induction hmarkup generalizing b with
  | ref hnode hreference hid =>
      obtain ⟨y, hy, hsimilar⟩ := hab.unfold.exists_right hnode
      exact .ref hy (hsimilar.isByReference_eq.symm.trans hreference)
        (h.id?_of hab ⟨_, hnode, hreference⟩ hid)
  | primitive hnode =>
      obtain ⟨y, hy, hsimilar⟩ := hab.unfold.exists_right hnode
      cases y <;> cases hsimilar.shape_eq
      exact .primitive hy
  | empty hnode =>
      obtain ⟨y, hy, hsimilar⟩ := hab.unfold.exists_right hnode
      cases y <;> cases hsimilar.shape_eq
      exact .empty hy
  | nullable hnode _ ih =>
      obtain ⟨y, hy, hsimilar⟩ := hab.unfold.exists_right hnode
      have hchildren := hsimilar.children
      cases y <;> cases hsimilar.shape_eq
      exact .nullable hy (ih (List.forall₂_cons.1 hchildren).1)
  | list hnode _ ih =>
      obtain ⟨y, hy, hsimilar⟩ := hab.unfold.exists_right hnode
      have hchildren := hsimilar.children
      cases y <;> cases hsimilar.shape_eq
      exact .list hy (ih (List.forall₂_cons.1 hchildren).1)
  | dictionary hnode _ _ ihkey ihvalue =>
      obtain ⟨y, hy, hsimilar⟩ := hab.unfold.exists_right hnode
      have hchildren := hsimilar.children
      cases y <;> cases hsimilar.shape_eq
      obtain ⟨hkey, hrest⟩ := List.forall₂_cons.1 hchildren
      exact .dictionary hy (ihkey hkey) (ihvalue (List.forall₂_cons.1 hrest).1)

/-- What describes a node below the root has its entry. -/
theorem isEntry {entry : String × Element} (hentry : source.IsEntry a entry)
    (hab : source.BisimilarBelow root target a b) : target.IsEntry b entry := by
  obtain ⟨hid, x, layer, hx, hreference, hlift, hencode⟩ := hentry
  obtain ⟨y, hy, hsimilar⟩ := hab.unfold.exists_right hx
  have hshape := h.shape_eq hab hx hreference hy
  refine ⟨h.id?_of hab ⟨x, hx, hreference⟩ hid, y, layer, hy,
    hsimilar.isByReference_eq.symm.trans hreference, ⟨hlift.shape_eq.trans hshape, ?_⟩, hencode⟩
  refine (Node.forall₂_comp hlift.children hsimilar.children).imp ?_
  rintro markup child ⟨original, hmarkup, hchild⟩
  exact h.spelled hmarkup hchild

end Rebuilt

/-! ## Documents that differ within groups -/

/-- The nodes at or below the root that are referred to by id, each once, in groups of nodes that
recur with each other. -/
structure Grouping (store : Store) (root : Handle) (groups : List (List Handle)) : Prop where
  nodup : groups.flatten.Nodup
  mem_iff : ∀ handle, handle ∈ groups.flatten ↔ handle ∈ store.ReferredBelow root
  group : ∀ group ∈ groups, ∀ handle ∈ group, ∀ other,
    other ∈ group ↔ other ∈ store.Group handle

theorem group_congr (h : target.node? = store.node?) : target.Group = store.Group := by
  unfold Group Below IsChild
  rw [h]

theorem Grouping.congr {groups : List (List Handle)} (h : store.Grouping root groups)
    (hnodes : target.node? = store.node?) : target.Grouping root groups where
  nodup := h.nodup
  mem_iff := by
    rw [referredBelow_congr hnodes]
    exact h.mem_iff
  group := by
    rw [group_congr hnodes]
    exact h.group

/-- The documents have the same elements, and those of nodes that recur with each other are
together in both, in groups that come in the same order. -/
def SameByGroup (store : Store) (root : Handle) (document again : Element) : Prop :=
  ∃ groups blocks blocks', store.Grouping root groups ∧
    List.Forall₂ (fun group block => store.elements group = .ok block) groups blocks ∧
    List.Forall₂ List.Perm blocks blocks' ∧ document.children = blocks.flatten ∧
    again = { document with children := blocks'.flatten }

theorem length_le_of_elements {handles : List Handle} {elements : List Element}
    (h : store.elements handles = .ok elements) : elements.length ≤ handles.length := by
  induction handles generalizing elements with
  | nil =>
      cases h
      exact Nat.le_refl _
  | cons handle handles ih =>
      simp only [Store.elements, bind, Except.bind] at h
      split at h
      · cases h
      next element? _ =>
        split at h <;> cases h
        next more hmore =>
          have hmore := ih hmore
          cases element? <;> simp only [Option.toList, List.length_append, List.length_cons,
            List.length_nil] <;> omega

/-- Where no two nodes recur with each other, the documents are the same. -/
theorem SameByGroup.eq {document again : Element} (h : store.SameByGroup root document again)
    (hsingle : ∀ a ∈ store.ReferredBelow root, ∀ b ∈ store.Group a, b = a) : again = document := by
  obtain ⟨groups, blocks, blocks', hgroups, hblocks, hperm, hdocument, rfl⟩ := h
  have hshort : ∀ group ∈ groups, group.length ≤ 1 := by
    intro group hgroup
    match group with
    | [] | [_] => simp
    | a :: b :: rest =>
        have hmem : ∀ c ∈ a :: b :: rest, c ∈ groups.flatten := fun c hc =>
          List.mem_flatten.2 ⟨_, hgroup, hc⟩
        have hsame : b = a := hsingle a ((hgroups.mem_iff a).1 (hmem a List.mem_cons_self)) b
          ((hgroups.group _ hgroup a List.mem_cons_self b).1 (by simp))
        have hnodup := (List.nodup_flatten.1 hgroups.nodup).1 _ hgroup
        simp [hsame] at hnodup
  have hshort' : ∀ block ∈ blocks, block.length ≤ 1 := by
    intro block hblock
    obtain ⟨group, hgroup, helements⟩ := Node.exists_left_of_forall₂ hblocks hblock
    exact (length_le_of_elements helements).trans (hshort group hgroup)
  have heq : List.Forall₂ Eq blocks blocks' := by
    refine ((List.forall₂_and_left _ _).2 ⟨hshort', hperm⟩).imp ?_
    rintro block block' ⟨hlength, hblock⟩
    match block with
    | [] => exact hblock.nil_eq
    | [_] => exact hblock.singleton_eq
    | _ :: _ :: _ => simp at hlength
  rw [List.forall₂_eq_eq_eq] at heq
  rw [← heq, ← hdocument]
  cases document
  rfl

/-- What is written for a list of groups is written for the groups one by one. -/
theorem exists_blocks {groups : List (List Handle)} {entries : List (String × Element)}
    (h : List.Forall₂ store.IsEntry groups.flatten entries) :
    ∃ blocks, List.Forall₂ (List.Forall₂ store.IsEntry) groups blocks ∧
      blocks.flatten = entries := by
  induction groups generalizing entries with
  | nil =>
      cases h
      exact ⟨[], .nil, rfl⟩
  | cons group groups ih =>
      rw [List.flatten_cons] at h
      have hfirst := (List.forall₂_take_append _ _ _ h.flip).flip
      obtain ⟨blocks, hblocks, hflatten⟩ := ih (List.forall₂_drop_append _ _ _ h.flip).flip
      refine ⟨entries.take group.length :: blocks, .cons hfirst hblocks, ?_⟩
      rw [List.flatten_cons, hflatten, List.take_append_drop]

/-- What describes the nodes of a group has the entries of the group, in some order. -/
theorem Rebuilt.exists_block (h : source.Rebuilt root target) {group group' : List Handle}
    {block : List (String × Element)}
    (hgroup : Paired (source.BisimilarBelow root target) group group')
    (hblock : List.Forall₂ source.IsEntry group block) :
    ∃ block', block.Perm block' ∧ List.Forall₂ target.IsEntry group' block' := by
  obtain ⟨images, himages, hperm⟩ := hgroup.exists_perm
  have himageBlock : List.Forall₂ target.IsEntry images block := by
    refine (Node.forall₂_comp himages.flip hblock).imp ?_
    rintro image entry ⟨handle, hhandle, hentry⟩
    exact h.isEntry hentry hhandle
  obtain ⟨block', hblock', hpermBlock⟩ := List.perm_comp_forall₂ hperm.symm himageBlock
  exact ⟨block', hpermBlock.symm, hblock'⟩

/-- The components of the graph under a root are the groups. -/
theorem grouping_components (h : store.Sound) (hroot : root < store.size) {graph : Graph}
    (hgraph : Graph.ofRoot store root = .ok graph) : store.Grouping root graph.components where
  nodup := by
    obtain ⟨hnodup, -⟩ := Graph.nodes_of_ofRoot h hroot hgraph
    exact (Graph.perm_emissionOrder hnodup).nodup_iff.2 hnodup
  mem_iff handle := by
    obtain ⟨hnodup, hmem⟩ := Graph.nodes_of_ofRoot h hroot hgraph
    exact (Graph.perm_emissionOrder hnodup).mem_iff.trans (hmem handle)
  group _ hgroup _ hhandle _ := Graph.mem_component_iff h hroot hgraph hgroup hhandle

/-- A graph of one side whose ids can be written, and in which the nodes that are referred to by id
describe different graphs, is exported.  Importing the document into a store without nodes and
exporting the copy gives the same document, but for the order of elements within groups. -/
theorem exists_exportAgain {direction : Direction} (h : store.Sound) (hroot : root < store.size)
    (hsided : store.OneSided direction root) (hids : store.AllReferable root)
    (hdistinct : store.Distinct root) :
    ∃ document after copy imported again final,
      exportGraph root true store = .ok document after ∧ Relabels store after ∧
      importDocument direction document .empty = .ok copy imported ∧
      exportGraph copy true imported = .ok again final ∧
      after.SameByGroup root document again := by
  obtain ⟨graph, after, entries, markup, hgraph, hrelabels, hnodup, horder, hentries, hmarkup,
    hexport, -⟩ := exists_entries h hroot
  have hafter := hrelabels.progress.sound
  have hnodes : after.node? = store.node? := funext hrelabels.node?_eq
  have hpresents := presents_of_isEntry direction hafter.toRegular hnodup horder hentries hmarkup
  obtain ⟨copy, imported, himport, himported, hsame, hrebuilt⟩ := hpresents.exists_rebuilt hafter
    (hsided.relabel hrelabels) (hids.relabel hrelabels) (hdistinct.congr hnodes)
    (ofDocument_documentOf direction hafter.toRegular hnodup hentries markup)
  obtain ⟨-, node, -, hnode, -⟩ := hsame.unfold
  obtain ⟨graph', final, entries', markup', hgraph', hrelabels', -, -, hentries', hmarkup',
    hexport', -⟩ := exists_entries himported (lt_size_of_node? hnode)
  have hfinal := hrebuilt.relabel hrelabels'
  have hrelation : after.BisimilarBelow root final = after.BisimilarBelow root imported :=
    bisimilarBelow_congr (funext hrelabels'.node?_eq)
  have hcomponents := (hrebuilt.corresponds.congr hnodes.symm rfl).forall₂_components
    ⟨hsame, .refl⟩ hgraph hgraph'
  obtain ⟨blocks, hblocks, rfl⟩ := exists_blocks hentries
  obtain ⟨blocks', hperm, hblocks'⟩ : ∃ blocks', List.Forall₂ List.Perm blocks blocks' ∧
      List.Forall₂ (fun block' group' => List.Forall₂ final.IsEntry group' block') blocks'
        graph'.components := by
    apply Node.exists_of_forall₂_comp
    refine (Node.forall₂_comp hblocks.flip hcomponents).imp ?_
    rintro block group' ⟨group, hblock, hgroup⟩
    rw [← hrelation] at hgroup
    exact hfinal.exists_block (hgroup.imp fun _ _ => And.left) hblock
  -- the copy has one document, so what has been written for it is this one
  have hagain : documentOf entries' markup' = documentOf blocks'.flatten markup := by
    have hlt : copy < final.size := hrelabels'.size_eq ▸ lt_size_of_node? hnode
    have hspelled : final.Spelled copy markup :=
      hfinal.spelled hmarkup (hrelation ▸ ⟨hsame, .refl⟩)
    have hflatten : List.Forall₂ final.IsEntry graph'.emissionOrder blocks'.flatten :=
      List.rel_flatten hblocks'.flip
    have hsound := hrelabels'.progress.sound
    exact Except.ok.inj ((document_of_isEntry hsound hlt hentries' hmarkup').symm.trans
      (document_of_isEntry hsound hlt hflatten hspelled))
  refine ⟨_, after, copy, imported, _, final, hexport, hrelabels, himport, hexport',
    graph.components, blocks.map (List.map Prod.snd), blocks'.map (List.map Prod.snd),
    (grouping_components h hroot hgraph).congr hnodes, ?_, ?_, ?_, ?_⟩
  · rw [List.forall₂_map_right_iff]
    exact hblocks.imp fun _ _ hblock => elements_of_isEntry hafter hblock
  · rw [List.forall₂_map_left_iff, List.forall₂_map_right_iff]
    exact hperm.imp fun _ _ hblock => hblock.map _
  · exact List.map_flatten
  · rw [hagain, ← List.map_flatten]
    rfl

end WireSchema.Store

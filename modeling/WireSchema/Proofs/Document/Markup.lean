/-
# The markup in exported documents

What an exported document says about a root and about the parts of its elements is the markup of
nodes below the root.  It can be read back if the ids there can be referred to.
-/

import WireSchema.Proofs.Document.RoundTrip
import WireSchema.Proofs.Document.Text

namespace WireSchema

/-- The text stands for a markup in the document: for the root, or for a field or member. -/
def Element.HasMarkup (document : Element) (text : String) : Prop :=
  document.attribute? "Root" = some text ∨
    ∃ element ∈ document.children, ∃ part ∈ element.children,
      part.attribute? "Contract" = some text

/-- What is written within the element of a node is the markup of what is below the node. -/
theorem Node.exists_markup_of_mem_encodeParts {layer : Node Name (Markup String)} {part : Element}
    {text : String} (hpart : part ∈ layer.encodeParts)
    (htext : part.attribute? "Contract" = some text) :
    ∃ markup ∈ layer.children, text = markup.display := by
  cases layer with
  | primitive | empty | nullable | list | dictionary => cases hpart
  | enumeration members =>
      obtain ⟨name, -, rfl⟩ := List.mem_map.1 hpart
      cases htext
  | recordWrite fields =>
      obtain ⟨field, hfield, rfl⟩ := List.mem_map.1 hpart
      exact ⟨field.target, List.mem_map_of_mem hfield, (Option.some.inj htext).symm⟩
  | recordRead inputs =>
      obtain ⟨input, hinput, rfl⟩ := List.mem_map.1 hpart
      exact ⟨input.target, List.mem_map_of_mem hinput, (Option.some.inj htext).symm⟩
  | union direction members =>
      obtain ⟨member, hmember, rfl⟩ := List.mem_map.1 hpart
      exact ⟨member.target, List.mem_map_of_mem hmember, (Option.some.inj htext).symm⟩

namespace Store

variable {store : Store} {root handle : Handle}

/-- The markup in the entry of a node can be read back. -/
theorem IsEntry.exists_read {entry : String × Element} (h : store.IsEntry handle entry)
    (hids : store.AllReferable root) (hbelow : store.Below root handle) {part : Element}
    (hpart : part ∈ entry.2.children) {text : String}
    (htext : part.attribute? "Contract" = some text) :
    ∃ markup, Markup.read text = .ok markup := by
  obtain ⟨-, node, layer, hnode, -, hlift, helement⟩ := h
  rw [helement] at hpart
  obtain ⟨markup, hmarkup, rfl⟩ := Node.exists_markup_of_mem_encodeParts hpart htext
  obtain ⟨child, hchild, hspelled⟩ := Node.exists_right_of_forall₂ hlift.children hmarkup
  exact ⟨markup, Markup.read_display
    (hids.of_spelled (hbelow.tail ⟨node, hnode, hchild⟩) hspelled)⟩

/-- A graph is exported, the text of the document is read back, and so is all markup in it if the
ids in the graph can be referred to. -/
theorem exists_exportGraph_read (h : store.Sound) (hroot : root < store.size)
    (hids : store.AllReferable root) (includeRoot : Bool) :
    ∃ document after, exportGraph root includeRoot store = .ok document after ∧
      (∀ format, Element.read (document.render format) = .ok document) ∧
      ∀ text, document.HasMarkup text → ∃ markup, Markup.read text = .ok markup := by
  obtain ⟨graph, after, entries, markup, -, hrelabels, -, horder, hentries, hmarkup, hexport,
    hexportRootless⟩ := exists_entries h hroot
  have hids' := hids.relabel hrelabels
  have hparts : ∀ text, (∃ element ∈ entries.map Prod.snd, ∃ part ∈ element.children,
      part.attribute? "Contract" = some text) → ∃ markup, Markup.read text = .ok markup := by
    rintro text ⟨element, helement, part, hpart, htext⟩
    obtain ⟨entry, hentry, rfl⟩ := List.mem_map.1 helement
    obtain ⟨owner, howner, hisEntry⟩ := Node.exists_left_of_forall₂ hentries hentry
    exact hisEntry.exists_read hids' ((horder owner).1 howner).1 hpart htext
  cases includeRoot with
  | true =>
      refine ⟨_, after, hexport, fun format => read_render_of_isEntry format
        ((Element.Keyed.new _).withAttribute _ _) hentries, fun text htext => ?_⟩
      rcases htext with hroot | hpart
      · cases hroot
        exact ⟨markup, Markup.read_display (hids'.of_spelled .refl hmarkup)⟩
      · exact hparts text hpart
  | false =>
      refine ⟨_, after, hexportRootless, fun format => read_render_of_isEntry format
        (.new _) hentries, fun text htext => ?_⟩
      rcases htext with hroot | hpart
      · cases hroot
      · exact hparts text hpart

end Store

end WireSchema

/-
# Canonical forms

The canonical text of a graph has the markup of the root in its first line, and after it a
line for each node that is referred to by id.  No line feed stands within a line, markup
can be read back, and elements are told apart by their text, so graphs with the same text
have the same form (`CanonicalForm.eq_of_text_eq`).
-/

import WireSchema.Proofs.Document.Element
import WireSchema.Proofs.Document.Json
import WireSchema.Proofs.Document.RoundTrip

namespace WireSchema

/-! ## Elements of nodes -/

theorem Kind.name_injective : Function.Injective Kind.name := by
  intro kind kind' h
  have hname := Kind.ofName?_name kind
  rw [h, Kind.ofName?_name] at hname
  exact (Option.some.inj hname).symm

namespace Node

/-- Parts that are written as members have the names and the markup of the parts. -/
theorem eq_of_members_eq {label : String} {members members' : List (Member Name (Markup String))}
    (hids : ∀ member ∈ members, member.target.AllReferable)
    (hids' : ∀ member ∈ members', member.target.AllReferable)
    (h : (members.map fun member => Element.ofMember label member.name member.target) =
      members'.map fun member => Element.ofMember label member.name member.target) :
    members = members' := by
  have hread := mapM_part_ofMember ⟨.write, [], ""⟩ .record label hids
  rw [h, mapM_part_ofMember ⟨.write, [], ""⟩ .record label hids'] at hread
  refine (List.map_inj_right ?_).1 (Except.ok.inj hread).symm
  rintro ⟨name, target⟩ ⟨name', target'⟩ hmember
  cases hmember
  rfl

theorem eq_of_inputs_eq {inputs inputs' : List (Input Name (Markup String))}
    (hids : ∀ input ∈ inputs, input.target.AllReferable)
    (hids' : ∀ input ∈ inputs', input.target.AllReferable)
    (h : inputs.map Element.ofInput = inputs'.map Element.ofInput) : inputs = inputs' := by
  have hread := @mapM_part_ofInput ⟨.read, [], ""⟩ rfl inputs hids
  rw [h, mapM_part_ofInput rfl hids'] at hread
  exact (Except.ok.inj hread).symm

/-- Different nodes have different elements under the same id. -/
theorem eq_of_encode_eq {layer layer' : Node Name (Markup String)} {id : String}
    (hreference : layer.isByReference = true)
    (hids : ∀ child ∈ layer.children, child.AllReferable)
    (hids' : ∀ child ∈ layer'.children, child.AllReferable)
    (h : layer.encode id = layer'.encode id) : layer = layer' := by
  have hkind : layer.kind = layer'.kind := Kind.name_injective (congrArg Element.name h)
  have hparts : layer.encodeParts = layer'.encodeParts := congrArg Element.children h
  cases layer with
  | primitive | empty | nullable | list | dictionary => cases hreference
  | enumeration members =>
      cases layer' <;> cases hkind
      have hread := memberNames_eq_ok members
      rw [show members.map _ = List.map _ _ from hparts, memberNames_eq_ok] at hread
      rw [Except.ok.inj hread]
  | recordWrite fields =>
      cases layer' <;> cases hkind
      rw [eq_of_members_eq (fun field hfield => hids _ (List.mem_map_of_mem hfield))
        (fun field hfield => hids' _ (List.mem_map_of_mem hfield)) hparts]
  | recordRead inputs =>
      cases layer' <;> cases hkind
      rw [eq_of_inputs_eq (fun input hinput => hids _ (List.mem_map_of_mem hinput))
        (fun input hinput => hids' _ (List.mem_map_of_mem hinput)) hparts]
  | union direction members =>
      cases layer' <;> cases hkind
      rw [eq_of_members_eq (fun member hmember => hids _ (List.mem_map_of_mem hmember))
        (fun member hmember => hids' _ (List.mem_map_of_mem hmember)) hparts]

end Node

/-! ## Forms and their texts -/

/-- The markup of a root and the nodes that are referred to by id, over markup in which they
are named by their places in the list. -/
structure CanonicalForm where
  root : Markup String
  layers : List (Node Name (Markup String))

namespace CanonicalForm

/-- The lines of nodes, the first of which has the given number. -/
def lines (number : Nat) : List (Node Name (Markup String)) → List String
  | [] => []
  | layer :: layers =>
    (layer.encode (toString number)).render .compact :: lines (number + 1) layers

/-- The text of a form. -/
def text (form : CanonicalForm) : String :=
  "\n".intercalate (form.root.display :: lines 0 form.layers)

/-- The node is referred to by id, and the markup of what is below it can be read back. -/
structure ReadableLayer (layer : Node Name (Markup String)) : Prop where
  isByReference : layer.isByReference = true
  child : ∀ child ∈ layer.children, child.AllReferable

/-- Everything in the form can be read back. -/
structure Readable (form : CanonicalForm) : Prop where
  root : form.root.AllReferable
  layer : ∀ layer ∈ form.layers, ReadableLayer layer

/-! ## No line feeds within lines -/

theorem newline_not_mem_formChars {form : String} {parts : List (List Char)}
    (hform : '\n' ∉ form.toList) (hparts : ∀ part ∈ parts, '\n' ∉ part) :
    '\n' ∉ Markup.formChars form parts := by
  simp only [Markup.formChars, List.mem_cons, List.mem_append, List.mem_flatMap]
  rintro (h | h | ⟨part, hpart, h | h⟩ | h | h)
  · exact absurd h (by decide)
  · exact hform h
  · exact absurd h (by decide)
  · exact hparts part hpart h
  · exact absurd h (by decide)
  · cases h

theorem newline_not_mem_chars {markup : Markup String} (h : markup.AllReferable) :
    '\n' ∉ markup.chars := by
  induction markup with
  | ref id =>
      rw [Markup.chars, List.mem_cons]
      rintro (hnewline | hnewline)
      · exact absurd hnewline (by decide)
      · have hblank := ((h id (List.mem_singleton.2 rfl)).word _ hnewline).not_blank
        exact absurd hblank (by decide)
  | primitive type => cases type <;> decide
  | empty => decide
  | nullable inner ih | list item ih =>
      refine newline_not_mem_formChars (by decide) fun part hpart => ?_
      rw [List.mem_singleton.1 hpart]
      exact ih h
  | dictionary key value ihkey ihvalue =>
      obtain ⟨hkey, hvalue⟩ := List.forall_mem_append.1 h
      refine newline_not_mem_formChars (by decide) ?_
      rw [List.forall_mem_cons, List.forall_mem_singleton]
      exact ⟨ihkey hkey, ihvalue hvalue⟩

theorem newline_not_mem_display {markup : Markup String} (h : markup.AllReferable) :
    '\n' ∉ markup.display.toList := by
  rw [Markup.display, String.toList_ofList]
  exact newline_not_mem_chars h

theorem newline_not_mem_lines (number : Nat) (layers : List (Node Name (Markup String))) :
    ∀ line ∈ lines number layers, '\n' ∉ line.toList := by
  induction layers generalizing number with
  | nil => exact List.forall_mem_nil _
  | cons layer layers ih =>
      refine List.forall_mem_cons.2 ⟨fun hnewline => ?_, ih (number + 1)⟩
      exact Element.inline_render _ _ hnewline (by decide)

/-- Lines are told apart in a text. -/
theorem eq_of_intercalate_eq {lines lines' : List String} (hlines : lines ≠ [])
    (hlines' : lines' ≠ []) (h : ∀ line ∈ lines, '\n' ∉ line.toList)
    (h' : ∀ line ∈ lines', '\n' ∉ line.toList)
    (heq : "\n".intercalate lines = "\n".intercalate lines') : lines = lines' := by
  have hsplit := String.toList_split_intercalate h
  have hsplit' := String.toList_split_intercalate h'
  rw [if_neg hlines] at hsplit
  rw [if_neg hlines'] at hsplit'
  rw [← hsplit, ← hsplit']
  exact congrArg (fun text : String => (text.split '\n').toList.map (·.copy)) heq

/-! ## Different forms have different texts -/

theorem eq_of_lines_eq {layers layers' : List (Node Name (Markup String))} {number : Nat}
    (h : ∀ layer ∈ layers, ReadableLayer layer) (h' : ∀ layer ∈ layers', ReadableLayer layer)
    (heq : lines number layers = lines number layers') : layers = layers' := by
  induction layers generalizing number layers' with
  | nil =>
      cases layers' with
      | nil => rfl
      | cons => cases heq
  | cons layer layers ih =>
      cases layers' with
      | nil => cases heq
      | cons layer' layers' =>
          obtain ⟨hline, hlines⟩ := List.cons.inj heq
          obtain ⟨hlayer, hlayers⟩ := List.forall_mem_cons.1 h
          obtain ⟨hlayer', hlayers'⟩ := List.forall_mem_cons.1 h'
          rw [Node.eq_of_encode_eq hlayer.isByReference hlayer.child hlayer'.child
            (Element.render_injective .compact hline), ih hlayers hlayers' hlines]

/-- Forms with the same text are the same. -/
theorem eq_of_text_eq {form form' : CanonicalForm} (h : form.Readable) (h' : form'.Readable)
    (heq : form.text = form'.text) : form = form' := by
  have hlines := eq_of_intercalate_eq (List.cons_ne_nil _ _) (List.cons_ne_nil _ _)
    (List.forall_mem_cons.2 ⟨newline_not_mem_display h.root, newline_not_mem_lines 0 _⟩)
    (List.forall_mem_cons.2 ⟨newline_not_mem_display h'.root, newline_not_mem_lines 0 _⟩) heq
  obtain ⟨hroot, hlayers⟩ := List.cons.inj hlines
  have hread := Markup.read_display h.root
  rw [hroot, Markup.read_display h'.root] at hread
  have hsame : form.root = form'.root := (Except.ok.inj hread).symm
  have hsame' : form.layers = form'.layers := eq_of_lines_eq h.layer h'.layer hlayers
  cases form
  cases form'
  cases hsame
  cases hsame'
  rfl

end CanonicalForm

end WireSchema

/-
# What a document says about a node

An element describes a node when it is of the same kind, has the same names up to case, and has
below it the markup of what describes what is below the node.  Reading a document leads to nodes
that are described by its elements, however the elements refer to each other and whatever the store
had before.
-/

import WireSchema.Proofs.Document.WellFormed
import WireSchema.Proofs.Node.Paired

namespace WireSchema

namespace Element

variable {R : Markup String → Handle → Prop}

/-- The element has the name of the member and the markup of its target. -/
structure SaysMember (R : Markup String → Handle → Prop) (part : Element)
    (member : Member Name Handle) : Prop where
  same_name : ∃ spelling, part.attribute? "Name" = some spelling ∧
    member.name.same ⟨spelling⟩ = true
  target : ∃ text markup, part.attribute? "Contract" = some text ∧
    Markup.read text = .ok markup ∧ R markup member.target

/-- The element has the name of the input, the markup of its target and the flag. -/
structure SaysInput (R : Markup String → Handle → Prop) (part : Element)
    (input : Input Name Handle) : Prop where
  member : part.SaysMember R ⟨input.name, input.target⟩
  required_eq : input.required = (part.attribute? "Required" != some "false")

/-- The node is one for the element on one side, with related markup and handles below. -/
inductive Describes (direction : Direction) (R : Markup String → Handle → Prop)
    (element : Element) : Node Name Handle → Prop
  | enumeration {members : List Name} : element.name = Kind.name .enumeration →
      Name.Increasing members → (∀ text, text ∈ members.map Name.folded ↔
        text ∈ (element.namesWithin "Member").map Name.folded) →
          Describes direction R element (.enumeration members)
  | recordWrite {members : List (Member Name Handle)} : direction = .write →
      element.name = Kind.name (.record .write) →
        Paired (SaysMember R) (element.childrenNamed "Field") members →
          Describes direction R element (.recordWrite members)
  | recordRead {inputs : List (Input Name Handle)} : direction = .read →
      element.name = Kind.name (.record .read) →
        Paired (SaysInput R) (element.childrenNamed "Field") inputs →
          Describes direction R element (.recordRead inputs)
  | union {members : List (Member Name Handle)} : element.name = Kind.name (.union direction) →
      Paired (SaysMember R) (element.childrenNamed "Member") members →
        Describes direction R element (.union direction members)

/-- The node is one for the markup in the document: for the element that is referred to, or for the
form that is written. -/
inductive Depicts (direction : Direction) (R : Markup String → Handle → Prop)
    (document : Element) : Markup String → Node Name Handle → Prop
  | ref {id : String} {element : Element} {node : Node Name Handle} :
      element ∈ document.children → element.attribute? "Id" = some id →
        element.Describes direction R node → Depicts direction R document (.ref id) node
  | primitive (type : Primitive) :
      Depicts direction R document (.primitive type) (.primitive type)
  | empty : Depicts direction R document .empty .empty
  | nullable {inner : Markup String} {handle : Handle} : R inner handle →
      Depicts direction R document (.nullable inner) (.nullable direction handle)
  | list {item : Markup String} {handle : Handle} : R item handle →
      Depicts direction R document (.list item) (.list direction handle)
  | dictionary {key value : Markup String} {keyHandle valueHandle : Handle} : R key keyHandle →
      R value valueHandle → Depicts direction R document (.dictionary key value)
        (.dictionary direction keyHandle valueHandle)

/-- Every handle leads to a node for the markup that it is related to, with related markup and
handles below. -/
def Explains (document : Element) (direction : Direction) (store : Store)
    (R : Markup String → Handle → Prop) : Prop :=
  ∀ markup handle, R markup handle → ∃ node, store.node? handle = some node ∧
    document.Depicts direction R markup node

/-! ## Layers of elements -/

theorem memberNames_eq {members : List Element} {names : List Name}
    (h : memberNames members = .ok names) :
    members.filterMap (fun child => (child.attribute? "Name").map Name.mk) = names := by
  induction members generalizing names with
  | nil => cases h; rfl
  | cons member members ih =>
      rw [memberNames] at h
      cases hname : member.requiredAttribute "Name" with
      | error error => rw [hname] at h; cases h
      | ok name =>
          rw [hname] at h
          cases hrest : memberNames members with
          | error error => rw [hrest] at h; cases h
          | ok rest =>
              rw [hrest] at h
              cases h
              rw [List.filterMap_cons, requiredAttribute_eq_ok_iff.1 hname]
              exact congrArg (_ :: ·) (ih hrest)

end Element

theorem ElementPart.requiredOf_eq {value? : Option String} {required : Bool}
    (h : requiredOf value? = .ok required) : required = (value? != some "false") := by
  cases value? with
  | none => cases h; rfl
  | some value =>
      rw [requiredOf] at h
      split at h
      next htrue => cases h; subst htrue; rfl
      next =>
        split at h <;> cases h
        next hfalse => subst hfalse; rfl

namespace DocumentSource

variable {source : DocumentSource} {form : ElementForm} {R : Markup String → Handle → Prop}

/-- What an element says about a part is true of what the part is similar to. -/
theorem saysMember_of_part {part : Element} {input : Input Name (Markup String)}
    {member : Member Name Handle} (h : source.part form part = .ok input)
    (hname : member.name.same input.name = true) (htarget : R input.target member.target) :
    part.SaysMember R member := by
  obtain ⟨found, required, hpart, -, rfl⟩ := Importing.part_eq_ok_iff.1 h
  obtain ⟨hspelling, ⟨text, htext, hread⟩, -⟩ := ElementPart.ofElement_eq_ok_iff.1 hpart
  exact ⟨⟨_, hspelling, hname⟩, text, _, htext, hread, htarget⟩

theorem required_of_part {part : Element} {input : Input Name (Markup String)}
    (hform : form.hasRequired source.direction = true) (h : source.part form part = .ok input) :
    input.required = (part.attribute? "Required" != some "false") := by
  obtain ⟨found, required, hpart, hflag, rfl⟩ := Importing.part_eq_ok_iff.1 h
  rw [flag, if_pos hform, (ElementPart.ofElement_eq_ok_iff.1 hpart).2.2] at hflag
  exact ElementPart.requiredOf_eq hflag

/-- Parts in pairs with what has been read from elements are in pairs with the elements. -/
theorem paired_of_parts {γ : Type} {P : Input Name (Markup String) → γ → Prop}
    {Q : Element → γ → Prop} {children : List Element} {parts : List (Input Name (Markup String))}
    {items : List γ} (h : List.Forall₂ (fun child part => source.part form child = .ok part)
      children parts) (hpaired : Paired P parts items)
    (himp : ∀ child part item, source.part form child = .ok part → P part item → Q child item) :
    Paired Q children items := by
  have hchildren : Paired (fun part child => source.part form child = .ok part) parts children :=
    ⟨parts, .refl _, h.flip⟩
  exact (hpaired.comp hchildren).imp fun child item ⟨part, hpart, hitem⟩ =>
    himp child part item hpart hitem

/-- A node with the layer of an element is described by the element. -/
theorem describes_of_elementLayer {element : Element} {layer : Node Name (Markup String)}
    {node : Node Name Handle} (hlayer : source.elementLayer element = .ok layer)
    (hsimilar : layer.Similar R node) : element.Describes source.direction R node := by
  obtain ⟨content, hcontent⟩ := exists_content_of_elementLayer hlayer
  cases content with
  | enumeration =>
      have hname := ElementContent.ofElement_eq_enumeration_iff.1 hcontent
      rw [elementLayer_of_enumeration hcontent, Element.toEnumeration, if_pos hname] at hlayer
      cases hnames : Element.memberNames (element.childrenNamed "Member") with
      | error error => rw [hnames] at hlayer; cases hlayer
      | ok names =>
          rw [hnames] at hlayer
          cases hlayer
          obtain ⟨members, rfl, -⟩ := Node.exists_of_similar_enumeration hsimilar
          have hfolded : (Name.setOf names).map Name.folded = members.map Name.folded :=
            Node.enumeration.inj hsimilar.shape_eq
          refine .enumeration hname (hsimilar.arranged_iff.1 (Name.increasing_setOf names))
            fun text => ?_
          rw [← hfolded, Name.mem_map_folded_setOf, Element.namesWithin,
            Element.memberNames_eq hnames]
  | parts form =>
      obtain ⟨parts, hparts, hassemble⟩ := exists_parts_of_elementLayer hcontent hlayer
      have hname := ElementContent.ofElement_eq_parts_iff.1 hcontent
      have harrange := ElementForm.assemble_eq_ok_iff.1 hassemble
      have hchildren := forall₂_of_mapM hparts
      generalize hdirection : source.direction = direction at hname harrange ⊢
      cases form with
      | record =>
          cases direction with
          | write =>
              simp only [ElementForm.node, Node.arrange] at harrange
              split at harrange <;> cases harrange
              obtain ⟨members, rfl, hrel⟩ := Node.exists_of_similar_recordWrite hsimilar
              refine .recordWrite rfl hname (paired_of_parts hchildren
                (paired_of_sortBy hrel fun _ _ h => h) fun child part member hpart hmember => ?_)
              exact saysMember_of_part hpart hmember.1 hmember.2
          | read =>
              simp only [ElementForm.node, Node.arrange] at harrange
              split at harrange <;> cases harrange
              obtain ⟨inputs, rfl, hrel⟩ := Node.exists_of_similar_recordRead hsimilar
              have hform : ElementForm.record.hasRequired source.direction = true := by
                rw [hdirection]
                rfl
              rw [← List.map_id parts] at hrel
              refine .recordRead rfl hname (paired_of_parts hchildren
                (paired_of_sortBy hrel fun _ _ h => h) fun child part input hpart hinput => ?_)
              exact ⟨saysMember_of_part hpart hinput.1 hinput.2.1,
                hinput.2.2.trans (required_of_part hform hpart)⟩
      | union =>
          simp only [ElementForm.node, Node.arrange] at harrange
          split at harrange <;> cases harrange
          obtain ⟨members, rfl, hrel⟩ := Node.exists_of_similar_union hsimilar
          refine .union hname (paired_of_parts hchildren
            (paired_of_sortBy hrel fun _ _ h => h) fun child part member hpart hmember => ?_)
          exact saysMember_of_part hpart hmember.1 hmember.2

/-- A node with the layer of a markup is one for the markup in the document. -/
theorem depicts_of_layering {direction : Direction} {document : Element}
    (hsource : ofDocument direction document = .ok source) {markup : Markup String}
    {layer : Node Name (Markup String)} {node : Node Name Handle}
    (hlayer : source.layering markup = some layer) (hsimilar : layer.Similar R node) :
    document.Depicts direction R markup node := by
  obtain ⟨-, rfl, hentries, hid, -⟩ := ofDocument_eq_ok_iff.1 hsource
  have hshape := hsimilar.shape_eq
  have hchildren := hsimilar.children
  cases markup with
  | ref id =>
      obtain ⟨element, hfind, hok⟩ := exists_element_of_layering hlayer
      obtain ⟨entry, hentry, rfl⟩ := Option.map_eq_some_iff.1 hfind
      have hmem := List.mem_of_find?_eq_some hentry
      obtain rfl : entry.1 = id := by simpa using List.find?_some hentry
      refine .ref (hentries ▸ List.mem_map_of_mem hmem) (hid entry hmem) ?_
      exact describes_of_elementLayer hok hsimilar
  | primitive type =>
      cases hlayer
      cases node <;> cases hshape
      exact .primitive type
  | empty =>
      cases hlayer
      cases node <;> cases hshape
      exact .empty
  | nullable inner =>
      cases hlayer
      cases node <;> cases hshape
      exact .nullable (List.forall₂_cons.1 hchildren).1
  | list item =>
      cases hlayer
      cases node <;> cases hshape
      exact .list (List.forall₂_cons.1 hchildren).1
  | dictionary key value =>
      cases hlayer
      cases node <;> cases hshape
      obtain ⟨hkey, hrest⟩ := List.forall₂_cons.1 hchildren
      exact .dictionary hkey (List.forall₂_cons.1 hrest).1

end DocumentSource

/-! ## Stores that hold a document -/

/-- A store that holds what a document describes is explained by the document, from its root and
from each of its elements. -/
theorem Store.Holds.exists_explains {source : DocumentSource} {store : Store} {handle : Handle}
    {direction : Direction} {document : Element} (h : Store.Holds source store handle)
    (hsource : DocumentSource.ofDocument direction document = .ok source) :
    ∃ R, document.Explains direction store R ∧
      (∃ text root, document.rootText? = some text ∧ Markup.read text = .ok root ∧
        R root handle) ∧
      ∀ id ∈ document.ids, ∃ handle, R (.ref id) handle := by
  obtain ⟨-, -, hchildren, hid, -, hroot⟩ := DocumentSource.ofDocument_eq_ok_iff.1 hsource
  refine ⟨source.layering.Agree store.node?, fun markup handle hagree => ?_, ?_, fun id hmem => ?_⟩
  · obtain ⟨layer, node, hlayer, hnode, hsimilar⟩ := hagree.unfold
    exact ⟨node, hnode, DocumentSource.depicts_of_layering hsource hlayer hsimilar⟩
  · obtain ⟨root, hread, hagree⟩ := h.root
    exact ⟨source.root, root, hroot, hread, hagree⟩
  · rw [Element.ids, hchildren, DocumentSource.filterMap_children hid] at hmem
    exact h.elements id hmem

end WireSchema

/-
# Elements are read back

An element has the names and flags of a node, and the text of the markup of what is below
it.  Reading the element of an arranged node gives the node again, over markup, if the
markup can be read back.
-/

import WireSchema.Proofs.Document.Layering
import WireSchema.Proofs.Markup.Reader

namespace WireSchema

/-- An action that succeeds on every item of a list succeeds on the list. -/
theorem mapM_eq_ok {ε α β : Type} {f : α → Except ε β} {g : α → β} {items : List α}
    (h : ∀ item ∈ items, f item = .ok (g item)) : items.mapM f = .ok (items.map g) := by
  induction items with
  | nil => rfl
  | cons item items ih =>
      obtain ⟨hitem, hitems⟩ := List.forall_mem_cons.1 h
      rw [List.mapM_cons, hitem]
      simp only [bind, Except.bind, ih hitems]
      rfl

namespace Element

/-- If all children have one name, they are the children with that name. -/
theorem childrenNamed_eq {element : Element} {name : String}
    (h : ∀ child ∈ element.children, child.name = name) :
    element.childrenNamed name = element.children :=
  List.filter_eq_self.2 fun child hchild => decide_eq_true (h child hchild)

end Element

/-- The element of a name and a markup. -/
def Element.ofMember (label : String) (name : Name) (markup : Markup String) : Element :=
  ((Element.new label).withAttribute "Name" name.spelling).withAttribute "Contract" markup.display

/-- The element of a name, a markup and a flag. -/
def Element.ofInput (input : Input Name (Markup String)) : Element :=
  (Element.ofMember "Field" input.name input.target).withAttribute "Required"
    (if input.required then "true" else "false")

namespace Node

/-- The elements within the element of a node over markup. -/
def encodeParts : Node Name (Markup String) → List Element
  | enumeration members =>
    members.map fun name => (Element.new "Member").withAttribute "Name" name.spelling
  | recordWrite fields => fields.map fun field => .ofMember "Field" field.name field.target
  | recordRead inputs => inputs.map .ofInput
  | union _ members => members.map fun member => .ofMember "Member" member.name member.target
  | primitive _ | empty | nullable .. | list .. | dictionary .. => []

/-- The element of a node over markup, under an id. -/
def encode (id : String) (layer : Node Name (Markup String)) : Element :=
  { (Element.new layer.kind.name).withAttribute "Id" id with children := layer.encodeParts }

/-! ## Writing -/

section Writing

variable {refer : Handle → Except Error String}

theorem memberElement_eq_ok {name : Name} {target : Handle} {markup : Markup String}
    (label : String) (h : refer target = .ok markup.display) :
    memberElement label refer name target = .ok (.ofMember label name markup) := by
  rw [memberElement, h]
  rfl

theorem memberElements_eq_ok (label : String) {members : List (Member Name Handle)}
    {layer : List (Member Name (Markup String))}
    (h : List.Forall₂ (SameMember fun markup handle => refer handle = .ok markup.display)
      layer members) :
    memberElements label refer members =
      .ok (layer.map fun member => .ofMember label member.name member.target) := by
  induction h with
  | nil => rfl
  | cons hmember _ ih =>
      rw [memberElements, ← hmember.1, memberElement_eq_ok label hmember.2, ih]
      rfl

theorem inputElements_eq_ok {inputs : List (Input Name Handle)}
    {layer : List (Input Name (Markup String))}
    (h : List.Forall₂ (SameInput fun markup handle => refer handle = .ok markup.display)
      layer inputs) :
    inputElements refer inputs = .ok (layer.map .ofInput) := by
  induction h with
  | nil => rfl
  | cons hinput _ ih =>
      rw [inputElements, ← hinput.1, ← hinput.2.1, memberElement_eq_ok "Field" hinput.2.2, ih]
      rfl

/-- The parts that are written for a node are those of its layer over markup. -/
theorem partElements_eq_ok {layer : Node Name (Markup String)} {node : Node Name Handle}
    (h : layer.Lift (fun markup handle => refer handle = .ok markup.display) node) :
    node.partElements refer = .ok layer.encodeParts := by
  have hshape := h.shape_eq
  cases layer <;> cases node <;> simp only [shape, mapChildren, reduceCtorEq] at hshape
  case enumeration.enumeration members members' =>
    obtain rfl := enumeration.inj hshape
    rfl
  case recordWrite.recordWrite => exact memberElements_eq_ok "Field" (lift_recordWrite_iff.1 h)
  case recordRead.recordRead => exact inputElements_eq_ok (lift_recordRead_iff.1 h)
  case union.union => exact memberElements_eq_ok "Member" (lift_union_iff.1 h).2
  all_goals rfl

theorem toElement?_eq_ok {layer : Node Name (Markup String)} {node : Node Name Handle}
    (h : layer.Lift (fun markup handle => refer handle = .ok markup.display) node)
    (hreference : node.isByReference = true) (id : String) :
    node.toElement? (some id) refer = .ok (some (layer.encode id)) := by
  rw [toElement?, if_pos hreference]
  simp only [bind, Except.bind, partElements_eq_ok h]
  rw [encode, h.kind_eq]
  rfl

end Writing

end Node

/-! ## Reading -/

section Reading

variable {source : DocumentSource}

theorem ElementPart.ofElement_ofMember {label : String} {name : Name} {markup : Markup String}
    (h : markup.AllReferable) :
    ElementPart.ofElement (.ofMember label name markup) = .ok ⟨name, markup, .ok true⟩ := by
  have hname : (Element.ofMember label name markup).requiredAttribute "Name" =
      .ok name.spelling := rfl
  have hmarkup : (Element.ofMember label name markup).requiredAttribute "Contract" =
      .ok markup.display := rfl
  rw [ElementPart.ofElement, hname, hmarkup]
  simp only [bind, Except.bind, Markup.read_display h]
  rfl

theorem ElementPart.ofElement_ofInput {input : Input Name (Markup String)}
    (h : input.target.AllReferable) :
    ElementPart.ofElement (.ofInput input) =
      .ok ⟨input.name, input.target, .ok input.required⟩ := by
  have hname : (Element.ofInput input).requiredAttribute "Name" = .ok input.name.spelling := rfl
  have hmarkup : (Element.ofInput input).requiredAttribute "Contract" =
      .ok input.target.display := rfl
  have hrequired : ElementPart.requiredOf ((Element.ofInput input).attribute? "Required") =
      .ok input.required := by
    obtain ⟨name, target, required⟩ := input
    cases required <;> rfl
  rw [ElementPart.ofElement, hname, hmarkup, hrequired]
  simp only [bind, Except.bind, Markup.read_display h]
  rfl

theorem DocumentSource.part_ofMember {form : ElementForm} {label : String} {name : Name}
    {markup : Markup String} (h : markup.AllReferable) :
    source.part form (.ofMember label name markup) = .ok ⟨name, markup, true⟩ := by
  have hflag : source.flag form ⟨name, markup, .ok true⟩ = .ok true := by
    rw [flag]
    split <;> rfl
  rw [part, ElementPart.ofElement_ofMember h]
  simp only [bind, Except.bind, hflag]
  rfl

theorem DocumentSource.part_ofInput {input : Input Name (Markup String)}
    (hread : source.direction = .read) (h : input.target.AllReferable) :
    source.part .record (.ofInput input) = .ok input := by
  have hflag : source.flag .record ⟨input.name, input.target, .ok input.required⟩ =
      .ok input.required := by
    rw [flag, hread]
    rfl
  rw [part, ElementPart.ofElement_ofInput h]
  simp only [bind, Except.bind, hflag]
  rfl

theorem memberNames_eq_ok (members : List Name) :
    Element.memberNames (members.map fun name =>
      (Element.new "Member").withAttribute "Name" name.spelling) = .ok members := by
  induction members with
  | nil => rfl
  | cons name members ih =>
      rw [List.map_cons, Element.memberNames, ih]
      rfl

/-- Parts that are written as members are read back. -/
theorem mapM_part_ofMember (source : DocumentSource) (form : ElementForm) (label : String)
    {members : List (Member Name (Markup String))}
    (h : ∀ member ∈ members, member.target.AllReferable) :
    (members.map fun member => Element.ofMember label member.name member.target).mapM
        (source.part form) =
      .ok (members.map fun member => Input.mk member.name member.target true) := by
  rw [List.mapM_map]
  exact mapM_eq_ok fun member hmember => source.part_ofMember (h member hmember)

theorem mapM_part_ofInput (hread : source.direction = .read)
    {inputs : List (Input Name (Markup String))}
    (h : ∀ input ∈ inputs, input.target.AllReferable) :
    (inputs.map Element.ofInput).mapM (source.part .record) = .ok inputs := by
  rw [List.mapM_map]
  have hinputs := mapM_eq_ok (g := id) fun input hinput =>
    source.part_ofInput hread (h input hinput)
  rwa [List.map_id] at hinputs

theorem name_of_mem_encodeParts {label : String} {members : List (Member Name (Markup String))} :
    ∀ child ∈ members.map fun member => Element.ofMember label member.name member.target,
      child.name = label := by
  intro child hchild
  obtain ⟨member, -, rfl⟩ := List.mem_map.1 hchild
  rfl

/-- An element of which all children are parts has the layer with those parts. -/
theorem DocumentSource.elementLayer_of_children {element : Element} {form : ElementForm}
    {parts : List (Input Name (Markup String))} {layer : Node Name (Markup String)}
    (hcontent : ElementContent.ofElement source.direction element = .ok (.parts form))
    (hnamed : ∀ child ∈ element.children, child.name = form.partName)
    (hparts : element.children.mapM (source.part form) = .ok parts)
    (hnode : form.node source.direction parts = layer) (harranged : layer.Arranged) :
    source.elementLayer element = .ok layer := by
  rw [← Element.childrenNamed_eq hnamed] at hparts
  rw [elementLayer_of_parts hcontent hparts, ElementForm.assemble_eq_ok_iff, hnode]
  exact Node.arrange_eq_self harranged

theorem DocumentSource.elementLayer_encode_enumeration {members : List Name}
    (hincreasing : Name.Increasing members) (id : String) :
    source.elementLayer (Node.encode id (.enumeration members)) = .ok (.enumeration members) := by
  have hcontent : ElementContent.ofElement source.direction
      (Node.encode id (.enumeration members)) = .ok .enumeration := rfl
  have hnamed : (Node.encode id (.enumeration members)).childrenNamed "Member" =
      members.map fun name => (Element.new "Member").withAttribute "Name" name.spelling := by
    apply Element.childrenNamed_eq
    intro child hchild
    obtain ⟨name, -, rfl⟩ := List.mem_map.1 hchild
    rfl
  have hname : (Node.encode id (.enumeration members)).name = Kind.name .enumeration := rfl
  rw [elementLayer_of_enumeration hcontent, Element.toEnumeration, if_pos hname, hnamed]
  have hset : Name.setOf members = members := Name.setOf_eq_self hincreasing
  simp only [bind, Except.bind, memberNames_eq_ok, hset]
  rfl

/-- The element of an arranged node that is referred to by id is read as that node. -/
theorem DocumentSource.elementLayer_encode {layer : Node Name (Markup String)}
    (harranged : layer.Arranged) (hreference : layer.isByReference = true)
    (hserves : layer.kind.serves source.direction = true)
    (hids : ∀ child ∈ layer.children, child.AllReferable) (id : String) :
    source.elementLayer (layer.encode id) = .ok layer := by
  cases layer with
  | primitive | empty | nullable | list | dictionary => cases hreference
  | enumeration members => exact elementLayer_encode_enumeration harranged id
  | recordWrite fields =>
      have hwrite : source.direction = .write := (of_decide_eq_true hserves).symm
      have hparts := mapM_part_ofMember source .record "Field"
        fun field hfield => hids field.target (List.mem_map_of_mem hfield)
      have hnamed : ∀ child ∈ (Node.encode id (.recordWrite fields)).children,
          child.name = ElementForm.partName .record := name_of_mem_encodeParts
      refine elementLayer_of_children ?_ hnamed hparts ?_ harranged
      · rw [hwrite]
        rfl
      · rw [hwrite, ElementForm.node, List.map_map]
        exact congrArg Node.recordWrite (List.map_id _)
  | recordRead inputs =>
      have hread : source.direction = .read := (of_decide_eq_true hserves).symm
      have hparts := mapM_part_ofInput hread
        fun input hinput => hids input.target (List.mem_map_of_mem hinput)
      refine elementLayer_of_children ?_ (fun child hchild => ?_) hparts ?_ harranged
      · rw [hread]
        rfl
      · obtain ⟨input, -, rfl⟩ := List.mem_map.1 hchild
        rfl
      · rw [hread]
        rfl
  | union direction members =>
      have hsame : direction = source.direction := of_decide_eq_true hserves
      have hparts := mapM_part_ofMember source .union "Member"
        fun member hmember => hids member.target (List.mem_map_of_mem hmember)
      have hnamed : ∀ child ∈ (Node.encode id (.union direction members)).children,
          child.name = ElementForm.partName .union := name_of_mem_encodeParts
      refine elementLayer_of_children ?_ hnamed hparts ?_ harranged
      · rw [← hsame]
        cases direction <;> rfl
      · rw [← hsame, ElementForm.node, List.map_map]
        exact congrArg (Node.union direction) (List.map_id _)

end Reading

end WireSchema

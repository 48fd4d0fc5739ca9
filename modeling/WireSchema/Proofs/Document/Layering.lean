/-
# The graph that a document describes

The elements of a document refer to each other by id, so a document stands for a
graph over markup: a reference has the layer of the element that it names, and
everything else is a layer by itself.
-/

import WireSchema.Document.Import
import WireSchema.Proofs.Node.Alike
import WireSchema.Proofs.Node.Arranged

namespace WireSchema

namespace DocumentSource

/-- Whether a field or member is required, where its form asks for that. -/
def flag (source : DocumentSource) (form : ElementForm) (part : ElementPart) :
    Except Error Bool :=
  if form.hasRequired source.direction then part.required else .ok true

/-- The field or member that an element within an element describes. -/
def part (source : DocumentSource) (form : ElementForm) (element : Element) :
    Except Error (Input Name (Markup String)) := do
  let part ← ElementPart.ofElement element
  let required ← source.flag form part
  return ⟨part.name, part.markup, required⟩

/-- The node that an element describes, over the markup of what is below it. -/
def elementLayer (source : DocumentSource) (element : Element) :
    Except Error (Node Name (Markup String)) := do
  match ← ElementContent.ofElement source.direction element with
  | .enumeration => element.toEnumeration
  | .parts form => do
    let parts ← (element.childrenNamed form.partName).mapM (source.part form)
    form.assemble source.direction parts

/-- The node that a markup stands for in a document. -/
def layering (source : DocumentSource) : Layering (Markup String)
  | .ref id => do
    let element ← source.element? id
    (source.elementLayer element).toOption
  | .primitive type => some (.primitive type)
  | .empty => some .empty
  | .nullable inner => some (.nullable source.direction inner)
  | .list item => some (.list source.direction item)
  | .dictionary key value => some (.dictionary source.direction key value)

/-- The set of markup is closed downwards, every markup in it has a layer, and none is
nullable twice. -/
structure Closed (source : DocumentSource) (good : Markup String → Prop) : Prop where
  layer : ∀ {markup}, good markup → ∃ node, source.layering markup = some node ∧
    ∀ child ∈ node.children, good child
  single : ∀ {inner node}, good (.nullable inner) → source.layering inner = some node →
    ∀ direction target, node ≠ .nullable direction target

theorem Closed.child {source : DocumentSource} {good : Markup String → Prop}
    (h : source.Closed good) {markup child : Markup String} {node : Node Name (Markup String)}
    (hgood : good markup) (hnode : source.layering markup = some node)
    (hchild : child ∈ node.children) : good child := by
  obtain ⟨node', hnode', hchildren⟩ := h.layer hgood
  cases hnode.symm.trans hnode'
  exact hchildren child hchild

/-- The markup and everything below it can be read. -/
def Readable (source : DocumentSource) (markup : Markup String) : Prop :=
  ∃ good, source.Closed good ∧ good markup

theorem closed_readable (source : DocumentSource) : source.Closed source.Readable where
  layer := by
    rintro markup ⟨good, hclosed, hgood⟩
    obtain ⟨node, hnode, hchildren⟩ := hclosed.layer hgood
    exact ⟨node, hnode, fun child hchild => ⟨good, hclosed, hchildren child hchild⟩⟩
  single := by
    rintro inner node ⟨good, hclosed, hgood⟩
    exact hclosed.single hgood

/-! ## The layer of an element -/

section ElementLayer

variable {source : DocumentSource} {id : String}

theorem layering_ref_eq_some {element : Element} {layer : Node Name (Markup String)}
    (helement : source.element? id = some element)
    (hlayer : source.elementLayer element = .ok layer) :
    source.layering (.ref id) = some layer := by
  simp [DocumentSource.layering, helement, hlayer, Except.toOption]

/-- A reference that has a layer names an element with this layer. -/
theorem exists_element_of_layering {layer : Node Name (Markup String)}
    (h : source.layering (.ref id) = some layer) :
    ∃ element, source.element? id = some element ∧ source.elementLayer element = .ok layer := by
  obtain ⟨element, helement, hlayer⟩ := Option.bind_eq_some_iff.1 h
  refine ⟨element, helement, ?_⟩
  cases hok : source.elementLayer element with
  | ok found => rw [hok] at hlayer; cases hlayer; rfl
  | error error => rw [hok] at hlayer; cases hlayer

/-- The element that a readable reference names has a layer. -/
theorem exists_element_of_readable (h : source.Readable (.ref id)) :
    ∃ element layer, source.element? id = some element ∧
      source.elementLayer element = .ok layer ∧
        ∀ child ∈ layer.children, source.Readable child := by
  obtain ⟨layer, hlayer, hchildren⟩ := source.closed_readable.layer h
  obtain ⟨element, helement, hlayer⟩ := exists_element_of_layering hlayer
  exact ⟨element, layer, helement, hlayer, hchildren⟩

theorem elementLayer_of_enumeration {element : Element}
    (hcontent : ElementContent.ofElement source.direction element = .ok .enumeration) :
    source.elementLayer element = element.toEnumeration := by
  rw [DocumentSource.elementLayer, hcontent]
  rfl

theorem elementLayer_of_parts {element : Element} {form : ElementForm}
    {parts : List (Input Name (Markup String))}
    (hcontent : ElementContent.ofElement source.direction element = .ok (.parts form))
    (hparts : (element.childrenNamed form.partName).mapM (source.part form) = .ok parts) :
    source.elementLayer element = form.assemble source.direction parts := by
  rw [DocumentSource.elementLayer, hcontent]
  change (do
    let parts ← (element.childrenNamed form.partName).mapM (source.part form)
    form.assemble source.direction parts) = _
  rw [hparts]
  rfl

theorem exists_content_of_elementLayer {element : Element} {layer : Node Name (Markup String)}
    (hlayer : source.elementLayer element = .ok layer) :
    ∃ content, ElementContent.ofElement source.direction element = .ok content := by
  cases hcontent : ElementContent.ofElement source.direction element with
  | ok content => exact ⟨content, rfl⟩
  | error error =>
      rw [DocumentSource.elementLayer, hcontent] at hlayer
      cases hlayer

/-- The parts of an element that has a layer. -/
theorem exists_parts_of_elementLayer {element : Element} {form : ElementForm}
    {layer : Node Name (Markup String)}
    (hcontent : ElementContent.ofElement source.direction element = .ok (.parts form))
    (hlayer : source.elementLayer element = .ok layer) :
    ∃ parts, (element.childrenNamed form.partName).mapM (source.part form) = .ok parts ∧
      form.assemble source.direction parts = .ok layer := by
  cases hparts : (element.childrenNamed form.partName).mapM (source.part form) with
  | ok parts => exact ⟨parts, rfl, (elementLayer_of_parts hcontent hparts).symm.trans hlayer⟩
  | error error =>
      rw [DocumentSource.elementLayer, hcontent] at hlayer
      change (do
        let parts ← (element.childrenNamed form.partName).mapM (source.part form)
        form.assemble source.direction parts) = _ at hlayer
      rw [hparts] at hlayer
      cases hlayer

end ElementLayer

end DocumentSource

variable {κ κ' : Type} {R : κ → κ' → Prop}

/-- The node of the form with the given parts, in the order of the parts. -/
def ElementForm.node (form : ElementForm) (direction : Direction) (parts : List (Input Name κ)) :
    Node Name κ :=
  let members := parts.map fun part => Member.mk part.name part.target
  match form, direction with
  | record, .write => .recordWrite members
  | record, .read => .recordRead parts
  | union, direction => .union direction members

theorem ElementForm.assemble_eq (form : ElementForm) (direction : Direction)
    (parts : List (Input Name κ)) :
    form.assemble direction parts =
      match (form.node direction parts).arrange with
      | .ok node => .ok node
      | .error flaw => .error (.malformedDocument (.flawed flaw)) := by
  cases form <;> cases direction <;> rfl

theorem ElementForm.assemble_eq_ok_iff {form : ElementForm} {direction : Direction}
    {parts : List (Input Name κ)} {node : Node Name κ} :
    form.assemble direction parts = .ok node ↔
      (form.node direction parts).arrange = .ok node := by
  rw [assemble_eq]
  cases (form.node direction parts).arrange <;> simp

/-- The kind of the elements of the form. -/
def ElementForm.kind (form : ElementForm) (direction : Direction) : Kind :=
  match form with
  | record => .record direction
  | union => .union direction

theorem ElementForm.kind_node (form : ElementForm) (direction : Direction)
    (parts : List (Input Name κ)) : (form.node direction parts).kind = form.kind direction := by
  cases form <;> cases direction <;> rfl

theorem ElementForm.isByReference_kind (form : ElementForm) (direction : Direction) :
    (form.kind direction).isByReference = true := by
  cases form <;> rfl

theorem ElementForm.isByReference_node (form : ElementForm) (direction : Direction)
    (parts : List (Input Name κ)) : (form.node direction parts).isByReference = true := by
  rw [Node.isByReference, form.kind_node]
  exact form.isByReference_kind direction

theorem ElementForm.children_node (form : ElementForm) (direction : Direction)
    (parts : List (Input Name κ)) :
    (form.node direction parts).children = parts.map (·.target) := by
  cases form <;> cases direction <;> simp [ElementForm.node, Node.children]

/-- Corresponding parts make corresponding nodes. -/
theorem ElementForm.lift_node (form : ElementForm) (direction : Direction)
    {parts : List (Input Name κ)} {parts' : List (Input Name κ')}
    (h : List.Forall₂ (Node.SameInput R) parts parts') :
    (form.node direction parts).Lift R (form.node direction parts') := by
  have hmembers : List.Forall₂ (Node.SameMember R)
      (parts.map fun part => Member.mk part.name part.target)
      (parts'.map fun part => Member.mk part.name part.target) := by
    rw [List.forall₂_map_left_iff, List.forall₂_map_right_iff]
    exact h.imp fun _ _ ⟨hname, _, htarget⟩ => ⟨hname, htarget⟩
  cases form with
  | record =>
      cases direction with
      | write => exact Node.lift_recordWrite_iff.2 hmembers
      | read => exact Node.lift_recordRead_iff.2 h
  | union => exact Node.lift_union_iff.2 ⟨rfl, hmembers⟩

/-! ## Enumeration elements -/

/-- An enumeration element describes an enumeration, whatever is below nodes. -/
theorem Element.toEnumeration_eq_ok {β : Type} {element : Element} {node : Node Name κ}
    (h : element.toEnumeration = .ok node) :
    ∃ members, node = .enumeration members ∧ Name.Increasing members ∧
      element.toEnumeration = .ok (.enumeration members : Node Name β) := by
  unfold Element.toEnumeration at h ⊢
  split at h
  next hname =>
    cases hnames : memberNames (element.childrenNamed "Member") with
    | error error => rw [hnames] at h; cases h
    | ok names =>
        rw [hnames] at h
        cases h
        refine ⟨Name.setOf names, rfl, Name.increasing_setOf names, ?_⟩
        rw [if_pos hname]
        rfl
  · cases h

/-- An element describes an enumeration, or a record or union of the document's side. -/
theorem DocumentSource.kind_of_elementLayer {source : DocumentSource} {element : Element}
    {layer : Node Name (Markup String)} (h : source.elementLayer element = .ok layer) :
    layer.kind = .enumeration ∨ ∃ form : ElementForm, layer.kind = form.kind source.direction := by
  obtain ⟨content, hcontent⟩ := exists_content_of_elementLayer h
  cases content with
  | enumeration =>
      rw [elementLayer_of_enumeration hcontent] at h
      obtain ⟨members, rfl, -⟩ := Element.toEnumeration_eq_ok (β := Handle) h
      exact .inl rfl
  | parts form =>
      obtain ⟨parts, -, hassemble⟩ := exists_parts_of_elementLayer hcontent h
      rw [Node.kind_of_arrange (ElementForm.assemble_eq_ok_iff.1 hassemble)]
      exact .inr ⟨form, form.kind_node source.direction parts⟩

theorem DocumentSource.isByReference_of_elementLayer {source : DocumentSource} {element : Element}
    {layer : Node Name (Markup String)} (h : source.elementLayer element = .ok layer) :
    layer.isByReference = true := by
  rcases kind_of_elementLayer h with hkind | ⟨form, hkind⟩ <;> rw [Node.isByReference, hkind]
  · rfl
  · exact form.isByReference_kind source.direction

end WireSchema

/-
# Well-formed documents

A document for one side is well formed when its elements have different ids and are of kinds that
the side has, when the parts of an element have different names, and when every markup refers to
elements of the document and makes nothing nullable twice.  It takes no following of references to
see this, and yet these are exactly the documents in which everything can be read.
-/

import WireSchema.Proofs.Document.Export
import WireSchema.Proofs.Document.Import

namespace WireSchema

open Importing (mapM_cons_eq_ok_iff part_eq_ok_iff)

/-! ## What is well formed -/

namespace Markup

/-- No nullable is directly within another. -/
def Single : Markup String → Prop
  | ref _ | primitive _ | empty => True
  | nullable inner => (∀ below, inner ≠ nullable below) ∧ inner.Single
  | list item => item.Single
  | dictionary key value => key.Single ∧ value.Single

/-- The markup refers to known elements only, and has no nullable directly within another. -/
structure WellFormed (ids : List String) (markup : Markup String) : Prop where
  known : ∀ id ∈ markup.references, id ∈ ids
  single : markup.Single

/-- The text is read as a well-formed markup. -/
def WellFormedText (ids : List String) (text : String) : Prop :=
  ∃ markup, Markup.read text = .ok markup ∧ markup.WellFormed ids

end Markup

namespace Element

/-- The field or member has a name and a well-formed markup, and if it may say whether it is
required, it does so by a truth value. -/
structure WellFormedPart (ids : List String) (form : ElementForm) (direction : Direction)
    (part : Element) : Prop where
  named : ∃ name, part.attribute? "Name" = some name
  contract : ∃ text, part.attribute? "Contract" = some text ∧ Markup.WellFormedText ids text
  required : form.hasRequired direction = true → ∀ value, part.attribute? "Required" = some value →
    value = "true" ∨ value = "false"

/-- The names of the children with a label. -/
def namesWithin (element : Element) (label : String) : List Name :=
  (element.childrenNamed label).filterMap fun child => (child.attribute? "Name").map Name.mk

/-- The element is an enumeration whose members have names, or a record or union of the side whose
fields or members are well formed and have different names. -/
inductive WellFormed (ids : List String) (direction : Direction) (element : Element) : Prop
  | enumeration : element.name = Kind.name .enumeration →
      (∀ member ∈ element.childrenNamed "Member", ∃ name, member.attribute? "Name" = some name) →
        WellFormed ids direction element
  | parts (form : ElementForm) : element.name = (form.kind direction).name →
      (∀ part ∈ element.childrenNamed form.partName, part.WellFormedPart ids form direction) →
        ((element.namesWithin form.partName).map Name.folded).Nodup →
          WellFormed ids direction element

/-- The ids of the elements in a document. -/
def ids (document : Element) : List String :=
  document.children.filterMap (·.attribute? "Id")

/-- The markup text of the root: the one that is named, or a reference to the last element. -/
def rootText? (document : Element) : Option String :=
  match document.attribute? "Root" with
  | some root => some root
  | none => (document.children.getLast?.bind (·.attribute? "Id")).map ("#" ++ ·)

/-- The document is well formed for a side. -/
structure WellFormedDocument (direction : Direction) (document : Element) : Prop where
  name : document.name = documentName
  identified : ∀ element ∈ document.children, ∃ id, element.attribute? "Id" = some id
  distinct : document.ids.Nodup
  elements : ∀ element ∈ document.children, element.WellFormed document.ids direction
  root : ∃ text, document.rootText? = some text ∧ Markup.WellFormedText document.ids text

end Element

/-! ## Results of several decoders -/

variable {α β : Type}

/-- All items are decoded, with a property, if each of them is. -/
theorem exists_mapM_eq_ok_iff {f : α → Except Error β} {P : β → Prop} {xs : List α} :
    (∃ ys, xs.mapM f = .ok ys ∧ ∀ y ∈ ys, P y) ↔ ∀ x ∈ xs, ∃ y, f x = .ok y ∧ P y := by
  induction xs with
  | nil => exact ⟨fun _ => nofun, fun _ => ⟨[], rfl, nofun⟩⟩
  | cons x xs ih =>
      rw [List.forall_mem_cons, ← ih]
      constructor
      · rintro ⟨results, hrun, hgood⟩
        obtain ⟨y, ys, hy, hys, rfl⟩ := mapM_cons_eq_ok_iff.1 hrun
        obtain ⟨hhead, htail⟩ := List.forall_mem_cons.1 hgood
        exact ⟨⟨y, hy, hhead⟩, ys, hys, htail⟩
      · rintro ⟨⟨y, hy, hhead⟩, ys, hys, htail⟩
        exact ⟨y :: ys, mapM_cons_eq_ok_iff.2 ⟨y, ys, hy, hys, rfl⟩,
          List.forall_mem_cons.2 ⟨hhead, htail⟩⟩

theorem forall₂_of_mapM {f : α → Except Error β} {xs : List α} {ys : List β}
    (h : xs.mapM f = .ok ys) : List.Forall₂ (fun x y => f x = .ok y) xs ys := by
  induction xs generalizing ys with
  | nil =>
      cases h
      exact .nil
  | cons x xs ih =>
      obtain ⟨y, rest, hy, hrest, rfl⟩ := mapM_cons_eq_ok_iff.1 h
      exact .cons hy (ih hrest)

/-! ## Fields and members -/

theorem Element.requiredAttribute_eq_ok_iff {element : Element} {key value : String} :
    element.requiredAttribute key = .ok value ↔ element.attribute? key = some value := by
  rw [requiredAttribute]
  cases element.attribute? key <;> simp

theorem ElementPart.ofElement_eq_ok_iff {element : Element} {part : ElementPart} :
    ofElement element = .ok part ↔ element.attribute? "Name" = some part.name.spelling ∧
      (∃ text, element.attribute? "Contract" = some text ∧
        Markup.read text = .ok part.markup) ∧
      part.required = requiredOf (element.attribute? "Required") := by
  obtain ⟨⟨spelling⟩, markup, required⟩ := part
  simp only [← Element.requiredAttribute_eq_ok_iff]
  rw [ofElement]
  constructor
  · intro h
    cases hname : element.requiredAttribute "Name" with
    | error error => rw [hname] at h; cases h
    | ok name =>
        cases htext : element.requiredAttribute "Contract" with
        | error error => rw [hname, htext] at h; cases h
        | ok text =>
            rw [hname, htext] at h
            cases hread : Markup.read text with
            | error error => simp only [bind, Except.bind, hread] at h; cases h
            | ok found =>
                simp only [bind, Except.bind, hread] at h
                cases h
                exact ⟨rfl, ⟨text, rfl, hread⟩, rfl⟩
  · rintro ⟨hname, ⟨text, htext, hread⟩, rfl⟩
    rw [hname, htext]
    simp only [bind, Except.bind, hread]
    rfl

theorem ElementPart.exists_requiredOf_iff {value? : Option String} :
    (∃ required, requiredOf value? = .ok required) ↔
      ∀ value, value? = some value → value = "true" ∨ value = "false" := by
  cases value? with
  | none => simp [requiredOf]
  | some value =>
      rw [requiredOf]
      split
      next htrue => simp [htrue]
      next htrue =>
        split
        next hfalse => simp [hfalse]
        next hfalse => simp [htrue, hfalse]

namespace DocumentSource

variable {source : DocumentSource} {form : ElementForm} {element : Element}

theorem exists_part_iff :
    (∃ input, source.part form element = .ok input ∧ input.target.WellFormed source.ids) ↔
      element.WellFormedPart source.ids form source.direction := by
  constructor
  · rintro ⟨input, hinput, hgood⟩
    obtain ⟨part, required, hpart, hflag, rfl⟩ := part_eq_ok_iff.1 hinput
    obtain ⟨hname, ⟨text, htext, hread⟩, hrequired⟩ := ElementPart.ofElement_eq_ok_iff.1 hpart
    refine ⟨⟨_, hname⟩, ⟨text, htext, part.markup, hread, hgood⟩, fun hform => ?_⟩
    rw [flag, if_pos hform, hrequired] at hflag
    exact ElementPart.exists_requiredOf_iff.1 ⟨required, hflag⟩
  · rintro ⟨⟨name, hname⟩, ⟨text, htext, markup, hread, hgood⟩, hrequired⟩
    have hpart : ElementPart.ofElement element =
        .ok ⟨⟨name⟩, markup, ElementPart.requiredOf (element.attribute? "Required")⟩ :=
      ElementPart.ofElement_eq_ok_iff.2 ⟨hname, ⟨text, htext, hread⟩, rfl⟩
    have hflag : ∃ required, source.flag form
        ⟨⟨name⟩, markup, ElementPart.requiredOf (element.attribute? "Required")⟩ =
          .ok required := by
      rw [flag]
      split
      next hform => exact ElementPart.exists_requiredOf_iff.2 (hrequired hform)
      next => exact ⟨true, rfl⟩
    obtain ⟨required, hflag⟩ := hflag
    exact ⟨_, part_eq_ok_iff.2 ⟨_, required, hpart, hflag, rfl⟩, hgood⟩

theorem name_of_part {input : Input Name (Markup String)}
    (h : source.part form element = .ok input) :
    (element.attribute? "Name").map Name.mk = some input.name := by
  obtain ⟨part, required, hpart, -, rfl⟩ := part_eq_ok_iff.1 h
  rw [(ElementPart.ofElement_eq_ok_iff.1 hpart).1]
  rfl

theorem map_name_of_parts {children : List Element} {parts : List (Input Name (Markup String))}
    (h : List.Forall₂ (fun child part => source.part form child = .ok part) children parts) :
    parts.map Input.name =
      children.filterMap fun part => (part.attribute? "Name").map Name.mk := by
  induction h with
  | nil => rfl
  | cons hpart _ ih => rw [List.map_cons, ih, List.filterMap_cons, name_of_part hpart]

end DocumentSource

/-! ## Elements -/

theorem Kind.ofName?_eq_some_iff {text : String} {kind : Kind} :
    Kind.ofName? text = some kind ↔ text = kind.name := by
  refine ⟨fun h => ?_, fun h => h ▸ ofName?_name kind⟩
  have hname := List.find?_some h
  exact (of_decide_eq_true hname).symm

namespace ElementContent

variable {direction : Direction} {element : Element}

theorem ofElement_eq_enumeration_iff :
    ofElement direction element = .ok .enumeration ↔ element.name = Kind.name .enumeration := by
  rw [← Kind.ofName?_eq_some_iff, ofElement]
  rcases Kind.ofName? element.name with - | kind
  · simp
  · cases kind <;> simp
    all_goals split <;> simp

theorem ofElement_eq_parts_iff {form : ElementForm} :
    ofElement direction element = .ok (.parts form) ↔
      element.name = (form.kind direction).name := by
  rw [← Kind.ofName?_eq_some_iff, ofElement]
  rcases Kind.ofName? element.name with - | kind
  · simp
  · cases form <;> cases kind <;> simp [ElementForm.kind]
    all_goals split <;> simp

end ElementContent

theorem ElementForm.names_node (form : ElementForm) (direction : Direction)
    (parts : List (Input Name α)) :
    (form.node direction parts).names = parts.map Input.name := by
  cases form <;> cases direction <;> simp [ElementForm.node, Node.names]

theorem Element.exists_memberNames_iff {members : List Element} :
    (∃ names, memberNames members = .ok names) ↔
      ∀ member ∈ members, ∃ name, member.attribute? "Name" = some name := by
  induction members with
  | nil => exact ⟨fun _ => nofun, fun _ => ⟨[], rfl⟩⟩
  | cons member members ih =>
      rw [List.forall_mem_cons, ← ih, memberNames]
      simp only [← requiredAttribute_eq_ok_iff]
      constructor
      · rintro ⟨names, hnames⟩
        cases hname : member.requiredAttribute "Name" with
        | error error => rw [hname] at hnames; cases hnames
        | ok name =>
            cases hrest : memberNames members with
            | error error => rw [hname, hrest] at hnames; cases hnames
            | ok rest => exact ⟨⟨name, rfl⟩, rest, rfl⟩
      · rintro ⟨⟨name, hname⟩, names, hnames⟩
        rw [hname, hnames]
        exact ⟨⟨name⟩ :: names, rfl⟩

namespace DocumentSource

variable {source : DocumentSource} {element : Element} {id : String}

/-- The layer of a well-formed element is well formed, and no other element has one. -/
theorem exists_elementLayer_iff :
    (∃ layer, source.elementLayer element = .ok layer ∧
      ∀ child ∈ layer.children, child.WellFormed source.ids) ↔
        element.WellFormed source.ids source.direction := by
  constructor
  · rintro ⟨layer, hlayer, hchildren⟩
    obtain ⟨content, hcontent⟩ := exists_content_of_elementLayer hlayer
    cases content with
    | enumeration =>
        have hname := ElementContent.ofElement_eq_enumeration_iff.1 hcontent
        rw [elementLayer_of_enumeration hcontent, Element.toEnumeration, if_pos hname] at hlayer
        refine .enumeration hname (Element.exists_memberNames_iff.1 ?_)
        cases hnames : Element.memberNames (element.childrenNamed "Member") with
        | ok names => exact ⟨names, rfl⟩
        | error error => rw [hnames] at hlayer; cases hlayer
    | parts form =>
        obtain ⟨parts, hparts, hassemble⟩ := exists_parts_of_elementLayer hcontent hlayer
        have harrange := ElementForm.assemble_eq_ok_iff.1 hassemble
        refine .parts form (ElementContent.ofElement_eq_parts_iff.1 hcontent) ?_ ?_
        · intro part hpart
          have hgood := exists_mapM_eq_ok_iff.1 ⟨parts, hparts, fun input hinput =>
            hchildren _ (Importing.mem_children_of_assemble hassemble hinput)⟩
          exact exists_part_iff.1 (hgood part hpart)
        · rw [Element.namesWithin, ← map_name_of_parts (forall₂_of_mapM hparts),
            ← form.names_node source.direction]
          exact Node.nodup_names_of_arrange harrange
  · rintro (⟨hname, hmembers⟩ | ⟨form, hname, hparts, hnames⟩)
    · obtain ⟨names, hnames⟩ := Element.exists_memberNames_iff.2 hmembers
      refine ⟨.enumeration (Name.setOf names), ?_, fun child hchild =>
        absurd hchild List.not_mem_nil⟩
      rw [elementLayer_of_enumeration (ElementContent.ofElement_eq_enumeration_iff.2 hname),
        Element.toEnumeration, if_pos hname, hnames]
      rfl
    · obtain ⟨parts, hparts, hgood⟩ := exists_mapM_eq_ok_iff.2 fun part hpart =>
        exists_part_iff.2 (hparts part hpart)
      rw [Element.namesWithin, ← map_name_of_parts (forall₂_of_mapM hparts),
        ← form.names_node source.direction] at hnames
      obtain ⟨layer, hlayer⟩ := Node.exists_arrange_of_nodup hnames
      refine ⟨layer, ?_, fun child hchild => ?_⟩
      · rw [elementLayer_of_parts (ElementContent.ofElement_eq_parts_iff.2 hname) hparts]
        exact ElementForm.assemble_eq_ok_iff.2 hlayer
      · rw [(Node.perm_children_of_arrange hlayer).mem_iff, ElementForm.children_node] at hchild
        obtain ⟨input, hinput, rfl⟩ := List.mem_map.1 hchild
        exact hgood input hinput

/-! ## Documents -/

/-- Where all elements are well formed, everything that refers to them can be read. -/
theorem closed_wellFormed (h : ∀ id ∈ source.ids, ∃ element, source.element? id = some element ∧
    element.WellFormed source.ids source.direction) :
    source.Closed (Markup.WellFormed source.ids) where
  layer := by
    rintro markup ⟨hknown, hsingle⟩
    cases markup with
    | ref id =>
        obtain ⟨element, helement, hgood⟩ := h id (hknown id List.mem_cons_self)
        obtain ⟨layer, hlayer, hchildren⟩ := exists_elementLayer_iff.2 hgood
        exact ⟨layer, layering_ref_eq_some helement hlayer, hchildren⟩
    | primitive | empty => exact ⟨_, rfl, nofun⟩
    | nullable inner => exact ⟨_, rfl, List.forall_mem_singleton.2 ⟨hknown, hsingle.2⟩⟩
    | list item => exact ⟨_, rfl, List.forall_mem_singleton.2 ⟨hknown, hsingle⟩⟩
    | dictionary key value =>
        refine ⟨_, rfl, List.forall_mem_cons.2 ⟨⟨fun id hid => ?_, hsingle.1⟩,
          List.forall_mem_singleton.2 ⟨fun id hid => ?_, hsingle.2⟩⟩⟩
        · exact hknown id (List.mem_append_left _ hid)
        · exact hknown id (List.mem_append_right _ hid)
  single := by
    rintro inner node ⟨hknown, hsingle⟩ hnode direction target rfl
    cases inner with
    | ref id =>
        obtain ⟨element, helement, hgood⟩ := h id (hknown id List.mem_cons_self)
        obtain ⟨layer, hlayer, -⟩ := exists_elementLayer_iff.2 hgood
        cases hnode.symm.trans (layering_ref_eq_some helement hlayer)
        cases isByReference_of_elementLayer hlayer
    | nullable below => exact hsingle.1 below rfl
    | primitive | empty | list | dictionary => cases hnode

theorem Readable.wellFormed {markup : Markup String} (h : source.Readable markup) :
    markup.WellFormed source.ids := by
  have hclosed := source.closed_readable
  induction markup with
  | ref id =>
      obtain ⟨element, -, helement, -⟩ := exists_element_of_readable h
      exact ⟨List.forall_mem_singleton.2 (mem_ids_of_element? helement), trivial⟩
  | primitive | empty => exact ⟨nofun, trivial⟩
  | nullable inner ih =>
      obtain ⟨hknown, hsingle⟩ := ih (hclosed.child h rfl List.mem_cons_self)
      refine ⟨hknown, ?_, hsingle⟩
      rintro below rfl
      exact hclosed.single h rfl source.direction below rfl
  | list item ih =>
      obtain ⟨hknown, hsingle⟩ := ih (hclosed.child h rfl List.mem_cons_self)
      exact ⟨hknown, hsingle⟩
  | dictionary key value ihkey ihvalue =>
      have hkey := ihkey (hclosed.child h rfl List.mem_cons_self)
      have hvalue := ihvalue (hclosed.child h rfl (List.mem_cons_of_mem _ List.mem_cons_self))
      refine ⟨fun id hid => ?_, hkey.single, hvalue.single⟩
      exact (List.mem_append.1 hid).elim (hkey.known id) (hvalue.known id)

/-- Everything in a document can be read exactly if its elements and its root are well formed. -/
theorem allReadable_iff : source.AllReadable ↔
    (∀ id ∈ source.ids, ∃ element, source.element? id = some element ∧
      element.WellFormed source.ids source.direction) ∧
        Markup.WellFormedText source.ids source.root := by
  constructor
  · rintro ⟨hids, markup, hread, hroot⟩
    refine ⟨fun id hid => ?_, markup, hread, hroot.wellFormed⟩
    obtain ⟨element, layer, helement, hlayer, hchildren⟩ :=
      exists_element_of_readable (hids id hid)
    exact ⟨element, helement, exists_elementLayer_iff.1 ⟨layer, hlayer, fun child hchild =>
      (hchildren child hchild).wellFormed⟩⟩
  · rintro ⟨helements, markup, hread, hroot⟩
    have hclosed := closed_wellFormed helements
    refine ⟨fun id hid => ⟨_, hclosed, ?_⟩, markup, hread, _, hclosed, hroot⟩
    exact ⟨List.forall_mem_singleton.2 hid, trivial⟩

/-- Elements are identified exactly if they all have ids that are different from each other and
from those found before. -/
theorem identify_eq_ok_iff {found elements : List (String × Element)} {children : List Element}
    (hfound : (found.map Prod.fst).Nodup) :
    identify found children = .ok elements ↔ ∃ entries, elements = found ++ entries ∧
      children = entries.map Prod.snd ∧
      (∀ entry ∈ entries, entry.2.attribute? "Id" = some entry.1) ∧
      ((found ++ entries).map Prod.fst).Nodup := by
  constructor
  · intro h
    induction children generalizing found with
    | nil =>
        cases h
        exact ⟨[], (List.append_nil _).symm, rfl, nofun, by rwa [List.append_nil]⟩
    | cons child children ih =>
        rw [identify] at h
        cases hid : child.requiredAttribute "Id" with
        | error error => rw [hid] at h; cases h
        | ok id =>
            rw [hid] at h
            simp only [bind, Except.bind] at h
            split at h
            · cases h
            next hfresh =>
              have hnodup : ((found ++ [(id, child)]).map Prod.fst).Nodup := by
                rw [List.map_append, List.nodup_append]
                refine ⟨hfound, List.nodup_singleton _, ?_⟩
                rintro other hother _ hlast rfl
                obtain ⟨entry, hentry, rfl⟩ := List.mem_map.1 hother
                cases List.mem_singleton.1 hlast
                exact hfresh (List.any_eq_true.2 ⟨entry, hentry, decide_eq_true rfl⟩)
              obtain ⟨entries, rfl, rfl, hentries, hnodup⟩ := ih hnodup h
              refine ⟨(id, child) :: entries, List.append_assoc _ _ _, rfl, ?_, ?_⟩
              · exact List.forall_mem_cons.2 ⟨Element.requiredAttribute_eq_ok_iff.1 hid, hentries⟩
              · rwa [List.append_assoc] at hnodup
  · rintro ⟨entries, rfl, rfl, hentries, hnodup⟩
    exact identify_eq_ok (fun entry hentry =>
      Element.requiredAttribute_eq_ok_iff.2 (hentries entry hentry)) hnodup

theorem identify_nil_eq_ok_iff {elements : List (String × Element)} {children : List Element} :
    identify [] children = .ok elements ↔ children = elements.map Prod.snd ∧
      (∀ entry ∈ elements, entry.2.attribute? "Id" = some entry.1) ∧
      (elements.map Prod.fst).Nodup := by
  have hnone : (([] : List (String × Element)).map Prod.fst).Nodup := List.nodup_nil
  rw [identify_eq_ok_iff hnone]
  constructor
  · rintro ⟨entries, rfl, hentries⟩
    exact hentries
  · exact fun hentries => ⟨elements, rfl, hentries⟩

/-- The ids that a document says its elements have are those under which they are. -/
theorem filterMap_children {entries : List (String × Element)}
    (hid : ∀ entry ∈ entries, entry.2.attribute? "Id" = some entry.1) :
    (entries.map Prod.snd).filterMap (·.attribute? "Id") = entries.map Prod.fst := by
  rw [List.filterMap_map, ← List.filterMap_eq_map]
  exact List.filterMap_congr hid

theorem rootText?_eq {document : Element} {entries : List (String × Element)}
    (hchildren : document.children = entries.map Prod.snd)
    (hid : ∀ entry ∈ entries, entry.2.attribute? "Id" = some entry.1) :
    document.rootText? = match document.attribute? "Root", entries.getLast? with
      | some root, _ => some root
      | none, some last => some ("#" ++ last.1)
      | none, none => none := by
  rw [Element.rootText?, hchildren, List.getLast?_map]
  cases document.attribute? "Root" with
  | some root => rfl
  | none =>
      cases hlast : entries.getLast? with
      | none => rfl
      | some last =>
          change (last.2.attribute? "Id").map _ = _
          rw [hid last (List.mem_of_getLast? hlast)]
          rfl

/-- What a document is taken apart into. -/
theorem ofDocument_eq_ok_iff {direction : Direction} {document : Element} :
    ofDocument direction document = .ok source ↔ document.name = documentName ∧
      source.direction = direction ∧ document.children = source.elements.map Prod.snd ∧
      (∀ entry ∈ source.elements, entry.2.attribute? "Id" = some entry.1) ∧ source.ids.Nodup ∧
      document.rootText? = some source.root := by
  unfold ofDocument
  by_cases hname : document.name = documentName
  · rw [if_neg (not_not.2 hname)]
    constructor
    · intro h
      cases hfound : identify [] document.children with
      | error error => rw [hfound] at h; cases h
      | ok found =>
          obtain ⟨hchildren, hid, hnodup⟩ := identify_nil_eq_ok_iff.1 hfound
          have hroot := rootText?_eq hchildren hid
          rw [hfound] at h
          simp only [bind, Except.bind] at h
          split at h <;> cases h
          all_goals exact ⟨hname, rfl, hchildren, hid, hnodup, by simp only [*]⟩
    · obtain ⟨direction, entries, root⟩ := source
      rintro ⟨-, rfl, hchildren, hid, hnodup, hroot⟩
      rw [rootText?_eq hchildren hid] at hroot
      rw [identify_nil_eq_ok_iff.2 ⟨hchildren, hid, hnodup⟩]
      simp only [bind, Except.bind]
      split at hroot <;> cases hroot
      all_goals
        simp only [*]
        rfl
  · rw [if_pos hname]
    constructor
    · intro h
      cases h
    · exact fun h => absurd h.1 hname

/-- The elements of a list under their ids, if they have any. -/
theorem exists_entries_of_identified {children : List Element}
    (h : ∀ element ∈ children, ∃ id, element.attribute? "Id" = some id) :
    ∃ entries : List (String × Element), children = entries.map Prod.snd ∧
      ∀ entry ∈ entries, entry.2.attribute? "Id" = some entry.1 := by
  induction children with
  | nil => exact ⟨[], rfl, nofun⟩
  | cons element children ih =>
      obtain ⟨⟨id, hid⟩, h⟩ := List.forall_mem_cons.1 h
      obtain ⟨entries, rfl, hentries⟩ := ih h
      exact ⟨(id, element) :: entries, rfl, List.forall_mem_cons.2 ⟨hid, hentries⟩⟩

/-- The well-formed documents are those that can be taken apart into elements that can be read,
with a root that can be read. -/
theorem exists_allReadable_iff {direction : Direction} {document : Element} :
    (∃ source, ofDocument direction document = .ok source ∧ source.AllReadable) ↔
      document.WellFormedDocument direction := by
  constructor
  · rintro ⟨source, hsource, hreadable⟩
    obtain ⟨hname, rfl, hchildren, hid, hnodup, hroot⟩ := ofDocument_eq_ok_iff.1 hsource
    obtain ⟨helements, hgood⟩ := allReadable_iff.1 hreadable
    have hids : document.ids = source.ids := by
      rw [Element.ids, hchildren, filterMap_children hid]
      rfl
    refine ⟨hname, fun element helement => ?_, hids ▸ hnodup, fun element helement => ?_,
      source.root, hroot, hids ▸ hgood⟩
    all_goals
      rw [hchildren] at helement
      obtain ⟨entry, hentry, rfl⟩ := List.mem_map.1 helement
    · exact ⟨entry.1, hid entry hentry⟩
    · obtain ⟨element, hfind, hwell⟩ := helements entry.1 (List.mem_map_of_mem hentry)
      cases (source.element?_of_mem hnodup hentry).symm.trans hfind
      exact hids ▸ hwell
  · rintro ⟨hname, hidentified, hnodup, helements, root, hroot, hgood⟩
    obtain ⟨entries, hchildren, hid⟩ := exists_entries_of_identified hidentified
    let source : DocumentSource := ⟨direction, entries, root⟩
    have hids : document.ids = source.ids := by
      rw [Element.ids, hchildren, filterMap_children hid]
      rfl
    rw [hids] at hnodup helements hgood
    refine ⟨source, ofDocument_eq_ok_iff.2 ⟨hname, rfl, hchildren, hid, hnodup, hroot⟩,
      allReadable_iff.2 ⟨fun id hmem => ?_, hgood⟩⟩
    obtain ⟨entry, hentry, rfl⟩ := List.mem_map.1 hmem
    exact ⟨entry.2, source.element?_of_mem hnodup hentry,
      helements entry.2 (hchildren ▸ List.mem_map_of_mem hentry)⟩

end DocumentSource

end WireSchema

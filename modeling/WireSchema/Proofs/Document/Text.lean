/-
# Documents are read back from their text

An element whose attributes are in the order of their keys, and within which nothing is
nested too deeply, is read back from its text in either layout.  The elements of exported
documents are like this.
-/

import Mathlib.Data.String.Basic
import WireSchema.Proofs.Document.Export
import WireSchema.Proofs.Document.Json

namespace WireSchema

namespace Element

/-- The attributes of the element, and of all within it, are in the order of their keys. -/
inductive Keyed : Element → Prop
  | intro {name : String} {attributes : List (String × String)} {children : List Element} :
      attributes.Pairwise (fun entry entry' => entry.1 < entry'.1) →
        (∀ child ∈ children, Keyed child) → Keyed ⟨name, attributes, children⟩

/-! ## Reading the parts -/

/-- A key that is greater than all others gets its place behind them. -/
theorem setIn_eq_append {found : List (String × String)} {key : String} (value : String)
    (h : ∀ entry ∈ found, entry.1 < key) : setIn key value found = found ++ [(key, value)] := by
  induction found with
  | nil => rfl
  | cons entry found ih =>
      obtain ⟨hentry, hfound⟩ := List.forall_mem_cons.1 h
      rw [setIn, if_pos hentry, ih hfound, List.cons_append]

theorem attributesOfMembers_eq_some {found attributes : List (String × String)}
    (h : (found ++ attributes).Pairwise fun entry entry' => entry.1 < entry'.1) :
    attributesOfMembers found (attributes.map fun (key, value) => (key, .string value)) =
      some (found ++ attributes) := by
  induction attributes generalizing found with
  | nil => rw [List.append_nil]; rfl
  | cons entry attributes ih =>
      have hlast : ∀ other ∈ found, other.1 < entry.1 := fun other hother =>
        (List.pairwise_append.1 h).2.2 other hother entry List.mem_cons_self
      rw [List.append_cons] at h ⊢
      rw [← ih h, ← setIn_eq_append entry.2 hlast]
      rfl

theorem attributesOfJson_attributesJson {attributes : List (String × String)}
    (h : attributes.Pairwise fun entry entry' => entry.1 < entry'.1) :
    attributesOfJson (attributesJson attributes) = some attributes :=
  attributesOfMembers_eq_some h

/-- What the parts of an object say, of which those that are empty are left out. -/
theorem draftOf_parts {name : String} {attributes : List (String × String)}
    {children : List Element} {items : Json}
    (hattributes : attributesOfJson (attributesJson attributes) = some attributes)
    (hchildren : childrenOf items = some children) :
    (draftOf (("name", .string name) ::
      (optionalMember "attributes" attributes.isEmpty (attributesJson attributes) ++
        optionalMember "children" children.isEmpty items))).bind Draft.finish =
      some ⟨name, attributes, children⟩ := by
  cases attributes <;> cases children <;>
    simp [optionalMember, draftOf, Draft.blank, Draft.finish, Json.text?, hattributes, hchildren]

mutual

/-- The object of an element stands for the element. -/
theorem ofJson_toJson (element : Element) (h : element.Keyed) :
    ofJson element.toJson = some element := by
  match element, h with
  | ⟨name, attributes, children⟩, .intro hattributes hchildren =>
    rw [toJson_eq, ofJson]
    exact draftOf_parts (attributesOfJson_attributesJson hattributes)
      (listOfJson_listToJson children hchildren)

theorem listOfJson_listToJson (elements : List Element)
    (h : ∀ element ∈ elements, element.Keyed) :
    listOfJson (listToJson elements) = some elements := by
  match elements, h with
  | [], _ => rfl
  | element :: elements, h =>
    obtain ⟨helement, helements⟩ := List.forall_mem_cons.1 h
    rw [listToJson, listOfJson, ofJson_toJson element helement,
      listOfJson_listToJson elements helements]
    rfl

end

/-! ## Reading the text -/

/-- A keyed element is read back from its text where there is room for its depth. -/
theorem readWithin_render_of_keyed {element : Element} {room : Nat} (format : Format)
    (hkeyed : element.Keyed) (hroom : element.depth ≤ room) :
    readWithin room (element.render format) = .ok element := by
  obtain ⟨layout, hlayout, hrender⟩ := readable_layout format
  have hparse := Json.parseLoose_render hlayout ((element.fits_toJson_iff room).2 hroom)
  rw [readWithin, hrender, hparse]
  simp only [Option.bind_some, ofJson_toJson element hkeyed]

/-! ## Exported elements -/

theorem mem_setIn {key value : String} {attributes : List (String × String)}
    {entry : String × String} (h : entry ∈ setIn key value attributes) :
    entry = (key, value) ∨ entry ∈ attributes := by
  induction attributes with
  | nil => exact .inl (List.mem_singleton.1 h)
  | cons other attributes ih =>
      rw [setIn] at h
      split at h
      · rcases List.mem_cons.1 h with rfl | h
        · exact .inr List.mem_cons_self
        · exact (ih h).imp_right (List.mem_cons_of_mem _)
      · split at h
        · exact (List.mem_cons.1 h).imp_right (List.mem_cons_of_mem _)
        · exact List.mem_cons.1 h

/-- Setting an attribute keeps the order of keys. -/
theorem pairwise_setIn (key value : String) {attributes : List (String × String)}
    (h : attributes.Pairwise fun entry entry' => entry.1 < entry'.1) :
    (setIn key value attributes).Pairwise fun entry entry' => entry.1 < entry'.1 := by
  induction attributes with
  | nil => exact List.pairwise_singleton _ _
  | cons entry attributes ih =>
      obtain ⟨hentry, hattributes⟩ := List.pairwise_cons.1 h
      rw [setIn]
      split
      next hlt =>
        refine List.pairwise_cons.2 ⟨fun other hother => ?_, ih hattributes⟩
        rcases mem_setIn hother with rfl | hother
        · exact hlt
        · exact hentry other hother
      next hnot =>
        split
        next heq => exact List.pairwise_cons.2 ⟨heq ▸ hentry, hattributes⟩
        next hne =>
          have hlt : key < entry.1 := lt_of_le_of_ne (not_lt.1 hnot) (Ne.symm hne)
          refine List.pairwise_cons.2 ⟨fun other hother => ?_, h⟩
          rcases List.mem_cons.1 hother with rfl | hother
          · exact hlt
          · exact hlt.trans (hentry other hother)

theorem Keyed.new (name : String) : (Element.new name).Keyed :=
  .intro .nil nofun

theorem Keyed.withAttribute {element : Element} (h : element.Keyed) (key value : String) :
    (element.withAttribute key value).Keyed := by
  cases h with
  | intro hattributes hchildren => exact .intro (pairwise_setIn key value hattributes) hchildren

/-- An element needs no more room than two levels above its children. -/
theorem depth_le_of_children {element : Element} {room : Nat}
    (h : ∀ child ∈ element.children, child.depth ≤ room) : element.depth ≤ room + 2 := by
  obtain ⟨name, attributes, children⟩ := element
  have hchildren : depthOfAll children ≤ room := by
    induction children with
    | nil => exact Nat.zero_le _
    | cons child children ih =>
        obtain ⟨hchild, hchildren⟩ := List.forall_mem_cons.1 h
        exact Nat.max_le.2 ⟨hchild, ih hchildren⟩
  rw [depth]
  split <;> split <;> omega

theorem Keyed.withChildren {element : Element} (h : element.Keyed) {children : List Element}
    (hchildren : ∀ child ∈ children, child.Keyed) : { element with children }.Keyed := by
  cases h with
  | intro hattributes _ => exact .intro hattributes hchildren

end Element

/-- The elements within the element of a node have nothing within them. -/
theorem Node.keyed_of_mem_encodeParts {layer : Node Name (Markup String)} {child : Element}
    (h : child ∈ layer.encodeParts) : child.Keyed ∧ child.children = [] := by
  have hmember : ∀ label name markup, (Element.ofMember label name markup).Keyed :=
    fun label _ _ => ((Element.Keyed.new label).withAttribute _ _).withAttribute _ _
  cases layer with
  | primitive | empty | nullable | list | dictionary => cases h
  | enumeration members =>
      obtain ⟨name, -, rfl⟩ := List.mem_map.1 h
      exact ⟨(Element.Keyed.new "Member").withAttribute _ _, rfl⟩
  | recordWrite fields =>
      obtain ⟨field, -, rfl⟩ := List.mem_map.1 h
      exact ⟨hmember _ _ _, rfl⟩
  | recordRead inputs =>
      obtain ⟨input, -, rfl⟩ := List.mem_map.1 h
      exact ⟨(hmember _ _ _).withAttribute _ _, rfl⟩
  | union direction members =>
      obtain ⟨member, -, rfl⟩ := List.mem_map.1 h
      exact ⟨hmember _ _ _, rfl⟩

namespace Store

variable {store : Store} {order : List Handle} {entries : List (String × Element)}

/-- The element of a node is keyed and shallow. -/
theorem IsEntry.keyed {handle : Handle} {entry : String × Element}
    (h : store.IsEntry handle entry) : entry.2.Keyed ∧ entry.2.depth ≤ 4 := by
  obtain ⟨-, node, layer, -, -, -, helement⟩ := h
  rw [helement]
  have hparts : ∀ child ∈ layer.encodeParts, child.Keyed ∧ child.children = [] :=
    fun _ => Node.keyed_of_mem_encodeParts
  refine ⟨((Element.Keyed.new _).withAttribute _ _).withChildren fun child hchild =>
    (hparts child hchild).1, Element.depth_le_of_children fun child hchild => ?_⟩
  exact Element.depth_le_of_children fun below hbelow =>
    absurd ((hparts child hchild).2 ▸ hbelow) List.not_mem_nil

/-- A document of entries is read back from its text. -/
theorem read_render_of_isEntry (format : Element.Format) {frame : Element} (hframe : frame.Keyed)
    (hentries : List.Forall₂ store.IsEntry order entries) :
    Element.read (Element.render format { frame with children := entries.map Prod.snd }) =
      .ok { frame with children := entries.map Prod.snd } := by
  have hkeyed : ∀ child ∈ entries.map Prod.snd, child.Keyed ∧ child.depth ≤ 4 := by
    intro child hchild
    obtain ⟨entry, hentry, rfl⟩ := List.mem_map.1 hchild
    obtain ⟨handle, -, hisEntry⟩ := Node.exists_left_of_forall₂ hentries hentry
    exact hisEntry.keyed
  refine Element.readWithin_render_of_keyed format
    (hframe.withChildren fun child hchild => (hkeyed child hchild).1)
    (Nat.le_trans ?_ (by decide : 4 + 2 ≤ Json.standardRoom))
  exact Element.depth_le_of_children fun child hchild => (hkeyed child hchild).2

end Store

end WireSchema

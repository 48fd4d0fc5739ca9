/-
# Elements are told apart by their text

The JSON of an element has all that the element has, and no numbers, so elements with the
same text are the same.  The compact text of an element is one line.
-/

import WireSchema.Element
import WireSchema.Proofs.Json.Reader

namespace WireSchema.Element

variable {key : String} {p q : Bool} {value value' : Json}

/-! ## The parts of the object -/

/-- A member that is left out if a part is empty. -/
def optionalMember (key : String) (absent : Bool) (value : Json) : List (String × Json) :=
  if absent then [] else [(key, value)]

theorem filter_optionalMember_self :
    (optionalMember key p value).filter (fun member => member.1 = key) =
      optionalMember key p value := by
  cases p <;> simp [optionalMember]

theorem filter_optionalMember_of_ne {other : String} (h : key ≠ other) :
    (optionalMember key p value).filter (fun member => member.1 = other) = [] := by
  cases p <;> simp [optionalMember, h]

theorem eq_of_optionalMember_eq (h : optionalMember key p value = optionalMember key q value') :
    p = q ∧ (p = false → value = value') := by
  cases p <;> cases q <;> simp_all [optionalMember]

theorem toJson_eq (name : String) (attributes : List (String × String))
    (children : List Element) : toJson ⟨name, attributes, children⟩ =
      .object (("name", .string name) ::
        (optionalMember "attributes" attributes.isEmpty (attributesJson attributes) ++
          optionalMember "children" children.isEmpty (.array (listToJson children)))) := by
  rw [toJson]
  rfl

/-! ## Different elements have different objects -/

theorem attributesJson_injective : Function.Injective attributesJson := by
  intro attributes attributes' h
  refine (List.map_inj_right fun entry entry' heq => ?_).1 (Json.object.inj h)
  obtain ⟨hkey, hvalue⟩ := Prod.mk.inj heq
  exact Prod.ext hkey (Json.string.inj hvalue)

/-- Lists that are empty together are the same if they are the same where they are not. -/
theorem eq_of_isEmpty_eq {α : Type} {items items' : List α} (h : items.isEmpty = items'.isEmpty)
    (hsame : items.isEmpty = false → items = items') : items = items' := by
  cases items with
  | nil => exact (List.isEmpty_iff.1 h.symm).symm
  | cons item items => exact hsame rfl

mutual

theorem eq_of_toJson_eq (element element' : Element) (h : element.toJson = element'.toJson) :
    element = element' := by
  match element, element' with
  | ⟨name, attributes, children⟩, ⟨name', attributes', children'⟩ =>
    rw [toJson_eq, toJson_eq] at h
    obtain ⟨hname, hparts⟩ := List.cons.inj (Json.object.inj h)
    have hpart : ∀ key, _ := fun key =>
      congrArg (List.filter fun member : String × Json => member.1 = key) hparts
    have hattributes := hpart "attributes"
    have hchildren := hpart "children"
    rw [List.filter_append, List.filter_append, filter_optionalMember_self,
      filter_optionalMember_self, filter_optionalMember_of_ne (by decide),
      filter_optionalMember_of_ne (by decide), List.append_nil, List.append_nil] at hattributes
    rw [List.filter_append, List.filter_append, filter_optionalMember_self,
      filter_optionalMember_self, filter_optionalMember_of_ne (by decide),
      filter_optionalMember_of_ne (by decide), List.nil_append, List.nil_append] at hchildren
    obtain ⟨hempty, hattributes⟩ := eq_of_optionalMember_eq hattributes
    obtain ⟨hempty', hchildren⟩ := eq_of_optionalMember_eq hchildren
    obtain rfl := eq_of_isEmpty_eq hempty fun h => attributesJson_injective (hattributes h)
    obtain rfl := eq_of_isEmpty_eq hempty' fun h =>
      eq_of_listToJson_eq children children' (Json.array.inj (hchildren h))
    rw [Json.string.inj (Prod.mk.inj hname).2]

theorem eq_of_listToJson_eq (elements elements' : List Element)
    (h : listToJson elements = listToJson elements') : elements = elements' := by
  match elements, elements' with
  | [], [] => rfl
  | [], _ :: _ | _ :: _, [] => cases h
  | element :: elements, element' :: elements' =>
    obtain ⟨hfirst, hrest⟩ := List.cons.inj h
    rw [eq_of_toJson_eq element element' hfirst, eq_of_listToJson_eq elements elements' hrest]

end

/-! ## The room of an element -/

mutual

/-- How many arrays and objects stand within each other in the object of an element. -/
def depth : Element → Nat
  | ⟨_, attributes, children⟩ =>
    max (if attributes.isEmpty then 0 else 1)
      (if children.isEmpty then 0 else depthOfAll children + 1) + 1

/-- The greatest depth of any of the elements. -/
def depthOfAll : List Element → Nat
  | [] => 0
  | element :: elements => max element.depth (depthOfAll elements)

end

theorem membersFit_append_iff {room : Nat} {members members' : List (String × Json)} :
    Json.membersFit room (members ++ members') = true ↔
      Json.membersFit room members = true ∧ Json.membersFit room members' = true := by
  induction members with
  | nil => simp [Json.membersFit]
  | cons member members ih =>
      rw [List.cons_append, Json.membersFit_cons_iff, Json.membersFit_cons_iff, ih, and_assoc]

theorem membersFit_optionalMember_iff {room : Nat} :
    Json.membersFit room (optionalMember key p value) = true ↔
      p = false → value.fits room = true := by
  cases p <;> simp [optionalMember, Json.membersFit]

theorem fits_attributesJson_iff {room : Nat} {attributes : List (String × String)} :
    (attributesJson attributes).fits room = true ↔ 0 < room := by
  refine Json.fits_object_iff.trans (and_iff_left_of_imp fun _ => ?_)
  induction attributes with
  | nil => rfl
  | cons entry attributes ih => exact Json.membersFit_cons_iff.2 ⟨rfl, ih⟩

mutual

/-- The object of an element fits exactly where there is room for the depth of the element. -/
theorem fits_toJson_iff (room : Nat) (element : Element) :
    element.toJson.fits room = true ↔ element.depth ≤ room := by
  match element with
  | ⟨name, attributes, children⟩ =>
    have hchildren := allFit_listToJson_iff (room - 1 - 1) children
    simp only [toJson_eq, Json.fits_object_iff, Json.fits_array_iff, Json.membersFit_cons_iff,
      membersFit_append_iff, membersFit_optionalMember_iff, fits_attributesJson_iff,
      Json.fits_string, hchildren, depth, true_and]
    cases attributes.isEmpty <;> cases children.isEmpty <;> simp <;> omega

theorem allFit_listToJson_iff (room : Nat) (elements : List Element) :
    Json.allFit room (listToJson elements) = true ↔ depthOfAll elements ≤ room := by
  match elements with
  | [] => simp [listToJson, Json.allFit, depthOfAll]
  | element :: elements =>
    rw [listToJson, Json.allFit_cons_iff, fits_toJson_iff room element,
      allFit_listToJson_iff room elements, depthOfAll, Nat.max_le]

end

/-! ## Different elements have different texts -/

theorem readable_layout (format : Format) : ∃ layout : Json.Layout, layout.Readable ∧
    ∀ element : Element, element.render format = element.toJson.render layout := by
  cases format with
  | pretty => exact ⟨.pretty, Json.readable_pretty, fun _ => rfl⟩
  | compact => exact ⟨.compact, Json.readable_compact, fun _ => rfl⟩

/-- Elements with the same text are the same. -/
theorem render_injective (format : Format) : Function.Injective (render format) := by
  intro element element' h
  obtain ⟨layout, hlayout, hrender⟩ := readable_layout format
  rw [hrender, hrender] at h
  have hfits := (element.fits_toJson_iff (max element.depth element'.depth)).2 (Nat.le_max_left ..)
  have hfits' := (element'.fits_toJson_iff (max element.depth element'.depth)).2
    (Nat.le_max_right ..)
  exact eq_of_toJson_eq element element' (Json.eq_of_render_eq hlayout hfits hfits' h)

theorem inline_render (element : Element) : Json.Inline (element.render .compact).toList := by
  rw [render, Json.compact, Json.render, String.toList_ofList]
  exact Json.inline_chars 0 element.toJson ((element.fits_toJson_iff _).2 (Nat.le_refl _))

end WireSchema.Element

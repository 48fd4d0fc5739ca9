/-
# Type definitions are read back from their text

The object of a type definition has every key that its kind asks for, once and in the form that
is asked for, down to the types of fields and members.  So a definition is read back from its
text, flags included, wherever there is room for its depth, and different definitions have
different texts.
-/

import WireSchema.Proofs.Json.Reader
import WireSchema.TypeDef.Document

namespace WireSchema

/-- A key that comes first and not again is there once. -/
theorem Occurrence.of_cons_self {υ : Type} {key : String} {members : List (String × υ)} (value : υ)
    (h : ∀ member ∈ members, member.1 ≠ key) : of key ((key, value) :: members) = once value := by
  rw [of, List.filter_cons_of_pos (by simp),
    List.filter_eq_nil_iff.2 fun member hmember => by simpa using h member hmember]

namespace TypeDef

/-! ## The object stands for the definition -/

theorem memberReadings_eq (members : List (String × Json)) :
    memberReadings members = members.map fun member => (member.1, readingOf member.2) := by
  induction members with
  | nil => rfl
  | cons member members ih => rw [memberReadings, ih, List.map_cons]

@[simp]
theorem text?_readingOf_string (text : String) : (readingOf (.string text)).text? = some text :=
  rfl

@[simp]
theorem flag?_readingOf_bool (flag : Bool) : (readingOf (.bool flag)).flag? = some flag :=
  rfl

/-- What an object stands for depends on the kind that it names first. -/
theorem type?_readingOf_object (kind : String) {members : List (String × Json)}
    (h : ∀ member ∈ members, member.1 ≠ "kind") :
    (readingOf (.object (("kind", .string kind) :: members))).type? =
      typeOfKind (memberReadings (("kind", .string kind) :: members)) kind := by
  rw [readingOf]
  change typeIn _ = _
  rw [typeIn, memberReadings, Occurrence.of_cons_self]
  · rfl
  · rw [memberReadings_eq]
    exact List.forall_mem_map.2 h

/-- The texts of an array of strings are read from it. -/
theorem texts?_readingOf_ofTexts (texts : List String) :
    (readingOf (.ofTexts texts)).texts? = some texts := by
  change (readingsOf (texts.map .string)).mapM Reading.text? = some texts
  induction texts with
  | nil => rfl
  | cons text texts ih =>
      rw [List.map_cons, readingsOf, List.mapM_cons, ih]
      rfl

mutual

/-- The object of a definition is read as the definition. -/
theorem type?_readingOf_toJson (type : TypeDef) : (readingOf type.toJson).type? = some type := by
  match type with
  | primitive p =>
    rw [toJson, type?_readingOf_object "primitive" (by simp)]
    simp [typeOfKind, memberReadings, Occurrence.of, Occurrence.required, Primitive.ofName?_name]
  | unit => rfl
  | enumeration name members =>
    have hmembers := texts?_readingOf_ofTexts members
    rw [toJson, type?_readingOf_object "enum" (by simp)]
    simp [typeOfKind, nameIn, memberReadings, Occurrence.of, Occurrence.required, hmembers]
  | nullable inner =>
    have hinner := type?_readingOf_toJson inner
    rw [toJson, type?_readingOf_object "nullable" (by simp)]
    simp [typeOfKind, memberReadings, Occurrence.of, Occurrence.required, hinner]
  | list item =>
    have hitem := type?_readingOf_toJson item
    rw [toJson, type?_readingOf_object "list" (by simp)]
    simp [typeOfKind, memberReadings, Occurrence.of, Occurrence.required, hitem]
  | dictionary key value =>
    have hkey := type?_readingOf_toJson key
    have hvalue := type?_readingOf_toJson value
    rw [toJson, type?_readingOf_object "dictionary" (by simp)]
    simp [typeOfKind, memberReadings, Occurrence.of, Occurrence.required, hkey, hvalue]
  | record name fields =>
    have hfields : (readingOf (.array (fieldsToJson fields))).fields? = some fields :=
      mapM_field?_readingsOf fields
    rw [toJson, type?_readingOf_object "record" (by simp)]
    simp [typeOfKind, nameIn, memberReadings, Occurrence.of, Occurrence.required, hfields]
  | union name members =>
    have hmembers : (readingOf (.array (membersToJson members))).members? = some members :=
      mapM_member?_readingsOf members
    rw [toJson, type?_readingOf_object "union" (by simp)]
    simp [typeOfKind, nameIn, memberReadings, Occurrence.of, Occurrence.required, hmembers]
  | named name => rfl
  | foreign name => rfl

/-- The objects of fields are read as the fields. -/
theorem mapM_field?_readingsOf (fields : List (FieldDef TypeDef)) :
    (readingsOf (fieldsToJson fields)).mapM Reading.field? = some fields := by
  match fields with
  | [] => rfl
  | ⟨name, type, hasDefault⟩ :: fields =>
    have htype := type?_readingOf_toJson type
    have hfield : (readingOf (.object [("name", .string name), ("ty", type.toJson),
        ("has_default", .bool hasDefault)])).field? = some ⟨name, type, hasDefault⟩ := by
      rw [readingOf]
      simp [fieldIn, nameIn, memberReadings, Occurrence.of, Occurrence.required,
        Occurrence.withDefault, htype]
    rw [fieldsToJson, readingsOf, List.mapM_cons, hfield, mapM_field?_readingsOf fields]
    rfl

/-- The objects of members are read as the members. -/
theorem mapM_member?_readingsOf (members : List (MemberDef TypeDef)) :
    (readingsOf (membersToJson members)).mapM Reading.member? = some members := by
  match members with
  | [] => rfl
  | ⟨name, type⟩ :: members =>
    have htype := type?_readingOf_toJson type
    have hmember : (readingOf (.object [("name", .string name), ("ty", type.toJson)])).member? =
        some ⟨name, type⟩ := by
      rw [readingOf]
      simp [memberIn, nameIn, memberReadings, Occurrence.of, Occurrence.required, htype]
    rw [membersToJson, readingsOf, List.mapM_cons, hmember, mapM_member?_readingsOf members]
    rfl

end

/-! ## The room of a definition -/

mutual

/-- How many arrays and objects stand within each other in the object of a definition. -/
def depth : TypeDef → Nat
  | primitive _ | unit | named _ | foreign _ => 1
  | enumeration .. => 2
  | nullable inner => inner.depth + 1
  | list item => item.depth + 1
  | dictionary key value => max key.depth value.depth + 1
  | record _ fields => depthOfFields fields + 2
  | union _ members => depthOfMembers members + 2

/-- The greatest depth of any object of a field. -/
def depthOfFields : List (FieldDef TypeDef) → Nat
  | [] => 0
  | ⟨_, type, _⟩ :: fields => max (type.depth + 1) (depthOfFields fields)

/-- The greatest depth of any object of a member. -/
def depthOfMembers : List (MemberDef TypeDef) → Nat
  | [] => 0
  | ⟨_, type⟩ :: members => max (type.depth + 1) (depthOfMembers members)

end

theorem fits_ofTexts_iff {room : Nat} (texts : List String) :
    (Json.ofTexts texts).fits room = true ↔ 0 < room := by
  refine Json.fits_array_iff.trans (and_iff_left_of_imp fun _ => ?_)
  induction texts with
  | nil => rfl
  | cons text texts ih => exact Json.allFit_cons_iff.2 ⟨rfl, ih⟩

mutual

/-- The object of a definition fits exactly where there is room for the depth of the definition. -/
theorem fits_toJson_iff (room : Nat) (type : TypeDef) :
    type.toJson.fits room = true ↔ type.depth ≤ room := by
  match type with
  | primitive _ | unit | named _ | foreign _ =>
    simp only [toJson, depth, Json.fits_object_iff, Json.membersFit_cons_iff, Json.fits_string,
      Json.membersFit_nil, and_true, Nat.lt_iff_add_one_le, Nat.zero_add]
  | enumeration name members =>
    simp only [toJson, depth, Json.fits_object_iff, Json.membersFit_cons_iff, Json.fits_string,
      Json.membersFit_nil, fits_ofTexts_iff, true_and, and_true]
    omega
  | nullable inner =>
    have hinner := fits_toJson_iff (room - 1) inner
    simp only [toJson, depth, Json.fits_object_iff, Json.membersFit_cons_iff, Json.fits_string,
      Json.membersFit_nil, hinner, true_and, and_true]
    omega
  | list item =>
    have hitem := fits_toJson_iff (room - 1) item
    simp only [toJson, depth, Json.fits_object_iff, Json.membersFit_cons_iff, Json.fits_string,
      Json.membersFit_nil, hitem, true_and, and_true]
    omega
  | dictionary key value =>
    have hkey := fits_toJson_iff (room - 1) key
    have hvalue := fits_toJson_iff (room - 1) value
    simp only [toJson, depth, Json.fits_object_iff, Json.membersFit_cons_iff, Json.fits_string,
      Json.membersFit_nil, hkey, hvalue, true_and, and_true]
    omega
  | record name fields =>
    have hfields := allFit_fieldsToJson_iff (room - 1 - 1) fields
    simp only [toJson, depth, Json.fits_object_iff, Json.fits_array_iff, Json.membersFit_cons_iff,
      Json.fits_string, Json.membersFit_nil, hfields, true_and, and_true]
    omega
  | union name members =>
    have hmembers := allFit_membersToJson_iff (room - 1 - 1) members
    simp only [toJson, depth, Json.fits_object_iff, Json.fits_array_iff, Json.membersFit_cons_iff,
      Json.fits_string, Json.membersFit_nil, hmembers, true_and, and_true]
    omega

theorem allFit_fieldsToJson_iff (room : Nat) (fields : List (FieldDef TypeDef)) :
    Json.allFit room (fieldsToJson fields) = true ↔ depthOfFields fields ≤ room := by
  match fields with
  | [] => simp [fieldsToJson, Json.allFit, depthOfFields]
  | ⟨name, type, hasDefault⟩ :: fields =>
    have htype := fits_toJson_iff (room - 1) type
    have hfields := allFit_fieldsToJson_iff room fields
    simp only [fieldsToJson, depthOfFields, Json.allFit_cons_iff, Json.fits_object_iff,
      Json.membersFit_cons_iff, Json.fits_string, Json.fits_bool, Json.membersFit_nil, htype,
      hfields, true_and, and_true]
    omega

theorem allFit_membersToJson_iff (room : Nat) (members : List (MemberDef TypeDef)) :
    Json.allFit room (membersToJson members) = true ↔ depthOfMembers members ≤ room := by
  match members with
  | [] => simp [membersToJson, Json.allFit, depthOfMembers]
  | ⟨name, type⟩ :: members =>
    have htype := fits_toJson_iff (room - 1) type
    have hmembers := allFit_membersToJson_iff room members
    simp only [membersToJson, depthOfMembers, Json.allFit_cons_iff, Json.fits_object_iff,
      Json.membersFit_cons_iff, Json.fits_string, Json.membersFit_nil, htype, hmembers, true_and,
      and_true]
    omega

end

/-! ## The text stands for the definition -/

/-- A definition is read back from its text where there is room for its depth. -/
theorem parseWithin_of_depth_le {room : Nat} {type : TypeDef} (hroom : type.depth ≤ room) :
    parseWithin room type.toJson.compact = some type := by
  have hparse := Json.parse_render Json.readable_compact ((fits_toJson_iff room type).2 hroom)
  rw [parseWithin, Json.compact, hparse]
  exact type?_readingOf_toJson type

/-- Every definition is read back from its text where there is room for its depth, so no two
definitions have the same text. -/
theorem parseWithin_compact :
    (∀ (type : TypeDef) (room : Nat), type.depth ≤ room →
      parseWithin room type.toJson.compact = some type) ∧
    Function.Injective fun type : TypeDef => type.toJson.compact := by
  refine ⟨fun type room => parseWithin_of_depth_le, fun type other h => ?_⟩
  have htext : type.toJson.compact = other.toJson.compact := h
  have hread := parseWithin_of_depth_le (Nat.le_max_left type.depth other.depth)
  have hread' := parseWithin_of_depth_le (Nat.le_max_right type.depth other.depth)
  rw [htext, hread'] at hread
  exact (Option.some.inj hread).symm

/-- A record with fields of every kind, some of them with defaults, and names that need escapes. -/
def mixedType : TypeDef :=
  .record "kind" [⟨"a\"\\\n", .nullable (.list (.primitive .f32)), true⟩,
    ⟨"a\"\\\n", .dictionary .unit (.enumeration "" ["é", "", "\x00"]), false⟩,
    ⟨"", .union "name" [⟨"ty", .named "😀"⟩, ⟨"ty", .record "" []⟩, ⟨"b", .foreign "\x7f"⟩], true⟩]

/-- The record is read back with its flags, within the room that every text has. -/
theorem parse_compact_mixedType :
    mixedType.depth ≤ Json.standardRoom ∧ parse mixedType.toJson.compact = some mixedType := by
  have hdepth : mixedType.depth ≤ Json.standardRoom := by decide
  exact ⟨hdepth, parseWithin_compact.1 mixedType Json.standardRoom hdepth⟩

end TypeDef

end WireSchema

/-
# Type definitions

A type definition says what a value looks like on the wire, without regard to
who writes or reads it.  Definitions nest, and refer to registered definitions
by name, so a finite definition can stand for an infinite tree.
-/

import WireSchema.Primitive

namespace WireSchema

/-- A field of a record.  A field with a default may be absent from the data
that is read. -/
structure FieldDef (τ : Type) where
  name : String
  type : τ
  hasDefault : Bool
  deriving DecidableEq

/-- One alternative of a union. -/
structure MemberDef (τ : Type) where
  name : String
  type : τ
  deriving DecidableEq

/-- The structure of a type. -/
inductive TypeDef where
  | primitive (primitive : Primitive)
  /-- The type that carries no data. -/
  | unit
  | enumeration (name : String) (members : List String)
  | nullable (inner : TypeDef)
  | list (item : TypeDef)
  | dictionary (key value : TypeDef)
  | record (name : String) (fields : List (FieldDef TypeDef))
  | union (name : String) (members : List (MemberDef TypeDef))
  /-- Whatever is registered under the name. -/
  | named (name : String)
  /-- A type known by name only, which nothing can describe. -/
  | foreign (name : String)

namespace TypeDef

mutual

/-- Structural comparison of two definitions. -/
def same : TypeDef → TypeDef → Bool
  | primitive p, primitive q => p = q
  | unit, unit => true
  | enumeration n ms, enumeration n' ms' => n = n' ∧ ms = ms'
  | nullable t, nullable t' => t.same t'
  | list t, list t' => t.same t'
  | dictionary k v, dictionary k' v' => k.same k' && v.same v'
  | record n fs, record n' fs' => n = n' && sameFields fs fs'
  | union n ms, union n' ms' => n = n' && sameMembers ms ms'
  | named n, named n' => n = n'
  | foreign n, foreign n' => n = n'
  | _, _ => false

/-- Comparison of two lists of fields, in order. -/
def sameFields : List (FieldDef TypeDef) → List (FieldDef TypeDef) → Bool
  | [], [] => true
  | ⟨n, t, d⟩ :: fs, ⟨n', t', d'⟩ :: fs' => (n = n' && d = d') && t.same t' && sameFields fs fs'
  | _, _ => false

/-- Comparison of two lists of members, in order. -/
def sameMembers : List (MemberDef TypeDef) → List (MemberDef TypeDef) → Bool
  | [], [] => true
  | ⟨n, t⟩ :: ms, ⟨n', t'⟩ :: ms' => n = n' && t.same t' && sameMembers ms ms'
  | _, _ => false

end

mutual

theorem same_iff_eq : ∀ a b : TypeDef, a.same b = true ↔ a = b
  | primitive _, b => by cases b <;> simp [same]
  | unit, b => by cases b <;> simp [same]
  | enumeration _ _, b => by cases b <;> simp [same]
  | nullable t, b => by cases b <;> simp [same, same_iff_eq t]
  | list t, b => by cases b <;> simp [same, same_iff_eq t]
  | dictionary k v, b => by cases b <;> simp [same, same_iff_eq k, same_iff_eq v]
  | record _ fs, b => by cases b <;> simp [same, sameFields_iff_eq fs]
  | union _ ms, b => by cases b <;> simp [same, sameMembers_iff_eq ms]
  | named _, b => by cases b <;> simp [same]
  | foreign _, b => by cases b <;> simp [same]

theorem sameFields_iff_eq : ∀ fs gs : List (FieldDef TypeDef), sameFields fs gs = true ↔ fs = gs
  | [], gs => by cases gs <;> simp [sameFields]
  | ⟨n, t, d⟩ :: fs, gs => by
    rcases gs with _ | ⟨⟨n', t', d'⟩, gs⟩ <;>
      simp [sameFields, same_iff_eq t, sameFields_iff_eq fs]
    grind

theorem sameMembers_iff_eq :
    ∀ ms ns : List (MemberDef TypeDef), sameMembers ms ns = true ↔ ms = ns
  | [], ns => by cases ns <;> simp [sameMembers]
  | ⟨n, t⟩ :: ms, ns => by
    rcases ns with _ | ⟨⟨n', t'⟩, ns⟩ <;>
      simp [sameMembers, same_iff_eq t, sameMembers_iff_eq ms]

end

instance : DecidableEq TypeDef := fun a b =>
  decidable_of_iff (a.same b = true) (same_iff_eq a b)

/-- The name under which a definition can be registered: enumerations, records
and unions have one. -/
def definitionName : TypeDef → Option String
  | enumeration name _ | record name _ | union name _ => some name
  | _ => none

/-- The definition as it is written in messages.  Named types appear by name
only, so the text is finite and short. -/
def display : TypeDef → String
  | primitive p => p.name
  | unit => "()"
  | enumeration name _ => "enum " ++ name
  | nullable inner => "nullable<" ++ inner.display ++ ">"
  | list item => "list<" ++ item.display ++ ">"
  | dictionary key value => "dictionary<" ++ key.display ++ ", " ++ value.display ++ ">"
  | record name _ => "record " ++ name
  | union name _ => "union " ++ name
  | named name => name
  | foreign name => "opaque " ++ name

end TypeDef

/-- A type definition that has a name and can be registered under it. -/
structure Definition where
  type : TypeDef
  name : String
  definitionName_eq : type.definitionName = some name

/-- The type as a definition, if it has a name of its own. -/
def TypeDef.toDefinition? (type : TypeDef) : Option Definition :=
  match h : type.definitionName with
  | some name => some ⟨type, name, h⟩
  | none => none

end WireSchema

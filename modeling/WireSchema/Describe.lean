/-
# Types that describe themselves

The wire structure of Lean types.  Fixed-width numbers, texts and the unit type
are described as they are; an option is nullable, and lists and tables are
described through what they hold.
-/

import WireSchema.Table
import WireSchema.TypeDef.Basic

namespace WireSchema

/-- A type with a fixed structure on the wire. -/
class Describe (α : Type) where
  typeDef : TypeDef

instance : Describe Bool := ⟨.primitive .bool⟩
instance : Describe Int8 := ⟨.primitive .i8⟩
instance : Describe Int16 := ⟨.primitive .i16⟩
instance : Describe Int32 := ⟨.primitive .i32⟩
instance : Describe Int64 := ⟨.primitive .i64⟩
instance : Describe UInt8 := ⟨.primitive .u8⟩
instance : Describe UInt16 := ⟨.primitive .u16⟩
instance : Describe UInt32 := ⟨.primitive .u32⟩
instance : Describe UInt64 := ⟨.primitive .u64⟩
instance : Describe Float32 := ⟨.primitive .f32⟩
instance : Describe Float := ⟨.primitive .f64⟩
instance : Describe Char := ⟨.primitive .char⟩
instance : Describe String := ⟨.primitive .string⟩
instance : Describe Unit := ⟨.unit⟩

instance {α : Type} [Describe α] : Describe (Option α) := ⟨.nullable (Describe.typeDef α)⟩

instance {α : Type} [Describe α] : Describe (List α) := ⟨.list (Describe.typeDef α)⟩

instance {κ υ : Type} [Describe κ] [Describe υ] : Describe (Table κ υ) :=
  ⟨.dictionary (Describe.typeDef κ) (Describe.typeDef υ)⟩

end WireSchema

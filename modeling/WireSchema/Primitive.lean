/-
# Scalar types

The fifteen scalars that have a fixed representation on the wire, their names
in markup and in documents, and the lenient conversions between them.
-/

namespace WireSchema

/-- A scalar type.  A `version` is a dotted version number, carried in its
string form. -/
inductive Primitive where
  | bool
  | i8
  | i16
  | i32
  | i64
  | u8
  | u16
  | u32
  | u64
  | f32
  | f64
  | char
  | string
  | bytes
  | version
  deriving DecidableEq, Repr

namespace Primitive

/-- Every scalar type, in the order in which they are numbered. -/
def all : List Primitive :=
  [bool, i8, i16, i32, i64, u8, u16, u32, u64, f32, f64, char, string, bytes, version]

/-- The name of a scalar type. -/
def name : Primitive → String
  | bool => "bool"
  | i8 => "i8"
  | i16 => "i16"
  | i32 => "i32"
  | i64 => "i64"
  | u8 => "u8"
  | u16 => "u16"
  | u32 => "u32"
  | u64 => "u64"
  | f32 => "f32"
  | f64 => "f64"
  | char => "char"
  | string => "string"
  | bytes => "bytes"
  | version => "version"

/-- The scalar type with the given name, matched exactly. -/
def ofName? (text : String) : Option Primitive :=
  all.find? fun p => p.name = text

/-- Every value written as the first type can be read as the second.  Numbers
widen only where nothing is lost; a character is a string; versions travel as
strings, so strings and versions read each other. -/
def widensTo : Primitive → Primitive → Bool
  | i8, i16 | i8, i32 | i8, i64 | i8, f32 | i8, f64 => true
  | i16, i32 | i16, i64 | i16, f32 | i16, f64 => true
  | i32, i64 | i32, f64 => true
  | u8, u16 | u8, u32 | u8, u64 | u8, i16 | u8, i32 | u8, i64 | u8, f32 | u8, f64 => true
  | u16, u32 | u16, u64 | u16, i32 | u16, i64 | u16, f32 | u16, f64 => true
  | u32, u64 | u32, i64 | u32, f64 => true
  | f32, f64 => true
  | char, string => true
  | version, string | string, version => true
  | _, _ => false

theorem mem_all (p : Primitive) : p ∈ all := by
  cases p <;> decide

theorem ofName?_name (p : Primitive) : ofName? p.name = some p := by
  cases p <;> rfl

end Primitive

end WireSchema

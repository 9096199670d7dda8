import SchemaCodec.Schema.Containment
import SchemaCodec.Schema.WireSize
import SchemaCodec.Source.Error
import SchemaCodec.Source.Identifier

/-!
# Target types

What source is generated for: the schema that gives names their meaning and the path of the
library that the source relies on. A type of the schema becomes a type of the source, which
exists if each definition in it does. The keys of a map have to be scalars that can be compared, or
enums.
-/

namespace SchemaCodec

namespace Scalar

/-- The end of the names of the methods that read and write a scalar. -/
def method : Scalar → String
  | bool => "bool"
  | byte => "byte"
  | uint16 => "u16"
  | int16 => "i16"
  | uint32 => "u32"
  | int32 => "i32"
  | uint64 => "u64"
  | int64 => "i64"
  | float32 => "f32"
  | float64 => "f64"
  | string => "string"
  | guid => "guid"
  | date => "date"

def readMethod (s : Scalar) : String := "read_" ++ s.method

def writeMethod (s : Scalar) : String := "write_" ++ s.method

/-- Whether the writer takes a reference to the scalar. -/
def byReference : Scalar → Bool
  | string | guid => true
  | _ => false

end Scalar

/-- A type whose values have no parts. -/
inductive AtomTy
  | scalar (s : Scalar)
  | enum (name : String)
  deriving DecidableEq, Repr

structure Target where
  schema : Schema
  runtime : String

namespace Target

def resolve? (t : Target) (name : String) : Except GenerateError Definition :=
  match t.schema.get? name with
  | some d => .ok d
  | none => .error (.unresolvedType name)

def scalarName (t : Target) : Scalar → String
  | .bool => "bool"
  | .byte => "u8"
  | .uint16 => "u16"
  | .int16 => "i16"
  | .uint32 => "u32"
  | .int32 => "i32"
  | .uint64 => "u64"
  | .int64 => "i64"
  | .float32 => "f32"
  | .float64 => "f64"
  | .string => "::std::string::String"
  | .guid => t.runtime ++ "::Guid"
  | .date => t.runtime ++ "::Date"

def vecOf (element : String) : String :=
  "::std::vec::Vec<" ++ element ++ ">"

def hashMapOf (key value : String) : String :=
  "::std::collections::HashMap<" ++ key ++ ", " ++ value ++ ">"

/-- The type of the source for a type of the schema. -/
def typeName? (t : Target) : Ty → Except GenerateError String
  | .scalar s => .ok (t.scalarName s)
  | .array element => return vecOf (← t.typeName? element)
  | .map key value => return hashMapOf (← t.typeName? key) (← t.typeName? value)
  | .defined name => return Identifier.ofType (← t.resolve? name).name

/-- The type of the keys of a map: a scalar other than a float, or an enum. -/
def key? (t : Target) (ty : Ty) : Except GenerateError AtomTy :=
  match ty with
  | .scalar s => if s.isFloat then .error (.unsupportedMapKey ty) else .ok (.scalar s)
  | .defined name => do
    if (← t.resolve? name).kind = .enum then return .enum name
    else throw (.unsupportedMapKey ty)
  | .array _ | .map _ _ => .error (.unsupportedMapKey ty)

def atomName (t : Target) : AtomTy → String
  | .scalar s => t.scalarName s
  | .enum name => Identifier.ofType name

end Target

end SchemaCodec

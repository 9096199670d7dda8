/-!
# Scalars

The thirteen kinds of value that have a fixed encoding of their own, and the words a schema uses
for them. `byte` has a second spelling, `uint8`, which is read but never written.
-/

namespace SchemaCodec

inductive Scalar
  | bool
  | byte
  | uint16
  | int16
  | uint32
  | int32
  | uint64
  | int64
  | float32
  | float64
  | string
  | guid
  | date
  deriving DecidableEq, Repr

namespace Scalar

/-- All scalars, in the order in which they are listed to users. -/
def all : List Scalar :=
  [bool, byte, uint16, int16, uint32, int32, uint64, int64, float32, float64, string, guid, date]

def keyword : Scalar → String
  | bool => "bool"
  | byte => "byte"
  | uint16 => "uint16"
  | int16 => "int16"
  | uint32 => "uint32"
  | int32 => "int32"
  | uint64 => "uint64"
  | int64 => "int64"
  | float32 => "float32"
  | float64 => "float64"
  | string => "string"
  | guid => "guid"
  | date => "date"

def ofKeyword? : String → Option Scalar
  | "bool" => some bool
  | "byte" | "uint8" => some byte
  | "uint16" => some uint16
  | "int16" => some int16
  | "uint32" => some uint32
  | "int32" => some int32
  | "uint64" => some uint64
  | "int64" => some int64
  | "float32" => some float32
  | "float64" => some float64
  | "string" => some string
  | "guid" => some guid
  | "date" => some date
  | _ => none

theorem ofKeyword?_keyword (s : Scalar) : ofKeyword? s.keyword = some s := by
  cases s <;> rfl

/-- Fewest bytes a value takes on the wire; a text may be empty, but has its length. -/
def wireSize : Scalar → Nat
  | bool | byte => 1
  | uint16 | int16 => 2
  | uint32 | int32 | float32 | string => 4
  | uint64 | int64 | float64 | date => 8
  | guid => 16

/-- Floats have no equality that a map key could use. -/
def isFloat : Scalar → Bool
  | float32 | float64 => true
  | _ => false

end Scalar

end SchemaCodec

import SchemaCodec.Schema.Scalar

/-!
# Types

The type of a field: a scalar, an array, a map, or a definition that is named. `toText` is the
canonical spelling, without the blanks that a schema may put between the parts.
-/

namespace SchemaCodec

inductive Ty
  | scalar (s : Scalar)
  | array (element : Ty)
  | map (key value : Ty)
  | defined (name : String)
  deriving DecidableEq, Repr

namespace Ty

def toText : Ty → String
  | scalar s => s.keyword
  | array t => t.toText ++ "[]"
  | map k v => "map[" ++ k.toText ++ ", " ++ v.toText ++ "]"
  | defined name => name

instance : ToString Ty := ⟨toText⟩

/-- The names of the definitions that a type mentions, from left to right, repeats included. -/
def names : Ty → List String
  | scalar _ => []
  | array t => t.names
  | map k v => k.names ++ v.names
  | defined name => [name]

/-- The element of an array of scalars. -/
def arrayScalar? : Ty → Option Scalar
  | array (scalar s) => some s
  | _ => none

end Ty

end SchemaCodec

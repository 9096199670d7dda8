import SchemaCodec.Source.Code
import SchemaCodec.Source.Target

/-!
# Decodings

A `Decoding` is the statement that reads a value of some type into a new binding, with the names
and types that its source uses. An array or a map starts with a count, which has to fit in what is
left of the input when each element takes its smallest size. Arrays of bytes are read in one call.
-/

namespace SchemaCodec

inductive Decoding
  | atom (binding : String) (ty : AtomTy)
  | bytes (binding : String)
  /-- Calls the decoder of a struct or message. -/
  | record (binding name : String)
  | array (binding length item itemType : String) (minSize : Nat) (element : Decoding)
  | map (binding length keyName valueName keyType valueType : String) (minSize : Nat)
      (key : AtomTy) (value : Decoding)
  deriving DecidableEq, Repr

namespace Decoding

/-- The statement that reads a value of a type at a depth of loops. -/
def ofTy? (t : Target) (binding : String) (depth : Nat) : Ty → Except GenerateError Decoding
  | .scalar s => .ok (atom binding (.scalar s))
  | .array element =>
    if element = .scalar .byte then .ok (bytes binding)
    else do
      let itemType ← t.typeName? element
      let item := "e" ++ toString depth
      return array binding ("length" ++ toString depth) item itemType
        (t.schema.minWireSize element) (← ofTy? t item (depth + 1) element)
  | .map keyTy valueTy => do
    let key ← t.key? keyTy
    let valueType ← t.typeName? valueTy
    let v := "v" ++ toString depth
    return map binding ("length" ++ toString depth) ("k" ++ toString depth) v (t.atomName key)
      valueType (t.schema.minWireSize keyTy + t.schema.minWireSize valueTy) key
      (← ofTy? t v (depth + 1) valueTy)
  | .defined name => do
    match (← t.resolve? name).kind with
    | .enum => return atom binding (.enum name)
    | .struct | .message => return record binding name

/-- The line that reads a value without parts. -/
def atomLine (binding : String) : AtomTy → Code
  | .scalar s => .line ("let " ++ binding ++ " = reader." ++ s.readMethod ++ "()?;")
  | .enum name =>
    .line ("let " ++ binding ++ " = " ++ Identifier.ofType name ++ "(reader.read_u32()?);")

/-- The line that reads a count of elements. -/
def countLine (length : String) (minSize : Nat) : Code :=
  .line ("let " ++ length ++ " = reader.read_count(" ++ toString minSize ++ ")?;")

/-- The line that makes an empty container with room for some elements. -/
def containerLine (binding typeName container length : String) : Code :=
  .line ("let mut " ++ binding ++ ": " ++ typeName ++ " = " ++ container ++
    "::with_capacity(reader.bounded_capacity(" ++ length ++ "));")

def code (runtime : String) : Decoding → List Code
  | atom binding ty => [atomLine binding ty]
  | bytes binding => [.line ("let " ++ binding ++ " = reader.read_bytes()?;")]
  | record binding name =>
    [.line ("let " ++ binding ++ " = <" ++ Identifier.ofType name ++ " as " ++ runtime ++
      "::Record>::decode_from(reader)?;")]
  | array binding length item itemType minSize element => [
    countLine length minSize,
    containerLine binding (Target.vecOf itemType) "::std::vec::Vec" length,
    .braces ("for _ in 0.." ++ length)
      (element.code runtime ++ [.line (binding ++ ".push(" ++ item ++ ");")])]
  | map binding length k v keyType valueType minSize key value => [
    countLine length minSize,
    containerLine binding (Target.hashMapOf keyType valueType) "::std::collections::HashMap" length,
    .braces ("for _ in 0.." ++ length)
      (atomLine k key :: value.code runtime ++
        [.line (binding ++ ".insert(" ++ k ++ ", " ++ v ++ ");")])]

end Decoding

end SchemaCodec

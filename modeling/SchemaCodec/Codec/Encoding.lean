import SchemaCodec.Source.Code
import SchemaCodec.Source.Target

/-!
# Encodings

An `Encoding` is the statement that writes a value of some type, with the names that its source
uses. The operand says how the source gets at the value. Loops name what they go over with the
depth they stand at, so that no loop hides the names of one around it.

Arrays of bytes and of floats are written in one call.
-/

namespace SchemaCodec

/-- An expression for the value to write; a binding is a reference already. -/
structure Operand where
  expr : String
  isBinding : Bool
  deriving DecidableEq, Repr

namespace Operand

def place (expr : String) : Operand := ⟨expr, false⟩

def binding (expr : String) : Operand := ⟨expr, true⟩

/-- The value itself. -/
def value (o : Operand) : String :=
  if o.isBinding then "*" ++ o.expr else o.expr

/-- A reference to the value. -/
def reference (o : Operand) : String :=
  if o.isBinding then o.expr else "&" ++ o.expr

end Operand

/-- The elements whose arrays are written in one call. -/
inductive Bulk
  | bytes
  | singles
  | doubles
  deriving DecidableEq, Repr

namespace Bulk

def ofTy? : Ty → Option Bulk
  | .scalar .byte => some bytes
  | .scalar .float32 => some singles
  | .scalar .float64 => some doubles
  | _ => none

def writeMethod : Bulk → String
  | bytes => "write_bytes"
  | singles => "write_f32_slice"
  | doubles => "write_f64_slice"

end Bulk

inductive Encoding
  | atom (operand : Operand) (ty : AtomTy)
  | bulk (operand : Operand) (elements : Bulk)
  /-- Calls the encoder of a struct or message. -/
  | record (operand : Operand) (name : String)
  | array (operand : Operand) (item : String) (element : Encoding)
  | map (operand : Operand) (keyName valueName : String) (key : AtomTy) (value : Encoding)
  deriving DecidableEq, Repr

namespace Encoding

/-- The statement that writes a value of a type at a depth of loops. -/
def ofTy? (t : Target) (operand : Operand) (depth : Nat) : Ty → Except GenerateError Encoding
  | .scalar s => .ok (atom operand (.scalar s))
  | .array element =>
    match Bulk.ofTy? element with
    | some elements => .ok (bulk operand elements)
    | none => do
      let item := "e" ++ toString depth
      return array operand item (← ofTy? t (.binding item) (depth + 1) element)
  | .map key value => do
    let key ← t.key? key
    let v := "v" ++ toString depth
    return map operand ("k" ++ toString depth) v key (← ofTy? t (.binding v) (depth + 1) value)
  | .defined name => do
    match (← t.resolve? name).kind with
    | .enum => return atom operand (.enum name)
    | .struct | .message => return record operand name

/-- The line that writes how many elements a container has. -/
def lengthLine (operand : Operand) : Code :=
  .line ("writer.write_length(" ++ operand.expr ++ ".len());")

/-- The line that writes a value without parts. -/
def atomLine (operand : Operand) : AtomTy → Code
  | .scalar s =>
    let argument := if s.byReference then operand.reference else operand.value
    .line ("writer." ++ s.writeMethod ++ "(" ++ argument ++ ");")
  | .enum _ => .line ("writer.write_u32(" ++ operand.expr ++ ".0);")

def code (runtime : String) : Encoding → List Code
  | atom operand ty => [atomLine operand ty]
  | bulk operand elements =>
    [.line ("writer." ++ elements.writeMethod ++ "(" ++ operand.reference ++ ");")]
  | record operand _ =>
    [.line (runtime ++ "::Record::encode_into(" ++ operand.reference ++ ", writer);")]
  | array operand item element => [
    lengthLine operand,
    .braces ("for " ++ item ++ " in " ++ operand.reference) (element.code runtime)]
  | map operand k v key value => [
    lengthLine operand,
    .braces ("for (" ++ k ++ ", " ++ v ++ ") in " ++ operand.reference)
      (atomLine (.binding k) key :: value.code runtime)]

end Encoding

end SchemaCodec

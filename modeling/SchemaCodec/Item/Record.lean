import SchemaCodec.Codec.Record
import SchemaCodec.Item.Basic

/-!
# Structs and messages

A struct or message becomes a shape with one field each, which in a message may be absent, and the
code that writes and reads it. A readonly shape has no public fields, but a function that makes
one of all its fields and a function for each field that gives it back.
-/

namespace SchemaCodec

structure ShapeField where
  field : Field
  ident : String
  typeName : String
  /-- Whether the field is stored behind a pointer. -/
  isBoxed : Bool
  deriving DecidableEq, Repr

structure RecordItem where
  definition : Definition
  ident : String
  fields : List ShapeField
  encoding : RecordEncoding
  decoding : RecordDecoding
  deriving DecidableEq, Repr

namespace ShapeField

def optionOf (typeName : String) : String :=
  "::core::option::Option<" ++ typeName ++ ">"

/-- The type that a field is declared with. -/
def declaredType (f : ShapeField) : Kind → String
  | .message =>
    optionOf (if f.isBoxed then "::std::boxed::Box<" ++ f.typeName ++ ">" else f.typeName)
  | .enum | .struct => f.typeName

/-- The function that gives back the field of a readonly shape. -/
def getterCode (kind : Kind) (f : ShapeField) : Code :=
  match kind with
  | .message =>
    .braces ("pub fn " ++ f.ident ++ "(&self) -> " ++ optionOf ("&" ++ f.typeName)) [
      .line ("self." ++ f.ident ++ if f.isBoxed then ".as_deref()" else ".as_ref()")]
  | .enum | .struct =>
    .braces ("pub fn " ++ f.ident ++ "(&self) -> &" ++ f.typeName) [.line ("&self." ++ f.ident)]

end ShapeField

namespace RecordItem

/-- Refuses the tags of a message and the nesting of a struct. -/
def check (t : Target) (d : Definition) : Except GenerateError Unit :=
  match d.kind with
  | .message => d.checkTags
  | .struct => t.checkNesting d
  | .enum => .ok ()

def shape? (t : Target) (d : Definition) : Except GenerateError (List ShapeField) :=
  d.fields.mapM fun f =>
    return {
      field := f
      ident := Identifier.ofField f.name
      typeName := ← t.typeName? f.ty
      isBoxed := t.schema.boxes d f.ty }

/-- The codec of a message or struct. -/
def codec? (t : Target) (d : Definition) : Except GenerateError (RecordEncoding × RecordDecoding) :=
  match d.kind with
  | .message => return (← RecordEncoding.ofMessage? t d, ← RecordDecoding.ofMessage? t d)
  | .struct | .enum => return (← RecordEncoding.ofStruct? t d, ← RecordDecoding.ofStruct? t d)

def ofDefinition? (t : Target) (d : Definition) : Except GenerateError RecordItem := do
  check t d
  let fields ← shape? t d
  Item.checkIdentifiers (Item.taken (if d.readonly then ["new"] else []))
    (fields.map fun f => (f.field.name, f.ident))
  let (encoding, decoding) ← codec? t d
  return ⟨d, Identifier.ofType d.name, fields, encoding, decoding⟩

/-- The constants of the type, by name. -/
def constants (r : RecordItem) : List (String × UInt32) :=
  (r.definition.opcode.map fun n => (Item.opcodeName, n)).toList

def fieldCode (settings : Settings) (r : RecordItem) (f : ShapeField) : List Code :=
  let visibility := if r.definition.readonly then "" else "pub "
  Item.docs settings f.field.doc f.field.deprecated ++
    [.line (visibility ++ f.ident ++ ": " ++ f.declaredType r.definition.kind ++ ",")]

def shapeCode (settings : Settings) (r : RecordItem) : List Code :=
  let header := "pub struct " ++ r.ident
  Item.docs settings r.definition.doc none ++ [
    .line "#[derive(Debug, Clone, PartialEq, Default)]",
    if r.fields.isEmpty then .line (header ++ " \x7b\x7d")
    else .braces header (r.fields.flatMap (r.fieldCode settings))]

/-- The functions of a readonly shape. -/
def accessorsCode (r : RecordItem) : List Code :=
  let parameters := r.fields.map fun f => f.ident ++ ": " ++ f.declaredType r.definition.kind
  let idents := r.fields.map (·.ident)
  (if 7 < r.fields.length then [.line "#[allow(clippy::too_many_arguments)]"] else []) ++
    .braces ("pub fn new(" ++ ", ".intercalate parameters ++ ") -> Self")
      [.line ("Self \x7b " ++ ", ".intercalate idents ++ " \x7d")] ::
    r.fields.flatMap fun f => [.blank, f.getterCode r.definition.kind]

/-- The constant and the functions of the type, if it has any. -/
def inherentCode (r : RecordItem) : List Code :=
  let constant := (r.definition.opcode.map Item.opcodeLine).toList
  let functions :=
    if r.definition.readonly && !r.fields.isEmpty then
      (if constant.isEmpty then [] else [.blank]) ++ r.accessorsCode
    else []
  if constant.isEmpty && functions.isEmpty then []
  else [.blank, .braces ("impl " ++ r.ident) (constant ++ functions)]

def code (settings : Settings) (runtime : String) (r : RecordItem) : List Code :=
  r.shapeCode settings ++ r.inherentCode ++ [
    .blank,
    Item.implementation ("::core::convert::AsMut<" ++ r.ident ++ ">") r.ident
      ("fn as_mut(&mut self) -> &mut " ++ r.ident) [.line "self"],
    .blank,
    .braces ("impl " ++ runtime ++ "::Record for " ++ r.ident)
      [r.encoding.code runtime, .blank, r.decoding.code runtime]]

end RecordItem

end SchemaCodec

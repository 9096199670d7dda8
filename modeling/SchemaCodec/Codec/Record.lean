import SchemaCodec.Codec.Decoding
import SchemaCodec.Codec.Encoding

/-!
# Codecs of structs and messages

A struct is written and read field by field, in the order of the definition. A message is a length,
then its fields, each behind a tag, then a zero byte. Fields that are absent and fields that are
deprecated are not written, but a deprecated field is still read. Behind a tag that is not known
nothing can be read, so the decoder goes to the end of the message and gives what it has.

The tags of a message lie between 1 and 255 and differ, and a struct does not contain itself.
-/

namespace SchemaCodec

namespace Definition

def expect (d : Definition) (kind : Kind) : Except GenerateError Unit :=
  if d.kind = kind then .ok () else .error (.wrongKind d.name d.kind kind)

/-- Refuses the first field with a tag out of range or with a tag that was seen. -/
def checkTagsFrom (seen : List UInt32) : List Field → Except GenerateError Unit
  | [] => .ok ()
  | f :: fs =>
    if f.value = 0 ∨ 255 < f.value then .error (.invalidTag f.name f.value)
    else if f.value ∈ seen then .error (.duplicateTag f.name f.value)
    else checkTagsFrom (f.value :: seen) fs

def checkTags (d : Definition) : Except GenerateError Unit :=
  checkTagsFrom [] d.fields

end Definition

/-- Refuses the first field of a struct that holds the struct itself. -/
def Target.checkNesting (t : Target) (d : Definition) : Except GenerateError Unit :=
  match d.fields.find? fun f => t.schema.nestsByValue f.ty d.name with
  | some f => .error (.selfNestingStruct f.name f.ty)
  | none => .ok ()

/-- How a field of a message is written. -/
structure TaggedEncoding where
  ident : String
  isBoxed : Bool
  tag : UInt8
  encoding : Encoding
  deriving DecidableEq, Repr

/-- How a record is written. A message leaves out the fields that are not written. -/
inductive RecordEncoding
  | struct (fields : List (String × Encoding))
  | message (fields : List (Option TaggedEncoding))
  deriving DecidableEq, Repr

namespace RecordEncoding

def ofStruct? (t : Target) (d : Definition) : Except GenerateError RecordEncoding := do
  d.expect .struct
  t.checkNesting d
  return struct (← d.fields.mapM fun f => do
    let ident := Identifier.ofField f.name
    return (ident, ← Encoding.ofTy? t (.place ("self." ++ ident)) 0 f.ty))

def ofMessage? (t : Target) (d : Definition) : Except GenerateError RecordEncoding := do
  d.expect .message
  d.checkTags
  return message (← d.fields.mapM fun f => do
    if f.isDeprecated then return none
    else return some {
      ident := Identifier.ofField f.name
      isBoxed := t.schema.boxes d f.ty
      tag := f.value.toUInt8
      encoding := ← Encoding.ofTy? t (.binding "value") 0 f.ty })

end RecordEncoding

/-- The code that writes a field of a message, if it is present. -/
def TaggedEncoding.code (runtime : String) (e : TaggedEncoding) : Code :=
  let source := if e.isBoxed then "self." ++ e.ident ++ ".as_deref()" else "&self." ++ e.ident
  .braces ("if let Some(value) = " ++ source)
    (.line ("writer.write_byte(" ++ toString e.tag.toNat ++ ");") :: e.encoding.code runtime)

namespace RecordEncoding

def body (runtime : String) : RecordEncoding → List Code
  | struct [] => [.line "let _ = writer;"]
  | struct fields => fields.flatMap fun f => f.2.code runtime
  | message fields =>
    [.line "let position = writer.reserve_length();", .line "let start = writer.len();"] ++
      fields.filterMap (·.map (TaggedEncoding.code runtime)) ++
      [.line "writer.write_byte(0);", .line "let end = writer.len();",
        .line "writer.fill_length(position, end - start);"]

def code (runtime : String) (e : RecordEncoding) : Code :=
  .braces ("fn encode_into(&self, writer: &mut " ++ runtime ++ "::BinaryWriter)") (e.body runtime)

end RecordEncoding

/-- How a field of a message is read. -/
structure TaggedDecoding where
  ident : String
  isBoxed : Bool
  tag : UInt8
  decoding : Decoding
  deriving DecidableEq, Repr

inductive RecordDecoding
  | struct (fields : List (String × Decoding))
  | message (fields : List TaggedDecoding)
  deriving DecidableEq, Repr

namespace RecordDecoding

/-- The binding that holds a field of a struct until all of them are read. -/
def fieldBinding (index : Nat) : String :=
  "field" ++ toString index

def ofStruct? (t : Target) (d : Definition) : Except GenerateError RecordDecoding := do
  d.expect .struct
  t.checkNesting d
  return struct (← d.fields.zipIdx.mapM fun (f, i) =>
    return (Identifier.ofField f.name, ← Decoding.ofTy? t (fieldBinding i) 0 f.ty))

def ofMessage? (t : Target) (d : Definition) : Except GenerateError RecordDecoding := do
  d.expect .message
  d.checkTags
  return message (← d.fields.mapM fun f =>
    return {
      ident := Identifier.ofField f.name
      isBoxed := t.schema.boxes d f.ty
      tag := f.value.toUInt8
      decoding := ← Decoding.ofTy? t "value" 0 f.ty })

end RecordDecoding

/-- The arm that reads a field of a message behind its tag. -/
def TaggedDecoding.code (runtime : String) (e : TaggedDecoding) : Code :=
  let value := if e.isBoxed then "::std::boxed::Box::new(value)" else "value"
  .braces (toString e.tag.toNat ++ " =>")
    (e.decoding.code runtime ++ [.line ("record." ++ e.ident ++ " = Some(" ++ value ++ ");")])

namespace RecordDecoding

def body (runtime : String) : RecordDecoding → List Code
  | struct [] => [.line "let _ = reader;", .line "Ok(Self \x7b\x7d)"]
  | struct fields =>
    (fields.flatMap fun f => f.2.code runtime) ++
      [.block "Ok(Self"
        (fields.zipIdx.map fun (f, i) => .line (f.1 ++ ": " ++ fieldBinding i ++ ",")) "\x7d)"]
  | message [] => [
    .line "let record = Self::default();",
    .line "let end = reader.read_message_end()?;",
    .braces "if reader.read_message_tag(end)? != 0" [.line "reader.skip_to(end)?;"],
    .line "Ok(record)"]
  | message fields => [
    .line "let mut record = Self::default();",
    .line "let end = reader.read_message_end()?;",
    .braces "loop" [
      .braces "match reader.read_message_tag(end)?" (
        .line "0 => return Ok(record)," :: fields.map (TaggedDecoding.code runtime) ++
          [.braces "_ =>" [.line "reader.skip_to(end)?;", .line "return Ok(record);"]])]]

def code (runtime : String) (e : RecordDecoding) : Code :=
  .braces ("fn decode_from(reader: &mut " ++ runtime ++ "::BinaryReader<'_>) -> " ++ runtime ++
    "::DecodeResult<Self>") (e.body runtime)

end RecordDecoding

end SchemaCodec

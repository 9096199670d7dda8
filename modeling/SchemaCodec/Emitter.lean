import SchemaCodec.Source.Emit
import SchemaCodec.Item

/-!
# Emitters

How the source of a definition is written, call by call. The struct or message comes first with its
constant and its functions, then the code that writes its fields and the code that reads them.
-/

namespace SchemaCodec.Emit

/-- Writes the comment for a documentation and a deprecation. -/
def docs (settings : Settings) (doc : Option String) (deprecated : Option Deprecation) :
    Emit Unit := do
  if !settings.emitDocs then return
  if let some text := doc then Emit.doc text
  if let some d := deprecated then
    if doc.isSome then line "///"
    match d.reason with
    | some reason => Emit.doc ("Deprecated: " ++ reason)
    | none => Emit.doc "Deprecated."

def opcodeLine (opcode : UInt32) : Emit Unit :=
  line ("pub const " ++ Item.opcodeName ++ ": u32 = " ++ Item.hexText opcode ++ ";")

/-! ## Enums -/

/-- An arm for each value that was not seen. -/
def arms (seen : List UInt32) : List Field → Emit Unit
  | [] => return
  | f :: fs => do
    if f.value ∈ seen then arms seen fs
    else
      line (toString f.value.toNat ++ " => ::core::option::Option::Some(" ++ Text.quoted f.name
        ++ "),")
      arms (f.value :: seen) fs

def enum (settings : Settings) (d : Definition) : Emit Unit := do
  EnumItem.checkMembers d
  Item.checkIdentifiers (Item.taken (d.opcode.map fun _ => Item.opcodeName).toList)
    (d.fields.map fun f => (f.name, Identifier.ofConstant f.name))
  let name := Identifier.ofType d.name
  docs settings d.doc none
  line "#[derive(Debug, Clone, Copy, PartialEq, Eq, Hash, PartialOrd, Ord, Default)]"
  line ("pub struct " ++ name ++ "(pub u32);")
  blank
  openBlock ("impl " ++ name)
  if let some opcode := d.opcode then
    opcodeLine opcode
    blank
  d.fields.forM fun f => do
    docs settings f.doc f.deprecated
    line ("pub const " ++ Identifier.ofConstant f.name ++ ": Self = Self("
      ++ toString f.value.toNat ++ ");")
  if !d.fields.isEmpty then blank
  line "/// Schema name of the member with this value, if any"
  openBlock "pub fn name(self) -> ::core::option::Option<&'static str>"
  openBlock "match self.0"
  arms [] d.fields
  line "_ => ::core::option::Option::None,"
  closeBlock
  closeBlock
  closeBlock
  blank
  openBlock ("impl ::core::convert::From<u32> for " ++ name)
  openBlock "fn from(value: u32) -> Self"
  line "Self(value)"
  closeBlock
  closeBlock
  blank
  openBlock ("impl ::core::convert::From<" ++ name ++ "> for u32")
  openBlock ("fn from(value: " ++ name ++ ") -> Self")
  line "value.0"
  closeBlock
  closeBlock

/-! ## Fields -/

/-- The statements that write a value of a type. -/
def encodeField (t : Target) (operand : Operand) (depth : Nat) : Ty → Emit Unit
  | .scalar s =>
    let argument := if s.byReference then operand.reference else operand.value
    line ("writer." ++ s.writeMethod ++ "(" ++ argument ++ ");")
  | .array element => do
    if let some elements := Bulk.ofTy? element then
      line ("writer." ++ elements.writeMethod ++ "(" ++ operand.reference ++ ");")
      return
    let item := "e" ++ toString depth
    line ("writer.write_length(" ++ operand.expr ++ ".len());")
    openBlock ("for " ++ item ++ " in " ++ operand.reference)
    encodeField t (.binding item) (depth + 1) element
    closeBlock
  | .map key value => do
    let _ ← t.key? key
    let k := "k" ++ toString depth
    let v := "v" ++ toString depth
    line ("writer.write_length(" ++ operand.expr ++ ".len());")
    openBlock ("for (" ++ k ++ ", " ++ v ++ ") in " ++ operand.reference)
    encodeField t (.binding k) (depth + 1) key
    encodeField t (.binding v) (depth + 1) value
    closeBlock
  | .defined name => do
    let d ← t.resolve? name
    if d.kind = .enum then
      line ("writer.write_u32(" ++ operand.expr ++ ".0);")
    else
      line (t.runtime ++ "::Record::encode_into(" ++ operand.reference ++ ", writer);")

/-- Makes an empty container with room for some elements. -/
def withCapacity (binding typeName container length : String) : Emit Unit :=
  line ("let mut " ++ binding ++ ": " ++ typeName ++ " = " ++ container
    ++ "::with_capacity(reader.bounded_capacity(" ++ length ++ "));")

/-- The statements that read a value of a type into a new binding. -/
def decodeField (t : Target) (binding : String) (depth : Nat) : Ty → Emit Unit
  | .scalar s => line ("let " ++ binding ++ " = reader." ++ s.readMethod ++ "()?;")
  | .array element => do
    if element = .scalar .byte then
      line ("let " ++ binding ++ " = reader.read_bytes()?;")
      return
    let itemType ← t.typeName? element
    let length := "length" ++ toString depth
    let item := "e" ++ toString depth
    line ("let " ++ length ++ " = reader.read_count("
      ++ toString (t.schema.minWireSize element) ++ ")?;")
    withCapacity binding (Target.vecOf itemType) "::std::vec::Vec" length
    openBlock ("for _ in 0.." ++ length)
    decodeField t item (depth + 1) element
    line (binding ++ ".push(" ++ item ++ ");")
    closeBlock
  | .map key value => do
    let _ ← t.key? key
    let keyType ← t.typeName? key
    let valueType ← t.typeName? value
    let length := "length" ++ toString depth
    let k := "k" ++ toString depth
    let v := "v" ++ toString depth
    line ("let " ++ length ++ " = reader.read_count("
      ++ toString (t.schema.minWireSize key + t.schema.minWireSize value) ++ ")?;")
    withCapacity binding (Target.hashMapOf keyType valueType) "::std::collections::HashMap" length
    openBlock ("for _ in 0.." ++ length)
    decodeField t k (depth + 1) key
    decodeField t v (depth + 1) value
    line (binding ++ ".insert(" ++ k ++ ", " ++ v ++ ");")
    closeBlock
  | .defined name => do
    let d ← t.resolve? name
    let target ← t.typeName? (.defined name)
    if d.kind = .enum then
      line ("let " ++ binding ++ " = " ++ target ++ "(reader.read_u32()?);")
    else
      line ("let " ++ binding ++ " = <" ++ target ++ " as " ++ t.runtime
        ++ "::Record>::decode_from(reader)?;")

/-! ## Structs -/

def encodeStruct (t : Target) (d : Definition) : Emit Unit := do
  d.expect .struct
  t.checkNesting d
  openBlock ("fn encode_into(&self, writer: &mut " ++ t.runtime ++ "::BinaryWriter)")
  if d.fields.isEmpty then line "let _ = writer;"
  d.fields.forM fun f =>
    encodeField t (.place ("self." ++ Identifier.ofField f.name)) 0 f.ty
  closeBlock

/-- All fields are read first, and then the value is made. -/
def decodeStruct (t : Target) (d : Definition) : Emit Unit := do
  d.expect .struct
  t.checkNesting d
  openBlock ("fn decode_from(reader: &mut " ++ t.runtime ++ "::BinaryReader<'_>) -> " ++ t.runtime
    ++ "::DecodeResult<Self>")
  if d.fields.isEmpty then
    line "let _ = reader;"
    line "Ok(Self \x7b\x7d)"
    closeBlock
    return
  d.fields.zipIdx.forM fun (f, i) => decodeField t (RecordDecoding.fieldBinding i) 0 f.ty
  openBlock "Ok(Self"
  d.fields.zipIdx.forM fun (f, i) =>
    line (Identifier.ofField f.name ++ ": " ++ RecordDecoding.fieldBinding i ++ ",")
  closeBlockWith "\x7d)"
  closeBlock

/-! ## Messages -/

/-- Writes a field behind its tag, if it is there. -/
def encodeTagged (t : Target) (d : Definition) (f : Field) : Emit Unit := do
  let ident := Identifier.ofField f.name
  if t.schema.boxes d f.ty then
    openBlock ("if let Some(value) = self." ++ ident ++ ".as_deref()")
  else
    openBlock ("if let Some(value) = &self." ++ ident)
  line ("writer.write_byte(" ++ toString f.value.toNat ++ ");")
  encodeField t (.binding "value") 0 f.ty
  closeBlock

def encodeMessage (t : Target) (d : Definition) : Emit Unit := do
  d.expect .message
  d.checkTags
  openBlock ("fn encode_into(&self, writer: &mut " ++ t.runtime ++ "::BinaryWriter)")
  line "let position = writer.reserve_length();"
  line "let start = writer.len();"
  (d.fields.filter fun f => !f.isDeprecated).forM (encodeTagged t d)
  line "writer.write_byte(0);"
  line "let end = writer.len();"
  line "writer.fill_length(position, end - start);"
  closeBlock

/-- Reads a field behind its tag. -/
def decodeTagged (t : Target) (d : Definition) (f : Field) : Emit Unit := do
  openBlock (toString f.value.toNat ++ " =>")
  decodeField t "value" 0 f.ty
  let ident := Identifier.ofField f.name
  if t.schema.boxes d f.ty then
    line ("record." ++ ident ++ " = Some(::std::boxed::Box::new(value));")
  else
    line ("record." ++ ident ++ " = Some(value);")
  closeBlock

def decodeMessage (t : Target) (d : Definition) : Emit Unit := do
  d.expect .message
  d.checkTags
  openBlock ("fn decode_from(reader: &mut " ++ t.runtime ++ "::BinaryReader<'_>) -> " ++ t.runtime
    ++ "::DecodeResult<Self>")
  if d.fields.isEmpty then
    line "let record = Self::default();"
    line "let end = reader.read_message_end()?;"
    openBlock "if reader.read_message_tag(end)? != 0"
    line "reader.skip_to(end)?;"
    closeBlock
    line "Ok(record)"
    closeBlock
    return
  line "let mut record = Self::default();"
  line "let end = reader.read_message_end()?;"
  openBlock "loop"
  openBlock "match reader.read_message_tag(end)?"
  line "0 => return Ok(record),"
  d.fields.forM (decodeTagged t d)
  openBlock "_ =>"
  line "reader.skip_to(end)?;"
  line "return Ok(record);"
  closeBlock
  closeBlock
  closeBlock
  closeBlock

/-! ## Definitions -/

/-- The function that gives back the field of a readonly shape. -/
def getter (kind : Kind) (f : ShapeField) : Emit Unit := do
  if kind = .message then
    openBlock ("pub fn " ++ f.ident ++ "(&self) -> " ++ ShapeField.optionOf ("&" ++ f.typeName))
    if f.isBoxed then line ("self." ++ f.ident ++ ".as_deref()")
    else line ("self." ++ f.ident ++ ".as_ref()")
  else
    openBlock ("pub fn " ++ f.ident ++ "(&self) -> &" ++ f.typeName)
    line ("&self." ++ f.ident)
  closeBlock

/-- The function that makes a readonly shape of all its fields, and one function for each field. -/
def accessors (kind : Kind) (fields : List ShapeField) : Emit Unit := do
  let parameters := fields.map fun f => f.ident ++ ": " ++ f.declaredType kind
  let idents := fields.map (·.ident)
  if 7 < fields.length then line "#[allow(clippy::too_many_arguments)]"
  openBlock ("pub fn new(" ++ ", ".intercalate parameters ++ ") -> Self")
  line ("Self \x7b " ++ ", ".intercalate idents ++ " \x7d")
  closeBlock
  fields.forM fun f => do
    blank
    getter kind f

/-- The struct itself, whose fields are public unless it is readonly. -/
def shape (settings : Settings) (d : Definition) (name : String) (fields : List ShapeField) :
    Emit Unit := do
  let visibility := if d.readonly then "" else "pub "
  docs settings d.doc none
  line "#[derive(Debug, Clone, PartialEq, Default)]"
  if fields.isEmpty then line ("pub struct " ++ name ++ " \x7b\x7d")
  else
    openBlock ("pub struct " ++ name)
    fields.forM fun f => do
      docs settings f.field.doc f.field.deprecated
      line (visibility ++ f.ident ++ ": " ++ f.declaredType d.kind ++ ",")
    closeBlock

/-- The constant and the functions, if there are any. -/
def inherent (d : Definition) (name : String) (fields : List ShapeField) : Emit Unit := do
  if d.opcode.isSome || d.readonly && !fields.isEmpty then
    blank
    openBlock ("impl " ++ name)
    if let some opcode := d.opcode then opcodeLine opcode
    if d.readonly && !fields.isEmpty then
      if d.opcode.isSome then blank
      accessors d.kind fields
    closeBlock

def codec (t : Target) (d : Definition) : Emit Unit := do
  match d.kind with
  | .message =>
    encodeMessage t d
    blank
    decodeMessage t d
  | .struct | .enum =>
    encodeStruct t d
    blank
    decodeStruct t d

def record (t : Target) (settings : Settings) (d : Definition) : Emit Unit := do
  RecordItem.check t d
  let name := Identifier.ofType d.name
  let fields ← RecordItem.shape? t d
  Item.checkIdentifiers (Item.taken (if d.readonly then ["new"] else []))
    (fields.map fun f => (f.field.name, f.ident))
  shape settings d name fields
  inherent d name fields
  blank
  openBlock ("impl ::core::convert::AsMut<" ++ name ++ "> for " ++ name)
  openBlock ("fn as_mut(&mut self) -> &mut " ++ name)
  line "self"
  closeBlock
  closeBlock
  blank
  openBlock ("impl " ++ t.runtime ++ "::Record for " ++ name)
  codec t d
  closeBlock

def definition (t : Target) (settings : Settings) (d : Definition) : Emit Unit :=
  match d.kind with
  | .enum => enum settings d
  | .struct | .message => record t settings d

end SchemaCodec.Emit

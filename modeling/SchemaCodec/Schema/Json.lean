import SchemaCodec.Json.Value
import SchemaCodec.Schema.Basic
import SchemaCodec.Schema.Settings

/-!
# Schemas as JSON

The JSON value of each part of a schema, with all keys in the order of declaration; what is absent
is null, and a type is its canonical text.
-/

namespace SchemaCodec

open Json (Value)

def Ty.toJson (t : Ty) : Value :=
  .string t.toText

def Kind.toJson (k : Kind) : Value :=
  .string k.toText

def Deprecation.toJson (d : Deprecation) : Value :=
  .object [("reason", .ofOption .string d.reason)]

def Field.toJson (f : Field) : Value :=
  .object [
    ("name", .string f.name),
    ("type", f.ty.toJson),
    ("value", .number f.value.toNat),
    ("deprecated", .ofOption Deprecation.toJson f.deprecated),
    ("doc", .ofOption .string f.doc)]

def Definition.toJson (d : Definition) : Value :=
  .object [
    ("name", .string d.name),
    ("kind", d.kind.toJson),
    ("fields", .array (d.fields.map Field.toJson)),
    ("doc", .ofOption .string d.doc),
    ("opcode", .ofOption (fun n => .number n.toNat) d.opcode),
    ("readonly", .boolean d.readonly)]

/-- A schema file with a namespace and a list of definitions. -/
def Schema.fileJson (scope : Option String) (ds : List Definition) : Value :=
  .object [
    ("namespace", .ofOption .string scope),
    ("definitions", .array (ds.map Definition.toJson))]

def Settings.toJson (s : Settings) : Value :=
  .object [
    ("runtime_path", .string s.runtimePath),
    ("emit_docs", .boolean s.emitDocs),
    ("wrap_namespace", .boolean s.wrapScope)]

end SchemaCodec

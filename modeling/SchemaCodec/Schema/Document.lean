import SchemaCodec.Document.Basic
import SchemaCodec.Schema.Basic
import SchemaCodec.Schema.Settings

/-!
# Schemas in documents

How definitions, whole schema files and settings are written down, for any document format.
-/

namespace SchemaCodec

variable {m : Type → Type} [Document m]

def Ty.read : m Ty := do
  let s ← Document.text
  match Ty.ofText? s with
  | .ok t => return t
  | .error fault => Document.fail (.badType s fault)

def Kind.read : m Kind :=
  Document.variant [("enum", .enum), ("struct", .struct), ("message", .message)]

def Deprecation.shape : RecordShape m Deprecation where
  name := "Deprecation"
  required := 0
  slots := [⟨"reason", fun d => return { d with reason := ← Document.optional Document.text }⟩]

def Deprecation.read : m Deprecation :=
  Document.record shape {}

def Field.shape : RecordShape m Field where
  name := "Field"
  required := 1
  slots := [
    ⟨"name", fun f => return { f with name := ← Document.text }⟩,
    ⟨"type", fun f => return { f with ty := ← Ty.read }⟩,
    ⟨"value", fun f => return { f with value := ← Document.word }⟩,
    ⟨"deprecated", fun f => return { f with deprecated := ← Document.optional Deprecation.read }⟩,
    ⟨"doc", fun f => return { f with doc := ← Document.optional Document.text }⟩]

def Field.read : m Field :=
  Document.record shape { name := "" }

def Definition.shape : RecordShape m Definition where
  name := "Definition"
  required := 2
  slots := [
    ⟨"name", fun d => return { d with name := ← Document.text }⟩,
    ⟨"kind", fun d => return { d with kind := ← Kind.read }⟩,
    ⟨"fields", fun d => return { d with fields := ← Document.sequence Field.read }⟩,
    ⟨"doc", fun d => return { d with doc := ← Document.optional Document.text }⟩,
    ⟨"opcode", fun d => return { d with opcode := ← Document.optional Document.word }⟩,
    ⟨"readonly", fun d => return { d with readonly := ← Document.boolean }⟩]

def Definition.read : m Definition :=
  Document.record shape { name := "", kind := .struct }

/-- What a schema file lists. -/
structure SchemaFile where
  scope : Option String := none
  definitions : List Definition := []

def SchemaFile.shape : RecordShape m SchemaFile where
  name := "SchemaFile"
  required := 0
  slots := [
    ⟨"namespace", fun f => return { f with scope := ← Document.optional Document.text }⟩,
    ⟨"definitions", fun f =>
      return { f with definitions := ← Document.sequence Definition.read }⟩]

def SchemaFile.read : m SchemaFile :=
  Document.record shape {}

def Settings.shape : RecordShape m Settings where
  name := "GeneratorConfig"
  required := 0
  slots := [
    ⟨"runtime_path", fun s => return { s with runtimePath := ← Document.text }⟩,
    ⟨"emit_docs", fun s => return { s with emitDocs := ← Document.boolean }⟩,
    ⟨"wrap_namespace", fun s => return { s with wrapScope := ← Document.boolean }⟩]

def Settings.read : m Settings :=
  Document.record shape {}

/-- The settings of a project file, which stand in a record of their own. -/
def Settings.readProject : m Settings :=
  Document.record {
    name := "ProjectConfig"
    required := 0
    slots := [⟨"generator", fun _ => Settings.read⟩] } {}

end SchemaCodec

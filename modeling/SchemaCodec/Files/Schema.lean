import SchemaCodec.Files.Basic
import SchemaCodec.Schema.Load

/-!
# Schema files

The extension of a schema file says in which format it is; the file is read first.
-/

namespace SchemaCodec.Schema

/-- Reads a schema in the format of an extension. -/
def ofText? (path text : String) : Except SchemaError Schema :=
  match Path.extension? path with
  | some "json" => ofJson? text
  | some "toml" => ofToml? text
  | _ => .error (.unsupportedFormat path)

def ofFile? {m : Type → Type} [Files m] (path : String) : m (Except SchemaError Schema) := do
  match ← Files.readText path with
  | .error e => return .error (.file e)
  | .ok text => return ofText? path text

end SchemaCodec.Schema

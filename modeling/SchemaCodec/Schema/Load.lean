import SchemaCodec.Json.Reader
import SchemaCodec.Schema.Document
import SchemaCodec.Schema.Error
import SchemaCodec.Toml.Reader

/-!
# Loading schemas

A schema file is JSON or TOML, and the end of its name says which. Reading a definition twice is
an error of the schema, not of the document.
-/

namespace SchemaCodec

def SchemaFile.toSchema? (f : SchemaFile) : Except SchemaError Schema :=
  (Schema.ofList? f.scope f.definitions).mapError .duplicate

namespace Schema

def ofJson? (text : String) : Except SchemaError Schema :=
  match Json.Reader.read SchemaFile.read text with
  | .error e => .error (.json e)
  | .ok f => f.toSchema?

def ofToml? (text : String) : Except SchemaError Schema :=
  match Toml.Reader.read SchemaFile.read text with
  | .error e => .error (.toml e)
  | .ok f => f.toSchema?

end Schema

end SchemaCodec

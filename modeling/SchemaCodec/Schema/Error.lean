import SchemaCodec.Decimal.Notation
import SchemaCodec.Document.Error
import SchemaCodec.Files.Error

/-!
# Schema errors

Why there is no schema: the file cannot be read, its text is not a document or not the document of
a schema, its format is unknown, a type expression is wrong, or two definitions share a name.
-/

namespace SchemaCodec

inductive SchemaError
  | file (e : FileError)
  | json (e : DocumentError)
  | toml (e : DocumentError)
  | unsupportedFormat (path : String)
  | badType (expr : String) (fault : Ty.Fault)
  | duplicate (name : String)
  deriving DecidableEq, Repr

/-- JSON documents show floats with an exponent where they get long. -/
def DocumentError.jsonMessage (e : DocumentError) : String :=
  e.message Decimal.scientific

/-- TOML documents never show floats with an exponent. -/
def DocumentError.tomlMessage (e : DocumentError) : String :=
  e.message Decimal.positional

def SchemaError.message : SchemaError → String
  | file e => "I/O error: " ++ e.message
  | json e => "JSON error: " ++ e.jsonMessage
  | toml e => "TOML error: " ++ e.tomlMessage
  | unsupportedFormat path => "unsupported schema format: " ++ path
  | badType expr fault => fault.message expr
  | duplicate name => "duplicate definition: " ++ name

/-- Reads a type expression; a bad one is reported with its whole text. -/
def Ty.ofExpr? (s : String) : Except SchemaError Ty :=
  (ofText? s).mapError (.badType s)

end SchemaCodec

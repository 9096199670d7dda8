import SchemaCodec.Schema.Ty.Parser
import SchemaCodec.Text.Quoted

/-!
# Document errors

Why a document does not describe the value that a reader asked for. `malformed` covers every
violation of the document's own grammar; the other causes are about well-formed content.
-/

namespace SchemaCodec

/-- What a document holds where something else was expected. -/
inductive Found
  | integer (n : Int)
  /-- An integer that needs 128 bits. -/
  | wide (n : Int)
  | float (bits : UInt64)
  | boolean (b : Bool)
  | text (s : String)
  | null
  | map
  | sequence
  deriving DecidableEq, Repr

/-- What a reader asks for. -/
inductive Expected
  | text
  | boolean
  | word
  | sequence
  | unit
  | variantName
  | record (name : String)
  deriving DecidableEq, Repr

inductive DocumentError
  | malformed
  | wrongType (found : Found) (expected : Expected)
  | outOfRange (n : Int) (expected : Expected)
  /-- A sequence ends before the last required slot of a record of `size` slots. -/
  | tooShort (length : Nat) (record : String) (size : Nat)
  | missing (key : String)
  | repeated (key : String)
  | unknownVariant (name : String) (known : List String)
  | badType (expr : String) (fault : Ty.Fault)
  /-- A form that the document format does not allow in this place. -/
  | unsuitable (reason : String)
  deriving DecidableEq, Repr

/-- The wording of a bad type expression. -/
def Ty.Fault.message (fault : Ty.Fault) (expr : String) : String :=
  "invalid type expression `" ++ expr ++ "`: " ++ fault.reason

namespace Found

/-- The text of what was found, given the format's way of writing a float. -/
def message (float : UInt64 → String) : Found → String
  | integer n => "integer `" ++ toString n ++ "`"
  | wide n =>
    let type := if n < 0x80000000000000000000000000000000 then "i128" else "u128"
    "integer `" ++ toString n ++ "` as " ++ type
  | Found.float bits => "floating point `" ++ float bits ++ "`"
  | boolean b => "boolean `" ++ (if b then "true" else "false") ++ "`"
  | text s => "string " ++ Text.quoted s
  | null => "null"
  | map => "map"
  | sequence => "sequence"

end Found

namespace Expected

def message : Expected → String
  | text => "a string"
  | boolean => "a boolean"
  | word => "u32"
  | sequence => "a sequence"
  | unit => "unit"
  | variantName => "variant identifier"
  | record name => "struct " ++ name

end Expected

namespace DocumentError

def isMalformed (e : DocumentError) : Bool :=
  e == malformed

/-- The known variants, as a message lists them. -/
def choices (names : List String) : String :=
  match names.map fun n => "`" ++ n ++ "`" with
  | [] => "there are no variants"
  | [a] => "expected " ++ a
  | [a, b] => "expected " ++ a ++ " or " ++ b
  | all => "expected one of " ++ ", ".intercalate all

def message (float : UInt64 → String) : DocumentError → String
  | malformed => "malformed text"
  | wrongType found expected =>
    "invalid type: " ++ found.message float ++ ", expected " ++ expected.message
  | outOfRange n expected =>
    "invalid value: integer `" ++ toString n ++ "`, expected " ++ expected.message
  | tooShort length record size =>
    "invalid length " ++ toString length ++ ", expected struct " ++ record ++ " with " ++
      toString size ++ " elements"
  | missing key => "missing field `" ++ key ++ "`"
  | repeated key => "duplicate field `" ++ key ++ "`"
  | unknownVariant name known => "unknown variant `" ++ name ++ "`, " ++ choices known
  | badType expr fault => fault.message expr
  | unsuitable reason => reason

end DocumentError

end SchemaCodec

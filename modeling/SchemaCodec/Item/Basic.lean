import SchemaCodec.Schema.Settings
import SchemaCodec.Source.Code
import SchemaCodec.Source.Error

/-!
# What items share

The comments in front of an item, a field or a member, where the settings ask for them; the
constant for an opcode; and the check that no two names become one identifier.
-/

namespace SchemaCodec.Item

/-- The comment for a documentation and a deprecation, which gets a paragraph of its own. -/
def docs (settings : Settings) (doc : Option String) (deprecated : Option Deprecation) :
    List Code :=
  if !settings.emitDocs then []
  else
    (doc.map Code.doc).toList ++
      match deprecated with
      | none => []
      | some d =>
        let paragraph := match d.reason with
          | some reason => "Deprecated: " ++ reason
          | none => "Deprecated."
        (if doc.isSome then [.line "///"] else []) ++ [.doc paragraph]

/-- A number in hexadecimal digits. -/
def hexText (n : UInt32) : String :=
  "0x" ++ String.ofList ((Nat.toDigits 16 n.toNat).map Char.toUpper)

/-- The name of the constant for an opcode. -/
def opcodeName : String := "OPCODE"

def opcodeLine (opcode : UInt32) : Code :=
  .line ("pub const " ++ opcodeName ++ ": u32 = " ++ hexText opcode ++ ";")

/-- The implementation of something for a type, with a single function. -/
def implementation (what type header : String) (body : List Code) : Code :=
  .braces ("impl " ++ what ++ " for " ++ type) [.braces header body]

/-- Refuses the first name whose identifier was seen. The names come with their identifiers, and
the identifiers that were seen with their names. -/
def checkIdentifiers (seen : List (String × String)) :
    (names : List (String × String)) → Except GenerateError Unit
  | [] => .ok ()
  | (name, ident) :: rest =>
    match seen.lookup ident with
    | some first => .error (.duplicateIdentifier ident first name)
    | none => checkIdentifiers ((ident, name) :: seen) rest

/-- What `checkIdentifiers` has seen when only these identifiers are taken. -/
def taken (idents : List String) : List (String × String) :=
  idents.map fun i => (i, i)

end SchemaCodec.Item

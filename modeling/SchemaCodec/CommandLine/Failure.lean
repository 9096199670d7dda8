import SchemaCodec.Schema.Basic
import SchemaCodec.Schema.Error
import SchemaCodec.Source.Error

/-!
# Failures of commands

Why a command fails, as a chain of causes from the outermost to the innermost. The report shows
the first cause and below it the others, with a number if there are several.
-/

namespace SchemaCodec.CommandLine

inductive Failure
  | unreadableSettings (path : String) (e : FileError)
  /-- The settings are not those of a project; they come from a file or were given as text. -/
  | badSettings (path : Option String) (e : DocumentError)
  | badSchema (path : String) (e : SchemaError)
  | dangling (first : Dangling) (count : Nat)
  /-- There is no source to write. -/
  | generation (e : GenerateError)
  /-- There would be no source. -/
  | validation (e : GenerateError)
  | noDirectory (path : String) (e : FileError)
  | unwritable (path : String) (e : FileError)
  deriving DecidableEq, Repr

inductive Cause
  | context (t : String)
  | file (e : FileError)
  | settings (e : DocumentError)
  | schema (e : SchemaError)
  | generate (e : GenerateError)
  deriving DecidableEq, Repr

namespace Cause

def message : Cause → String
  | context t => t
  | file e => e.message
  | settings e => e.tomlMessage
  | schema e => e.message
  | generate e => e.message

/-- The causes of a schema error, beginning with itself. -/
def ofSchemaError (e : SchemaError) : List Cause :=
  match e with
  | .file f => [schema e, file f]
  | _ => [schema e]

/-- The causes of a generation error, beginning with itself. -/
def ofGenerateError : GenerateError → List Cause
  | .inDefinition d e => generate (.inDefinition d e) :: ofGenerateError e
  | e => [generate e]

end Cause

namespace Failure

def chain : Failure → List Cause
  | unreadableSettings path e => [.context ("Failed to read config: " ++ path), .file e]
  | badSettings path e =>
    (path.map fun p => .context ("Invalid config: " ++ p)).toList ++
      [.context "Failed to parse wiregen.toml", .settings e]
  | badSchema path e => .context ("Failed to load schema: " ++ path) :: Cause.ofSchemaError e
  | dangling first count => [.context (
      toString count ++ " unresolved type reference(s); first: " ++ first.definition ++ "." ++
        first.field ++ " refers to '" ++ first.target ++ "'")]
  | generation e => .context "Code generation failed" :: Cause.ofGenerateError e
  | validation e => .context "Schema does not generate" :: Cause.ofGenerateError e
  | noDirectory path e => [.context ("Failed to create directory: " ++ path), .file e]
  | unwritable path e => [.context ("Failed to write " ++ path), .file e]

/-- A text on a line of its own behind a mark; its further lines are indented as far. -/
def indented (mark t : String) : String :=
  let pad := List.replicate mark.length ' '
  "\n" ++ mark ++
    String.ofList (t.toList.flatMap fun c => if c = '\n' then '\n' :: pad else [c])

/-- The text below the first cause. -/
def causesText : List Cause → String
  | [] => ""
  | [c] => "\n\nCaused by:" ++ indented "    " c.message
  | cs => "\n\nCaused by:" ++ String.join (cs.zipIdx.map fun (c, i) =>
      let number := toString i
      indented (String.ofList (List.replicate (5 - number.length) ' ') ++ number ++ ": ") c.message)

def report (f : Failure) : String :=
  match f.chain with
  | [] => ""
  | c :: cs => "Error: " ++ c.message ++ causesText cs ++ "\n"

end Failure

end SchemaCodec.CommandLine

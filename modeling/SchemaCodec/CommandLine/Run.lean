import SchemaCodec.CommandLine.Arguments
import SchemaCodec.CommandLine.Failure
import SchemaCodec.Files.Schema
import SchemaCodec.Generate
import SchemaCodec.Schema.Document
import SchemaCodec.Toml.Reader

/-!
# Commands

`generate` writes the source of a schema to a file, and `check` tells what is in a schema from
which source can be generated. Both load the schema and refuse mentions of missing definitions.
`generate` reads the settings of the project first; they are in the file that is named, or in the
project's own file if there is one. The file system is touched only when there is a source.
-/

namespace SchemaCodec.CommandLine

variable {m : Type → Type} [Files m]

/-- The file with the settings of a project. -/
def projectFile : String := "wiregen.toml"

/-- Reads the settings of a project; the path is that of their file. -/
def settingsOfText? (path : Option String) (text : String) : Except Failure Settings :=
  (Toml.Reader.read Settings.readProject text).mapError (.badSettings path)

def settingsOfFile? (path : String) : m (Except Failure Settings) := do
  match ← Files.readText path with
  | .error e => return .error (.unreadableSettings path e)
  | .ok text => return settingsOfText? (some path) text

/-- The settings in the file that is named, or else in the project's file, or else the default. -/
def resolveSettings? : Option String → m (Except Failure Settings)
  | some path => settingsOfFile? path
  | none => do
    if ← Files.isPresent projectFile then settingsOfFile? projectFile
    else return .ok {}

/-- Refuses a schema that mentions missing definitions. -/
def checkDangling (s : Schema) : Except Failure Schema :=
  match s.dangling with
  | [] => .ok s
  | first :: rest => .error (.dangling first (rest.length + 1))

def loadSchema? (path : String) : m (Except Failure Schema) := do
  return ((← Schema.ofFile? path).mapError (.badSchema path)).bind checkDangling

def render? (s : Schema) (settings : Settings) : Except Failure String :=
  (s.generate settings).mapError .generation

def validate? (s : Schema) : Except Failure Unit :=
  ((s.generate {}).mapError .validation).map fun _ => ()

/-- One line on a definition. -/
def summary (d : Definition) : String :=
  let noun := match d.kind with
    | .enum => "members"
    | .struct | .message => "fields"
  let deprecated := d.fields.countP Field.isDeprecated
  d.kind.toText ++ " " ++ d.name ++ " (" ++ toString d.fields.length ++ " " ++ noun ++ ")" ++
    (if deprecated = 0 then "" else ", " ++ toString deprecated ++ " deprecated") ++
    (match d.opcode with
      | some n => ", opcode " ++ Item.hexText n
      | none => "") ++
    (if d.readonly then ", readonly" else "")

/-- What a command prints, and why it failed if it did. -/
structure Outcome where
  printed : String
  failure : Option Failure := none

namespace Outcome

/-- The outcome of a command that has printed something and then prints more, or fails. -/
def ofResult (printed : String) : Except Failure String → Outcome
  | .ok more => ⟨printed ++ more, none⟩
  | .error e => ⟨printed, some e⟩

/-- What is reported as an error. -/
def reported (o : Outcome) : String :=
  (o.failure.map Failure.report).getD ""

def exitCode (o : Outcome) : UInt32 :=
  if o.failure.isSome then 1 else 0

end Outcome

/-- Makes the directories around a file. -/
def makeParents (path : String) : m (Except Failure Unit) := do
  match Path.parent? path with
  | none | some "" => return .ok ()
  | some p => return (← Files.makeDirectories p).mapError (.noDirectory p)

/-- Writes the output, after making the directories around it. -/
def writeOutput (path text : String) : m (Except Failure Unit) := do
  match ← makeParents path with
  | .error e => return .error e
  | .ok _ => return (← Files.writeText path text).mapError (.unwritable path)

/-- The source to write, with the schema that it comes from. -/
def prepare? (schema : String) (config : Option String) : m (Except Failure (Schema × String)) := do
  match ← resolveSettings? config with
  | .error e => return .error e
  | .ok settings =>
    return (← loadSchema? schema).bind fun s => return (s, ← render? s settings)

def runGenerate (schema output : String) (config : Option String) : m Outcome := do
  match ← prepare? schema config with
  | .error e => return ⟨"", some e⟩
  | .ok (s, text) =>
    return .ofResult "" ((← writeOutput output text).map fun _ =>
      "✓ Generated " ++ toString s.definitions.length ++ " definitions → " ++ output ++ "\n")

/-- What is printed about a schema that is valid. -/
def checkText (s : Schema) : String :=
  String.join (s.definitions.map fun d => "✓ " ++ summary d ++ "\n") ++
    "\nSchema is valid! (" ++ toString s.definitions.length ++ " definitions)\n"

def runCheck (schema : String) : m Outcome := do
  let loaded ← loadSchema? schema
  return .ofResult ("Checking schema: " ++ schema ++ "\n") (loaded.bind fun s =>
    (validate? s).map fun _ => checkText s)

def Command.run : Command → m Outcome
  | generate schema output config => runGenerate schema output config
  | check schema => runCheck schema

end SchemaCodec.CommandLine

/-!
# Arguments

The words behind the program's name: one of two commands with its options. An option has a short
and a long form. The value of a short one may follow it directly or behind an equals sign, that of
a long one behind an equals sign, and both may be the next word, unless that begins with a dash
and is longer. Values are not empty and options with values are given once. How much is logged is
told by the number of times that the option for it is given, before or after the command.

The first word that is wrong or asks for help ends the reading.
-/

namespace SchemaCodec.CommandLine

inductive Command
  | generate (schema output : String) (config : Option String)
  | check (schema : String)
  deriving DecidableEq, Repr

structure Invocation where
  verbosity : Nat
  command : Command
  deriving DecidableEq, Repr

/-- Why there is no command to run. -/
inductive Stop
  | usage
  | help
  | version
  deriving DecidableEq, Repr

/-- What a flag does, or which option wants a value. -/
inductive Switch
  | verbose
  | help
  | version
  | schema
  | output
  | config
  deriving DecidableEq, Repr

namespace Stop

def usageText : String :=
  "error: the arguments are not those of a command\n\nFor more information, try '--help'.\n"

def helpText : String :=
  "Schema-driven binary codec generator\n\n" ++
  "Usage: wiregen [OPTIONS] <COMMAND>\n\n" ++
  "Commands:\n" ++
  "  generate  Generate Rust codecs from a schema\n" ++
  "  check     Validate a schema and print a per-definition summary\n\n" ++
  "Options:\n" ++
  "  -s, --schema <SCHEMA>  Schema file (.json or .toml)\n" ++
  "  -o, --output <OUTPUT>  Output path for the generated Rust source\n" ++
  "  -c, --config <CONFIG>  Path to wiregen.toml (default: ./wiregen.toml if present)\n" ++
  "  -v, --verbose...       Increase log verbosity (-v debug, -vv trace)\n" ++
  "  -h, --help             Print help\n" ++
  "  -V, --version          Print version\n"

def versionText : String := "wiregen 0.3.0\n"

/-- What is printed; nothing where the arguments are wrong. -/
def printed : Stop → String
  | usage => ""
  | help => helpText
  | version => versionText

/-- What is reported as an error. -/
def reported : Stop → String
  | usage => usageText
  | help | version => ""

def exitCode : Stop → UInt32
  | usage => 2
  | help | version => 0

end Stop

inductive CommandName
  | generate
  | check
  deriving DecidableEq, Repr

namespace Switch

def takesValue : Switch → Bool
  | schema | output | config => true
  | verbose | help | version => false

def short : Switch → Char
  | verbose => 'v'
  | help => 'h'
  | version => 'V'
  | schema => 's'
  | output => 'o'
  | config => 'c'

def long : Switch → String
  | verbose => "verbose"
  | help => "help"
  | version => "version"
  | schema => "schema"
  | output => "output"
  | config => "config"

/-- The switches before the command, and those of a command. -/
def available : Option CommandName → List Switch
  | none => [verbose, help, version]
  | some .generate => [schema, output, config, verbose, help]
  | some .check => [schema, verbose, help]

end Switch

/-- What was given so far. -/
structure Given where
  command : Option CommandName := none
  verbosity : Nat := 0
  values : List (Switch × String) := []

namespace Given

def switches (g : Given) : List Switch :=
  Switch.available g.command

/-- Takes the value of an option. -/
def setValue (g : Given) (s : Switch) (value : String) : Except Stop Given :=
  if value.isEmpty || g.values.any (·.1 == s) then .error .usage
  else .ok { g with values := (s, value) :: g.values }

/-- Does what a flag asks for. -/
def apply (g : Given) : Switch → Except Stop Given
  | .verbose => .ok { g with verbosity := g.verbosity + 1 }
  | .help => .error .help
  | .version => .error .version
  | _ => .error .usage

/-- Takes the short switches of a word; the option that still wants a value comes with what was
given. -/
def short (g : Given) : List Char → Except Stop (Given × Option Switch)
  | [] => .ok (g, none)
  | c :: rest =>
    match g.switches.find? (·.short == c) with
    | none => .error .usage
    | some s =>
      if s.takesValue then
        match rest with
        | [] => .ok (g, some s)
        | '=' :: value => return (← g.setValue s (String.ofList value), none)
        | value => return (← g.setValue s (String.ofList value), none)
      else
        match g.apply s with
        | .error e => .error e
        | .ok g => short g rest

/-- Takes a long switch, with what follows the equals sign. -/
def long (g : Given) (name : String) (value : Option String) :
    Except Stop (Given × Option Switch) :=
  match g.switches.find? (·.long == name), value with
  | none, _ => .error .usage
  | some s, some v => if s.takesValue then return (← g.setValue s v, none) else .error .usage
  | some s, none => if s.takesValue then .ok (g, some s) else return (← g.apply s, none)

/-- The name of a long switch and its value. -/
def splitValue (word : List Char) : String × Option String :=
  let name := String.ofList (word.takeWhile (· != '='))
  match word.dropWhile (· != '=') with
  | [] => (name, none)
  | _ :: value => (name, some (String.ofList value))

/-- Takes a word that begins with a dash and goes on, which follows here. -/
def dashed (g : Given) : List Char → Except Stop (Given × Option Switch)
  | '-' :: word =>
    let (name, value) := splitValue word
    g.long name value
  | word => g.short word

/-- Takes a word that no option waits for. -/
def bare (g : Given) (word : String) : Except Stop Given :=
  match g.command, word with
  | none, "generate" => .ok { g with command := some .generate }
  | none, "check" => .ok { g with command := some .check }
  | _, _ => .error .usage

def value? (g : Given) (s : Switch) : Except Stop String :=
  match g.values.lookup s with
  | some v => .ok v
  | none => .error .usage

/-- The command with its options, when all words are taken. -/
def finish (g : Given) : Except Stop Invocation :=
  match g.command with
  | none => .error .usage
  | some .generate => do
    let schema ← g.value? .schema
    let output ← g.value? .output
    return ⟨g.verbosity, .generate schema output (g.values.lookup .config)⟩
  | some .check => return ⟨g.verbosity, .check (← g.value? .schema)⟩

end Given

/-- The words after the one that asks for help on a command. -/
def helpOn : List String → Stop
  | [] | "generate" :: [] | "check" :: [] | "help" :: [] => .help
  | _ => .usage

/-- Takes the words in order; an option may wait for its value. Two dashes end the switches, and
no command takes other words. -/
def readWords (g : Given) (waiting : Option Switch) : List String → Except Stop Given
  | [] => if waiting.isSome then .error .usage else .ok g
  | word :: words =>
    match waiting, word.toList with
    | some _, '-' :: _ :: _ => .error .usage
    | some s, _ => do readWords (← g.setValue s word) none words
    | none, ['-', '-'] => if words.isEmpty then .ok g else .error .usage
    | none, '-' :: c :: cs => do
      let (g, waiting) ← g.dashed (c :: cs)
      readWords g waiting words
    | none, _ =>
      if g.command.isNone && word = "help" then .error (helpOn words)
      else do readWords (← g.bare word) none words

def parse (words : List String) : Except Stop Invocation := do
  (← readWords {} none words).finish

end SchemaCodec.CommandLine

import SchemaCodec.CommandLine.Run

/-!
# The program

Runs the command that the arguments ask for on the files of the machine.
-/

namespace SchemaCodec.Main

open CommandLine

/-- Whether a system call gave this error; some of them give it with a minus sign. -/
def isCode (code error : UInt32) : Bool :=
  code == error || code == 0 - error

def fileError : IO.Error → FileError
  | .noFileOrDirectory _ _ _ => .notFound
  | .alreadyExists _ _ _ => .exists
  | .inappropriateType file code details =>
    if isCode code 20 then .notADirectory
    else if isCode code 21 then .isADirectory
    else .other (toString (IO.Error.inappropriateType file code details))
  | e => .other (toString e)

/-- The outcome of an action, with its error as a value. -/
def attempt {α : Type} (x : IO α) : IO (Except FileError α) := do
  try return .ok (← x)
  catch e => return .error (fileError e)

/-- Whether a file or directory can be opened, or is refused although it is there. -/
def canOpen (path : String) : IO Bool := do
  match ← attempt (IO.FS.Handle.mk path .read) with
  | .error .notFound => return false
  | .error .notADirectory => return false
  | _ => return true

def readText (path : String) : IO (Except FileError String) := do
  match ← attempt (IO.FS.readBinFile path) with
  | .error e => return .error e
  | .ok bytes =>
    match String.fromUTF8? bytes with
    | some s => return .ok s
    | none => return .error .notText

instance : Files IO where
  readText := readText
  isPresent := canOpen
  isDirectory path := canOpen (path ++ "/.")
  makeDirectory path := attempt (IO.FS.createDir path)
  writeText path text := attempt (IO.FS.writeFile path text)

def run (arguments : List String) : IO UInt32 :=
  match parse arguments with
  | .error s => do
    IO.print s.printed
    IO.eprint s.reported
    return s.exitCode
  | .ok invocation => do
    let outcome ← invocation.command.run
    IO.print outcome.printed
    IO.eprint outcome.reported
    return outcome.exitCode

end SchemaCodec.Main

def main (arguments : List String) : IO UInt32 :=
  SchemaCodec.Main.run arguments

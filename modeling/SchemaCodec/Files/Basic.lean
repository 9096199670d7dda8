import SchemaCodec.Files.Error
import SchemaCodec.Files.Path

/-!
# File systems

What a command needs from a file system. A directory is made with all the directories around it
that are missing; that it is there already is no error.
-/

namespace SchemaCodec

class Files (m : Type → Type) extends Monad m where
  readText : String → m (Except FileError String)
  isPresent : String → m Bool
  isDirectory : String → m Bool
  makeDirectory : String → m (Except FileError Unit)
  writeText : String → String → m (Except FileError Unit)

namespace Files

variable {m : Type → Type} [Files m]

/-- Makes a directory whose parent is there. -/
def ensureDirectory (path : String) : m (Except FileError Unit) := do
  match ← makeDirectory path with
  | .ok _ => return .ok ()
  | .error e => if ← isDirectory path then return .ok () else return .error e

/-- Makes a directory and those around it, going up so many steps at most. -/
def makeDirectoriesUp : (steps : Nat) → String → m (Except FileError Unit)
  | 0, path => ensureDirectory path
  | steps + 1, path => do
    match ← ensureDirectory path with
    | .error .notFound =>
      match Path.parent? path with
      | none | some "" => return .error .notFound
      | some p => do
        match ← makeDirectoriesUp steps p with
        | .error e => return .error e
        | .ok _ => ensureDirectory path
    | r => return r

/-- Makes a directory and those around it; a path of `n` characters has at most `n` parents. -/
def makeDirectories (path : String) : m (Except FileError Unit) :=
  makeDirectoriesUp path.length path

end Files

end SchemaCodec

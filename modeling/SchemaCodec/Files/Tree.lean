import SchemaCodec.Files.Basic
import SchemaCodec.Wire.Bytes

/-!
# File trees

A file system as a value: files and directories, each under the names that lead to it from the
root, and one directory to work in. A path that begins with a slash is followed from the root, any
other from the working directory. Two dots lead to the directory around the one that was reached,
also out of the working directory; around the root is the root. The working directory and all
directories around it are there, whatever else is in the tree.

There are no links, every directory can be searched and every file be read and written, and there
is room for all of them.
-/

namespace SchemaCodec

inductive FileNode
  | file (bytes : Bytes)
  | directory
  deriving DecidableEq

structure FileTree where
  /-- The names that lead to the working directory. -/
  working : List String
  entries : List (List String × FileNode) := []

namespace FileTree

/-- A tree without files, in which someone works in a directory of the root. -/
def empty : FileTree where
  working := ["project"]

/-- What lies at a place. -/
def get? (t : FileTree) (place : List String) : Option FileNode :=
  if place <+: t.working then some .directory else t.entries.lookup place

/-- Puts something at a place, over what was there. -/
def set (t : FileTree) (place : List String) (node : FileNode) : FileTree :=
  { t with entries := (place, node) :: t.entries.filter (·.1 != place) }

theorem get?_of_prefix (t : FileTree) {place : List String} (h : place <+: t.working) :
    t.get? place = some .directory :=
  if_pos h

theorem get?_set_self (t : FileTree) {place : List String} (node : FileNode)
    (h : ¬ place <+: t.working) : (t.set place node).get? place = some node := by
  simp [get?, set, h]

theorem get?_set_of_ne (t : FileTree) {place other : List String} (node : FileNode)
    (h : other ≠ place) : (t.set place node).get? other = t.get? other := by
  have hb : (other == place) = false := by simpa using h
  have hl : (t.entries.filter (·.1 != place)).lookup other = t.entries.lookup other := by
    induction t.entries with
    | nil => rfl
    | cons e es ih =>
      rw [List.filter_cons]
      by_cases he : e.1 = place
      · have : (other == e.1) = false := by rw [he]; exact hb
        rw [if_neg (by simp [he]), ih, List.lookup_cons, this]
      · rw [if_pos (by simpa using he), List.lookup_cons, List.lookup_cons, ih]
  simp only [get?, set, List.lookup_cons, hb, hl]

/-- Goes from a place along some names, through directories that exist. -/
def walk (t : FileTree) (place : List String) : List String → Except FileError (List String)
  | [] => .ok place
  | step :: steps =>
    if t.get? place ≠ some .directory then .error .notADirectory
    else if step = "." then walk t place steps
    else if step = ".." then walk t place.dropLast steps
    else if 255 < step.utf8ByteSize then .error .nameTooLong
    else if (t.get? (place ++ [step])).isNone then .error .notFound
    else walk t (place ++ [step]) steps

/-- Where a path begins. -/
def start (t : FileTree) (path : String) : List String :=
  if Path.isRooted path then [] else t.working

/-- The names of a path, if it can lead anywhere. -/
def steps? (path : String) : Except FileError (List String) :=
  if path.toList.contains '\x00' then .error .nulInPath
  else if path.isEmpty then .error .notFound
  else if 4095 < path.utf8ByteSize then .error .nameTooLong
  else .ok (Path.steps path)

/-- The place that a path leads to. -/
def find? (t : FileTree) (path : String) : Except FileError (List String) := do
  t.walk (t.start path) (← steps? path)

/-- The place at the end of some names, which need not exist; names that end in dots lead to a
directory that does. -/
def slot? (t : FileTree) (start steps : List String) : Except FileError (List String) := do
  match steps.getLast? with
  | none | some "." | some ".." => t.walk start steps
  | some name =>
    let place ← t.walk start steps.dropLast
    if t.get? place ≠ some .directory then throw .notADirectory
    if 255 < name.utf8ByteSize then throw .nameTooLong
    return place ++ [name]

/-- The bytes of a file. -/
def readBytes? (t : FileTree) (path : String) : Except FileError Bytes := do
  match t.get? (← t.find? path) with
  | some (.file bytes) => return bytes
  | _ => throw .isADirectory

def readText? (t : FileTree) (path : String) : Except FileError String := do
  match String.fromUTF8? ⟨← t.readBytes? path⟩ with
  | some s => return s
  | none => throw .notText

def isDirectory (t : FileTree) (path : String) : Bool :=
  match t.find? path with
  | .ok place => t.get? place == some .directory
  | .error _ => false

def makeDirectory? (t : FileTree) (path : String) : Except FileError FileTree := do
  let steps ← steps? path
  let place ← t.slot? (t.start path) (if Path.endsInSlash path then steps.dropLast else steps)
  if (t.get? place).isSome then throw .exists
  return t.set place .directory

/-- Writes a file, over what it held; a slash at the end of the path asks for a directory. -/
def write? (t : FileTree) (path : String) (bytes : Bytes) : Except FileError FileTree := do
  let steps ← steps? path
  if Path.endsInSlash path then
    let _ ← t.walk (t.start path) steps.dropLast.dropLast
    throw .isADirectory
  let place ← t.slot? (t.start path) steps
  if t.get? place = some .directory then throw .isADirectory
  return t.set place (.file bytes)

/-- The tree after an operation, which a failing one leaves as it was. -/
def update (f : FileTree → Except FileError FileTree) : StateM FileTree (Except FileError Unit) :=
  fun t =>
    match f t with
    | .ok t' => (.ok (), t')
    | .error e => (.error e, t)

instance : Files (StateM FileTree) where
  readText path := return (← get).readText? path
  isPresent path := return (← get).find? path |>.isOk
  isDirectory path := return (← get).isDirectory path
  makeDirectory path := update (·.makeDirectory? path)
  writeText path text := update (·.write? path text.toUTF8.data)

end FileTree

end SchemaCodec

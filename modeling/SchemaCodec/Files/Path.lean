/-!
# Paths

A path is a text of names between slashes. Slashes and single dots at its end do not count for
its last name and its parent, which are parts of the text. A name has an extension if there is a
dot in it that is not its first character; the last dot decides.
-/

namespace SchemaCodec.Path

/-- A path, read backwards, without the slashes and single dots that it ends in. -/
def dropTail : List Char → List Char
  | '/' :: rest => dropTail rest
  | '.' :: '/' :: rest => dropTail rest
  | s => s

def notSlash (c : Char) : Bool :=
  c != '/'

/-- Whether a path begins at the root. -/
def isRooted (path : String) : Bool :=
  path.toList.head? == some '/'

def endsInSlash (path : String) : Bool :=
  path.toList.getLast? == some '/'

/-- The last name of a path, read backwards. -/
def lastName (path : String) : List Char :=
  (dropTail path.toList.reverse).takeWhile notSlash

/-- A path, read backwards, up to its last name. -/
def beforeName (s : List Char) : List Char :=
  (dropTail s).dropWhile notSlash

/-- The path of the directory that a path lies in, which is empty for a single name. The root and
the empty path have none. -/
def parent? (path : String) : Option String :=
  let s := path.toList.reverse
  if (dropTail s).isEmpty then none
  else
    let p := dropTail (beforeName s)
    if p.isEmpty && isRooted path then some "/" else some (String.ofList p.reverse)

/-- What follows the last dot of the last name, if that dot is not its first character. -/
def extension? (path : String) : Option String :=
  let name := lastName path
  if name = ['.', '.'] then none
  else
    match name.dropWhile (· != '.') with
    | '.' :: _ :: _ => some (String.ofList (name.takeWhile (· != '.')).reverse)
    | _ => none

/-- The texts between slashes, behind a first one, which is read backwards so far. -/
def splitSlashes (name : List Char) : List Char → List (List Char)
  | [] => [name.reverse]
  | c :: rest =>
    if c = '/' then name.reverse :: splitSlashes [] rest else splitSlashes (c :: name) rest

/-- The names that are looked up one after the other; a slash at the end asks for a directory, as
a single dot does. -/
def steps (path : String) : List String :=
  ((splitSlashes [] path.toList).filter (!·.isEmpty)).map String.ofList ++
    if endsInSlash path then ["."] else []

end SchemaCodec.Path

/-!
# Settings

What a user can choose about the generated source.
-/

namespace SchemaCodec

structure Settings where
  /-- The path by which the generated source reaches the library it relies on. -/
  runtimePath : String := "::wiregen_runtime"
  emitDocs : Bool := true
  /-- Whether the source of a schema with a namespace goes into a module of that name. -/
  wrapScope : Bool := true
  deriving DecidableEq, Repr

namespace Settings

/-- A path, read backwards, without the separators at its end. -/
def dropSeparators : List Char → List Char
  | ':' :: ':' :: rest => dropSeparators rest
  | s => s

/-- The path without the separators at its end. -/
def runtime (s : Settings) : String :=
  String.ofList (dropSeparators s.runtimePath.toList.reverse).reverse

end Settings

end SchemaCodec

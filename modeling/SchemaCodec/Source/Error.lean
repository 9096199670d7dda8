import SchemaCodec.Schema.Definition

/-!
# Generation errors

Why there is no source for a schema: a type is missing, a tag, member, key or field is not allowed,
or two names become one identifier. An error can carry the definitions it was found in.
-/

namespace SchemaCodec

inductive GenerateError
  | unresolvedType (name : String)
  | invalidTag (field : String) (tag : UInt32)
  | duplicateTag (field : String) (tag : UInt32)
  | invalidEnumMember (member : String) (ty : Ty)
  | unsupportedMapKey (ty : Ty)
  | selfNestingStruct (field : String) (ty : Ty)
  | duplicateIdentifier (ident first second : String)
  | wrongKind (name : String) (kind expected : Kind)
  | unknownDefinition (name : String)
  | inDefinition (definition : String) (cause : GenerateError)
  deriving DecidableEq, Repr

namespace GenerateError

def message : GenerateError → String
  | unresolvedType name => "unresolved type '" ++ name ++ "'"
  | invalidTag field tag =>
    "field '" ++ field ++ "' has tag " ++ toString tag.toNat ++
      "; message tags must be within 1..=255"
  | duplicateTag field tag => "field '" ++ field ++ "' reuses tag " ++ toString tag.toNat
  | invalidEnumMember member ty =>
    "enum member '" ++ member ++ "' has type '" ++ ty.toText ++ "'; enum members are uint32"
  | unsupportedMapKey ty => "'" ++ ty.toText ++ "' cannot be used as a map key"
  | selfNestingStruct field ty =>
    "struct field '" ++ field ++ "' of type '" ++ ty.toText ++
      "' contains the struct itself by value"
  | duplicateIdentifier ident first second =>
    "'" ++ first ++ "' and '" ++ second ++ "' both map to the Rust identifier '" ++ ident ++ "'"
  | wrongKind name kind expected =>
    "'" ++ name ++ "' is a " ++ kind.toText ++ ", expected a " ++ expected.toText
  | unknownDefinition name => "definition '" ++ name ++ "' not found"
  | inDefinition definition cause => "in definition '" ++ definition ++ "': " ++ cause.message

/-- The error itself, without the definitions it was found in. -/
def root : GenerateError → GenerateError
  | inDefinition _ cause => cause.root
  | e => e

end GenerateError

end SchemaCodec

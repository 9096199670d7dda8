import SchemaCodec.Schema.Ty

/-!
# Definitions

A definition is an enum, a struct or a message. Its fields are the members of an enum (each with
a constant), the fields of a struct (in wire order), or the fields of a message (each with a
tag). Constants and tags share the component `value`.
-/

namespace SchemaCodec

inductive Kind
  | enum
  | struct
  | message
  deriving DecidableEq, Repr

namespace Kind

def toText : Kind → String
  | enum => "enum"
  | struct => "struct"
  | message => "message"

instance : ToString Kind := ⟨toText⟩

/-- Structs and messages have values with fields of their own. -/
def isAggregate : Kind → Bool
  | enum => false
  | struct | message => true

end Kind

structure Deprecation where
  reason : Option String := none
  deriving DecidableEq, Repr, Inhabited

/-- A field or member. A struct ignores `value`, and an enum asks for the type `uint32`. -/
structure Field where
  name : String
  ty : Ty := .scalar .uint32
  value : UInt32 := 0
  deprecated : Option Deprecation := none
  doc : Option String := none
  deriving DecidableEq, Repr

def Field.isDeprecated (f : Field) : Bool :=
  f.deprecated.isSome

structure Definition where
  name : String
  kind : Kind
  fields : List Field := []
  doc : Option String := none
  opcode : Option UInt32 := none
  readonly : Bool := false
  deriving DecidableEq, Repr

namespace Definition

/-- The first field with a tag. -/
def fieldByTag? (d : Definition) (tag : UInt32) : Option Field :=
  d.fields.find? (·.value == tag)

/-- The first definition with a name. -/
def byName? (ds : List Definition) (name : String) : Option Definition :=
  ds.find? (·.name == name)

/-- The definitions that have another name. -/
def without (ds : List Definition) (name : String) : List Definition :=
  ds.filter (·.name != name)

theorem length_without_lt {ds : List Definition} {name : String} {d : Definition}
    (h : byName? ds name = some d) : (without ds name).length < ds.length := by
  have hd := List.find?_some h
  refine List.length_filter_lt_length_iff_exists.2 ⟨d, List.mem_of_find?_eq_some h, ?_⟩
  simp_all

end Definition

end SchemaCodec

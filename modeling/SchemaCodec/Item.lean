import SchemaCodec.Item.Enum
import SchemaCodec.Item.Record

/-!
# Items

What a definition becomes in the generated source.
-/

namespace SchemaCodec

inductive Item
  | enum (e : EnumItem)
  | record (r : RecordItem)
  deriving DecidableEq, Repr

namespace Item

def ofDefinition? (t : Target) (d : Definition) : Except GenerateError Item :=
  match d.kind with
  | .enum => return enum (← EnumItem.ofDefinition? d)
  | .struct | .message => return record (← RecordItem.ofDefinition? t d)

def definition : Item → Definition
  | enum e => e.definition
  | record r => r.definition

def constants : Item → List (String × UInt32)
  | enum e => e.constants
  | record r => r.constants

def code (settings : Settings) (runtime : String) : Item → List Code
  | enum e => e.code settings
  | record r => r.code settings runtime

end Item

end SchemaCodec

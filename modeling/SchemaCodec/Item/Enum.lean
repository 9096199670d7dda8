import SchemaCodec.Item.Basic
import SchemaCodec.Source.Identifier
import SchemaCodec.Text.Quoted

/-!
# Enums

An enum becomes a number with a constant for each member, so values without a member survive. The
name of a value is that of its first member; a later member with the same value has a constant
and no arm of its own.
-/

namespace SchemaCodec

structure EnumItem where
  definition : Definition
  ident : String
  /-- The members with the names of their constants. -/
  members : List (Field × String)
  deriving DecidableEq, Repr

namespace EnumItem

/-- Refuses the first member with a type other than the one members have. -/
def checkMembers (d : Definition) : Except GenerateError Unit :=
  match d.fields.find? (·.ty != .scalar .uint32) with
  | some f => .error (.invalidEnumMember f.name f.ty)
  | none => .ok ()

def ofDefinition? (d : Definition) : Except GenerateError EnumItem := do
  checkMembers d
  let members := d.fields.map fun f => (f, Identifier.ofConstant f.name)
  Item.checkIdentifiers (Item.taken (d.opcode.map fun _ => Item.opcodeName).toList)
    (members.map fun m => (m.1.name, m.2))
  return ⟨d, Identifier.ofType d.name, members⟩

/-- Values with their names, where a value that was seen has no entry of its own. -/
def armsFrom (seen : List UInt32) : List Field → List (UInt32 × String)
  | [] => []
  | f :: fs =>
    if f.value ∈ seen then armsFrom seen fs
    else (f.value, f.name) :: armsFrom (f.value :: seen) fs

/-- The arms that tell the name of a value. -/
def arms (e : EnumItem) : List (UInt32 × String) :=
  armsFrom [] (e.members.map (·.1))

/-- The name of the member with a value. -/
def name? (e : EnumItem) (value : UInt32) : Option String :=
  e.arms.lookup value

/-- The constants of the type, by name. -/
def constants (e : EnumItem) : List (String × UInt32) :=
  (e.definition.opcode.map fun n => (Item.opcodeName, n)).toList ++
    e.members.map fun m => (m.2, m.1.value)

def armCode (arm : UInt32 × String) : Code :=
  .line (toString arm.1.toNat ++ " => ::core::option::Option::Some(" ++ Text.quoted arm.2 ++ "),")

def nameCode (e : EnumItem) : Code :=
  .braces "pub fn name(self) -> ::core::option::Option<&'static str>" [
    .braces "match self.0" (
      e.arms.map armCode ++ [.line "_ => ::core::option::Option::None,"])]

def memberCode (settings : Settings) (m : Field × String) : List Code :=
  Item.docs settings m.1.doc m.1.deprecated ++
    [.line ("pub const " ++ m.2 ++ ": Self = Self(" ++ toString m.1.value.toNat ++ ");")]

def code (settings : Settings) (e : EnumItem) : List Code :=
  Item.docs settings e.definition.doc none ++ [
    .line "#[derive(Debug, Clone, Copy, PartialEq, Eq, Hash, PartialOrd, Ord, Default)]",
    .line ("pub struct " ++ e.ident ++ "(pub u32);"),
    .blank,
    .braces ("impl " ++ e.ident) (
      (match e.definition.opcode with
        | some opcode => [Item.opcodeLine opcode, .blank]
        | none => []) ++
      e.members.flatMap (memberCode settings) ++
      (if e.members.isEmpty then [] else [.blank]) ++
      [.line "/// Schema name of the member with this value, if any", e.nameCode]),
    .blank,
    Item.implementation "::core::convert::From<u32>" e.ident "fn from(value: u32) -> Self"
      [.line "Self(value)"],
    .blank,
    Item.implementation ("::core::convert::From<" ++ e.ident ++ ">") "u32"
      ("fn from(value: " ++ e.ident ++ ") -> Self") [.line "value.0"]]

end EnumItem

end SchemaCodec

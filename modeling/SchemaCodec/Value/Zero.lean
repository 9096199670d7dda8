import SchemaCodec.Schema.Basic
import SchemaCodec.Value.Basic

/-!
# Zero values

The value that a type starts with: zero, nothing, or a struct of such values; a message has no
field.
-/

namespace SchemaCodec

def Scalar.zero : Scalar → Atom
  | bool => .bool false
  | byte => .byte 0
  | uint16 => .uint16 0
  | int16 => .int16 0
  | uint32 => .uint32 0
  | int32 => .int32 0
  | uint64 => .uint64 0
  | int64 => .int64 0
  | float32 => .float32 0
  | float64 => .float64 0
  | string => .string ""
  | guid => .guid .nil
  | date => .date ⟨0⟩

namespace Schema

/-- The zero of a type, where `closed` are the definitions around which it does not lie. -/
def zeroWithin (closed : List Definition) : Ty → Value
  | .scalar s => .atom s.zero
  | .array _ => .array []
  | .map _ _ => .map []
  | .defined name =>
    match _h : Definition.byName? closed name with
    | none => .struct []
    | some d =>
      match d.kind with
      | .enum => .atom (.enum 0)
      | .message => .message (d.fields.map fun _ => none)
      | .struct => .struct (d.fields.map fun f => zeroWithin (Definition.without closed name) f.ty)
termination_by closed.length
decreasing_by exact Definition.length_without_lt _h

theorem zeroWithin_defined (closed : List Definition) (name : String) :
    zeroWithin closed (.defined name) = match Definition.byName? closed name with
      | none => .struct []
      | some d => match d.kind with
        | .enum => .atom (.enum 0)
        | .message => .message (d.fields.map fun _ => none)
        | .struct =>
          .struct (d.fields.map fun f => zeroWithin (Definition.without closed name) f.ty) := by
  rw [zeroWithin]
  split
  · rename_i h
    rw [h]
  · rename_i h
    rw [h]

def zero (s : Schema) (t : Ty) : Value :=
  zeroWithin s.definitions t

end Schema

end SchemaCodec

import SchemaCodec.Schema.Basic

/-!
# Smallest sizes

The fewest bytes that a value of a type takes on the wire. Arrays, maps and enums take a number of
four bytes, a message its length and its terminator, and a struct the sum of its fields; only
structs without content take none. A definition that is missing counts nothing, and so does a
struct inside itself, of which there is no value.
-/

namespace SchemaCodec

/-- A length, a count or the number of an enum. -/
def lengthSize : Nat := 4

/-- The length of a message and the terminator in it. -/
def emptyMessageSize : Nat := lengthSize + 1

namespace Schema

/-- The smallest size of a type, where `closed` are the definitions that are not being measured
already. -/
def sizeWithin (closed : List Definition) : Ty → Nat
  | .scalar s => s.wireSize
  | .array _ => lengthSize
  | .map _ _ => lengthSize
  | .defined name =>
    match _h : Definition.byName? closed name with
    | none => 0
    | some d =>
      match d.kind with
      | .enum => lengthSize
      | .message => emptyMessageSize
      | .struct =>
        d.fields.foldr (fun f size => sizeWithin (Definition.without closed name) f.ty + size) 0
termination_by closed.length
decreasing_by exact Definition.length_without_lt _h

theorem sizeWithin_defined (closed : List Definition) (name : String) :
    sizeWithin closed (.defined name) = match Definition.byName? closed name with
      | none => 0
      | some d => match d.kind with
        | .enum => lengthSize
        | .message => emptyMessageSize
        | .struct =>
          d.fields.foldr (fun f n => sizeWithin (Definition.without closed name) f.ty + n) 0 := by
  rw [sizeWithin]
  split
  · rename_i h
    rw [h]
  · rename_i h
    rw [h]

def minWireSize (s : Schema) (t : Ty) : Nat :=
  sizeWithin s.definitions t

end Schema

end SchemaCodec

import SchemaCodec.Wire.Date
import SchemaCodec.Wire.Guid

/-!
# Values

A value has no parts, or is an array, a map, a struct or a message. The fields of structs and
messages stand in the order of the definition, and those of a message may be absent. Floats are
their bits. The entries of a map have different keys.
-/

namespace SchemaCodec

/-- A scalar, or the number of an enum. -/
inductive Atom
  | bool (x : Bool)
  | byte (x : UInt8)
  | uint16 (x : UInt16)
  | int16 (x : Int16)
  | uint32 (x : UInt32)
  | int32 (x : Int32)
  | uint64 (x : UInt64)
  | int64 (x : Int64)
  | float32 (bits : UInt32)
  | float64 (bits : UInt64)
  | string (x : String)
  | guid (x : Guid)
  | date (x : Date)
  | enum (number : UInt32)
  deriving DecidableEq, Inhabited

inductive Value
  | atom (a : Atom)
  | array (items : List Value)
  | map (entries : List (Atom × Value))
  | struct (fields : List Value)
  | message (fields : List (Option Value))
  deriving Inhabited

namespace Value

/-- Sets the value of a key, in its place or else at the end. -/
def insertEntry (k : Atom) (v : Value) : List (Atom × Value) → List (Atom × Value)
  | [] => [(k, v)]
  | e :: es => if e.1 = k then (k, v) :: es else e :: insertEntry k v es

/-- The map of some entries, where the last of several entries with one key stays. -/
def mapOf (entries : List (Atom × Value)) : Value :=
  map (entries.foldl (fun es e => insertEntry e.1 e.2 es) [])

mutual

/-- How deep values lie in one another. -/
def height : Value → Nat
  | atom _ => 0
  | array items => heightOfAll items + 1
  | map entries => heightOfEntries entries + 1
  | struct fields => heightOfAll fields + 1
  | message fields => heightOfPresent fields + 1

def heightOfAll : List Value → Nat
  | [] => 0
  | v :: vs => max v.height (heightOfAll vs)

def heightOfEntries : List (Atom × Value) → Nat
  | [] => 0
  | (_, v) :: es => max v.height (heightOfEntries es)

def heightOfPresent : List (Option Value) → Nat
  | [] => 0
  | none :: vs => heightOfPresent vs
  | some v :: vs => max v.height (heightOfPresent vs)

end

end Value

end SchemaCodec

import SchemaCodec.Codec.Record
import SchemaCodec.Value.Basic
import SchemaCodec.Wire.Reader
import SchemaCodec.Wire.Writer

/-!
# What the statements do

The effect of encodings on a writer and of decodings on a reader. A statement that calls the codec
of a record gets it as an argument, so each statement runs by its own structure alone.

An encoding writes nothing for a value of another type. Apart from the errors of the input, a
decoding can name a record that does not exist, or run out of the calls and fields it is allowed.
-/

namespace SchemaCodec

namespace Atom

def hasTy : Atom → AtomTy → Bool
  | bool _, .scalar .bool => true
  | byte _, .scalar .byte => true
  | uint16 _, .scalar .uint16 => true
  | int16 _, .scalar .int16 => true
  | uint32 _, .scalar .uint32 => true
  | int32 _, .scalar .int32 => true
  | uint64 _, .scalar .uint64 => true
  | int64 _, .scalar .int64 => true
  | float32 _, .scalar .float32 => true
  | float64 _, .scalar .float64 => true
  | string _, .scalar .string => true
  | guid _, .scalar .guid => true
  | date _, .scalar .date => true
  | enum _, .enum _ => true
  | _, _ => false

def write (w : Writer) : Atom → Writer
  | bool x => w.bool x
  | byte x => w.byte x
  | uint16 x => w.uint16 x
  | int16 x => w.int16 x
  | uint32 x => w.uint32 x
  | int32 x => w.int32 x
  | uint64 x => w.uint64 x
  | int64 x => w.int64 x
  | float32 bits => w.uint32 bits
  | float64 bits => w.uint64 bits
  | string x => w.text x
  | guid x => w.guid x
  | date x => w.date x
  | enum number => w.uint32 number

def read : AtomTy → Read Atom
  | .scalar .bool => return bool (← Reader.bool)
  | .scalar .byte => return byte (← Reader.byte)
  | .scalar .uint16 => return uint16 (← Reader.uint16)
  | .scalar .int16 => return int16 (← Reader.int16)
  | .scalar .uint32 => return uint32 (← Reader.uint32)
  | .scalar .int32 => return int32 (← Reader.int32)
  | .scalar .uint64 => return uint64 (← Reader.uint64)
  | .scalar .int64 => return int64 (← Reader.int64)
  | .scalar .float32 => return float32 (← Reader.uint32)
  | .scalar .float64 => return float64 (← Reader.uint64)
  | .scalar .string => return string (← Reader.text)
  | .scalar .guid => return guid (← Reader.guid)
  | .scalar .date => return date (← Reader.date)
  | .enum _ => return enum (← Reader.uint32)

end Atom

namespace Value

def byte? : Value → Option UInt8
  | atom (.byte x) => some x
  | _ => none

def single? : Value → Option UInt32
  | atom (.float32 bits) => some bits
  | _ => none

def double? : Value → Option UInt64
  | atom (.float64 bits) => some bits
  | _ => none

end Value

def Bulk.write? (w : Writer) (items : List Value) : Bulk → Option Writer
  | bytes => (items.mapM Value.byte?).map w.byteArray
  | singles => (items.mapM Value.single?).map w.singles
  | doubles => (items.mapM Value.double?).map w.doubles

/-- Writes an atom, if it has the type. -/
def Atom.write? (w : Writer) (ty : AtomTy) (a : Atom) : Option Writer :=
  if a.hasTy ty then some (a.write w) else none

/-- The encoder of the records, by name. -/
abbrev EncodeCall := String → Value → Writer → Option Writer

def Encoding.run (call : EncodeCall) : Encoding → Value → Writer → Option Writer
  | atom _ ty, .atom a, w => a.write? w ty
  | bulk _ elements, .array items, w => elements.write? w items
  | record _ name, v, w => call name v w
  | array _ _ element, .array items, w =>
    items.foldlM (fun w v => element.run call v w) (w.length items.length)
  | map _ _ _ key value, .map entries, w =>
    entries.foldlM (fun w e => do value.run call e.2 (← e.1.write? w key))
      (w.length entries.length)
  | _, _, _ => none

namespace RecordEncoding

def runFields (call : EncodeCall) : List (String × Encoding) → List Value → Writer → Option Writer
  | [], [], w => some w
  | (_, e) :: es, v :: vs, w => do runFields call es vs (← e.run call v w)
  | _, _, _ => none

def runTagged (call : EncodeCall) :
    List (Option TaggedEncoding) → List (Option Value) → Writer → Option Writer
  | [], [], w => some w
  | some e :: es, some v :: vs, w => do
    runTagged call es vs (← e.encoding.run call v (w.byte e.tag))
  | _ :: es, _ :: vs, w => runTagged call es vs w
  | _, _, _ => none

/-- A message is written behind room for its length, which is filled in at the end. -/
def run (call : EncodeCall) : RecordEncoding → Value → Writer → Option Writer
  | struct fields, .struct values, w => runFields call fields values w
  | message fields, .message values, w => do
    let (place, w) := w.reserve
    let start := w.size
    let w := (← runTagged call fields values w).byte 0
    w.fill? place (w.size - start)
  | _, _, _ => none

end RecordEncoding

/-- Why decoding ends without a value. -/
inductive Halt
  | failed (e : DecodeError)
  | unknownRecord (name : String)
  | exhausted
  deriving DecidableEq, Repr

abbrev Decode (α : Type) := ExceptT Halt (StateM Reader) α

/-- Reads as a part of decoding. -/
def Decode.ofRead {α : Type} (x : Read α) : Decode α := fun r =>
  match x r with
  | (.ok a, r) => (.ok a, r)
  | (.error e, r) => (.error (.failed e), r)

/-- Decodes a number of times. -/
def Decode.times {α : Type} (x : Decode α) : Nat → Decode (List α)
  | 0 => return []
  | n + 1 => do
    let a ← x
    let as ← times x n
    return a :: as

/-- The decoder of the records, by name. -/
abbrev DecodeCall := String → Decode Value

def Decoding.run (call : DecodeCall) : Decoding → Decode Value
  | atom _ ty => return .atom (← .ofRead (Atom.read ty))
  | bytes _ => return .array ((← .ofRead Reader.byteArray).map fun x => .atom (.byte x))
  | record _ name => call name
  | array _ _ _ _ minSize element => do
    let n ← .ofRead (Reader.count minSize)
    return .array (← Decode.times (element.run call) n)
  | map _ _ _ _ _ _ minSize key value => do
    let n ← .ofRead (Reader.count minSize)
    let entries ← Decode.times (do
      let k ← .ofRead (Atom.read key)
      let v ← value.run call
      return (k, v)) n
    return .mapOf entries

namespace RecordDecoding

def runFields (call : DecodeCall) : List (String × Decoding) → Decode (List Value)
  | [] => return []
  | (_, d) :: ds => do
    let v ← d.run call
    let vs ← runFields call ds
    return v :: vs

/-- Reads fields of a message that ends at `last` into what was read before, until there is a
terminator or an unknown tag. At most `room` tags are read. -/
def runTagged (call : DecodeCall) (fields : List TaggedDecoding) (last : Nat) :
    (room : Nat) → List (Option Value) → Decode (List (Option Value))
  | 0, _ => throw .exhausted
  | room + 1, values => do
    let tag ← .ofRead (Reader.tag last)
    if tag = 0 then return values
    else
      match fields.zipIdx.find? (·.1.tag == tag) with
      | none => do
        .ofRead (Reader.seek last)
        return values
      | some (field, i) => do
        let v ← field.decoding.run call
        runTagged call fields last room (values.set i (some v))

def run (call : DecodeCall) : RecordDecoding → Decode Value
  | struct fields => return .struct (← runFields call fields)
  | message fields => do
    let last ← .ofRead Reader.frameEnd
    let room := last - (← get).pos + 1
    return .message (← runTagged call fields last room (fields.map fun _ => none))

end RecordDecoding

end SchemaCodec

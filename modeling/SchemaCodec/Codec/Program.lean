import SchemaCodec.Cache
import SchemaCodec.Codec.Run
import SchemaCodec.Generate
import SchemaCodec.Value.Zero

/-!
# Programs

The codecs of all records of a schema, which call each other by name. A program exists for the
schemas that have a generated source.

A call of an encoder leads one level down into the value, so the height of the value bounds the
calls within one another. A call of a decoder within a decoder of the same record stands further
in the input, so the records times the bytes that are left bound those calls.
-/

namespace SchemaCodec

structure Program where
  schema : Schema
  items : List Item

namespace Program

def ofSchema? (s : Schema) : Except GenerateError Program :=
  return ⟨s, ← Target.items? ⟨s, Settings.runtime {}⟩⟩

def item? (p : Program) (name : String) : Option Item :=
  p.items.find? (·.definition.name == name)

def record? (p : Program) (name : String) : Option RecordItem :=
  match p.item? name with
  | some (.record r) => some r
  | _ => none

def enum? (p : Program) (name : String) : Option EnumItem :=
  match p.item? name with
  | some (.enum e) => some e
  | _ => none

/-- Encodes a record with at most so many calls within one another. -/
def encodeWithin (p : Program) : (calls : Nat) → EncodeCall
  | 0, _, _, _ => none
  | calls + 1, name, v, w => do
    (← p.record? name).encoding.run (p.encodeWithin calls) v w

/-- Writes a record behind what was written; fails if the value has another type. -/
def encode? (p : Program) (name : String) (v : Value) (w : Writer) : Option Writer :=
  p.encodeWithin (v.height + 1) name v w

/-- Decodes a record with at most so many calls within one another. -/
def decodeWithin (p : Program) : (calls : Nat) → DecodeCall
  | 0, _ => throw .exhausted
  | calls + 1, name =>
    match p.record? name with
    | none => throw (.unknownRecord name)
    | some r => r.decoding.run (p.decodeWithin calls)

/-- Reads a record from where the reader stands. -/
def decode (p : Program) (name : String) : Decode Value := do
  p.decodeWithin (p.items.length * ((← get).remaining + 1) + 1) name

/-- Reads a record from the beginning of some bytes, whatever stands behind it. -/
def decodeBytes (p : Program) (name : String) (bytes : Bytes) : Except Halt Value :=
  (p.decode name ⟨bytes, 0⟩).1

/-- A type that holds a record of the schema beside parts of its own. -/
structure Host (τ : Type) where
  fresh : τ
  withRecord : τ → Value → τ

/-- Reads a record into a fresh value of the type that a key stands for. The cache remembers how
such values are made, and changes only if there is a record. -/
def decodeInto {κ τ : Type} [DecidableEq κ] (p : Program) (name : String) (host : κ → Host τ)
    (key : κ) (cache : Cache κ (Host τ)) (r : Reader) : Except Halt τ × Reader × Cache κ (Host τ) :=
  match p.decode name r with
  | (.error e, r) => (.error e, r, cache)
  | (.ok v, r) =>
    let (h, cache) := cache.construct host key
    (.ok (h.withRecord h.fresh v), r, cache)

/-- Reads a record from the beginning of some bytes into a fresh value. -/
def decodeBytesInto {κ τ : Type} [DecidableEq κ] (p : Program) (name : String) (host : κ → Host τ)
    (key : κ) (cache : Cache κ (Host τ)) (bytes : Bytes) : Except Halt τ × Cache κ (Host τ) :=
  let (x, _, cache) := p.decodeInto name host key cache ⟨bytes, 0⟩
  (x, cache)

end Program

end SchemaCodec

import SchemaCodec.Wire.Bytes
import SchemaCodec.Wire.Date
import SchemaCodec.Wire.Error
import SchemaCodec.Wire.Guid

/-!
# Reading bytes

A reader is an input and a position in it. A `Read` gives a value or an error, and in both cases
the reader as it is afterwards: a read that fails leaves the position where it was, except that a
length or count that was read stays read when what it announces is not there, and that a text
which is not UTF-8 stays read as a whole.

Doubles and singles are read as their bits.
-/

namespace SchemaCodec

structure Reader where
  bytes : Bytes
  pos : Nat := 0

/-- Reads a value, or fails, and moves the reader. -/
abbrev Read (α : Type) := ExceptT DecodeError (StateM Reader) α

namespace Reader

open Wire

def size (r : Reader) : Nat :=
  r.bytes.size

def isEmpty (r : Reader) : Bool :=
  r.size == 0

/-- How many bytes are left to read. -/
def remaining (r : Reader) : Nat :=
  r.size - r.pos

/-- How many elements to make room for: not more than there are bytes left. -/
def boundedCapacity (r : Reader) (count : Nat) : Nat :=
  min count r.remaining

def seek (target : Nat) : Read Unit := do
  let r ← get
  if r.size < target then throw (.seekOutOfBounds target r.size)
  else set { r with pos := target }

/-- The next `n` bytes. -/
def take (n : Nat) : Read (List UInt8) := do
  let r ← get
  if r.remaining < n then throw (.unexpectedEnd r.pos n r.remaining)
  else
    set { r with pos := r.pos + n }
    return (r.bytes.extract r.pos (r.pos + n)).toList

/-- The next `width` bytes as a number. -/
def natural (width : Nat) : Read Nat := do
  return ofLittleEndian (← take width)

def byte : Read UInt8 :=
  return (← natural 1).toUInt8

/-- Every byte but zero is true. -/
def bool : Read Bool :=
  return (← byte) != 0

def uint16 : Read UInt16 :=
  return (← natural 2).toUInt16

def int16 : Read Int16 :=
  return (← uint16).toInt16

def uint32 : Read UInt32 :=
  return (← natural 4).toUInt32

def int32 : Read Int32 :=
  return (← uint32).toInt32

def uint64 : Read UInt64 :=
  return (← natural 8).toUInt64

def int64 : Read Int64 :=
  return (← uint64).toInt64

/-- A length or a count of elements. -/
def length : Read Nat :=
  natural 4

/-- The bytes that a count of elements of some size needs, as far as 64 bits can tell. -/
def needed (count size : Nat) : Nat :=
  saturate (count * size)

/-- A count of elements that take at least `size` bytes each. -/
def count (size : Nat) : Read Nat := do
  let position := (← get).pos
  let n ← length
  let remaining := (← get).remaining
  if remaining < needed n size then
    throw (.countExceedsInput position n (needed n size) remaining)
  else return n

def text : Read String := do
  let n ← length
  let position := (← get).pos
  let bs ← take n
  match String.fromUTF8? ⟨bs.toArray⟩ with
  | some s => return s
  | none => throw (.invalidText position)

def guid : Read Guid :=
  return Guid.ofWire (← take 16)

def date : Read Date :=
  return ⟨← uint64⟩

/-- A count and so many bytes. -/
def byteArray : Read (List UInt8) := do
  take (← length)

/-- The length of a message, as the position where the message ends. -/
def frameEnd : Read Nat := do
  let n ← length
  let r ← get
  if r.size < r.pos + n then throw (.frameOutOfBounds (r.pos + n) r.size)
  else return r.pos + n

/-- The next tag of a message that ends at `last`. -/
def tag (last : Nat) : Read UInt8 := do
  if last ≤ (← get).pos then throw (.missingTerminator last)
  else byte

end Reader

end SchemaCodec

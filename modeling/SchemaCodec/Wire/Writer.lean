import SchemaCodec.Wire.Bytes
import SchemaCodec.Wire.Date
import SchemaCodec.Wire.Guid

/-!
# Writing bytes

A writer only grows, except that a length which was not known yet is filled in later: `reserve`
leaves four zero bytes and tells where they are, and `fill?` overwrites them. There is nothing to
fill where four bytes do not lie inside what was written.
-/

namespace SchemaCodec

structure Writer where
  bytes : Bytes := #[]

namespace Writer

open Wire

def empty : Writer := {}

def size (w : Writer) : Nat :=
  w.bytes.size

def isEmpty (w : Writer) : Bool :=
  w.size == 0

def append (w : Writer) (bs : List UInt8) : Writer :=
  ⟨w.bytes ++ bs⟩

@[simp] theorem toList_append (w : Writer) (bs : List UInt8) :
    (w.append bs).bytes.toList = w.bytes.toList ++ bs := by
  simp [append]

@[simp] theorem size_append (w : Writer) (bs : List UInt8) :
    (w.append bs).size = w.size + bs.length := by
  rw [size, ← Array.length_toList, toList_append, List.length_append, Array.length_toList]
  rfl

/-- A number in `width` bytes. -/
def natural (width : Nat) (w : Writer) (n : Nat) : Writer :=
  w.append (littleEndian width n)

def byte (w : Writer) (x : UInt8) : Writer :=
  natural 1 w x.toNat

def bool (w : Writer) (x : Bool) : Writer :=
  w.byte (if x then 1 else 0)

def uint16 (w : Writer) (x : UInt16) : Writer :=
  natural 2 w x.toNat

def int16 (w : Writer) (x : Int16) : Writer :=
  w.uint16 x.toUInt16

def uint32 (w : Writer) (x : UInt32) : Writer :=
  natural 4 w x.toNat

def int32 (w : Writer) (x : Int32) : Writer :=
  w.uint32 x.toUInt32

def uint64 (w : Writer) (x : UInt64) : Writer :=
  natural 8 w x.toNat

def int64 (w : Writer) (x : Int64) : Writer :=
  w.uint64 x.toUInt64

/-- A length or a count of elements, which has to be below `2 ^ 32`. -/
def length (w : Writer) (n : Nat) : Writer :=
  natural 4 w n

/-- A count and so many bytes. -/
def byteArray (w : Writer) (xs : List UInt8) : Writer :=
  (w.length xs.length).append xs

def text (w : Writer) (s : String) : Writer :=
  w.byteArray s.toUTF8.data.toList

def guid (w : Writer) (g : Guid) : Writer :=
  w.append g.toWire

def date (w : Writer) (d : Date) : Writer :=
  w.uint64 d.wire

/-- A count and so many singles. -/
def singles (w : Writer) (xs : List UInt32) : Writer :=
  (w.length xs.length).append (xs.flatMap fun x => littleEndian 4 x.toNat)

/-- A count and so many doubles. -/
def doubles (w : Writer) (xs : List UInt64) : Writer :=
  (w.length xs.length).append (xs.flatMap fun x => littleEndian 8 x.toNat)

/-- Leaves room for a length, and tells where it is. -/
def reserve (w : Writer) : Nat × Writer :=
  (w.size, w.length 0)

/-- Writes a length over the four bytes at a place. -/
def fill? (w : Writer) (place : Nat) (n : Nat) : Option Writer :=
  if place + 4 ≤ w.size then
    some ⟨w.bytes.extract 0 place ++ littleEndian 4 n ++ w.bytes.extract (place + 4) w.size⟩
  else none

end Writer

end SchemaCodec

import SchemaCodec.Wire.Bytes

/-!
# Identifiers

A GUID has four groups, which its text shows from the highest digit to the lowest. On the wire the
first three groups have their lowest byte first and the last group its highest.
-/

namespace SchemaCodec

structure Guid where
  group1 : UInt32
  group2 : UInt16
  group3 : UInt16
  group4 : UInt64
  deriving DecidableEq, Repr, Inhabited

namespace Guid

open Wire

def nil : Guid := ⟨0, 0, 0, 0⟩

def toWire (g : Guid) : List UInt8 :=
  littleEndian 4 g.group1.toNat ++ littleEndian 2 g.group2.toNat ++
    littleEndian 2 g.group3.toNat ++ (littleEndian 8 g.group4.toNat).reverse

/-- The identifier that sixteen bytes stand for. -/
def ofWire (bs : List UInt8) : Guid where
  group1 := (ofLittleEndian (bs.take 4)).toUInt32
  group2 := (ofLittleEndian ((bs.drop 4).take 2)).toUInt16
  group3 := (ofLittleEndian ((bs.drop 6).take 2)).toUInt16
  group4 := (ofLittleEndian (bs.drop 8).reverse).toUInt64

@[simp] theorem length_toWire (g : Guid) : g.toWire.length = 16 := by
  simp [toWire]

theorem ofWire_toWire (g : Guid) : ofWire g.toWire = g := by
  have h1 := ofLittleEndian_littleEndian_of_lt 4 g.group1.toNat_lt
  have h2 := ofLittleEndian_littleEndian_of_lt 2 g.group2.toNat_lt
  have h3 := ofLittleEndian_littleEndian_of_lt 2 g.group3.toNat_lt
  have h4 := ofLittleEndian_littleEndian_of_lt 8 g.group4.toNat_lt
  simp [ofWire, toWire, List.drop_append, List.drop_eq_nil_of_le, h1, h2, h3, h4]

/-- Hexadecimal digits, as many as `width`. -/
def hex (width n : Nat) : List Char :=
  let ds := Nat.toDigits 16 n
  List.replicate (width - ds.length) '0' ++ ds

def toText (g : Guid) : String :=
  let last := hex 16 g.group4.toNat
  String.ofList (hex 8 g.group1.toNat ++ '-' :: hex 4 g.group2.toNat ++ '-' ::
    hex 4 g.group3.toNat ++ '-' :: last.take 4 ++ '-' :: last.drop 4)

/-- The order of the texts. -/
def compare (a b : Guid) : Ordering :=
  (Ord.compare a.group1 b.group1).then <| (Ord.compare a.group2 b.group2).then <|
    (Ord.compare a.group3 b.group3).then <| Ord.compare a.group4 b.group4

end Guid

end SchemaCodec

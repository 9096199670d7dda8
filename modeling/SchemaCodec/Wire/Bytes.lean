/-!
# Bytes

Numbers on the wire have a fixed width and their lowest byte first. `ofLittleEndian` reads what
`littleEndian` writes, as long as the number fits the width.
-/

namespace SchemaCodec

abbrev Bytes := Array UInt8

namespace Wire

/-- A number that stops at the largest one of 64 bits. -/
def saturate (n : Nat) : Nat :=
  min n 0xFFFFFFFFFFFFFFFF

/-- How many numbers fit in `width` bytes. -/
def limit : (width : Nat) → Nat
  | 0 => 1
  | width + 1 => 256 * limit width

/-- The lowest `width` bytes of a number, the lowest first. -/
def littleEndian : (width : Nat) → Nat → List UInt8
  | 0, _ => []
  | width + 1, n => n.toUInt8 :: littleEndian width (n / 256)

def ofLittleEndian : List UInt8 → Nat
  | [] => 0
  | b :: bs => b.toNat + 256 * ofLittleEndian bs

@[simp] theorem length_littleEndian (width n : Nat) : (littleEndian width n).length = width := by
  induction width generalizing n with
  | zero => rfl
  | succ width ih => simp [littleEndian, ih]

theorem ofLittleEndian_littleEndian (width n : Nat) :
    ofLittleEndian (littleEndian width n) = n % limit width := by
  induction width generalizing n with
  | zero => simp [littleEndian, ofLittleEndian, limit, Nat.mod_one]
  | succ width ih =>
    have hb : n.toUInt8.toNat = n % 256 := by simp
    rw [littleEndian, ofLittleEndian, ih, hb, limit, Nat.mod_mul]

theorem ofLittleEndian_littleEndian_of_lt {n : Nat} (width : Nat) (h : n < limit width) :
    ofLittleEndian (littleEndian width n) = n := by
  rw [ofLittleEndian_littleEndian, Nat.mod_eq_of_lt h]

theorem ofLittleEndian_lt (bs : List UInt8) : ofLittleEndian bs < limit bs.length := by
  induction bs with
  | nil => exact Nat.one_pos
  | cons b bs ih =>
    have := b.toNat_lt
    simp only [ofLittleEndian, List.length_cons, limit]
    omega

end Wire

end SchemaCodec

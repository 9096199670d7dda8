/-!
# Shortest decimals

The decimal with the fewest digits among those that read back as a given double, and of those the
one nearest to it; of two that are equally near, a `Tie` takes one. A double is
`mantissa * 2 ^ exponent`; the numbers that read back as it lie between the midpoints to its
neighbours, the midpoints included if the mantissa is even. Going down from large powers of ten,
the first power of which a multiple lies there gives the digits. All of it is exact arithmetic on
natural numbers.
-/

namespace SchemaCodec.Decimal

/-- Where a half goes: to the even one of its neighbours, or to the upper one. -/
inductive Tie
  | toEven
  | up
  deriving DecidableEq, Repr

/-- Whether the half above `n` goes to `n + 1`. -/
def Tie.goesUp : Tie → Nat → Bool
  | toEven, n => n % 2 = 1
  | up, _ => true

/-- The number nearest to `a / b`. -/
def Tie.quotient (tie : Tie) (a b : Nat) : Nat :=
  let below := a / b
  match compare (2 * (a % b)) b with
  | .lt => below
  | .eq => if tie.goesUp below then below + 1 else below
  | .gt => below + 1

/-- A positive double. -/
structure Binary where
  mantissa : Nat
  exponent : Int
  /-- Whether the gap below is half the gap above. -/
  atPower : Bool

/-- The magnitude of a finite double that is not zero, from its bits. -/
def Binary.ofBits (bits : UInt64) : Binary :=
  let fraction : Nat := bits.toNat % 0x10000000000000
  let biased : Nat := bits.toNat / 0x10000000000000 % 0x800
  if biased = 0 then ⟨fraction, -1074, false⟩
  else ⟨fraction + 0x10000000000000, (biased : Int) - 1075, fraction = 0 && 1 < biased⟩

/-- The decimal `coefficient * 10 ^ exponent`. -/
structure Digits where
  coefficient : Nat
  exponent : Int

/-- The powers by which a comparison of `a * 2 ^ q` with `b * 10 ^ k` multiplies its sides. -/
def scales (q k : Int) : Nat × Nat :=
  (Nat.pow 2 q.toNat * Nat.pow 10 (-k).toNat, Nat.pow 2 (-q).toNat * Nat.pow 10 k.toNat)

/-- The multiple of `10 ^ k` nearest to the double, if one of its two neighbours reads back. -/
def Binary.onGrid? (tie : Tie) (x : Binary) (k : Int) : Option Nat :=
  let (s, t) := scales (x.exponent - 2) k
  let value := 4 * x.mantissa * s
  let low := (4 * x.mantissa - if x.atPower then 1 else 2) * s
  let high := (4 * x.mantissa + 2) * s
  let reads (n : Nat) : Bool :=
    if x.mantissa % 2 = 0 then low ≤ n * t && n * t ≤ high else low < n * t && n * t < high
  let below := value / t
  let nearest := tie.quotient value t
  let other := if nearest = below then below + 1 else below
  if reads nearest then some nearest
  else if reads other then some other
  else none

/-- Tries the powers of ten from `k` downwards, `steps` of them. -/
def Binary.shortestFrom (tie : Tie) (x : Binary) (k : Int) : Nat → Digits
  | 0 => ⟨0, 0⟩
  | steps + 1 =>
    match x.onGrid? tie k with
    | some n => ⟨n, k⟩
    | none => x.shortestFrom tie (k - 1) steps

/-- Every double lies below `10 ^ 309` and is a multiple of `10 ^ (-1074)`. -/
def Binary.shortest (tie : Tie) (x : Binary) : Digits :=
  x.shortestFrom tie 309 1384

end SchemaCodec.Decimal

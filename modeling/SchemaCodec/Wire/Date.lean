import SchemaCodec.Wire.Bytes

/-!
# Dates

A date counts ticks of 100 nanoseconds from the beginning of year 1 in its low 62 bits and keeps a
mark for its kind in the two bits above, where 1 means UTC. A date that was read keeps whatever
mark it came with.

An instant of the system clock is a number of nanoseconds from the beginning of 1970, whose whole
seconds fit 64 bits with a sign. Going from an instant to a date, the time from 1970 is cut down
to whole ticks; instants before year 1 give tick 0, and past the last date the count of ticks
first stops at 64 bits and then loses all but 62 of them. Going back, the ticks from 1970 become
seconds and nanoseconds, before or after it.
-/

namespace SchemaCodec

structure Date where
  /-- The value on the wire. -/
  wire : UInt64
  deriving DecidableEq, Repr, Inhabited

namespace Instant

def nanosPerSecond : Nat := 1000000000

/-- Whether the clock can tell the instant so many nanoseconds from 1970. -/
def InRange (nanos : Int) : Prop :=
  -0x8000000000000000 ≤ nanos.fdiv nanosPerSecond ∧ nanos.fdiv nanosPerSecond < 0x8000000000000000

instance : DecidablePred InRange :=
  fun _ => inferInstanceAs (Decidable (_ ∧ _))

end Instant

structure Instant where
  /-- Nanoseconds from the beginning of 1970. -/
  nanos : Int
  inRange : Instant.InRange nanos
  deriving DecidableEq, Repr

/-- The instant so many nanoseconds from 1970, if the clock can tell it. -/
def Instant.ofNanos? (nanos : Int) : Option Instant :=
  if h : InRange nanos then some ⟨nanos, h⟩ else none

namespace Date

open Wire

def ticksPerSecond : Nat := 10000000

def nanosPerTick : Nat := 100

/-- Ticks from year 1 to 1970. -/
def epochTicks : Nat := 621355968000000000

def ofTicks (n : UInt64) : Date :=
  ⟨(n &&& 0x3FFFFFFFFFFFFFFF) ||| 0x4000000000000000⟩

def ticks (d : Date) : UInt64 :=
  d.wire &&& 0x3FFFFFFFFFFFFFFF

def kind (d : Date) : UInt64 :=
  d.wire >>> 62

/-- The whole ticks in a length of time. -/
def ticksIn (nanos : Nat) : Nat :=
  saturate (saturate (nanos / Instant.nanosPerSecond * ticksPerSecond) +
    nanos % Instant.nanosPerSecond / nanosPerTick)

def ofInstant (t : Instant) : Date :=
  let ticks := if 0 ≤ t.nanos then saturate (epochTicks + ticksIn t.nanos.natAbs)
    else epochTicks - ticksIn t.nanos.natAbs
  ofTicks ticks.toUInt64

/-- The length of so many ticks, in nanoseconds: the whole seconds in them, and the rest. -/
def nanosIn (ticks : Nat) : Nat :=
  ticks / ticksPerSecond * Instant.nanosPerSecond + ticks % ticksPerSecond * nanosPerTick

def toInstant? (d : Date) : Option Instant :=
  let ticks := d.ticks.toNat
  if epochTicks ≤ ticks then Instant.ofNanos? (nanosIn (ticks - epochTicks))
  else Instant.ofNanos? (-(nanosIn (epochTicks - ticks)))

end Date

end SchemaCodec

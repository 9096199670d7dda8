/-!
# Spans of code points

A character property is a list of spans: every `step`-th code point from `first` to `last`.
-/

namespace SchemaCodec.Text

structure Span where
  first : Nat
  last : Nat
  step : Nat

namespace Span

def contains (s : Span) (n : Nat) : Bool :=
  s.first ≤ n && n ≤ s.last && (n - s.first) % s.step == 0

end Span

/-- A span whose code points all map to the code point `amount` further on. -/
structure Shift where
  span : Span
  amount : Int

def inSpans (spans : List Span) (n : Nat) : Bool :=
  spans.any (·.contains n)

/-- What a code point maps to, if a shift covers it. -/
def shiftedBy (shifts : List Shift) (n : Nat) : Option Nat :=
  (shifts.find? (·.span.contains n)).map fun s => ((n : Int) + s.amount).toNat

end SchemaCodec.Text

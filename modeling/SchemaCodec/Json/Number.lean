/-!
# JSON numbers

A number is an integer if it has neither fraction nor exponent and fits 64 bits, where `-0` does
not count as an integer. Any other number is a double: up to nineteen or twenty of its digits, as
many as 64 bits can hold, are scaled by a power of ten in one multiplication or division. A
number that is too large for a double is none at all.
-/

namespace SchemaCodec.Json

inductive Number
  | integer (n : Int)
  | float (bits : UInt64)

/-- The parts of a number as they are written. -/
structure NumberText where
  negative : Bool
  whole : List Char
  fraction : List Char
  /-- The sign and the digits of the exponent. -/
  exponent : Option (Bool × List Char)

def digits (s : List Char) : List Char × List Char :=
  s.span Char.isDigit

/-- Digits, at least one. -/
def digits? (s : List Char) : Option (List Char × List Char) :=
  match digits s with
  | ([], _) => none
  | found => some found

/-- A zero stands alone; other numbers begin with another digit. -/
def whole? : List Char → Option (List Char × List Char)
  | '0' :: rest => if rest.head?.any Char.isDigit then none else some (['0'], rest)
  | s => digits? s

def fraction? : List Char → Option (List Char × List Char)
  | '.' :: rest => digits? rest
  | s => some ([], s)

def exponent? : List Char → Option (Option (Bool × List Char) × List Char)
  | c :: rest =>
    if c == 'e' || c == 'E' then
      let (negative, rest) := match rest with
        | '+' :: rest => (false, rest)
        | '-' :: rest => (true, rest)
        | rest => (false, rest)
      (digits? rest).map fun (ds, rest) => (some (negative, ds), rest)
    else some (none, c :: rest)
  | [] => some (none, [])

def numberText? (s : List Char) : Option (NumberText × List Char) := do
  let (negative, s) := match s with
    | '-' :: rest => (true, rest)
    | s => (false, s)
  let (whole, s) ← whole? s
  let (fraction, s) ← fraction? s
  let (exponent, s) ← exponent? s
  return (⟨negative, whole, fraction, exponent⟩, s)

def digitValue (c : Char) : Nat :=
  c.toNat - '0'.toNat

/-- Takes in digits while the value fits 64 bits; the rest of them is given back. -/
def takeDigits (value : Nat) : List Char → Nat × List Char
  | [] => (value, [])
  | c :: rest =>
    let next := value * 10 + digitValue c
    if next < 0x10000000000000000 then takeDigits next rest else (value, c :: rest)

/-- Divides by `10 ^ n`, in steps that a double can hold. -/
def divideByPower (f : Float) (n : Nat) : Float :=
  if n ≤ 308 then f / Float.ofScientific 1 false n
  else if f == 0 then f
  else divideByPower (f / Float.ofScientific 1 false 308) (n - 308)
termination_by n

/-- `value * 10 ^ exponent`, unless it is too large. -/
def scaled? (value : Nat) (exponent : Int) : Option Float :=
  let f := value.toUInt64.toFloat
  if exponent < 0 then some (divideByPower f exponent.natAbs)
  else if exponent ≤ 308 then
    let g := f * Float.ofScientific 1 false exponent.toNat
    if g.isInf then none else some g
  else if f == 0 then some f
  else none

/-- The powers of ten beyond which only zero is within reach. -/
def exponentLimit : Nat := 0x7FFFFFFF

def NumberText.toFloat? (t : NumberText) : Option Float :=
  let (value, unread) := takeDigits 0 t.whole
  let (value, ignored) := takeDigits value t.fraction
  let start : Int := unread.length - (t.fraction.length - ignored.length : Nat)
  match t.exponent with
  | none => scaled? value start
  | some (negative, ds) =>
    let n := ds.foldl (fun n c => n * 10 + digitValue c) 0
    if exponentLimit < n then
      if value ≠ 0 && !negative then none else some 0
    else
      let sum := if negative then start - n else start + n
      scaled? value (max (-exponentLimit - 1) (min sum exponentLimit))

def NumberText.value? (t : NumberText) : Option Number :=
  let n := t.whole.foldl (fun n c => n * 10 + digitValue c) 0
  if t.fraction.isEmpty && t.exponent.isNone && !t.negative && n < 0x10000000000000000 then
    some (.integer n)
  else if t.fraction.isEmpty && t.exponent.isNone && t.negative && 0 < n
      && n ≤ 0x8000000000000000 then
    some (.integer (-n))
  else
    t.toFloat?.map fun f => .float (if t.negative then -f else f).toBits

end SchemaCodec.Json

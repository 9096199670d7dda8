import SchemaCodec.Json.Text
import SchemaCodec.Toml.Value

/-!
# TOML scalars

What a value that is not quoted stands for: a boolean, an integer in one of four bases, a float, a
date, a time, or both. Underscores may stand between digits. Dates and times are checked against
the calendar and the clock, where a minute may have a second 60, and are not looked at further.
-/

namespace SchemaCodec.Toml

/-- Removes underscores, each of which has to stand between two digits. -/
def withoutUnderscores? (isDigit : Char → Bool) : List Char → Option (List Char)
  | [] => none
  | [c] => if isDigit c then some [c] else none
  | c :: '_' :: rest =>
    if isDigit c && rest.head?.any isDigit then
      (withoutUnderscores? isDigit rest).map (c :: ·)
    else none
  | c :: rest => if isDigit c then (withoutUnderscores? isDigit rest).map (c :: ·) else none

def isHexDigit (c : Char) : Bool :=
  (Json.hexDigit? c).isSome

def isOctalDigit (c : Char) : Bool :=
  '0' ≤ c && c ≤ '7'

def isBinaryDigit (c : Char) : Bool :=
  c == '0' || c == '1'

def numeral (base : Nat) (ds : List Char) : Nat :=
  ds.foldl (fun n c => n * base + (Json.hexDigit? c).getD 0) 0

/-- Splits off a sign. -/
def signed (s : List Char) : Bool × List Char :=
  match s with
  | '-' :: rest => (true, rest)
  | '+' :: rest => (false, rest)
  | s => (false, s)

/-- Decimal digits without a leading zero. -/
def decimal? (s : List Char) : Option (List Char) := do
  let ds ← withoutUnderscores? Char.isDigit s
  if ds.head? = some '0' && 1 < ds.length then none else some ds

def integer? (s : List Char) : Option Int :=
  match s with
  | '0' :: 'x' :: rest => (withoutUnderscores? isHexDigit rest).map fun ds => numeral 16 ds
  | '0' :: 'o' :: rest => (withoutUnderscores? isOctalDigit rest).map fun ds => numeral 8 ds
  | '0' :: 'b' :: rest => (withoutUnderscores? isBinaryDigit rest).map fun ds => numeral 2 ds
  | s =>
    let (negative, s) := signed s
    (decimal? s).map fun ds => if negative then -(numeral 10 ds : Int) else numeral 10 ds

/-- The nearest double to `value * 10 ^ exponent`, or nothing beyond the range of doubles. -/
def nearestDouble? (value : Nat) (exponent : Int) : Option Float :=
  let size : Int := (Nat.toDigits 10 value).length + exponent
  if value = 0 || size < -400 then some 0
  else if 400 < size then none
  else
    let f := Float.ofScientific value (exponent < 0) exponent.natAbs
    if f.isInf then none else some f

def finiteFloat? (negative : Bool) (s : List Char) : Option Value := do
  let (mantissa, power) := s.span fun c => c != 'e' && c != 'E'
  let exponent ← match power with
    | [] => some 0
    | _ :: power =>
      let (down, ds) := signed power
      (withoutUnderscores? Char.isDigit ds).map fun ds =>
        if down then -(numeral 10 ds : Int) else numeral 10 ds
  let (whole, rest) := mantissa.span (· != '.')
  let whole ← decimal? whole
  let fraction ← match rest with
    | [] => if power.isEmpty then none else some []
    | _ :: rest => withoutUnderscores? Char.isDigit rest
  match nearestDouble? (numeral 10 (whole ++ fraction)) (exponent - fraction.length) with
  | none => return .hugeFloat
  | some f => return .float (if negative then -f else f).toBits

def float? (s : List Char) : Option Value :=
  let (negative, magnitude) := signed s
  if magnitude = "inf".toList then
    some (.float (if negative then 0xFFF0000000000000 else 0x7FF0000000000000))
  else if magnitude = "nan".toList then
    some (.float (if negative then 0xFFF8000000000000 else 0x7FF8000000000000))
  else finiteFloat? negative magnitude

/-- The number written by two digits. -/
def twoDigits? : List Char → Option (Nat × List Char)
  | a :: b :: rest =>
    if a.isDigit && b.isDigit then some (numeral 10 [a, b], rest) else none
  | _ => none

def expect? (c : Char) : List Char → Option (List Char)
  | d :: rest => if c = d then some rest else none
  | [] => none

def isLeapYear (y : Nat) : Bool :=
  y % 4 = 0 && (y % 100 ≠ 0 || y % 400 = 0)

def daysIn (year month : Nat) : Nat :=
  if month = 2 then (if isLeapYear year then 29 else 28)
  else if month = 4 || month = 6 || month = 9 || month = 11 then 30
  else 31

/-- What follows a date. -/
def afterDate? (s : List Char) : Option (List Char) := do
  let (century, s) ← twoDigits? s
  let (year, s) ← twoDigits? s
  let (month, s) ← twoDigits? (← expect? '-' s)
  let (day, s) ← twoDigits? (← expect? '-' s)
  if 1 ≤ month && month ≤ 12 && 1 ≤ day && day ≤ daysIn (century * 100 + year) month then some s
  else none

/-- What follows a time of day, whose seconds may be missing. -/
def afterTime? (s : List Char) : Option (List Char) := do
  let (hour, s) ← twoDigits? s
  let (minute, s) ← twoDigits? (← expect? ':' s)
  if 23 < hour || 59 < minute then none
  else
    match s with
    | ':' :: s =>
      let (second, s) ← twoDigits? s
      if 60 < second then none
      else
        match s with
        | '.' :: s => (Json.digits? s).map (·.2)
        | s => some s
    | s => some s

/-- Whether a text is a time zone, or nothing. -/
def isOffset (s : List Char) : Bool :=
  match s with
  | [] => true
  | ['Z'] | ['z'] => true
  | c :: rest =>
    (c == '+' || c == '-') &&
      match (twoDigits? rest).bind fun (hour, s) =>
          (expect? ':' s).bind twoDigits? |>.map fun (minute, s) => (hour, minute, s) with
      | some (hour, minute, []) => hour ≤ 23 && minute ≤ 59
      | _ => false

def isDatetime (s : List Char) : Bool :=
  match afterDate? s with
  | some [] => true
  | some (c :: rest) =>
    (c == 'T' || c == 't' || c == ' ') && (afterTime? rest).any isOffset
  | none => (afterTime? s).any (·.isEmpty)

def scalar? (s : List Char) : Option Value :=
  if s = "true".toList then some (.boolean true)
  else if s = "false".toList then some (.boolean false)
  else
    match integer? s with
    | some n => some (.integer n)
    | none =>
      match float? s with
      | some v => some v
      | none => if isDatetime s then some .datetime else none

end SchemaCodec.Toml

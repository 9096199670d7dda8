import SchemaCodec.Decimal.Shortest

/-!
# Decimal notation

The text of a double. `positional` never uses an exponent and rounds a half up; `scientific` uses
one, with its sign, where the first digit stands for less than `10 ^ (-5)` or at least `10 ^ 16`,
and rounds a half to the even digit. Both write `.0` to a number without fraction or exponent.
-/

namespace SchemaCodec.Decimal

def isNegative (bits : UInt64) : Bool :=
  bits >>> 63 == 1

/-- The text of a double, where `digits` gives that of a finite magnitude that is not zero. -/
def withSign (tie : Tie) (digits : Digits → String) (bits : UInt64) : String :=
  let magnitude := bits % (1 <<< 63)
  let sign := if isNegative bits then "-" else ""
  if magnitude == 0 then sign ++ "0.0"
  else if magnitude == 0x7FF0000000000000 then sign ++ "inf"
  else if 0x7FF0000000000000 < magnitude then "NaN"
  else sign ++ digits ((Binary.ofBits magnitude).shortest tie)

def zeros (n : Nat) : List Char :=
  List.replicate n '0'

def positionalDigits (d : Digits) : String :=
  let ds := Nat.toDigits 10 d.coefficient
  if 0 ≤ d.exponent then String.ofList (ds ++ zeros d.exponent.toNat ++ ['.', '0'])
  else
    let places := (-d.exponent).toNat
    let padded := zeros (places + 1 - ds.length) ++ ds
    let whole := padded.length - places
    String.ofList (padded.take whole ++ ['.'] ++ padded.drop whole)

def scientificDigits (d : Digits) : String :=
  let ds := Nat.toDigits 10 d.coefficient
  let e := d.exponent + (ds.length - 1 : Nat)
  if -5 ≤ e && e ≤ 15 then positionalDigits d
  else
    let fraction := if ds.length ≤ 1 then [] else '.' :: ds.drop 1
    let power := Nat.toDigits 10 e.natAbs
    String.ofList (ds.take 1 ++ fraction ++ ['e', if e < 0 then '-' else '+'] ++ power)

def positional (bits : UInt64) : String :=
  withSign .up positionalDigits bits

def scientific (bits : UInt64) : String :=
  withSign .toEven scientificDigits bits

end SchemaCodec.Decimal

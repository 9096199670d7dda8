import SchemaCodec.Json.Number

/-!
# JSON texts

The tokens of JSON: white space, literal names, string literals, and the values that a reader
passes over without looking at them. `unquote?` reads a string literal after its opening quote. A
string that is passed over needs well-formed escapes only, so half of a surrogate pair may stand
there alone.
-/

namespace SchemaCodec.Json

def isSpace (c : Char) : Bool :=
  c == ' ' || c == '\n' || c == '\t' || c == '\r'

def skipSpace (s : List Char) : List Char :=
  s.dropWhile isSpace

/-- The text after a word, if it begins with the word. -/
def word? : List Char → List Char → Option (List Char)
  | [], s => some s
  | c :: cs, d :: s => if c = d then word? cs s else none
  | _ :: _, [] => none

def hexDigit? (c : Char) : Option Nat :=
  if c.isDigit then some (c.toNat - '0'.toNat)
  else if 'a' ≤ c && c ≤ 'f' then some (c.toNat - 'a'.toNat + 10)
  else if 'A' ≤ c && c ≤ 'F' then some (c.toNat - 'A'.toNat + 10)
  else none

def hexUnit? (a b c d : Char) : Option Nat := do
  let a ← hexDigit? a
  let b ← hexDigit? b
  let c ← hexDigit? c
  let d ← hexDigit? d
  return ((a * 16 + b) * 16 + c) * 16 + d

def isLead (n : Nat) : Bool :=
  0xD800 ≤ n && n < 0xDC00

def isTrail (n : Nat) : Bool :=
  0xDC00 ≤ n && n < 0xE000

/-- What an escape of one letter stands for. -/
def escaped? : Char → Option Char
  | '"' => some '"'
  | '\\' => some '\\'
  | '/' => some '/'
  | 'b' => some '\x08'
  | 'f' => some '\x0c'
  | 'n' => some '\n'
  | 'r' => some '\r'
  | 't' => some '\t'
  | _ => none

/-- Reads the rest of a string literal; `out`, read backwards, is its value so far. -/
def unquote? (out : List Char) : List Char → Option (String × List Char)
  | [] => none
  | '"' :: rest => some (String.ofList out.reverse, rest)
  | '\\' :: 'u' :: a :: b :: c :: d :: rest =>
    match hexUnit? a b c d with
    | none => none
    | some n =>
      if isTrail n then none
      else if isLead n then
        match rest with
        | '\\' :: 'u' :: a :: b :: c :: d :: rest =>
          match hexUnit? a b c d with
          | none => none
          | some t =>
            if isTrail t then
              unquote? (Char.ofNat (0x10000 + (n - 0xD800) * 0x400 + (t - 0xDC00)) :: out) rest
            else none
        | _ => none
      else unquote? (Char.ofNat n :: out) rest
  | '\\' :: e :: rest =>
    match escaped? e with
    | none => none
    | some c => unquote? (c :: out) rest
  | c :: rest => if c < ' ' then none else unquote? (c :: out) rest

/-- Passes over the rest of a string literal. -/
def skipString? : List Char → Option (List Char)
  | [] => none
  | '"' :: rest => some rest
  | '\\' :: 'u' :: a :: b :: c :: d :: rest =>
    if (hexUnit? a b c d).isSome then skipString? rest else none
  | '\\' :: e :: rest => if (escaped? e).isSome then skipString? rest else none
  | c :: rest => if c < ' ' then none else skipString? rest

/-- An array or an object that is open. -/
inductive Bracket
  | array
  | object
  deriving DecidableEq

/-- What comes next while a value is passed over. -/
inductive Awaited
  | value
  | key
  | separator
  deriving DecidableEq

/-- Passes over a value that lies inside the brackets `opened`, innermost first. At most `room`
of them may be open at a time, and each step takes at least one character. -/
def skipFrom? (room : Nat) :
    Nat → Awaited → List Bracket → List Char → Option (List Char)
  | 0, _, _, _ => none
  | steps + 1, awaited, opened, s =>
    match awaited, opened, skipSpace s with
    | .separator, [], _ => some s
    | .separator, .array :: _, ',' :: rest => skipFrom? room steps .value opened rest
    | .separator, .array :: outer, ']' :: rest => skipFrom? room steps .separator outer rest
    | .separator, .object :: _, ',' :: rest => skipFrom? room steps .key opened rest
    | .separator, .object :: outer, '}' :: rest => skipFrom? room steps .separator outer rest
    | .separator, _, _ => none
    | .key, _, '"' :: rest =>
      match (skipString? rest).map skipSpace with
      | some (':' :: rest) => skipFrom? room steps .value opened rest
      | _ => none
    | .key, _, _ => none
    | .value, _, '[' :: rest =>
      if room ≤ opened.length then none
      else match skipSpace rest with
        | ']' :: rest => skipFrom? room steps .separator opened rest
        | rest => skipFrom? room steps .value (.array :: opened) rest
    | .value, _, '{' :: rest =>
      if room ≤ opened.length then none
      else match skipSpace rest with
        | '}' :: rest => skipFrom? room steps .separator opened rest
        | rest => skipFrom? room steps .key (.object :: opened) rest
    | .value, _, '"' :: rest => (skipString? rest).bind (skipFrom? room steps .separator opened)
    | .value, _, 'n' :: rest =>
      (word? "ull".toList rest).bind (skipFrom? room steps .separator opened)
    | .value, _, 't' :: rest =>
      (word? "rue".toList rest).bind (skipFrom? room steps .separator opened)
    | .value, _, 'f' :: rest =>
      (word? "alse".toList rest).bind (skipFrom? room steps .separator opened)
    | .value, _, s =>
      (numberText? s).bind fun (_, rest) => skipFrom? room steps .separator opened rest

/-- Passes over one value. -/
def skipValue? (room : Nat) (s : List Char) : Option (List Char) :=
  skipFrom? room (s.length + 2) .value [] s

end SchemaCodec.Json

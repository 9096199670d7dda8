import SchemaCodec.Document.Basic
import SchemaCodec.Json.Text

/-!
# Reading JSON

A JSON document is read in one pass from left to right, so the first error in the order of the
text is the one that is reported, be it about the grammar or about the content. Arrays and
objects may lie up to 127 deep, those in ignored members included.

A record is an object or an array. An object names each known key at most once and may have other
members; an array has no more elements than the record has slots.
-/

namespace SchemaCodec.Json

/-- Reads from the front of a text, inside brackets that leave room for so many more. -/
def Reader (α : Type) : Type :=
  (room : Nat) → List Char → Except DocumentError (α × List Char)

namespace Reader

variable {α β σ : Type}

instance : Monad Reader where
  pure a := fun _ s => .ok (a, s)
  bind x f := fun room s =>
    match x room s with
    | .error e => .error e
    | .ok (a, rest) => f a room rest

def fail (e : DocumentError) : Reader α :=
  fun _ _ => .error e

/-- A step of the grammar, which the text takes or is malformed. -/
def scan (step : List Char → Option (α × List Char)) : Reader α :=
  fun _ s =>
    match step s with
    | some found => .ok found
    | none => .error .malformed

/-- The text from the next token on. -/
def ahead : Reader (List Char) :=
  fun _ s => let s := skipSpace s; .ok (s, s)

def skipWord (w : String) : Reader Unit :=
  scan fun s => (word? w.toList s).map fun rest => ((), rest)

def skipChar (c : Char) : Reader Unit :=
  scan fun
    | d :: rest => if c = d then some ((), rest) else none
    | [] => none

def string : Reader String :=
  scan fun
    | '"' :: rest => unquote? [] rest
    | _ => none

def number : Reader Number :=
  scan fun s => do
    let (text, rest) ← numberText? s
    let value ← text.value?
    return (value, rest)

def skipValue : Reader Unit :=
  fun room s =>
    match skipValue? room s with
    | some rest => .ok ((), rest)
    | none => .error .malformed

/-- Reads inside one more bracket, if there is room for it. -/
def nested (x : Reader α) : Reader α
  | 0, _ => .error .malformed
  | room + 1, s => x room s

/-- What stands at the next token, which has to be well-formed unless it is a bracket. -/
def found : Reader Found := do
  match ← ahead with
  | '"' :: _ => return .text (← string)
  | '[' :: _ => return .sequence
  | '{' :: _ => return .map
  | 'n' :: _ => skipWord "null"; return .null
  | 't' :: _ => skipWord "true"; return .boolean true
  | 'f' :: _ => skipWord "false"; return .boolean false
  | _ =>
    match ← number with
    | .integer n => return .integer n
    | .float bits => return .float bits

def wrongType (expected : Expected) : Reader α := do
  fail (.wrongType (← found) expected)

def text (expected : Expected := .text) : Reader String := do
  match ← ahead with
  | '"' :: _ => string
  | _ => wrongType expected

def boolean : Reader Bool := do
  match ← ahead with
  | 't' :: _ => skipWord "true"; return true
  | 'f' :: _ => skipWord "false"; return false
  | _ => wrongType .boolean

def word : Reader UInt32 := do
  match ← found with
  | .integer n =>
    if 0 ≤ n && n < 0x100000000 then return n.toNat.toUInt32 else fail (.outOfRange n .word)
  | other => fail (.wrongType other .word)

def optional (x : Reader α) : Reader (Option α) := do
  match ← ahead with
  | 'n' :: _ => skipWord "null"; return none
  | _ => some <$> x

/-- Steps to the next element of an array, if there is one. -/
def nextElement (first : Bool) : Reader Bool := do
  match ← ahead with
  | ']' :: _ => return false
  | ',' :: _ =>
    if first then fail .malformed
    else
      skipChar ','
      match ← ahead with
      | ']' :: _ => fail .malformed
      | _ => return true
  | _ => if first then return true else fail .malformed

/-- The elements up to the closing bracket, at most `steps` of them. -/
def elements (x : Reader α) : Nat → Bool → Reader (List α)
  | 0, _ => fail .malformed
  | steps + 1, first => do
    if ← nextElement first then
      let a ← x
      return a :: (← elements x steps false)
    else
      return []

def remaining : Reader Nat :=
  fun _ s => .ok (s.length, s)

def sequence (x : Reader α) : Reader (List α) := do
  match ← ahead with
  | '[' :: _ =>
    skipChar '['
    let xs ← nested do elements x ((← remaining) + 1) true
    skipChar ']'
    return xs
  | _ => wrongType .sequence

/-- The variant of that name. -/
def named (known : List (String × α)) (name : String) : Reader α :=
  match known.lookup name with
  | some a => pure a
  | none => fail (.unknownVariant name (known.map (·.1)))

def unit : Reader Unit := do
  match ← ahead with
  | 'n' :: _ => skipWord "null"
  | _ => wrongType .unit

/-- A variant is its name, or an object with the name as its only key and null as its value. -/
def variant (known : List (String × α)) : Reader α := do
  match ← ahead with
  | '"' :: _ => named known (← string)
  | '{' :: _ =>
    skipChar '{'
    let a ← nested do
      let a ← named known (← text .variantName)
      let _ ← ahead
      skipChar ':'
      unit
      return a
    let _ ← ahead
    skipChar '}'
    return a
  | _ => fail .malformed

/-- Fills slots with the elements of an array; `filled` slots came before. -/
def fillSlots (shape : RecordShape Reader σ) (filled : Nat) :
    List (Slot Reader σ) → σ → Reader σ
  | [], a => return a
  | slot :: slots, a => do
    if ← nextElement (filled == 0) then
      fillSlots shape (filled + 1) slots (← slot.read a)
    else if filled < shape.required then
      fail (.tooShort filled shape.name shape.slots.length)
    else
      return a

/-- Steps to the next key of an object, if there is one. -/
def nextKey (first : Bool) : Reader (Option String) := do
  match ← ahead with
  | '}' :: _ => return none
  | ',' :: _ =>
    if first then fail .malformed
    else
      skipChar ','
      let _ ← ahead
      return some (← string)
  | _ => if first then return some (← string) else fail .malformed

/-- The members up to the closing brace, at most `steps` of them. -/
def members (shape : RecordShape Reader σ) :
    Nat → List String → Bool → σ → Reader σ
  | 0, _, _, _ => fail .malformed
  | steps + 1, seen, first, a => do
    match ← nextKey first with
    | none =>
      match shape.missing? seen with
      | some key => fail (.missing key)
      | none => return a
    | some key =>
      match shape.slot? key with
      | some slot =>
        if seen.contains key then fail (.repeated key)
        else
          let _ ← ahead
          skipChar ':'
          members shape steps (key :: seen) false (← slot.read a)
      | none =>
        let _ ← ahead
        skipChar ':'
        skipValue
        members shape steps seen false a

def record (shape : RecordShape Reader σ) (start : σ) : Reader σ := do
  match ← ahead with
  | '[' :: _ =>
    skipChar '['
    let a ← nested (fillSlots shape 0 shape.slots start)
    let _ ← ahead
    skipChar ']'
    return a
  | '{' :: _ =>
    skipChar '{'
    let a ← nested do members shape ((← remaining) + 1) [] true start
    skipChar '}'
    return a
  | _ => wrongType (.record shape.name)

instance : Document Reader where
  fail := fail
  text := text
  boolean := boolean
  word := word
  optional := optional
  sequence := sequence
  variant := variant
  record := record

/-- Reads a whole text, which holds one value and white space around it. -/
def read (x : Reader α) (s : String) : Except DocumentError α :=
  match x 127 s.toList with
  | .error e => .error e
  | .ok (a, rest) => if (skipSpace rest).isEmpty then .ok a else .error .malformed

end Reader

end SchemaCodec.Json

import SchemaCodec.Document.Basic
import SchemaCodec.Toml.Parser

/-!
# Reading TOML

A TOML document is parsed as a whole before a value is read from it, so an error in the grammar
comes before every error in the content. Tables are read in the order of their keys.

A record is a table or an array; elements beyond the last slot of the record are ignored. Ignored
entries still have to be within the range of the numbers that they hold.
-/

namespace SchemaCodec.Toml

/-- Reads from a value. -/
def Reader (α : Type) : Type :=
  Value → Except DocumentError α

namespace Reader

variable {α β σ : Type}

instance : Monad Reader where
  pure a := fun _ => .ok a
  bind x f := fun v =>
    match x v with
    | .error e => .error e
    | .ok a => f a v

def fail (e : DocumentError) : Reader α :=
  fun _ => .error e

/-- Reads from another value. -/
def within (v : Value) (x : Reader α) : Reader α :=
  fun _ => x v

/-- Whether a number fits 64 bits, with or without a sign. -/
def fits64 (n : Int) : Bool :=
  -0x8000000000000000 ≤ n && n < 0x10000000000000000

/-- Whether a number fits 128 bits, with or without a sign. -/
def fits128 (n : Int) : Bool :=
  -0x80000000000000000000000000000000 ≤ n && n < 0x100000000000000000000000000000000

/-- What a value is. A number that has no representation is no value of any type. -/
def found : Reader Found
  | .string s => .ok (.text s)
  | .integer n =>
    if fits64 n then .ok (.integer n)
    else if fits128 n then .ok (.wide n)
    else .error .malformed
  | .float bits => .ok (.float bits)
  | .hugeFloat => .error .malformed
  | .boolean b => .ok (.boolean b)
  | .datetime => .ok .map
  | .array _ _ => .ok .sequence
  | .table _ _ => .ok .map

def wrongType (expected : Expected) : Reader α := do
  fail (.wrongType (← found) expected)

def text : Reader String
  | .string s => .ok s
  | v => wrongType .text v

def boolean : Reader Bool
  | .boolean b => .ok b
  | v => wrongType .boolean v

def word : Reader UInt32 := do
  match ← found with
  | .integer n =>
    if 0 ≤ n && n < 0x100000000 then return n.toNat.toUInt32 else fail (.outOfRange n .word)
  | other => fail (.wrongType other .word)

def optional (x : Reader α) : Reader (Option α) :=
  some <$> x

def sequence (x : Reader α) : Reader (List α)
  | .array _ vs => vs.mapM x
  | v => wrongType .sequence v

def kindText : Value → String
  | .string _ => "string"
  | .integer _ => "integer"
  | .float _ | .hugeFloat => "float"
  | .boolean _ => "boolean"
  | .datetime => "datetime"
  | .array _ _ => "array"
  | .table _ _ => "table"

def named (known : List (String × α)) (name : String) : Reader α :=
  match known.lookup name with
  | some a => pure a
  | none => fail (.unknownVariant name (known.map (·.1)))

/-- The value beside the name of a variant is an empty table or an empty array. -/
def unit : Reader Unit
  | .array _ vs =>
    if vs.isEmpty then .ok () else .error (.unsuitable "expected empty array")
  | .table _ es =>
    if es.isEmpty then .ok () else .error (.unsuitable "expected empty table")
  | v => .error (.unsuitable ("expected table, found " ++ kindText v))

def variant (known : List (String × α)) : Reader α
  | .string s => named known s (.string s)
  | .table _ [(name, v)] => do
    let a ← named known name v
    unit v
    return a
  | .table _ [] => .error (.unsuitable "wanted exactly 1 element, found 0 elements")
  | .table _ _ => .error (.unsuitable "wanted exactly 1 element, more than 1 element")
  | _ => .error (.unsuitable "wanted string or table")

mutual

/-- Passes over a value. -/
def ignore : Value → Except DocumentError Unit
  | .array _ vs => ignoreAll vs
  | .table _ es => ignoreEntries es
  | v => (found v).map fun _ => ()

def ignoreAll : List Value → Except DocumentError Unit
  | [] => .ok ()
  | v :: vs =>
    match ignore v with
    | .error e => .error e
    | .ok () => ignoreAll vs

def ignoreEntries : List (String × Value) → Except DocumentError Unit
  | [] => .ok ()
  | (_, v) :: es =>
    match ignore v with
    | .error e => .error e
    | .ok () => ignoreEntries es

end

/-- Fills slots with elements; `filled` slots came before. -/
def fillSlots (shape : RecordShape Reader σ) :
    Nat → List (Slot Reader σ) → List Value → σ → Except DocumentError σ
  | _, [], _, a => .ok a
  | filled, _ :: _, [], a =>
    if filled < shape.required then
      .error (.tooShort filled shape.name shape.slots.length)
    else .ok a
  | filled, slot :: slots, v :: vs, a =>
    match slot.read a v with
    | .error e => .error e
    | .ok a => fillSlots shape (filled + 1) slots vs a

def fillByKey (shape : RecordShape Reader σ) :
    List (String × Value) → σ → Except DocumentError σ
  | [], a => .ok a
  | (key, v) :: es, a =>
    match shape.slot? key with
    | some slot =>
      match slot.read a v with
      | .error e => .error e
      | .ok a => fillByKey shape es a
    | none =>
      match ignore v with
      | .error e => .error e
      | .ok () => fillByKey shape es a

/-- The entries of a table in the order of their keys. -/
def sorted (es : List (String × Value)) : List (String × Value) :=
  es.mergeSort fun a b => a.1 ≤ b.1

def fromEntries (shape : RecordShape Reader σ) (es : List (String × Value)) (start : σ) :
    Except DocumentError σ :=
  match fillByKey shape (sorted es) start with
  | .error e => .error e
  | .ok a =>
    match shape.missing? (es.map (·.1)) with
    | some key => .error (.missing key)
    | none => .ok a

def record (shape : RecordShape Reader σ) (start : σ) : Reader σ
  | .array _ vs => fillSlots shape 0 shape.slots vs start
  | .table _ es => fromEntries shape es start
  | .datetime => fromEntries shape [] start
  | v => wrongType (.record shape.name) v

instance : Document Reader where
  fail := fail
  text := text
  boolean := boolean
  word := word
  optional := optional
  sequence := sequence
  variant := variant
  record := record

/-- Reads a whole text. -/
def read (x : Reader α) (s : String) : Except DocumentError α :=
  match parse? s with
  | none => .error .malformed
  | some v => x v

end Reader

end SchemaCodec.Toml

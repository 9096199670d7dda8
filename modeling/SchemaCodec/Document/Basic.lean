import SchemaCodec.Document.Error

/-!
# Documents

A document format is a monad that can read the value at the current place as a text, a boolean, a
32-bit word, an optional value, a sequence, one of some named variants, or a record. The readers
of schema files and of settings are written once, over any `Document`.

A record has slots, each with its key and with a reader that stores what it reads. The first
`required` slots must be filled, the others start with their default. A format may also allow a
sequence in place of a record; then its elements fill the slots in order.
-/

namespace SchemaCodec

structure Slot (m : Type → Type) (σ : Type) where
  key : String
  read : σ → m σ

structure RecordShape (m : Type → Type) (σ : Type) where
  name : String
  required : Nat
  slots : List (Slot m σ)

namespace RecordShape

variable {m : Type → Type} {σ : Type}

def slot? (shape : RecordShape m σ) (key : String) : Option (Slot m σ) :=
  shape.slots.find? (·.key == key)

/-- The first required key that is not among those seen. -/
def missing? (shape : RecordShape m σ) (seen : List String) : Option String :=
  ((shape.slots.take shape.required).map (·.key)).find? (!seen.contains ·)

end RecordShape

class Document (m : Type → Type) extends Monad m where
  fail {α : Type} : DocumentError → m α
  text : m String
  boolean : m Bool
  word : m UInt32
  optional {α : Type} : m α → m (Option α)
  sequence {α : Type} : m α → m (List α)
  variant {α : Type} : List (String × α) → m α
  record {σ : Type} : RecordShape m σ → σ → m σ

end SchemaCodec

/-!
# Decode errors

Why bytes are not a value. Positions count from the start of the input.
-/

namespace SchemaCodec

inductive DecodeError
  /-- The input ends inside a value. -/
  | unexpectedEnd (position needed remaining : Nat)
  /-- So many elements cannot fit in what is left of the input. -/
  | countExceedsInput (position count needed remaining : Nat)
  | invalidText (position : Nat)
  /-- A message claims to go on past the input. -/
  | frameOutOfBounds (last available : Nat)
  /-- A message is at its end, and no terminator came before. -/
  | missingTerminator (last : Nat)
  | seekOutOfBounds (target available : Nat)
  deriving DecidableEq, Repr

def DecodeError.message : DecodeError → String
  | unexpectedEnd position needed remaining =>
    "unexpected end of input at offset " ++ toString position ++ ": needed " ++ toString needed ++
      " bytes, " ++ toString remaining ++ " remaining"
  | countExceedsInput position count needed remaining =>
    "count " ++ toString count ++ " at offset " ++ toString position ++ " needs at least " ++
      toString needed ++ " bytes, " ++ toString remaining ++ " remaining"
  | invalidText position => "invalid UTF-8 in string at offset " ++ toString position
  | frameOutOfBounds last available =>
    "message frame ends at offset " ++ toString last ++ " but input is only " ++
      toString available ++ " bytes"
  | missingTerminator last =>
    "message frame ending at offset " ++ toString last ++ " has no terminator"
  | seekOutOfBounds target available =>
    "cannot seek to offset " ++ toString target ++ ": input is only " ++ toString available ++
      " bytes"

end SchemaCodec

import SchemaCodec.Text.CaseTable

/-!
# Case

The case properties and full case mappings of Unicode, without the rules that depend on the
neighbours of a character or on a language. `upper` and `lower` give a list because a few
characters have several characters as their capital or small form.
-/

namespace SchemaCodec.Text

def isUpper (c : Char) : Bool :=
  if c.val < 0x80 then c.isUpper else inSpans uppercaseSpans c.toNat

def isLower (c : Char) : Bool :=
  if c.val < 0x80 then c.isLower else inSpans lowercaseSpans c.toNat

/-- Looks a code point up among the expansions first, then among the shifts. -/
def mapCase (expansions : List (Nat × List Nat)) (shifts : List Shift) (c : Char) : List Char :=
  match expansions.lookup c.toNat with
  | some ns => ns.map Char.ofNat
  | none => [((shiftedBy shifts c.toNat).map Char.ofNat).getD c]

def upper (c : Char) : List Char :=
  if c.val < 0x80 then [c.toUpper] else mapCase upperExpansions upperShifts c

def lower (c : Char) : List Char :=
  if c.val < 0x80 then [c.toLower] else mapCase lowerExpansions lowerShifts c

end SchemaCodec.Text

import SchemaCodec.Text.PrintTable

/-!
# Quoted text

A text as a string literal in source code. The quote, the backslash, the null character, tab and
the two line ends have short escapes; any other character that does not print, or that extends
the character before it, is written by its code point.
-/

namespace SchemaCodec.Text

/-- The characters that a literal shows as they are. -/
def isPlain (c : Char) : Bool :=
  if c.val < 0x80 then ' ' ≤ c && c < '\x7f'
  else !inSpans unprintableSpans c.toNat && !inSpans graphemeExtendSpans c.toNat

def escapeChar (c : Char) : List Char :=
  match c with
  | '\x00' => ['\\', '0']
  | '\t' => ['\\', 't']
  | '\r' => ['\\', 'r']
  | '\n' => ['\\', 'n']
  | '"' => ['\\', '"']
  | '\\' => ['\\', '\\']
  | c =>
    if isPlain c then [c]
    else ['\\', 'u', '{'] ++ Nat.toDigits 16 c.toNat ++ ['}']

def quoted (s : String) : String :=
  String.ofList ('"' :: s.toList.flatMap escapeChar ++ ['"'])

end SchemaCodec.Text

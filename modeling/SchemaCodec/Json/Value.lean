/-!
# JSON values

Values and their compact text. In a string literal only the quote, the backslash and the controls
below the space are escaped, the controls by a letter where JSON has one for them.
-/

namespace SchemaCodec.Json

inductive Value
  | null
  | boolean (b : Bool)
  | number (n : Nat)
  | string (s : String)
  | array (elements : List Value)
  | object (members : List (String × Value))

def hexPair (n : Nat) : List Char :=
  [Nat.digitChar (n / 16), Nat.digitChar (n % 16)]

def escapeChar (c : Char) : List Char :=
  match c with
  | '"' => ['\\', '"']
  | '\\' => ['\\', '\\']
  | '\x08' => ['\\', 'b']
  | '\x0c' => ['\\', 'f']
  | '\n' => ['\\', 'n']
  | '\r' => ['\\', 'r']
  | '\t' => ['\\', 't']
  | c => if c < ' ' then ['\\', 'u', '0', '0'] ++ hexPair c.toNat else [c]

def quote (s : String) : String :=
  String.ofList ('"' :: s.toList.flatMap escapeChar ++ ['"'])

namespace Value

def ofOption {α : Type} (f : α → Value) : Option α → Value
  | none => null
  | some a => f a

mutual

def toText : Value → String
  | null => "null"
  | boolean b => if b then "true" else "false"
  | number n => toString n
  | string s => quote s
  | array vs => "[" ++ textOfElements vs ++ "]"
  | object ms => "\x7b" ++ textOfMembers ms ++ "\x7d"

def textOfElements : List Value → String
  | [] => ""
  | [v] => v.toText
  | v :: vs => v.toText ++ "," ++ textOfElements vs

def textOfMembers : List (String × Value) → String
  | [] => ""
  | [(key, v)] => quote key ++ ":" ++ v.toText
  | (key, v) :: ms => quote key ++ ":" ++ v.toText ++ "," ++ textOfMembers ms

end

end Value

end SchemaCodec.Json

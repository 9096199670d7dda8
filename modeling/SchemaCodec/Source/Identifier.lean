import SchemaCodec.Text.Case

/-!
# Identifiers

How the names of a schema become identifiers of the generated Rust source. Types take
`PascalCase`, fields and modules `snake_case`, members `UPPER_CASE`; a result that is a reserved
word is written as a raw identifier, or with an underscore behind it where the language has no
raw form.

A dash, an underscore, a dot and a space separate words. In `snake`, a capital also begins a word
when it follows a small letter or an ASCII digit, or when it follows a capital and a small letter
comes next; so a run of capitals is one word, and its last capital starts the word after it.
-/

namespace SchemaCodec.Identifier

open Text

def reserved : List String := [
  "as", "break", "const", "continue", "crate", "else", "enum", "extern", "false", "fn", "for",
  "if", "impl", "in", "let", "loop", "match", "mod", "move", "mut", "pub", "ref", "return",
  "self", "Self", "static", "struct", "super", "trait", "true", "type", "unsafe", "use", "where",
  "while", "async", "await", "dyn", "abstract", "become", "box", "do", "final", "gen", "macro",
  "override", "priv", "typeof", "unsized", "virtual", "yield", "try"]

/-- The reserved words that have no raw form. -/
def neverRaw : List String := ["crate", "self", "Self", "super"]

def isSeparator (c : Char) : Bool :=
  c == '-' || c == '_' || c == '.' || c == ' '

/-- Raises the first letter of each word and drops the separators; `atStart` says whether the
text begins a word. -/
def pascalFrom (atStart : Bool) : List Char → List Char
  | [] => []
  | c :: rest =>
    if isSeparator c then pascalFrom true rest
    else (if atStart then upper c else [c]) ++ pascalFrom false rest

def pascal (s : String) : String :=
  String.ofList (pascalFrom true s.toList)

/-- Whether a capital between these neighbours begins a word. -/
def startsWord (before : Char) (after : Option Char) : Bool :=
  isLower before || before.isDigit || (isUpper before && after.any isLower)

/-- An underscore at the end, unless the text is empty or ends in one. Texts are read backwards. -/
def withUnderscore : List Char → List Char
  | [] => []
  | '_' :: rest => '_' :: rest
  | c :: rest => '_' :: c :: rest

/-- The words of a text behind what is already written, which is `out`, read backwards. -/
def snakeFrom (before : Option Char) (out : List Char) : List Char → List Char
  | [] => out
  | c :: rest =>
    if isSeparator c then snakeFrom (some c) (withUnderscore out) rest
    else
      let starts := isUpper c && before.any (startsWord · rest.head?)
      let out := if starts then withUnderscore out else out
      snakeFrom (some c) ((lower c).reverse ++ out) rest

/-- A text, read backwards, without the underscore it ends in. -/
def dropUnderscore : List Char → List Char
  | '_' :: rest => rest
  | s => s

def snake (s : String) : String :=
  String.ofList (dropUnderscore (snakeFrom none [] s.toList)).reverse

def escape (s : String) : String :=
  if neverRaw.contains s then s ++ "_"
  else if reserved.contains s then "r#" ++ s
  else s

def ofField (name : String) : String := escape (snake name)

def ofType (name : String) : String := escape (pascal name)

def ofModule (name : String) : String := escape (snake name)

/-- A digit cannot begin an identifier, so an underscore goes in front of it. -/
def ofConstant (name : String) : String :=
  let letters := (snake name).toList.flatMap upper
  String.ofList (if letters.head?.any Char.isDigit then '_' :: letters else letters)

end SchemaCodec.Identifier

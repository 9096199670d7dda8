import SchemaCodec.Toml.Scalar

/-!
# TOML texts

A document is a list of statements, one to a line: a header, a header of an array element, or a
key with its value. `parse?` reads the statements and builds the table they describe. White space,
line ends and comments may stand anywhere inside brackets, also in inline tables, and a comma may
follow the last element. Brackets may be nested eighty deep.
-/

namespace SchemaCodec.Toml

inductive Statement
  | pair (path : List String) (key : String) (value : Value)
  | header (path : List String) (key : String)
  | element (path : List String) (key : String)

def skipBlanks (s : List Char) : List Char :=
  s.dropWhile fun c => c == ' ' || c == '\t'

def newline? : List Char → Option (List Char)
  | '\n' :: rest => some rest
  | '\r' :: '\n' :: rest => some rest
  | _ => none

/-- Controls other than the tab, which no comment and no one-line string holds. -/
def isControl (c : Char) : Bool :=
  (c < ' ' && c != '\t') || c == '\x7f'

/-- Passes over the rest of a comment, up to the end of its line. -/
def comment? : List Char → Option (List Char)
  | [] => some []
  | '\n' :: rest => some ('\n' :: rest)
  | '\r' :: '\n' :: rest => some ('\r' :: '\n' :: rest)
  | c :: rest => if isControl c then none else comment? rest

/-- Passes over blanks, line ends and comments; each step takes at least one character. -/
def trivia? : Nat → List Char → Option (List Char)
  | 0, s => some s
  | steps + 1, s =>
    let s := skipBlanks s
    match s with
    | '#' :: rest => (comment? rest).bind (trivia? steps)
    | s =>
      match newline? s with
      | some rest => trivia? steps rest
      | none => some s

def skipTrivia? (s : List Char) : Option (List Char) :=
  trivia? (s.length + 1) s

/-- A character given by hexadecimal digits, unless it is a surrogate or past the last one. -/
def hexChar? (ds : List Char) : Option Char :=
  if ds.all isHexDigit then
    let n := numeral 16 ds
    if n.isValidChar then some (Char.ofNat n) else none
  else none

/-- The character of an escape and the text after it. -/
def escape? : List Char → Option (Char × List Char)
  | 'b' :: rest => some ('\x08', rest)
  | 't' :: rest => some ('\t', rest)
  | 'n' :: rest => some ('\n', rest)
  | 'f' :: rest => some ('\x0c', rest)
  | 'r' :: rest => some ('\r', rest)
  | 'e' :: rest => some ('\x1b', rest)
  | '"' :: rest => some ('"', rest)
  | '\\' :: rest => some ('\\', rest)
  | 'x' :: a :: b :: rest => (hexChar? [a, b]).map (·, rest)
  | 'u' :: a :: b :: c :: d :: rest => (hexChar? [a, b, c, d]).map (·, rest)
  | 'U' :: a :: b :: c :: d :: e :: f :: g :: h :: rest =>
    (hexChar? [a, b, c, d, e, f, g, h]).map (·, rest)
  | _ => none

/-- Reads the rest of a one-line string; `out`, read backwards, is its value so far. -/
def basicString? : Nat → List Char → List Char → Option (String × List Char)
  | 0, _, _ => none
  | _, _, [] => none
  | _, out, '"' :: rest => some (String.ofList out.reverse, rest)
  | steps + 1, out, '\\' :: rest =>
    (escape? rest).bind fun (c, rest) => basicString? steps (c :: out) rest
  | steps + 1, out, c :: rest => if isControl c then none else basicString? steps (c :: out) rest

def literalString? (out : List Char) : List Char → Option (String × List Char)
  | [] => none
  | '\'' :: rest => some (String.ofList out.reverse, rest)
  | c :: rest => if isControl c then none else literalString? (c :: out) rest

/-- The text behind a first line end. -/
def afterNewline (s : List Char) : List Char :=
  (newline? s).getD s

/-- White space of any kind and line ends, which a backslash at the end of a line takes in. -/
def skipLines : List Char → List Char
  | ' ' :: rest | '\t' :: rest | '\n' :: rest | '\r' :: '\n' :: rest => skipLines rest
  | s => s

/-- The closing quotes of a string of several lines: three, and up to two that belong to it. -/
def closing? (quote : Char) (s : List Char) : Option (List Char × List Char) :=
  let count := (s.takeWhile (· == quote)).length
  if count < 3 then none
  else
    let extra := min (count - 3) 2
    some (List.replicate extra quote, s.drop (3 + extra))

/-- Reads the rest of a string of several lines, with its escapes if it is not literal. -/
def longString? (quote : Char) : Nat → List Char → List Char → Option (String × List Char)
  | 0, _, _ => none
  | _, _, [] => none
  | steps + 1, out, c :: rest =>
    match closing? quote (c :: rest) with
    | some (extra, rest) => some (String.ofList (out.reverse ++ extra), rest)
    | none =>
      if c == '\n' then longString? quote steps ('\n' :: out) rest
      else if c == '\r' then
        match rest with
        | '\n' :: rest => longString? quote steps ('\n' :: '\r' :: out) rest
        | _ => none
      else if c == '\\' && quote == '"' then
        match newline? (skipBlanks rest) with
        | some rest => longString? quote steps out (skipLines rest)
        | none => (escape? rest).bind fun (c, rest) => longString? quote steps (c :: out) rest
      else if isControl c then none
      else longString? quote steps (c :: out) rest

def isBareKeyChar (c : Char) : Bool :=
  c.isAlphanum || c == '_' || c == '-'

def simpleKey? : List Char → Option (String × List Char)
  | '"' :: rest => basicString? (rest.length + 1) [] rest
  | '\'' :: rest => literalString? [] rest
  | s =>
    match s.span isBareKeyChar with
    | ([], _) => none
    | (key, rest) => some (String.ofList key, rest)

/-- The keys of a dotted key behind `path`, which is read backwards: the path and the last key. -/
def dottedKey? : Nat → List String → List Char → Option (List String × String × List Char)
  | 0, _, _ => none
  | steps + 1, path, s => do
    let (key, s) ← simpleKey? (skipBlanks s)
    match skipBlanks s with
    | '.' :: rest => dottedKey? steps (key :: path) rest
    | _ => return (path.reverse, key, s)

def key? (s : List Char) : Option (List String × String × List Char) :=
  dottedKey? (s.length + 1) [] s

/-- The characters that end a value without quotes. -/
def isDelimiter (c : Char) : Bool :=
  " \t\r\n,[]{}#\"'=".toList.contains c

/-- A value without quotes; a date may go on with a time behind a space. -/
def bareValue? (s : List Char) : Option (Value × List Char) :=
  let (first, rest) := s.span (!isDelimiter ·)
  let (word, rest) := match rest with
    | ' ' :: c :: more =>
      if c.isDigit && afterDate? first = some [] then
        let (second, rest) := (c :: more).span (!isDelimiter ·)
        (first ++ ' ' :: second, rest)
      else (first, rest)
    | _ => (first, rest)
  (scalar? word).map (·, rest)

mutual

/-- Reads a value inside brackets that leave room for `room` more; each step takes at least one
character. -/
def value? : Nat → Nat → List Char → Option (Value × List Char)
  | 0, _, _ => none
  | steps + 1, room, s =>
    match s with
    | '"' :: '"' :: '"' :: rest =>
      (longString? '"' (rest.length + 1) [] (afterNewline rest)).map fun (t, s) => (.string t, s)
    | '\'' :: '\'' :: '\'' :: rest =>
      (longString? '\'' (rest.length + 1) [] (afterNewline rest)).map fun (t, s) => (.string t, s)
    | '"' :: rest => (basicString? (rest.length + 1) [] rest).map fun (t, s) => (.string t, s)
    | '\'' :: rest => (literalString? [] rest).map fun (t, s) => (.string t, s)
    | '[' :: rest =>
      match room with
      | 0 => none
      | room + 1 => (elements? steps room [] rest).map fun (vs, s) => (.array false vs, s)
    | '{' :: rest =>
      match room with
      | 0 => none
      | room + 1 => (pairs? steps room (.empty .inline) rest).map fun (t, s) => (t.toValue, s)
    | s => bareValue? s

/-- The elements up to the closing bracket, behind `done`, which is read backwards. -/
def elements? : Nat → Nat → List Value → List Char → Option (List Value × List Char)
  | 0, _, _, _ => none
  | steps + 1, room, done, s => do
    match ← skipTrivia? s with
    | ']' :: rest => return (done.reverse, rest)
    | s =>
      let (v, s) ← value? steps room s
      match ← skipTrivia? s with
      | ',' :: rest => elements? steps room (v :: done) rest
      | ']' :: rest => return ((v :: done).reverse, rest)
      | _ => none

/-- The entries of an inline table up to the closing brace. -/
def pairs? : Nat → Nat → Table → List Char → Option (Table × List Char)
  | 0, _, _, _ => none
  | steps + 1, room, t, s => do
    match ← skipTrivia? s with
    | '}' :: rest => return (t, rest)
    | s =>
      let (path, key, s) ← key? s
      let s ← expect? '=' (skipBlanks s)
      let (v, s) ← value? steps room (skipBlanks s)
      let t ← t.add? path key v
      match ← skipTrivia? s with
      | ',' :: rest => pairs? steps room t rest
      | '}' :: rest => return (t, rest)
      | _ => none

end

/-- How deep brackets may be nested. -/
def depthLimit : Nat := 80

def statement? (s : List Char) : Option (Statement × List Char) :=
  match s with
  | '[' :: '[' :: rest => do
    let (path, key, s) ← key? rest
    let s ← expect? ']' (skipBlanks s)
    let s ← expect? ']' s
    return (.element path key, s)
  | '[' :: rest => do
    let (path, key, s) ← key? rest
    let s ← expect? ']' (skipBlanks s)
    return (.header path key, s)
  | s => do
    let (path, key, s) ← key? s
    let s ← expect? '=' (skipBlanks s)
    let s := skipBlanks s
    let (v, s) ← value? (s.length + 1) depthLimit s
    return (.pair path key v, s)

/-- The rest of a line behind a statement: at most a comment. -/
def lineEnd? (s : List Char) : Option (List Char) := do
  let s ← match skipBlanks s with
    | '#' :: rest => comment? rest
    | s => some s
  match s with
  | [] => return []
  | s => newline? s

/-- The statements of a text; each line takes at least one character. -/
def statements? : Nat → List Char → Option (List Statement)
  | 0, _ => none
  | steps + 1, s => do
    match ← skipTrivia? s with
    | [] => return []
    | s =>
      let (statement, s) ← statement? s
      return statement :: (← statements? steps (← lineEnd? s))

/-- A document that is being built: all of it, and the path of the table that takes new keys. -/
structure Draft where
  root : Table
  current : List String

def Draft.apply? (d : Draft) : Statement → Option Draft
  | .pair path key v =>
    (Table.update? .implied (Table.add? path key v) d.current d.root).map ({ d with root := · })
  | .header path key =>
    (Table.update? .implied (Table.define? key) path d.root).map (⟨·, path ++ [key]⟩)
  | .element path key =>
    (Table.update? .implied (Table.defineElement? key) path d.root).map (⟨·, path ++ [key]⟩)

/-- The table of a whole text, behind a byte order mark if there is one. -/
def parse? (s : String) : Option Value := do
  let s := match s.toList with
    | '\ufeff' :: rest => rest
    | s => s
  let statements ← statements? (s.length + 1) s
  let draft ← statements.foldlM Draft.apply? ⟨.empty .header, []⟩
  return draft.root.toValue

end SchemaCodec.Toml

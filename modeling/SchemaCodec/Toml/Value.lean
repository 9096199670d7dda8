/-!
# TOML values

A TOML document is a table. A table remembers how it came about, because that decides what may
still be added to it: a header adds to tables that only other headers imply, a dotted key to
tables that dotted keys made, and nothing adds to an inline table or to a literal array.
`Table.update?` walks down a path of keys and changes the table at its end.
-/

namespace SchemaCodec.Toml

inductive Origin
  /-- Implied by the path of a header. -/
  | implied
  /-- Implied by a dotted key. -/
  | dotted
  | header
  | inline
  deriving DecidableEq

inductive Value
  | string (s : String)
  | integer (n : Int)
  | float (bits : UInt64)
  /-- A float that is beyond the range of doubles. -/
  | hugeFloat
  | boolean (b : Bool)
  | datetime
  /-- The elements; `ofTables` if headers add to them. -/
  | array (ofTables : Bool) (elements : List Value)
  | table (origin : Origin) (entries : List (String × Value))

/-- The entries of a table, in the order in which they were made. -/
structure Table where
  origin : Origin
  entries : List (String × Value)

namespace Table

def empty (origin : Origin) : Table := ⟨origin, []⟩

def toValue (t : Table) : Value := .table t.origin t.entries

def get? (t : Table) (key : String) : Option Value :=
  t.entries.lookup key

def put (t : Table) (key : String) (v : Value) : Table :=
  if t.entries.any (·.1 == key) then
    { t with entries := t.entries.map fun e => if e.1 == key then (key, v) else e }
  else
    { t with entries := t.entries ++ [(key, v)] }

/-- Changes the last element of an array of tables. -/
def updateLast? (change : Table → Option Table) : List Value → Option (List Value)
  | [] => none
  | [.table origin entries] => (change ⟨origin, entries⟩).map fun t => [t.toValue]
  | [_] => none
  | v :: vs => (updateLast? change vs).map (v :: ·)

/-- Changes the table at a path. Missing tables on the way take the origin `made`; a dotted key
does not go through a table that a header defined. -/
def update? (made : Origin) (change : Table → Option Table) : List String → Table → Option Table
  | [], t => change t
  | key :: path, t =>
    match t.get? key with
    | none => (update? made change path (empty made)).map fun child => t.put key child.toValue
    | some (.table origin entries) =>
      if origin = .inline || (made = .dotted && origin = .header) then none
      else
        (update? made change path ⟨origin, entries⟩).map fun child => t.put key child.toValue
    | some (.array true vs) =>
      (updateLast? (update? made change path) vs).map fun vs => t.put key (.array true vs)
    | some _ => none

/-- Adds a key. Behind a dotted path the table has to be one that dotted keys made. -/
def add? (path : List String) (key : String) (v : Value) : Table → Option Table :=
  update? .dotted (fun t =>
    if decide (t.origin = .dotted) == path.isEmpty || (t.get? key).isSome then none
    else some (t.put key v)) path

/-- The table that a header names: a new one, or one that headers have only implied so far. -/
def define? (key : String) (t : Table) : Option Table :=
  match t.get? key with
  | none => some (t.put key (.table .header []))
  | some (.table .implied entries) => some (t.put key (.table .header entries))
  | some _ => none

/-- Begins the next element of an array of tables. -/
def defineElement? (key : String) (t : Table) : Option Table :=
  match t.get? key with
  | none => some (t.put key (.array true [.table .header []]))
  | some (.array true vs) => some (t.put key (.array true (vs ++ [.table .header []])))
  | some _ => none

end Table

end SchemaCodec.Toml

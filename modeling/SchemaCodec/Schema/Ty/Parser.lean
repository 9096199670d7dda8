import SchemaCodec.Schema.Ty
import SchemaCodec.Text.Blank

/-!
# Reading a type

A type expression is a scalar keyword, a name, `T[]`, or `map[K, V]`, with white space allowed
before `[]`, around the two arguments of a map and around the whole. An expression that ends in
`[]` is always an array, so `map[]` is an array of the definition `map`.

`Ty.ofText?` reads a text. What is wrong with a text is a `Ty.Fault`; `Fault.reason` is its
wording, in which the offending part appears without the white space around it.
-/

namespace SchemaCodec.Ty

open Text

/-- What is wrong with a type expression. -/
inductive Fault
  | empty
  | unclosedMap
  | mapArity
  | notAName (part : String)
  deriving DecidableEq, Repr

def Fault.reason : Fault → String
  | empty => "empty type"
  | unclosedMap => "missing `]` after map arguments"
  | mapArity => "map needs exactly two type arguments"
  | notAName part => "`" ++ part ++ "` is not a type name"

def isNameStart (c : Char) : Bool :=
  c.isAlpha || c == '_'

def isNamePart (c : Char) : Bool :=
  c.isAlphanum || c == '_'

/-- ASCII identifiers, the names that a type expression can refer to. -/
def isName : List Char → Bool
  | [] => false
  | c :: rest => isNameStart c && rest.all isNamePart

/-- What stands before a final `[]`. -/
def beforeBrackets? (s : List Char) : Option (List Char) :=
  match s.reverse with
  | ']' :: '[' :: rest => some rest.reverse
  | _ => none

/-- What stands before a final `]`. -/
def beforeBracket? (s : List Char) : Option (List Char) :=
  match s.reverse with
  | ']' :: rest => some rest.reverse
  | _ => none

/-- What follows an initial `map[`. -/
def afterMap? : List Char → Option (List Char)
  | 'm' :: 'a' :: 'p' :: '[' :: rest => some rest
  | _ => none

/-- Whether a text, begun `depth` brackets deep, has no comma outside brackets and closes no
bracket that it did not open. -/
def isOneArgument : Nat → List Char → Bool
  | _, [] => true
  | depth, '[' :: rest => isOneArgument (depth + 1) rest
  | 0, ']' :: _ => false
  | depth + 1, ']' :: rest => isOneArgument depth rest
  | 0, ',' :: _ => false
  | depth, _ :: rest => isOneArgument depth rest

/-- Splits at the first comma outside brackets; `left`, read backwards, is what came before. -/
def splitArguments (left : List Char) : Nat → List Char → Option (List Char × List Char)
  | _, [] => none
  | depth, '[' :: rest => splitArguments ('[' :: left) (depth + 1) rest
  | 0, ']' :: _ => none
  | depth + 1, ']' :: rest => splitArguments (']' :: left) depth rest
  | 0, ',' :: rest => if isOneArgument 0 rest then some (left.reverse, rest) else none
  | depth, c :: rest => splitArguments (c :: left) depth rest

theorem length_beforeBrackets? {s e : List Char} (h : beforeBrackets? s = some e) :
    e.length + 2 = s.length := by
  unfold beforeBrackets? at h
  split at h
  · next rest hs =>
    simp only [Option.some.injEq] at h
    subst h
    simpa using (congrArg List.length hs).symm
  · simp at h

theorem length_beforeBracket? {s e : List Char} (h : beforeBracket? s = some e) :
    e.length + 1 = s.length := by
  unfold beforeBracket? at h
  split at h
  · next rest hs =>
    simp only [Option.some.injEq] at h
    subst h
    simpa using (congrArg List.length hs).symm
  · simp at h

theorem length_afterMap? {s e : List Char} (h : afterMap? s = some e) :
    e.length + 4 = s.length := by
  unfold afterMap? at h
  split at h
  · simp only [Option.some.injEq] at h
    subst h
    simp
  · simp at h

theorem length_splitArguments {s left : List Char} {depth : Nat} {k v : List Char}
    (h : splitArguments left depth s = some (k, v)) :
    k.length + v.length + 1 = left.length + s.length := by
  fun_induction splitArguments left depth s with
  | case5 left rest hone =>
    simp only [Option.some.injEq, Prod.mk.injEq] at h
    obtain ⟨rfl, rfl⟩ := h
    simp
    omega
  | _ => simp_all <;> omega

/-- Reads an expression that has no white space around it. -/
def ofTrimmed (s : List Char) : Except Fault Ty :=
  if s.isEmpty then
    .error .empty
  else
    match _ : beforeBrackets? s with
    | some e => array <$> ofTrimmed (trimEnd e)
    | none =>
      match _ : afterMap? s with
      | some rest =>
        match _ : beforeBracket? rest with
        | none => .error .unclosedMap
        | some inner =>
          match _ : splitArguments [] 0 inner with
          | none => .error .mapArity
          | some (k, v) => do
            let key ← ofTrimmed (trim k)
            let value ← ofTrimmed (trim v)
            return map key value
      | none =>
        match Scalar.ofKeyword? (String.ofList s) with
        | some x => .ok (scalar x)
        | none =>
          if isName s then .ok (defined (String.ofList s))
          else .error (.notAName (String.ofList s))
termination_by s.length
decreasing_by
  · have := length_trimEnd_le e
    have := length_beforeBrackets? ‹_›
    omega
  all_goals
    have := length_trim_le k
    have := length_trim_le v
    have := length_afterMap? ‹_›
    have := length_beforeBracket? ‹_›
    have := length_splitArguments ‹_›
    simp only [List.length_nil] at *
    omega

def ofText? (s : String) : Except Fault Ty :=
  ofTrimmed (trim s.toList)

end SchemaCodec.Ty

import SchemaCodec.Proofs.Statements

/-!
# Scopes

The statements that encode or decode a value have loops within loops, and the names they bind are
made of a stem and the depth of the loop (`Temporary`). As a decoding or encoding is only text with
names in it, its lines are taken apart here into text, names that are bound and names that are used,
each name with what it is meant to stand for (`Local`). Printed they are the code itself
(`Decoding.codes_statements`, `Encoding.codes_statements`).

`Scoped` reads them as the language does: a name stands for what the innermost binding of it says,
and a loop's bindings end with its body. The names that are in scope at depth `i` and level `n` have
smaller indices and stand for something of a smaller level (`Scope.Outside`); a container adds the
names of index `i` and is outside for its items at `i + 1` and `n + 1`.
-/

namespace SchemaCodec

/-- What a name stands for, by levels of containers: the value of a field has level zero, and the
items of a container have one level more than the container. -/
inductive Local
  | value (level : Nat)
  /-- How many items the container of this level has. -/
  | count (level : Nat)
  /-- The key beside an item of the container of this level. -/
  | key (level : Nat)
  deriving DecidableEq

/-- A part of a line. -/
inductive Piece
  | text (t : String)
  | use (name : String) (what : Local)
  | bind (name : String) (what : Local)

/-- A line, or a loop whose header binds names for its body. -/
inductive Statement
  | line (pieces : List Piece)
  | loop (header : List Piece) (body : List Statement)

/-- The bindings in sight, the innermost first. -/
abbrev Scope := List (String × Local)

/-- What the names for counts, items, keys and values begin with. -/
def stems : List String :=
  ["length", "e", "k", "v"]

/-- A stem with an index behind it, which is at least `d`. -/
def Temporary (d : Nat) (name : String) : Prop :=
  ∃ stem ∈ stems, ∃ i ≥ d, name = stem ++ toString i

namespace Piece

def print : Piece → String
  | text t => t
  | use name _ => name
  | bind name _ => name

def printAll : List Piece → String
  | [] => ""
  | p :: ps => p.print ++ printAll ps

def used? : Piece → Option (String × Local)
  | use name what => some (name, what)
  | _ => none

def bound? : Piece → Option (String × Local)
  | bind name what => some (name, what)
  | _ => none

end Piece

/-- The names that a line uses. -/
def uses (ps : List Piece) : Scope :=
  ps.filterMap Piece.used?

/-- The names that a line binds. -/
def binds (ps : List Piece) : Scope :=
  ps.filterMap Piece.bound?

section Pieces

variable {name t : String} {what : Local} {ps qs : List Piece}

@[simp] theorem uses_nil : uses [] = [] := rfl

@[simp] theorem uses_text : uses (.text t :: ps) = uses ps := rfl

@[simp] theorem uses_use : uses (.use name what :: ps) = (name, what) :: uses ps := rfl

@[simp] theorem uses_bind : uses (.bind name what :: ps) = uses ps := rfl

@[simp] theorem uses_append : uses (ps ++ qs) = uses ps ++ uses qs :=
  List.filterMap_append

@[simp] theorem binds_nil : binds [] = [] := rfl

@[simp] theorem binds_text : binds (.text t :: ps) = binds ps := rfl

@[simp] theorem binds_use : binds (.use name what :: ps) = binds ps := rfl

@[simp] theorem binds_bind : binds (.bind name what :: ps) = (name, what) :: binds ps := rfl

@[simp] theorem binds_append : binds (ps ++ qs) = binds ps ++ binds qs :=
  List.filterMap_append

end Pieces

namespace Statement

mutual

def code : Statement → Code
  | line ps => .line (Piece.printAll ps)
  | loop header body => .braces (Piece.printAll header) (codes body)

def codes : List Statement → List Code
  | [] => []
  | x :: xs => x.code :: codes xs

end

/-- What is in scope behind some statements. -/
def after (σ : Scope) : List Statement → Scope
  | [] => σ
  | line ps :: xs => after (binds ps ++ σ) xs
  | loop _ _ :: xs => after σ xs

end Statement

/-- In a scope, the names that some statements use stand for what they are meant to, the names that
they bind are ones they may, and wherever a block ends neither two names in sight are the same nor
two of them stand for the same. -/
inductive Scoped (may : String → Prop) : Scope → List Statement → Prop
  | nil {σ : Scope} (hnames : (σ.map Prod.fst).Nodup) (hlocals : (σ.map Prod.snd).Nodup) :
    Scoped may σ []
  | line {σ : Scope} {ps : List Piece} {xs : List Statement}
    (huses : ∀ u ∈ uses ps, σ.lookup u.1 = some u.2) (hbinds : ∀ b ∈ binds ps, may b.1)
    (hrest : Scoped may (binds ps ++ σ) xs) : Scoped may σ (.line ps :: xs)
  | loop {σ : Scope} {header : List Piece} {body xs : List Statement}
    (huses : ∀ u ∈ uses header, σ.lookup u.1 = some u.2) (hbinds : ∀ b ∈ binds header, may b.1)
    (hbody : Scoped may (binds header ++ σ) body) (hrest : Scoped may σ xs) :
    Scoped may σ (.loop header body :: xs)

/-! ## The statements of a codec -/

namespace Decoding

/-- What stands behind the binding of a value without parts. -/
def source : AtomTy → String
  | .scalar s => " = reader." ++ s.readMethod ++ "()?;"
  | .enum name => " = " ++ Identifier.ofType name ++ "(reader.read_u32()?);"

/-- A line that binds one name. -/
def letLine (binding : String) (what : Local) (source : String) : Statement :=
  .line [.text "let ", .bind binding what, .text source]

/-- The lines that read a count and make room for so many items. -/
def startLines (binding length typeName container : String) (minSize level : Nat) :
    List Statement :=
  [letLine length (.count level) (" = reader.read_count(" ++ toString minSize ++ ")?;"),
    .line [.text "let mut ", .bind binding (.value level),
      .text (": " ++ typeName ++ " = " ++ container ++ "::with_capacity(reader.bounded_capacity("),
      .use length (.count level), .text "));"]]

/-- The statements of a decoding, whose value has this level. -/
def statements (runtime : String) (level : Nat) : Decoding → List Statement
  | atom binding ty => [letLine binding (.value level) (source ty)]
  | bytes binding => [letLine binding (.value level) " = reader.read_bytes()?;"]
  | record binding name =>
    [letLine binding (.value level)
      (" = <" ++ Identifier.ofType name ++ " as " ++ runtime ++ "::Record>::decode_from(reader)?;")]
  | array binding length item itemType minSize element =>
    startLines binding length (Target.vecOf itemType) "::std::vec::Vec" minSize level ++
      [.loop [.text "for _ in 0..", .use length (.count level)]
        (element.statements runtime (level + 1) ++
          [.line [.use binding (.value level), .text ".push(", .use item (.value (level + 1)),
            .text ");"]])]
  | map binding length k v keyType valueType minSize key value =>
    startLines binding length (Target.hashMapOf keyType valueType) "::std::collections::HashMap"
        minSize level ++
      [.loop [.text "for _ in 0..", .use length (.count level)]
        (letLine k (.key level) (source key) :: value.statements runtime (level + 1) ++
          [.line [.use binding (.value level), .text ".insert(", .use k (.key level), .text ", ",
            .use v (.value (level + 1)), .text ");"]])]

end Decoding

namespace Operand

def valuePieces (o : Operand) (what : Local) : List Piece :=
  [.text (if o.isBinding then "*" else ""), .use o.expr what]

def referencePieces (o : Operand) (what : Local) : List Piece :=
  [.text (if o.isBinding then "" else "&"), .use o.expr what]

end Operand

namespace Encoding

def atomPieces (o : Operand) (what : Local) : AtomTy → List Piece
  | .scalar s =>
    .text ("writer." ++ s.writeMethod ++ "(") ::
      (if s.byReference then o.referencePieces what else o.valuePieces what) ++ [.text ");"]
  | .enum _ => [.text "writer.write_u32(", .use o.expr what, .text ".0);"]

def lengthPieces (o : Operand) (what : Local) : List Piece :=
  [.text "writer.write_length(", .use o.expr what, .text ".len());"]

/-- The statements of an encoding, whose value has this level. -/
def statements (runtime : String) (level : Nat) : Encoding → List Statement
  | atom o ty => [.line (atomPieces o (.value level) ty)]
  | bulk o elements =>
    [.line (.text ("writer." ++ elements.writeMethod ++ "(") :: o.referencePieces (.value level) ++
      [.text ");"])]
  | record o _ =>
    [.line (.text (runtime ++ "::Record::encode_into(") :: o.referencePieces (.value level) ++
      [.text ", writer);"])]
  | array o item element =>
    [.line (lengthPieces o (.value level)),
      .loop (.text "for " :: .bind item (.value (level + 1)) :: .text " in " ::
        o.referencePieces (.value level)) (element.statements runtime (level + 1))]
  | map o k v key value =>
    [.line (lengthPieces o (.value level)),
      .loop (.text "for (" :: .bind k (.key level) :: .text ", " :: .bind v (.value (level + 1)) ::
        .text ") in " :: o.referencePieces (.value level))
        (.line (atomPieces (.binding k) (.key level) key) ::
          value.statements runtime (level + 1))]

end Encoding

/-! ## Printing -/

variable {s : Schema} {runtime : String} {i n : Nat} {σ : Scope} {xs ys : List Statement}

namespace Statement

theorem codes_append (xs ys : List Statement) : codes (xs ++ ys) = codes xs ++ codes ys := by
  induction xs with
  | nil => rfl
  | cons x xs ih => rw [List.cons_append, codes, ih, codes, List.cons_append]

end Statement

namespace Decoding

theorem code_letLine (binding : String) (what : Local) (source : String) :
    (letLine binding what source).code = .line ("let " ++ binding ++ source) := by
  simp [letLine, Statement.code, Piece.printAll, Piece.print, String.append_assoc]

theorem codes_startLines (binding length typeName container : String) (minSize level : Nat) :
    Statement.codes (startLines binding length typeName container minSize level)
      = [countLine length minSize, containerLine binding typeName container length] := by
  simp [startLines, Statement.codes, code_letLine, Statement.code, Piece.printAll, Piece.print,
    countLine, containerLine, String.append_assoc]

theorem code_letLine_source (binding : String) (what : Local) (ty : AtomTy) :
    (letLine binding what (source ty)).code = atomLine binding ty := by
  cases ty <;> simp [code_letLine, source, atomLine, String.append_assoc]

theorem codes_statements (runtime : String) (e : Decoding) (level : Nat) :
    Statement.codes (e.statements runtime level) = e.code runtime := by
  induction e generalizing level with
  | atom binding ty => simp [statements, Statement.codes, code_letLine_source, code]
  | bytes binding => simp [statements, Statement.codes, code_letLine, code, String.append_assoc]
  | record binding name =>
    simp [statements, Statement.codes, code_letLine, code, String.append_assoc]
  | array binding length item itemType minSize element ih =>
    simp [statements, Statement.codes, Statement.codes_append, codes_startLines, Statement.code,
      Piece.printAll, Piece.print, code, ih, String.append_assoc]
  | map binding length k v keyType valueType minSize key value ih =>
    simp [statements, Statement.codes, Statement.codes_append, codes_startLines, Statement.code,
      code_letLine_source, Piece.printAll, Piece.print, code, ih, String.append_assoc]

end Decoding

namespace Encoding

theorem printAll_append (ps qs : List Piece) :
    Piece.printAll (ps ++ qs) = Piece.printAll ps ++ Piece.printAll qs := by
  induction ps with
  | nil => simp [Piece.printAll]
  | cons p ps ih => simp [Piece.printAll, ih, String.append_assoc]

theorem printAll_referencePieces (o : Operand) (what : Local) :
    Piece.printAll (o.referencePieces what) = o.reference := by
  cases ho : o.isBinding <;>
    simp [Operand.referencePieces, Piece.printAll, Piece.print, Operand.reference, ho]

theorem printAll_valuePieces (o : Operand) (what : Local) :
    Piece.printAll (o.valuePieces what) = o.value := by
  cases ho : o.isBinding <;>
    simp [Operand.valuePieces, Piece.printAll, Piece.print, Operand.value, ho]

theorem line_atomPieces (o : Operand) (what : Local) (ty : AtomTy) :
    Code.line (Piece.printAll (atomPieces o what ty)) = atomLine o ty := by
  cases ty with
  | enum name => simp [atomPieces, Piece.printAll, Piece.print, atomLine, String.append_assoc]
  | scalar x =>
    cases hx : x.byReference <;>
      simp [atomPieces, Piece.printAll, Piece.print, printAll_append, printAll_referencePieces,
        printAll_valuePieces, atomLine, hx, String.append_assoc]

theorem line_lengthPieces (o : Operand) (what : Local) :
    Code.line (Piece.printAll (lengthPieces o what)) = lengthLine o := by
  simp [lengthPieces, Piece.printAll, Piece.print, lengthLine, String.append_assoc]

theorem codes_statements (runtime : String) (e : Encoding) (level : Nat) :
    Statement.codes (e.statements runtime level) = e.code runtime := by
  induction e generalizing level with
  | atom o ty => simp [statements, Statement.codes, Statement.code, line_atomPieces, code]
  | bulk o elements =>
    simp [statements, Statement.codes, Statement.code, Piece.printAll, Piece.print,
      printAll_append, printAll_referencePieces, code, String.append_assoc]
  | record o name =>
    simp [statements, Statement.codes, Statement.code, Piece.printAll, Piece.print,
      printAll_append, printAll_referencePieces, code, String.append_assoc]
  | array o item element ih =>
    simp [statements, Statement.codes, Statement.code, line_lengthPieces, Piece.printAll,
      Piece.print, printAll_referencePieces, code, ih, String.append_assoc]
  | map o k v key value ih =>
    simp [statements, Statement.codes, Statement.code, line_lengthPieces, line_atomPieces,
      Piece.printAll, Piece.print, printAll_referencePieces, code, ih, String.append_assoc]

end Encoding

/-! ## Names -/

theorem Temporary.mono {d : Nat} {name : String} (hd : d ≤ i) (h : Temporary i name) :
    Temporary d name := by
  obtain ⟨stem, hstem, j, hj, rfl⟩ := h
  exact ⟨stem, hstem, j, hd.trans hj, rfl⟩

theorem temporary {stem : String} (h : stem ∈ stems) (i : Nat) :
    Temporary i (stem ++ toString i) :=
  ⟨stem, h, i, le_rfl, rfl⟩

theorem ne_of_not_temporary {name stem : String} (h : ¬ Temporary i name)
    (hstem : stem ∈ stems) : name ≠ stem ++ toString i :=
  fun heq => h (heq ▸ temporary hstem i)

theorem temporary_of_item {name stem : String} (hstem : stem ∈ stems)
    (h : name = stem ++ toString i ∨ Temporary (i + 1) name) : Temporary i name := by
  rcases h with rfl | h
  · exact temporary hstem i
  · exact h.mono (Nat.le_succ i)

theorem toString_inj {j : Nat} (h : toString i = toString j) : i = j := by
  have hdigits := congrArg String.toList h
  simp only [Nat.toString_eq_repr, Nat.toList_repr] at hdigits
  have hread := congrArg (Nat.ofDigitChars 10 · 0) hdigits
  simpa [Nat.ofDigitChars_toDigits] using hread

/-- Stems begin with different letters, so a name shows its stem and its index. -/
theorem stem_append_inj {stem stem' : String} {j : Nat} (h : stem ∈ stems)
    (h' : stem' ∈ stems) (heq : stem ++ toString i = stem' ++ toString j) :
    stem = stem' ∧ i = j := by
  have hstem : stem = stem' := by
    have hhead := congrArg (fun name => name.toList.head?) heq
    simp only [stems, List.mem_cons, List.not_mem_nil, or_false] at h h'
    rcases h with rfl | rfl | rfl | rfl <;> rcases h' with rfl | rfl | rfl | rfl <;>
      simp at hhead ⊢
  subst hstem
  exact ⟨rfl, toString_inj ((String.append_right_inj stem).1 heq)⟩

theorem not_temporary_succ {stem : String} (h : stem ∈ stems) (i : Nat) :
    ¬ Temporary (i + 1) (stem ++ toString i) := by
  rintro ⟨stem', hstem, j, hj, heq⟩
  have hij := (stem_append_inj h hstem heq).2
  omega

/-- A temporary ends in a digit. -/
theorem not_temporary {d : Nat} {name : String} {c : Char} (h : name.toList.getLast? = some c)
    (hc : c.isDigit = false) : ¬ Temporary d name := by
  rintro ⟨stem, -, j, -, rfl⟩
  simp only [String.toList_append, Nat.toString_eq_repr, Nat.toList_repr,
    List.getLast?_append_of_ne_nil _ Nat.toDigits_ne_nil] at h
  have hdigit := Nat.isDigit_of_mem_toDigits (by decide) (by decide) (List.mem_of_getLast? h)
  simp [hdigit] at hc

/-! ## Scopes -/

/-- The order in which the parts of containers within one another are bound by a decoding. -/
def Local.rank : Local → Nat
  | count level => 3 * level
  | value level => 3 * level + 1
  | key level => 3 * level + 2

/-- A scope with none of the names of this index or a higher one, and with nothing of this rank or a
higher one. -/
structure Scope.Outside (σ : Scope) (i rank : Nat) : Prop where
  names : (σ.map Prod.fst).Nodup
  locals : (σ.map Prod.snd).Nodup
  clear : ∀ v ∈ σ, ¬ Temporary i v.1
  older : ∀ v ∈ σ, v.2.rank < rank

namespace Scope.Outside

variable {r r' : Nat}

theorem notMem {stem : String} (h : σ.Outside i r) (hstem : stem ∈ stems) :
    stem ++ toString i ∉ σ.map Prod.fst := by
  rw [List.mem_map]
  rintro ⟨v, hv, heq⟩
  exact h.clear v hv (heq ▸ temporary hstem i)

theorem cons {name : String} {j : Nat} (h : σ.Outside i r) (what : Local) (hij : i ≤ j)
    (hname : ¬ Temporary j name) (hfresh : name ∉ σ.map Prod.fst) (hr : r ≤ what.rank) :
    Scope.Outside ((name, what) :: σ) j (what.rank + 1) where
  names := List.nodup_cons.2 ⟨hfresh, h.names⟩
  locals := by
    refine List.nodup_cons.2 ⟨fun hwhat => ?_, h.locals⟩
    obtain ⟨v, hv, rfl⟩ := List.mem_map.1 hwhat
    have hv := h.older v hv
    omega
  clear := List.forall_mem_cons.2 ⟨hname, fun v hv => mt (Temporary.mono hij) (h.clear v hv)⟩
  older := List.forall_mem_cons.2
    ⟨Nat.lt_succ_self _, fun v hv => ((h.older v hv).trans_le hr).trans (Nat.lt_succ_self _)⟩

theorem mono (h : σ.Outside i r) (hr : r ≤ r') : σ.Outside i r' :=
  { h with older := fun v hv => (h.older v hv).trans_le hr }

theorem perm {δ : Scope} (h : σ.Outside i r) (hperm : δ.Perm σ) : δ.Outside i r where
  names := (hperm.map Prod.fst).nodup_iff.2 h.names
  locals := (hperm.map Prod.snd).nodup_iff.2 h.locals
  clear v hv := h.clear v (hperm.mem_iff.1 hv)
  older v hv := h.older v (hperm.mem_iff.1 hv)

theorem nil {may : String → Prop} (h : σ.Outside i r) : Scoped may σ [] :=
  .nil h.names h.locals

end Scope.Outside

theorem lookup_of_mem {name : String} {what : Local} (hnames : (σ.map Prod.fst).Nodup)
    (h : (name, what) ∈ σ) : σ.lookup name = some what := by
  obtain ⟨σ₁, σ₂, rfl⟩ := List.append_of_mem h
  rw [List.lookup_eq_some_iff]
  refine ⟨σ₁, σ₂, rfl, fun v hv => ?_⟩
  rw [List.map_append, List.nodup_append] at hnames
  exact bne_iff_ne.2 (Ne.symm (hnames.2.2 v.1 (List.mem_map_of_mem hv) name (by simp)))

namespace Scoped

variable {may may' : String → Prop} {ps header : List Piece} {body : List Statement}

theorem mono (hmay : ∀ name, may name → may' name) (h : Scoped may σ xs) : Scoped may' σ xs := by
  induction h with
  | nil hnames hlocals => exact .nil hnames hlocals
  | line huses hbinds _ ih => exact .line huses (fun b hb => hmay _ (hbinds b hb)) ih
  | loop huses hbinds _ _ ihbody ih =>
    exact .loop huses (fun b hb => hmay _ (hbinds b hb)) ihbody ih

theorem after (h : Scoped may σ xs) : Scoped may (Statement.after σ xs) [] := by
  induction h with
  | nil hnames hlocals => exact .nil hnames hlocals
  | line _ _ _ ih => exact ih
  | loop _ _ _ _ _ ih => exact ih

theorem append (h : Scoped may σ xs) (h' : Scoped may (Statement.after σ xs) ys) :
    Scoped may σ (xs ++ ys) := by
  induction h with
  | nil => exact h'
  | line huses hbinds _ ih => exact .line huses hbinds (ih h')
  | loop huses hbinds hbody _ _ ih => exact .loop huses hbinds hbody (ih h')

theorem names (h : Scoped may σ xs) : (σ.map Prod.fst).Nodup := by
  induction h with
  | nil hnames _ => exact hnames
  | line _ _ _ ih =>
    rw [List.map_append] at ih
    exact (List.nodup_append.1 ih).2.1
  | loop _ _ _ _ _ ih => exact ih

/-- An inner loop that hides the name of the outer one is not scoped. -/
example : ¬ Scoped (fun _ => True) []
    [.loop [.bind "e0" (.value 1)] [.loop [.bind "e0" (.value 2)] []]] := by
  intro h
  cases h with
  | loop _ _ hbody _ =>
    cases hbody with
    | loop _ _ hinner _ => simpa using hinner.names

/-- Where all names differ it is enough that what a line uses is in scope. -/
theorem line_of_subset (huses : uses ps ⊆ σ) (hbinds : ∀ b ∈ binds ps, may b.1)
    (hrest : Scoped may (binds ps ++ σ) xs) : Scoped may σ (.line ps :: xs) := by
  have hnames := hrest.names
  rw [List.map_append] at hnames
  exact .line (fun _ hu => lookup_of_mem (List.nodup_append.1 hnames).2.1 (huses hu)) hbinds hrest

theorem loop_of_subset (huses : uses header ⊆ σ) (hbinds : ∀ b ∈ binds header, may b.1)
    (hbody : Scoped may (binds header ++ σ) body) (hrest : Scoped may σ xs) :
    Scoped may σ (.loop header body :: xs) :=
  .loop (fun _ hu => lookup_of_mem hrest.names (huses hu)) hbinds hbody hrest

end Scoped

theorem Statement.subset_after (σ : Scope) (xs : List Statement) : σ ⊆ after σ xs := by
  induction xs generalizing σ with
  | nil => exact List.Subset.refl σ
  | cons x xs ih =>
    cases x with
    | line ps => exact List.Subset.trans (List.subset_append_right _ _) (ih _)
    | loop header body => exact ih σ

/-! ## Decodings -/

namespace Decoding

variable {may : String → Prop} {b length typeName container source : String} {minSize : Nat}
  {e : Decoding} {ty : Ty}

theorem scoped_letLine {what : Local} (hmay : may b) (h : Scoped may ((b, what) :: σ) xs) :
    Scoped may σ (letLine b what source :: xs) :=
  .line_of_subset (List.nil_subset _) (by simpa using hmay) h

theorem scoped_startLines (hb : may b) (hlength : may length)
    (h : Scoped may ((b, .value n) :: (length, .count n) :: σ) xs) :
    Scoped may σ (startLines b length typeName container minSize n ++ xs) :=
  scoped_letLine hlength (.line_of_subset (by simp) (by simpa using hb) h)

/-- The value is in scope behind the statements that read it. -/
theorem mem_after (h : Emitted s runtime b i ty e) :
    (b, .value n) ∈ Statement.after σ (e.statements runtime n) := by
  cases h <;> exact List.mem_cons_self

/-- Behind the statements that read a value one more may use it. -/
theorem scoped_use {ps : List Piece} (he : Emitted s runtime b i ty e)
    (h : Scoped may σ (e.statements runtime n)) (huses : uses ps ⊆ (b, .value n) :: σ)
    (hbinds : binds ps = []) : Scoped may σ (e.statements runtime n ++ [.line ps]) := by
  refine h.append
    (.line_of_subset (fun u hu => ?_) (by simp [hbinds]) (by simpa [hbinds] using h.after))
  rcases List.mem_cons.1 (huses hu) with rfl | hu
  · exact mem_after he
  · exact Statement.subset_after _ _ hu

theorem scoped_leaf (hσ : σ.Outside i (3 * n)) (hb : ¬ Temporary i b) (hbσ : b ∉ σ.map Prod.fst)
    (source : String) :
    Scoped (fun name => name = b ∨ Temporary i name) σ [letLine b (.value n) source] :=
  scoped_letLine (.inl rfl) (hσ.cons _ le_rfl hb hbσ (Nat.le_succ _)).nil

theorem outside_items (hσ : σ.Outside i (3 * n)) (hb : ¬ Temporary i b)
    (hbσ : b ∉ σ.map Prod.fst) :
    Scope.Outside ((b, .value n) :: ("length" ++ toString i, .count n) :: σ) (i + 1)
      (3 * n + 2) := by
  have hlength : "length" ∈ stems := by decide
  have hcount := hσ.cons (.count n) (Nat.le_succ i) (not_temporary_succ hlength i)
    (hσ.notMem hlength) le_rfl
  have hfresh : b ∉ List.map Prod.fst (("length" ++ toString i, Local.count n) :: σ) :=
    List.not_mem_cons_of_ne_of_not_mem (ne_of_not_temporary hb hlength) hbσ
  exact hcount.cons (.value n) le_rfl (mt (Temporary.mono (Nat.le_succ i)) hb) hfresh le_rfl

theorem notMem_items {stem : String} (hσ : σ.Outside i (3 * n)) (hb : ¬ Temporary i b)
    (hstem : stem ∈ stems) (hne : stem ≠ "length") :
    stem ++ toString i
      ∉ List.map Prod.fst ((b, .value n) :: ("length" ++ toString i, .count n) :: σ) :=
  List.not_mem_cons_of_ne_of_not_mem (ne_of_not_temporary hb hstem).symm
    (List.not_mem_cons_of_ne_of_not_mem (by simpa using hne) (hσ.notMem hstem))

theorem scoped_statements (h : Emitted s runtime b i ty e) (hσ : σ.Outside i (3 * n))
    (hb : ¬ Temporary i b) (hbσ : b ∉ σ.map Prod.fst) :
    Scoped (fun name => name = b ∨ Temporary i name) σ (e.statements runtime n) := by
  induction h generalizing σ n with
  | scalar => exact scoped_leaf hσ hb hbσ _
  | enum => exact scoped_leaf hσ hb hbσ _
  | record => exact scoped_leaf hσ hb hbσ _
  | bytes => exact scoped_leaf hσ hb hbσ _
  | @array b i _ _ _ _ _ he ih =>
    have hitem : "e" ∈ stems := by decide
    have hinside := outside_items (n := n) hσ hb hbσ
    have hbody := (ih (n := n + 1) (hinside.mono (by omega)) (not_temporary_succ hitem i)
      (notMem_items hσ hb hitem (by decide))).mono
      fun name h => Or.inr (a := name = b) (temporary_of_item hitem h)
    exact scoped_startLines (.inl rfl) (.inr (temporary (by decide) i))
      (.loop_of_subset (by simp) (by simp) (scoped_use he hbody (by simp) rfl) hinside.nil)
  | @map b i _ _ _ _ _ _ _ he ih =>
    have hkey : "k" ∈ stems := by decide
    have hvalue : "v" ∈ stems := by decide
    have hinside := outside_items (n := n) hσ hb hbσ
    have hbeside := hinside.cons (.key n) le_rfl (not_temporary_succ hkey i)
      (notMem_items hσ hb hkey (by decide)) le_rfl
    have hbody := (ih (n := n + 1) hbeside (not_temporary_succ hvalue i)
      (by simpa using notMem_items (n := n) hσ hb hvalue (by decide))).mono
      fun name h => Or.inr (a := name = b) (temporary_of_item hvalue h)
    exact scoped_startLines (.inl rfl) (.inr (temporary (by decide) i))
      (.loop_of_subset (by simp) (by simp)
        (scoped_letLine (.inr (temporary hkey i)) (scoped_use he hbody (by simp) rfl)) hinside.nil)

end Decoding

/-! ## Encodings -/

namespace Encoding

variable {o : Operand} {what : Local} {atom : AtomTy}

@[simp] theorem uses_referencePieces : uses (o.referencePieces what) = [(o.expr, what)] := rfl

@[simp] theorem binds_referencePieces : binds (o.referencePieces what) = [] := rfl

@[simp] theorem uses_atomPieces : uses (atomPieces o what atom) = [(o.expr, what)] := by
  cases atom with
  | enum name => rfl
  | scalar x => cases hx : x.byReference <;> simp [atomPieces, Operand.valuePieces, hx]

@[simp] theorem binds_atomPieces : binds (atomPieces o what atom) = [] := by
  cases atom with
  | enum name => rfl
  | scalar x => cases hx : x.byReference <;> simp [atomPieces, Operand.valuePieces, hx]

@[simp] theorem uses_lengthPieces : uses (lengthPieces o what) = [(o.expr, what)] := rfl

@[simp] theorem binds_lengthPieces : binds (lengthPieces o what) = [] := rfl

/-- A line that only uses the operand. -/
theorem scoped_line {may : String → Prop} {ps : List Piece} (ho : (o.expr, what) ∈ σ)
    (huses : uses ps = [(o.expr, what)]) (hbinds : binds ps = []) (h : Scoped may σ xs) :
    Scoped may σ (.line ps :: xs) :=
  .line_of_subset (by simpa [huses] using ho) (by simp [hbinds]) (by simpa [hbinds] using h)

theorem scoped_statements {ty : Ty} {e : Encoding} (h : Emitted s runtime o i ty e)
    (hσ : σ.Outside i (3 * n + 2)) (ho : (o.expr, .value n) ∈ σ) :
    Scoped (Temporary i) σ (e.statements runtime n) := by
  induction h generalizing σ n with
  | scalar => exact scoped_line ho uses_atomPieces binds_atomPieces hσ.nil
  | enum => exact scoped_line ho uses_atomPieces binds_atomPieces hσ.nil
  | record => exact scoped_line ho (by simp) (by simp) hσ.nil
  | bulk => exact scoped_line ho (by simp) (by simp) hσ.nil
  | @array o i _ _ _ _ ih =>
    have hitem : "e" ∈ stems := by decide
    have hinside := hσ.cons (.value (n + 1)) (Nat.le_succ i) (not_temporary_succ hitem i)
      (hσ.notMem hitem) (show 3 * n + 2 ≤ 3 * (n + 1) + 1 by omega)
    have hbody := (ih (n := n + 1) hinside List.mem_cons_self).mono
      fun name h => h.mono (Nat.le_succ i)
    exact scoped_line ho uses_lengthPieces binds_lengthPieces
      (.loop_of_subset (by simpa using ho) (by simpa using temporary hitem i) hbody hσ.nil)
  | @map o i _ _ _ _ _ _ ih =>
    have hkey : "k" ∈ stems := by decide
    have hvalue : "v" ∈ stems := by decide
    have hbeside := hσ.cons (.key n) (Nat.le_succ i) (not_temporary_succ hkey i)
      (hσ.notMem hkey) le_rfl
    have hfresh : "v" ++ toString i ∉ List.map Prod.fst (("k" ++ toString i, Local.key n) :: σ) :=
      List.not_mem_cons_of_ne_of_not_mem (by simp) (hσ.notMem hvalue)
    have hinside := hbeside.cons (.value (n + 1)) le_rfl (not_temporary_succ hvalue i) hfresh
      (show 3 * n + 3 ≤ 3 * (n + 1) + 1 by omega)
    have hbody := (ih (n := n + 1) (hinside.perm (.swap _ _ _))
      (List.mem_cons_of_mem _ List.mem_cons_self)).mono fun name h => h.mono (Nat.le_succ i)
    have hbinds : ∀ b ∈ [("k" ++ toString i, Local.key n), ("v" ++ toString i, .value (n + 1))],
        Temporary i b.1 :=
      List.forall_mem_cons.2 ⟨temporary hkey i, List.forall_mem_singleton.2 (temporary hvalue i)⟩
    exact scoped_line ho uses_lengthPieces binds_lengthPieces
      (.loop_of_subset (by simpa using ho) (by simpa using hbinds)
        (scoped_line List.mem_cons_self uses_atomPieces binds_atomPieces hbody) hσ.nil)

end Encoding

/-! ## Hygiene -/

/-- Every type of a schema has statements, at every depth and for every name that is no temporary of
that depth or a deeper one. In them each name stands for what it is meant to, no name is bound twice
along nested blocks, and the names that are bound are temporaries from that depth on, besides the
one that a decoding is given. -/
theorem temporaries_hygienic (s : Schema) (runtime : String) (ty : Ty) (d : Nat) (name : String)
    (hname : ¬ Temporary d name) :
    (s.Admits ty →
      (∃ e, Decoding.ofTy? ⟨s, runtime⟩ name d ty = .ok e)
      ∧ ∀ isBinding, ∃ e, Encoding.ofTy? ⟨s, runtime⟩ ⟨name, isBinding⟩ d ty = .ok e)
    ∧ (∀ e, Decoding.ofTy? ⟨s, runtime⟩ name d ty = .ok e →
      Statement.codes (e.statements runtime 0) = e.code runtime
      ∧ Scoped (fun x => x = name ∨ Temporary d x) [] (e.statements runtime 0))
    ∧ ∀ isBinding e, Encoding.ofTy? ⟨s, runtime⟩ ⟨name, isBinding⟩ d ty = .ok e →
      Statement.codes (e.statements runtime 0) = e.code runtime
      ∧ Scoped (Temporary d) [(name, .value 0)] (e.statements runtime 0) := by
  have hempty : Scope.Outside [] d 0 := ⟨.nil, .nil, List.forall_mem_nil _, List.forall_mem_nil _⟩
  have hoperand : Scope.Outside [(name, .value 0)] d 2 :=
    hempty.cons _ le_rfl hname List.not_mem_nil (Nat.zero_le _)
  refine ⟨fun hty => ⟨hty.exists_decoding name d, fun isBinding => hty.exists_encoding _ d⟩,
    fun e he => ⟨Decoding.codes_statements runtime e 0, ?_⟩,
    fun isBinding e he => ⟨Encoding.codes_statements runtime e 0, ?_⟩⟩
  · exact Decoding.scoped_statements (Decoding.emitted_of_ofTy? he) hempty hname List.not_mem_nil
  · exact Encoding.scoped_statements (Encoding.emitted_of_ofTy? he) hoperand List.mem_cons_self

/-- Three loops within one another. -/
theorem temporaries_hygienic_nested :
    ¬ Temporary 0 "value"
    ∧ (∃ e, Decoding.ofTy? ⟨.empty none, "runtime"⟩ "value" 0
          (.map (.scalar .string) (.array (.array (.scalar .int32)))) = .ok e
        ∧ Scoped (fun x => x = "value" ∨ Temporary 0 x) [] (e.statements "runtime" 0))
    ∧ ∃ e, Encoding.ofTy? ⟨.empty none, "runtime"⟩ ⟨"value", true⟩ 0
          (.map (.scalar .string) (.array (.array (.scalar .int32)))) = .ok e
        ∧ Scoped (Temporary 0) [("value", .value 0)] (e.statements "runtime" 0) := by
  have hname : ¬ Temporary 0 "value" := not_temporary (c := 'e') (by decide) (by decide)
  obtain ⟨hexists, hdecoding, hencoding⟩ := temporaries_hygienic (.empty none) "runtime"
    (.map (.scalar .string) (.array (.array (.scalar .int32)))) 0 "value" hname
  obtain ⟨⟨e, he⟩, hexists⟩ := hexists ⟨rfl, trivial⟩
  obtain ⟨e', he'⟩ := hexists true
  exact ⟨hname, ⟨e, he, (hdecoding e he).2⟩, e', he', (hencoding true e' he').2⟩

end SchemaCodec

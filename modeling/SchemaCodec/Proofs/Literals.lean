import Mathlib.Tactic.IntervalCases
import SchemaCodec.Json.Text
import SchemaCodec.Text.Quoted

/-!
# String literals

The generated language reads a string literal from left to right. A backslash begins an escape: one
letter, `\x` with two hexadecimal digits below 128, or `\u` with up to six of them in braces, for a
code point. A literal here ends on the line it begins on. Reading the literal of a text gives back
the text (`Literal.read_quoted`).
-/

namespace SchemaCodec

open Text

/-- Where the reader of a literal stands. -/
inductive Literal
  | plain
  | escape
  /-- Behind `\x`, with the first digit if it was read. -/
  | byte (first : Option Nat)
  | brace
  /-- In braces, behind so many digits, which make a number. -/
  | point (digits value : Nat)
  deriving DecidableEq

namespace Literal

/-- What an escape of one letter stands for. -/
def letter? : Char → Option Char
  | '0' => some '\x00'
  | 't' => some '\t'
  | 'n' => some '\n'
  | 'r' => some '\r'
  | '"' => some '"'
  | '\'' => some '\''
  | '\\' => some '\\'
  | _ => none

/-- Reads the rest of a literal, whose value so far is `out`, read backwards. -/
def read : Literal → (out : List Char) → List Char → Option (String × List Char)
  | _, _, [] => none
  | plain, out, c :: rest =>
    if c = '"' then some (String.ofList out.reverse, rest)
    else if c = '\\' then read escape out rest
    else if c = '\n' ∨ c = '\r' then none
    else read plain (c :: out) rest
  | escape, out, c :: rest =>
    if c = 'x' then read (byte none) out rest
    else if c = 'u' then read brace out rest
    else (letter? c).bind fun d => read plain (d :: out) rest
  | byte none, out, c :: rest =>
    (Json.hexDigit? c).bind fun n => if n < 8 then read (byte (some n)) out rest else none
  | byte (some first), out, c :: rest =>
    (Json.hexDigit? c).bind fun n => read plain (Char.ofNat (16 * first + n) :: out) rest
  | brace, out, c :: rest => if c = '{' then read (point 0 0) out rest else none
  | point digits value, out, c :: rest =>
    if c = '}' then
      if 0 < digits ∧ value.isValidChar then read plain (Char.ofNat value :: out) rest else none
    else if c = '_' ∧ 0 < digits then read (point digits value) out rest
    else (Json.hexDigit? c).bind fun n =>
      if digits < 6 then read (point (digits + 1) (16 * value + n)) out rest else none

/-- The literal that a text begins with. -/
def read? : List Char → Option (String × List Char)
  | '"' :: rest => read plain [] rest
  | _ => none

/-! ## Code points -/

theorem hexDigit?_digitChar : ∀ n < 16, Json.hexDigit? n.digitChar = some n
    ∧ n.digitChar ≠ '}' ∧ n.digitChar ≠ '_' := by
  decide

theorem read_digit {n : Nat} (hn : n < 16) {digits : Nat} (hd : digits < 6) (value : Nat)
    (out rest : List Char) : read (point digits value) out (n.digitChar :: rest)
      = read (point (digits + 1) (16 * value + n)) out rest := by
  obtain ⟨hread, hclose, hunderscore⟩ := hexDigit?_digitChar n hn
  simp [read, hread, hclose, hunderscore, hd]

/-- The digits of a number are read as the number, if not too many were read before them. -/
theorem read_toDigits (out : List Char) (n : Nat) : ∀ (digits value : Nat) (rest : List Char),
    digits + (Nat.toDigits 16 n).length ≤ 6 →
      read (point digits value) out (Nat.toDigits 16 n ++ rest)
        = read (point (digits + (Nat.toDigits 16 n).length)
            (16 ^ (Nat.toDigits 16 n).length * value + n)) out rest := by
  induction n using Nat.strongRecOn with
  | ind n ih =>
    intro digits value rest hlength
    by_cases hn : n < 16
    · rw [Nat.toDigits_of_lt_base hn] at hlength ⊢
      rw [List.singleton_append, read_digit hn (Nat.lt_of_succ_le hlength)]
      simp
    · rw [Nat.toDigits_of_base_le (by decide) (by omega), List.length_append] at hlength ⊢
      rw [List.length_singleton] at hlength ⊢
      rw [List.append_assoc, ih (n / 16) (by omega) digits value _ (by omega),
        List.singleton_append, read_digit (Nat.mod_lt _ (by decide)) (by omega)]
      have hvalue : ∀ k : Nat, 16 * (16 ^ k * value + n / 16) + n % 16
          = 16 ^ (k + 1) * value + n := by
        intro k
        rw [Nat.mul_add, pow_succ', Nat.mul_assoc, Nat.add_assoc, Nat.div_add_mod]
      rw [hvalue, Nat.add_assoc]

theorem length_toDigits_le (c : Char) : (Nat.toDigits 16 c.toNat).length ≤ 6 := by
  rw [Nat.length_toDigits_le_iff (by decide) (by decide)]
  have hvalid := c.valid
  simp only [UInt32.isValidChar, Nat.isValidChar] at hvalid
  have hnat : c.toNat = c.val.toNat := rfl
  omega

/-- A code point in braces is read as its character. -/
theorem read_point (c : Char) (out rest : List Char) :
    read plain out (['\\', 'u', '{'] ++ Nat.toDigits 16 c.toNat ++ ['}'] ++ rest)
      = read plain (c :: out) rest := by
  have hlength := length_toDigits_le c
  have hpos : 0 < (Nat.toDigits 16 c.toNat).length := List.length_pos_iff.2 Nat.toDigits_ne_nil
  have hvalid : c.toNat.isValidChar := c.valid
  have hopen : ∀ s, read plain out ('\\' :: 'u' :: '{' :: s) = read (point 0 0) out s := by
    intro s
    simp [read]
  simp only [List.cons_append, List.nil_append, List.append_assoc]
  rw [hopen, read_toDigits out c.toNat 0 0 _ (by omega)]
  simp [read, hpos, hvalid]

/-! ## Literals -/

theorem read_escapeChar (out : List Char) (c : Char) (rest : List Char) :
    read plain out (escapeChar c ++ rest) = read plain (c :: out) rest := by
  unfold escapeChar
  split
  case h_7 =>
    split_ifs
    · simp_all [read]
    · exact read_point c out rest
  all_goals simp [read, letter?]

theorem read_escaped (out s rest : List Char) :
    read plain out (s.flatMap escapeChar ++ '"' :: rest)
      = some (String.ofList (out.reverse ++ s), rest) := by
  induction s generalizing out with
  | nil => simp [read]
  | cons c s ih =>
    rw [List.flatMap_cons, List.append_assoc, read_escapeChar, ih]
    simp

/-- The literal of a text is read as the text, whatever characters it has. -/
theorem read_quoted (t : String) (rest : List Char) :
    read? ((quoted t).toList ++ rest) = some (t, rest) := by
  have hquoted : (quoted t).toList ++ rest
      = '"' :: (t.toList.flatMap escapeChar ++ '"' :: rest) := by
    simp [quoted]
  rw [hquoted, read?, read_escaped]
  simp

/-- The same character has several escapes. -/
example : read? "\"\\x41\\u\x7b0_41\x7d\\t\", x".toList = some ("AA\t", ", x".toList) := by
  decide +kernel

end Literal

end SchemaCodec

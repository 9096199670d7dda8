import Mathlib.Tactic.IntervalCases
import SchemaCodec.Proofs.Words

/-!
# Characters without case

An ASCII character that is no letter is the small form and the capital of itself alone
(`Text.notMem_lower`). So an identifier has such a character only if the name has it
(`Identifier.notMem_ofField`), apart from the underscore and the mark of a raw identifier, and the
characters that separate words are not even kept.
-/

namespace SchemaCodec

open Text

variable {c d : Char} {name t : String}

/-! ## Case -/

/-- An ASCII character that is no letter. -/
def Text.Uncased (c : Char) : Prop :=
  0 < c.toNat ∧ c.toNat < 128 ∧ c.isAlpha = false

instance : DecidablePred Uncased :=
  fun _ => inferInstanceAs (Decidable (_ ∧ _))

namespace Text

/-- The numbers of the letters in ASCII, and those past it. -/
def CasedNumber (n : Int) : Prop :=
  (65 ≤ n ∧ n ≤ 90) ∨ (97 ≤ n ∧ n ≤ 122) ∨ 128 ≤ n

instance : DecidablePred CasedNumber :=
  fun _ => inferInstanceAs (Decidable (_ ∨ _))

/-- No letter of ASCII and no character past it is uncased. -/
theorem Uncased.not_casedNumber (hc : Uncased c) : ¬ CasedNumber c.toNat := by
  have hall : ∀ n : Fin 128, (Char.ofNat n).isAlpha = false →
      ¬ ((65 ≤ (Char.ofNat n).toNat ∧ (Char.ofNat n).toNat ≤ 90)
        ∨ (97 ≤ (Char.ofNat n).toNat ∧ (Char.ofNat n).toNat ≤ 122)) := by decide +kernel
  have hletter := ascii_check (p := fun c => c.isAlpha = false →
    ¬ ((65 ≤ c.toNat ∧ c.toNat ≤ 90) ∨ (97 ≤ c.toNat ∧ c.toNat ≤ 122))) hc.2.1 hall hc.2.2
  unfold CasedNumber
  have hascii := hc.2.1
  omega

theorem Uncased.eq_of_ofNat_eq {n : Nat} (hc : Uncased c) (h : Char.ofNat n = c) : c.toNat = n := by
  have hnat : (Char.ofNat n).toNat = n ∨ (Char.ofNat n).toNat = 0 := by
    by_cases hn : n.isValidChar
    · exact .inl (by rw [Char.ofNat, dif_pos hn]; rfl)
    · exact .inr (by rw [Char.ofNat, dif_neg hn]; rfl)
  rw [h] at hnat
  exact hnat.resolve_right hc.1.ne'

/-- What a shift leads to is a letter or lies past ASCII. -/
def Shift.Cased (s : Shift) : Prop :=
  (65 ≤ s.span.first + s.amount ∧ s.span.last + s.amount ≤ 90)
    ∨ (97 ≤ s.span.first + s.amount ∧ s.span.last + s.amount ≤ 122)
    ∨ 128 ≤ s.span.first + s.amount

instance : DecidablePred Shift.Cased :=
  fun _ => inferInstanceAs (Decidable (_ ∨ _))

/-- A table that leads to letters and past ASCII gives an uncased character for itself alone. -/
theorem notMem_mapCase {expansions : List (Nat × List Nat)} {shifts : List Shift}
    (hexpansions : ∀ e ∈ expansions, ∀ n ∈ e.2, CasedNumber n) (hshifts : ∀ s ∈ shifts, s.Cased)
    (hc : Uncased c) (h : d ≠ c) : c ∉ mapCase expansions shifts d := by
  unfold mapCase
  split
  · rename_i ns hns
    obtain ⟨l, l', rfl, -⟩ := List.lookup_eq_some_iff.1 hns
    intro hm
    obtain ⟨n, hn, heq⟩ := List.mem_map.1 hm
    refine hc.not_casedNumber ?_
    rw [hc.eq_of_ofNat_eq heq]
    exact hexpansions (d.toNat, ns) (by simp) n hn
  · rw [List.mem_singleton, shiftedBy]
    rcases hfind : shifts.find? (·.span.contains d.toNat) with _ | s <;> rw [hfind]
    · exact h.symm
    · intro heq
      have hn : c.toNat = ((d.toNat : Int) + s.amount).toNat := hc.eq_of_ofNat_eq heq.symm
      have hspan : s.span.first ≤ d.toNat ∧ d.toNat ≤ s.span.last := by
        have hspan := List.find?_some hfind
        simp only [Span.contains, Bool.and_eq_true, decide_eq_true_eq] at hspan
        exact hspan.1
      have hcased := hshifts s (List.mem_of_find?_eq_some hfind)
      refine hc.not_casedNumber ?_
      unfold Shift.Cased at hcased
      unfold CasedNumber
      omega

/-- What an ASCII character is mapped to, itself or a letter, is an uncased character only if the
character was. -/
theorem Uncased.ne_of_mapped {d' : Char} (hc : Uncased c) (h : d ≠ c)
    (hd : d' = d ∨ d'.isAlpha = true) : c ≠ d' := by
  rintro rfl
  rcases hd with rfl | hd
  · exact h rfl
  · rw [hc.2.2] at hd
    cases hd

theorem notMem_upper (hc : Uncased c) (h : d ≠ c) : c ∉ upper d := by
  unfold upper
  split_ifs with hascii
  · rw [List.mem_singleton]
    exact hc.ne_of_mapped h <| ascii_check (p := fun d => d.toUpper = d ∨ d.toUpper.isAlpha = true)
      (UInt32.lt_iff_toNat_lt.1 hascii) (by decide +kernel)
  · exact notMem_mapCase (by decide +kernel) (by decide +kernel) hc h

theorem notMem_lower (hc : Uncased c) (h : d ≠ c) : c ∉ lower d := by
  unfold lower
  split_ifs with hascii
  · rw [List.mem_singleton]
    exact hc.ne_of_mapped h <| ascii_check (p := fun d => d.toLower = d ∨ d.toLower.isAlpha = true)
      (UInt32.lt_iff_toNat_lt.1 hascii) (by decide +kernel)
  · exact notMem_mapCase (by decide +kernel) (by decide +kernel) hc h

end Text

/-! ## Identifiers -/

namespace Identifier

/-- A character that an identifier has only if the name has it. -/
def Foreign (c : Char) : Prop :=
  Uncased c ∧ c ≠ '_' ∧ c ≠ '#'

instance : DecidablePred Foreign :=
  fun _ => inferInstanceAs (Decidable (_ ∧ _))

/-- The name does not bring the character into its identifiers. -/
def Lacks (name : String) (c : Char) : Prop :=
  isSeparator c = true ∨ c ∉ name.toList

theorem Lacks.ne_of_mem (h : Lacks name c) (hd : d ∈ name.toList) (hs : isSeparator d = false) :
    d ≠ c := by
  rintro rfl
  rcases h with h | h
  · rw [hs] at h
    cases h
  · exact h hd

theorem notMem_pascal (hc : Foreign c) (h : Lacks name c) : c ∉ (pascal name).toList := by
  have hupper : ∀ d ∈ name.toList, isSeparator d = false → d ≠ c ∧ ∀ e ∈ upper d, e ≠ c := by
    intro d hd hs
    have hne := h.ne_of_mem hd hs
    exact ⟨hne, fun e he => ne_of_mem_of_not_mem he (notMem_upper hc.1 hne)⟩
  rw [toList_pascal]
  exact fun hm => forall_mem_pascalFrom hupper _ hm rfl

theorem notMem_snake (hc : Foreign c) (h : Lacks name c) : c ∉ (snake name).toList := by
  have hlower : ∀ d ∈ name.toList, isSeparator d = false → ∀ e ∈ lower d, e ≠ c := by
    intro d hd hs e he
    exact ne_of_mem_of_not_mem he (notMem_lower hc.1 (h.ne_of_mem hd hs))
  rw [toList_snake, List.mem_reverse]
  intro hm
  exact forall_mem_snakeFrom hc.2.1.symm hlower (List.forall_mem_nil _) _
    ((dropUnderscore_sublist _).subset hm) rfl

theorem notMem_escape (hc : Foreign c) (h : c ∉ t.toList) : c ∉ (escape t).toList := by
  have hr : c ≠ 'r' := by
    rintro rfl
    exact absurd hc.1 (by decide)
  unfold escape
  split_ifs <;> simp [h, hc.2.1, hc.2.2, hr]

theorem notMem_ofField (hc : Foreign c) (h : Lacks name c) : c ∉ (ofField name).toList :=
  notMem_escape hc (notMem_snake hc h)

theorem notMem_ofModule (hc : Foreign c) (h : Lacks name c) : c ∉ (ofModule name).toList :=
  notMem_escape hc (notMem_snake hc h)

theorem notMem_ofType (hc : Foreign c) (h : Lacks name c) : c ∉ (ofType name).toList :=
  notMem_escape hc (notMem_pascal hc h)

theorem notMem_ofConstant (hc : Foreign c) (h : Lacks name c) : c ∉ (ofConstant name).toList := by
  have hletters : c ∉ (snake name).toList.flatMap upper := by
    intro hm
    obtain ⟨d, hd, hm⟩ := List.mem_flatMap.1 hm
    exact notMem_upper hc.1 (ne_of_mem_of_not_mem hd (notMem_snake hc h)) hm
  unfold ofConstant
  simp only []
  split_ifs <;> simp [hletters, hc.2.1]

end Identifier

/-! ## Numbers and quoted texts -/

namespace Text

theorem isAlphanum_of_mem_toDigits {b : Nat} (hb : 1 < b) (hb' : b ≤ 16) (n : Nat) :
    ∀ c ∈ Nat.toDigits b n, c.isAlphanum = true := by
  have hdigit : ∀ m < b, m.digitChar.isAlphanum = true := by
    intro m hm
    have hm' : m < 16 := by omega
    interval_cases m <;> decide
  induction n using Nat.strongRecOn with
  | ind n ih =>
    by_cases hn : n < b
    · rw [Nat.toDigits_of_lt_base hn, List.forall_mem_singleton]
      exact hdigit n hn
    · rw [Nat.toDigits_of_base_le hb (by omega), List.forall_mem_append, List.forall_mem_singleton]
      exact ⟨ih _ (Nat.div_lt_self (by omega) hb), hdigit _ (Nat.mod_lt _ (by omega))⟩

/-- A literal has no line ends, whatever text it stands for. -/
theorem notMem_quoted (hc : c = '\n' ∨ c = '\r') (t : String) : c ∉ (quoted t).toList := by
  have hchar : ∀ d : Char, c ∉ escapeChar d := by
    intro d
    unfold escapeChar
    split
    case h_7 hreturn hfeed _ _ =>
      have hne : c ≠ d := by
        rintro rfl
        rcases hc with rfl | rfl
        · exact hfeed rfl
        · exact hreturn rfl
      have hdigits : c ∉ Nat.toDigits 16 d.toNat := by
        intro hm
        have hn := isAlphanum_of_mem_toDigits (by decide) (by decide) d.toNat c hm
        rcases hc with rfl | rfl <;> cases hn
      split_ifs
      · simpa using hne
      · rcases hc with rfl | rfl <;> simpa using hdigits
    all_goals rcases hc with rfl | rfl <;> decide
  have hquote : c ≠ '"' := by rcases hc with rfl | rfl <;> decide
  simp [quoted, hchar, hquote]

end Text

end SchemaCodec

import SchemaCodec.Proofs.Words

/-!
# Legal identifiers

An identifier of the generated source is legal (`Identifier.IsLegal`) if it is an ASCII identifier
other than a lone underscore and no keyword, or a keyword in its raw form. `reserved` is a list of
all the keywords (`Identifier.mem_reserved_iff`), so `escape` makes an identifier legal and leaves
what is none (`Identifier.legal_escape_iff`).

The cases drop the underscores at the start of a name. So a type, a field or a module has a legal
identifier exactly if the first character that is no underscore is a letter, as nothing stands in
front of a digit, and a constant as soon as there is such a character
(`Identifier.legal_iff`).
-/

namespace SchemaCodec.Identifier

open Text

variable {s : List Char} {name t : String}

/-! ## Keywords -/

/-- The keywords of the language, those that are only kept for later among them. -/
def keywords : List String := [
  "Self", "abstract", "as", "async", "await", "become", "box", "break", "const", "continue",
  "crate", "do", "dyn", "else", "enum", "extern", "false", "final", "fn", "for", "gen", "if",
  "impl", "in", "let", "loop", "macro", "match", "mod", "move", "mut", "override", "priv", "pub",
  "ref", "return", "self", "static", "struct", "super", "trait", "true", "try", "type", "typeof",
  "unsafe", "unsized", "use", "virtual", "where", "while", "yield"]

/-- An identifier as it may stand in the source, raw identifiers among them. -/
inductive IsLegal : String → Prop
  | plain {t : String} : IsIdentifier t.toList → t ≠ "_" → t ∉ keywords → IsLegal t
  | raw {w : String} : w ∈ keywords → w ∉ ["crate", "self", "Self", "super"] → IsLegal ("r#" ++ w)

theorem mem_reserved_iff : t ∈ reserved ↔ t ∈ keywords := by
  have hperm : reserved.Perm keywords := by decide +kernel
  exact hperm.mem_iff

theorem isIdentifier_of_mem_reserved (h : t ∈ reserved) : IsIdentifier t.toList ∧ t ≠ "_" := by
  have hall : ∀ w ∈ reserved, Ty.isName w.toList = true ∧ w ≠ "_" := by decide
  exact (hall t h).imp_left Ty.isName_iff.1

theorem legal_of_mem_neverRaw (h : t ∈ neverRaw) : IsLegal (t ++ "_") := by
  have hall : ∀ w ∈ neverRaw, Ty.isName (w ++ "_").toList = true ∧ w ++ "_" ≠ "_"
      ∧ w ++ "_" ∉ keywords := by decide
  obtain ⟨hname, hne, hkeyword⟩ := hall t h
  exact .plain (Ty.isName_iff.1 hname) hne hkeyword

theorem neverRaw_subset : neverRaw ⊆ reserved := by
  decide

/-- No text of letters, digits and underscores is a raw identifier, so `escape` makes it legal if it
is an identifier, and otherwise leaves it as it is. -/
theorem legal_escape_iff (h : ∀ d ∈ t.toList, IsNameChar d) :
    IsLegal (escape t) ↔ IsIdentifier t.toList ∧ t ≠ "_" := by
  by_cases hraw : t ∈ neverRaw
  · simp only [escape, List.contains_iff_mem, hraw, if_true, legal_of_mem_neverRaw hraw,
      true_iff]
    exact isIdentifier_of_mem_reserved (neverRaw_subset hraw)
  · by_cases hreserved : t ∈ reserved
    · simp only [escape, List.contains_iff_mem, hraw, hreserved, if_true, if_false]
      exact iff_of_true (.raw (mem_reserved_iff.1 hreserved) hraw)
        (isIdentifier_of_mem_reserved hreserved)
    · simp only [escape, List.contains_iff_mem, hraw, hreserved, if_false]
      refine ⟨fun hlegal => ?_, fun ⟨hname, hne⟩ =>
        .plain hname hne (mt mem_reserved_iff.2 hreserved)⟩
      cases hlegal with
      | plain hname hne _ => exact ⟨hname, hne⟩
      | raw _ _ => exact absurd (h '#' (by simp)) (by decide)

theorem isIdentifier_iff (h : ∀ d ∈ s, IsNameChar d) :
    IsIdentifier s ↔ ∃ c, s.head? = some c ∧ (c.isAlpha = true ∨ c = '_') := by
  constructor
  · rintro ⟨-, c, u, rfl, hc⟩
    exact ⟨c, rfl, hc⟩
  · rintro ⟨c, hhead, hc⟩
    obtain ⟨u, rfl⟩ := List.head?_eq_some_iff.1 hhead
    exact ⟨h, c, u, rfl, hc⟩

theorem not_legal_empty : ¬ IsLegal "" := by
  have hempty : escape "" = "" := by decide
  rw [← hempty, legal_escape_iff (by simp), isIdentifier_iff (by simp)]
  simp

/-- Keywords have small letters, so an identifier in capitals is none. -/
theorem legal_of_capitals (h : ∀ d ∈ s, d.isLower = false) (hs : IsIdentifier s)
    (hne : s ≠ ['_']) : IsLegal (String.ofList s) := by
  have hsmall : ∀ w ∈ keywords, w.toList.any Char.isLower = true := by decide
  refine .plain (by rwa [String.toList_ofList]) ?_ fun hkeyword => ?_
  · rw [Ne, ← String.toList_inj, String.toList_ofList]
    exact hne
  · have hlower := hsmall _ hkeyword
    rw [String.toList_ofList, List.any_eq_true] at hlower
    obtain ⟨d, hd, hlower⟩ := hlower
    simp [h d hd] at hlower

/-! ## Identifiers of names -/

theorem Recased.legal_escape_iff (h : Recased name t) :
    IsLegal (escape t) ↔ ∃ c, first? name = some c ∧ c.isAlpha = true := by
  rw [Identifier.legal_escape_iff h.isNameChar, isIdentifier_iff h.isNameChar]
  rcases h.none_or_some with ⟨hfirst, ht⟩ | ⟨c, d, s, hfirst, ht, hne, halpha⟩
  · simp [hfirst, ht]
  · have hlone : t ≠ "_" := by
      rintro rfl
      exact hne (List.cons.inj ht).1.symm
    simp [hfirst, ht, hne, hlone, halpha]

theorem isNameChar_ofConstant (h : ∀ c ∈ name.toList, IsNameChar c) :
    ∀ c ∈ (ofConstant name).toList, IsNameChar c := by
  have hchars := (recased_snake h).capitals.isNameChar
  rw [String.toList_ofList] at hchars
  unfold ofConstant
  rw [String.toList_ofList]
  split_ifs
  · exact List.forall_mem_cons.2 ⟨.inr rfl, hchars⟩
  · exact hchars

theorem legal_ofConstant_iff (h : ∀ c ∈ name.toList, IsNameChar c) :
    IsLegal (ofConstant name) ↔ ∃ c, first? name = some c := by
  have hcapitals := (recased_snake h).isLower_of_mem_capitals
  have hchars := isNameChar_ofConstant h
  have hstart := (recased_snake h).capitals.none_or_some
  rw [String.toList_ofList] at hstart
  unfold ofConstant at hchars ⊢
  generalize (snake name).toList.flatMap upper = letters at *
  rcases hstart with ⟨hfirst, rfl⟩ | ⟨c, d, s, hfirst, rfl, hne, halpha⟩
  · rw [hfirst]
    simpa using not_legal_empty
  · refine iff_of_true ?_ ⟨c, hfirst⟩
    by_cases hdigit : (d :: s).head?.any Char.isDigit = true
    · simp only [if_pos hdigit, String.toList_ofList] at hchars ⊢
      refine legal_of_capitals ?_ ((isIdentifier_iff hchars).2 ⟨'_', rfl, .inr rfl⟩) (by simp)
      exact List.forall_mem_cons.2 ⟨by decide, hcapitals⟩
    · simp only [if_neg hdigit, String.toList_ofList] at hchars ⊢
      have hletter : d.isAlpha = true := by
        rcases hchars d List.mem_cons_self with h' | h'
        · simp only [List.head?_cons, Option.any_some] at hdigit
          simpa [Char.isAlphanum, hdigit] using h'
        · exact absurd h' hne
      refine legal_of_capitals hcapitals ((isIdentifier_iff hchars).2 ⟨d, rfl, .inl hletter⟩) ?_
      simp [hne]

/-- Exactly which names have legal identifiers: for types, fields and modules those with a letter
in front, underscores apart, and for constants those that are not all underscores. -/
theorem legal_iff (name : String) (h : IsIdentifier name.toList) :
    (IsLegal (ofType name) ↔ ∃ c, first? name = some c ∧ c.isAlpha = true)
    ∧ (IsLegal (ofField name) ↔ ∃ c, first? name = some c ∧ c.isAlpha = true)
    ∧ (IsLegal (ofModule name) ↔ ∃ c, first? name = some c ∧ c.isAlpha = true)
    ∧ (IsLegal (ofConstant name) ↔ ∃ c, first? name = some c) :=
  ⟨(recased_pascal h.1).legal_escape_iff, (recased_snake h.1).legal_escape_iff,
    (recased_snake h.1).legal_escape_iff, legal_ofConstant_iff h.1⟩

/-- A keyword without a raw form, with underscores around it. -/
theorem legal_crate :
    IsIdentifier "__crate_".toList
    ∧ ofField "__crate_" = "crate_" ∧ IsLegal (ofField "__crate_") ∧ IsLegal (ofModule "__crate_")
    ∧ ofType "__crate_" = "Crate" ∧ IsLegal (ofType "__crate_")
    ∧ ofConstant "__crate_" = "CRATE" ∧ IsLegal (ofConstant "__crate_") := by
  have hname : IsIdentifier "__crate_".toList := Ty.isName_iff.1 (by decide)
  have hletter : ∃ c, first? "__crate_" = some c ∧ c.isAlpha = true :=
    ⟨'c', by decide, by decide⟩
  obtain ⟨htype, hfield, hmodule, hconstant⟩ := legal_iff "__crate_" hname
  exact ⟨hname, by decide +kernel, hfield.2 hletter, hmodule.2 hletter, by decide +kernel,
    htype.2 hletter, by decide +kernel, hconstant.2 (hletter.imp fun _ hc => hc.1)⟩

/-- A digit behind underscores comes to the front. -/
theorem not_legal_digit :
    ¬ ∀ name : String, IsIdentifier name.toList → IsLegal (ofType name) ∧ IsLegal (ofField name)
      ∧ IsLegal (ofConstant name) ∧ IsLegal (ofModule name) := by
  intro h
  have hname : IsIdentifier "_1".toList := Ty.isName_iff.1 (by decide)
  obtain ⟨c, hfirst, halpha⟩ := (recased_snake hname.1).legal_escape_iff.1 (h "_1" hname).2.1
  have hdigit : first? "_1" = some '1' := by decide
  rw [hdigit] at hfirst
  cases hfirst
  exact absurd halpha (by decide)

end SchemaCodec.Identifier

import SchemaCodec.Proofs.TypeGrammar
import SchemaCodec.Source.Identifier

/-!
# The words of a name

The underscores at the start of a name are dropped when it is put into another case. So the result
begins with what stands for the first character that is none (`Identifier.first?`), a letter for a
letter and a digit for a digit, and it is empty if there is no such character. Its other characters
are ASCII letters, digits and underscores as those of the name are. That is `Identifier.Recased`; it
holds in `snake` and in `pascal`, and still when all letters are then raised.
-/

namespace SchemaCodec

open Text

variable {c : Char} {s out gap : List Char} {before : Option Char} {name t : String}

/-! ## Characters of names -/

instance : DecidablePred IsNameChar :=
  fun _ => inferInstanceAs (Decidable (_ ∨ _))

/-- A property of characters can be checked for one ASCII character after the other. -/
theorem Text.ascii_check {p : Char → Prop} (h : c.toNat < 128)
    (hall : ∀ n : Fin 128, p (Char.ofNat n)) : p c := by
  have hc := hall ⟨c.toNat, h⟩
  rwa [Char.ofNat_toNat] at hc

theorem Text.lower_of_ascii (h : c.toNat < 128) : lower c = [c.toLower] :=
  ascii_check (p := fun c => lower c = [c.toLower]) h (by decide +kernel)

namespace IsNameChar

theorem toNat_lt (h : IsNameChar c) : c.toNat < 128 := by
  rcases h with h | rfl
  · have hval : c.toNat = c.val.toNat := rfl
    unfold Char.isAlphanum Char.isAlpha Char.isUpper Char.isLower Char.isDigit at h
    simp only [UInt32.le_iff_toNat_le, Bool.or_eq_true, Bool.and_eq_true, decide_eq_true_eq] at h
    simp at h
    omega
  · decide

/-- A property of characters can be checked for one character of names after the other. -/
theorem check {p : Char → Prop} (h : IsNameChar c)
    (hall : ∀ n : Fin 128, IsNameChar (Char.ofNat n) → p (Char.ofNat n)) : p c :=
  Text.ascii_check (p := fun c => IsNameChar c → p c) h.toNat_lt hall h

theorem isSeparator_iff (h : IsNameChar c) : Identifier.isSeparator c = true ↔ c = '_' :=
  h.check (p := fun c => Identifier.isSeparator c = true ↔ c = '_') (by decide +kernel)

theorem lower_eq (h : IsNameChar c) : lower c = [c.toLower] :=
  lower_of_ascii h.toNat_lt

theorem upper_eq (h : IsNameChar c) : upper c = [c.toUpper] :=
  h.check (p := fun c => upper c = [c.toUpper]) (by decide +kernel)

theorem toLower (h : IsNameChar c) : IsNameChar c.toLower :=
  h.check (p := fun c => IsNameChar c.toLower) (by decide +kernel)

theorem toUpper (h : IsNameChar c) : IsNameChar c.toUpper :=
  h.check (p := fun c => IsNameChar c.toUpper) (by decide +kernel)

theorem isAlpha_toLower (h : IsNameChar c) : c.toLower.isAlpha = c.isAlpha :=
  h.check (p := fun c => c.toLower.isAlpha = c.isAlpha) (by decide +kernel)

theorem isAlpha_toUpper (h : IsNameChar c) : c.toUpper.isAlpha = c.isAlpha :=
  h.check (p := fun c => c.toUpper.isAlpha = c.isAlpha) (by decide +kernel)

theorem isLower_toUpper (h : IsNameChar c) : c.toUpper.isLower = false :=
  h.check (p := fun c => c.toUpper.isLower = false) (by decide +kernel)

theorem toLower_eq_iff (h : IsNameChar c) : c.toLower = '_' ↔ c = '_' :=
  h.check (p := fun c => c.toLower = '_' ↔ c = '_') (by decide +kernel)

theorem toUpper_eq_iff (h : IsNameChar c) : c.toUpper = '_' ↔ c = '_' :=
  h.check (p := fun c => c.toUpper = '_' ↔ c = '_') (by decide +kernel)

end IsNameChar

namespace Identifier

/-- The first character of a name that is no underscore. -/
def first? (name : String) : Option Char :=
  name.toList.find? (· ≠ '_')

theorem ne_underscore_of_first? (h : first? name = some c) : c ≠ '_' := by
  simpa using List.find?_some h

/-- A text that is a name in another case, as far as its characters and its start go. -/
structure Recased (name t : String) : Prop where
  isNameChar : ∀ d ∈ t.toList, IsNameChar d
  head : Option.Rel (fun c d => d ≠ '_' ∧ d.isAlpha = c.isAlpha) (first? name) t.toList.head?

/-- Either there is no such character and the text is empty, or the text begins with what stands for
it. -/
theorem Recased.none_or_some (h : Recased name t) :
    first? name = none ∧ t.toList = []
    ∨ ∃ c d s, first? name = some c ∧ t.toList = d :: s ∧ d ≠ '_' ∧ d.isAlpha = c.isAlpha := by
  have hhead := h.head
  generalize first? name = first, t.toList = s at hhead
  rcases s with _ | ⟨d, s⟩
  · cases hhead
    exact .inl ⟨rfl, rfl⟩
  · cases hhead with
    | some hd => exact .inr ⟨_, d, s, rfl, rfl, hd⟩

/-- A name, with the underscores at its start apart. -/
theorem exists_eq_gap_append (h : ∀ c ∈ name.toList, IsNameChar c) :
    ∃ gap rest, name.toList = gap ++ rest ∧ (∀ d ∈ gap, isSeparator d = true)
      ∧ first? name = rest.head? := by
  refine ⟨name.toList.takeWhile (· = '_'), name.toList.dropWhile (· = '_'),
    List.takeWhile_append_dropWhile.symm, fun d hd => ?_, ?_⟩
  · have hunderscore := List.mem_takeWhile_imp hd
    have hname := h d ((List.takeWhile_sublist _).subset hd)
    exact hname.isSeparator_iff.2 (by simpa using hunderscore)
  · rw [first?, List.find?_eq_head?_dropWhile_not]
    simp

/-! ## Snake case -/

/-- What one more character writes: at most an underscore, and its small form if it is no
separator. -/
theorem exists_snakeFrom_cons (before : Option Char) (out : List Char) (c : Char) (s : List Char) :
    ∃ out', (out' = out ∨ out' = withUnderscore out)
      ∧ snakeFrom before out (c :: s)
        = snakeFrom (some c) ((if isSeparator c then [] else (lower c).reverse) ++ out') s := by
  by_cases hc : isSeparator c = true
  · exact ⟨_, .inr rfl, by simp [snakeFrom, hc]⟩
  · by_cases hstarts : (isUpper c && before.any (startsWord · s.head?)) = true
    · exact ⟨_, .inr rfl, by simp only [snakeFrom, if_neg hc, if_pos hstarts]⟩
    · exact ⟨_, .inl rfl, by simp only [snakeFrom, if_neg hc, if_neg hstarts]⟩

theorem suffix_withUnderscore (out : List Char) : out <:+ withUnderscore out := by
  unfold withUnderscore
  split
  · exact List.suffix_refl _
  · exact List.suffix_refl _
  · exact List.suffix_cons _ _

theorem forall_mem_withUnderscore {p : Char → Prop} (hp : p '_') (h : ∀ d ∈ out, p d) :
    ∀ d ∈ withUnderscore out, p d := by
  unfold withUnderscore
  split
  · exact h
  · exact h
  · exact List.forall_mem_cons.2 ⟨hp, h⟩

/-- What is written stays. -/
theorem suffix_snakeFrom (before : Option Char) (out s : List Char) :
    out <:+ snakeFrom before out s := by
  induction s generalizing before out with
  | nil => exact List.suffix_refl _
  | cons c s ih =>
    obtain ⟨out', hout', heq⟩ := exists_snakeFrom_cons before out c s
    have hout : out <:+ out' := by
      rcases hout' with rfl | rfl
      · exact List.suffix_refl _
      · exact suffix_withUnderscore out
    rw [heq]
    exact (hout.trans (List.suffix_append _ _)).trans (ih _ _)

/-- What the underscore and the small forms have in common, all of the text has. -/
theorem forall_mem_snakeFrom {p : Char → Prop} (hp : p '_')
    (h : ∀ c ∈ s, isSeparator c = false → ∀ d ∈ lower c, p d) (hout : ∀ d ∈ out, p d) :
    ∀ d ∈ snakeFrom before out s, p d := by
  induction s generalizing before out with
  | nil => exact hout
  | cons c s ih =>
    obtain ⟨out', hout', heq⟩ := exists_snakeFrom_cons before out c s
    rw [List.forall_mem_cons] at h
    rw [heq]
    refine ih h.2 (List.forall_mem_append.2 ⟨?_, ?_⟩)
    · split_ifs with hc
      · nofun
      · exact fun d hd => h.1 (Bool.eq_false_iff.2 hc) d (List.mem_reverse.1 hd)
    · rcases hout' with rfl | rfl
      · exact hout
      · exact forall_mem_withUnderscore hp hout

/-- As long as nothing is written, separators write nothing. -/
theorem exists_snakeFrom_gap (hgap : ∀ d ∈ gap, isSeparator d = true) (before : Option Char)
    (s : List Char) : ∃ before', snakeFrom before [] (gap ++ s) = snakeFrom before' [] s := by
  induction gap generalizing before with
  | nil => exact ⟨before, rfl⟩
  | cons d gap ih =>
    rw [List.forall_mem_cons] at hgap
    rw [List.cons_append, snakeFrom, if_pos hgap.1]
    exact ih hgap.2 _

theorem dropUnderscore_sublist (s : List Char) : (dropUnderscore s).Sublist s := by
  unfold dropUnderscore
  split
  · exact List.sublist_cons_self _ _
  · exact List.Sublist.refl _

theorem exists_dropUnderscore_concat (hc : c ≠ '_') (s : List Char) :
    ∃ u, dropUnderscore (s ++ [c]) = u ++ [c] := by
  rcases s with _ | ⟨d, s⟩
  · exact ⟨[], by simp [dropUnderscore, hc]⟩
  · by_cases hd : d = '_'
    · exact ⟨s, by simp [dropUnderscore, hd]⟩
    · exact ⟨d :: s, by simp [dropUnderscore, hd]⟩

theorem toList_snake :
    (snake name).toList = (dropUnderscore (snakeFrom none [] name.toList)).reverse :=
  String.toList_ofList

theorem recased_snake (h : ∀ c ∈ name.toList, IsNameChar c) : Recased name (snake name) where
  isNameChar d hd := by
    have hlower : ∀ c ∈ name.toList, isSeparator c = false → ∀ d ∈ lower c, IsNameChar d := by
      intro c hc _
      rw [(h c hc).lower_eq, List.forall_mem_singleton]
      exact (h c hc).toLower
    rw [toList_snake, List.mem_reverse] at hd
    exact forall_mem_snakeFrom (.inr rfl) hlower (List.forall_mem_nil _) d
      ((dropUnderscore_sublist _).subset hd)
  head := by
    obtain ⟨gap, rest, heq, hgap, hfirst⟩ := exists_eq_gap_append h
    obtain ⟨before, hsnake⟩ := exists_snakeFrom_gap hgap none rest
    rw [toList_snake, heq, hsnake, hfirst]
    rcases rest with _ | ⟨c, rest⟩
    · exact .none
    · have hc : IsNameChar c := h c (by simp [heq])
      have hne : c ≠ '_' := ne_underscore_of_first? hfirst
      have hlower : c.toLower ≠ '_' := mt hc.toLower_eq_iff.1 hne
      have hwritten : snakeFrom before [] (c :: rest) = snakeFrom (some c) [c.toLower] rest := by
        simp [snakeFrom, mt hc.isSeparator_iff.1 hne, withUnderscore, hc.lower_eq]
      -- whatever follows, the small form of the first character stays where it is
      obtain ⟨s, hs⟩ := suffix_snakeFrom (some c) [c.toLower] rest
      obtain ⟨u, hu⟩ := exists_dropUnderscore_concat hlower s
      rw [hwritten, ← hs, hu, List.reverse_concat]
      exact .some ⟨hlower, hc.isAlpha_toLower⟩

/-! ## Pascal case -/

theorem forall_mem_pascalFrom {p : Char → Prop} {atStart : Bool}
    (h : ∀ c ∈ s, isSeparator c = false → p c ∧ ∀ d ∈ upper c, p d) :
    ∀ d ∈ pascalFrom atStart s, p d := by
  induction s generalizing atStart with
  | nil => nofun
  | cons c s ih =>
    rw [List.forall_mem_cons] at h
    unfold pascalFrom
    split_ifs with hc
    · exact ih h.2
    · exact List.forall_mem_append.2 ⟨(h.1 (Bool.eq_false_iff.2 hc)).2, ih h.2⟩
    · exact List.forall_mem_append.2 ⟨by simpa using (h.1 (Bool.eq_false_iff.2 hc)).1, ih h.2⟩

theorem pascalFrom_gap (hgap : ∀ d ∈ gap, isSeparator d = true) (s : List Char) :
    pascalFrom true (gap ++ s) = pascalFrom true s := by
  induction gap with
  | nil => rfl
  | cons d gap ih =>
    rw [List.forall_mem_cons] at hgap
    rw [List.cons_append, pascalFrom, if_pos hgap.1]
    exact ih hgap.2

theorem toList_pascal : (pascal name).toList = pascalFrom true name.toList :=
  String.toList_ofList

theorem recased_pascal (h : ∀ c ∈ name.toList, IsNameChar c) : Recased name (pascal name) where
  isNameChar := by
    rw [toList_pascal]
    refine forall_mem_pascalFrom fun c hc _ => ⟨h c hc, ?_⟩
    rw [(h c hc).upper_eq, List.forall_mem_singleton]
    exact (h c hc).toUpper
  head := by
    obtain ⟨gap, rest, heq, hgap, hfirst⟩ := exists_eq_gap_append h
    rw [toList_pascal, heq, pascalFrom_gap hgap, hfirst]
    rcases rest with _ | ⟨c, rest⟩
    · exact .none
    · have hc : IsNameChar c := h c (by simp [heq])
      have hne : c ≠ '_' := ne_underscore_of_first? hfirst
      rw [pascalFrom, if_neg (mt hc.isSeparator_iff.1 hne), if_pos rfl, hc.upper_eq]
      exact .some ⟨mt hc.toUpper_eq_iff.1 hne, hc.isAlpha_toUpper⟩

/-! ## Capitals -/

theorem Recased.capitals (h : Recased name t) :
    Recased name (String.ofList (t.toList.flatMap upper)) where
  isNameChar := by
    rw [String.toList_ofList, List.forall_mem_flatMap]
    intro d hd
    rw [(h.isNameChar d hd).upper_eq, List.forall_mem_singleton]
    exact (h.isNameChar d hd).toUpper
  head := by
    rw [String.toList_ofList]
    rcases h.none_or_some with ⟨hfirst, ht⟩ | ⟨c, d, s, hfirst, ht, hne, halpha⟩
    · rw [hfirst, ht]
      exact .none
    · have hd := h.isNameChar d (by simp [ht])
      rw [hfirst, ht, List.flatMap_cons, hd.upper_eq]
      exact .some ⟨mt hd.toUpper_eq_iff.1 hne, hd.isAlpha_toUpper.trans halpha⟩

theorem Recased.isLower_of_mem_capitals (h : Recased name t) :
    ∀ d ∈ t.toList.flatMap upper, d.isLower = false := by
  rw [List.forall_mem_flatMap]
  intro d hd
  rw [(h.isNameChar d hd).upper_eq, List.forall_mem_singleton]
  exact (h.isNameChar d hd).isLower_toUpper

end Identifier

end SchemaCodec

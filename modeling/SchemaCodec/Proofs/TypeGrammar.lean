import Mathlib.Data.List.TakeWhile
import SchemaCodec.Schema.Error

/-!
# The grammar of types

`Ty.Derives` is the grammar of type expressions. The parser reads from the outside in: it takes a
final `[]` off before it looks for `map[`, and finds the comma of a map by counting brackets, a
count that nothing compares to zero at the end.

What it reads is derived (`Ty.derives_of_ofTrimmed`). The other way, a text that derives a type has
no white space at its ends and no `[` at its end (`Ty.Derives.bounded`), and a count of brackets is
the same behind it (`Ty.Derives.passes`), so the parser takes off what the grammar put on
(`Ty.Derives.ofTrimmed_eq`). As it gives one answer, a text derives no second type.
-/

namespace SchemaCodec

open Text

variable {w u gap left : List Char} {c : Char} {x : Scalar} {t : Ty} {n depth : Nat}

/-! ## The grammar -/

/-- Nothing but white space. -/
def Text.Blank (w : List Char) : Prop :=
  ∀ c ∈ w, isBlank c = true

/-- The words for a scalar, the one that is written and the one that is only read. -/
def Scalar.Spelled (x : Scalar) (w : List Char) : Prop :=
  w = x.keyword.toList ∨ x = .byte ∧ w = "uint8".toList

/-- The characters of names, all of them ASCII. -/
def IsNameChar (c : Char) : Prop :=
  c.isAlphanum = true ∨ c = '_'

/-- An ASCII identifier, which begins with a letter or an underscore. -/
def IsIdentifier (w : List Char) : Prop :=
  (∀ c ∈ w, IsNameChar c) ∧ ∃ c s, w = c :: s ∧ (c.isAlpha = true ∨ c = '_')

/-- A text derives a type. -/
inductive Ty.Derives : List Char → Ty → Prop
  | scalar {w : List Char} {x : Scalar} : x.Spelled w → Derives w (.scalar x)
  | defined {w : List Char} :
    IsIdentifier w → (∀ x : Scalar, ¬ x.Spelled w) → Derives w (.defined (String.ofList w))
  | array {w gap : List Char} {t : Ty} :
    Derives w t → Blank gap → Derives (w ++ gap ++ "[]".toList) (.array t)
  | map {w u a b c d : List Char} {k v : Ty} :
    Derives w k → Derives u v → Blank a → Blank b → Blank c → Blank d →
      Derives ("map[".toList ++ (a ++ w ++ b) ++ ",".toList ++ (c ++ u ++ d) ++ "]".toList)
        (.map k v)

/-! ## White space -/

namespace Text

theorem Blank.nil : Blank [] :=
  nofun

theorem exists_eq_append_trimStart (s : List Char) :
    ∃ gap, Blank gap ∧ s = gap ++ trimStart s :=
  ⟨s.takeWhile isBlank, fun _ => List.mem_takeWhile_imp, List.takeWhile_append_dropWhile.symm⟩

theorem exists_eq_trimEnd_append (s : List Char) : ∃ gap, Blank gap ∧ s = trimEnd s ++ gap := by
  obtain ⟨gap, hgap, h⟩ := exists_eq_append_trimStart s.reverse
  refine ⟨gap.reverse, fun c hc => hgap c (List.mem_reverse.1 hc), ?_⟩
  rw [trimEnd, ← List.reverse_append, ← h, List.reverse_reverse]

theorem exists_eq_append_trim (s : List Char) :
    ∃ a b, Blank a ∧ Blank b ∧ s = a ++ trim s ++ b := by
  obtain ⟨a, ha, hs⟩ := exists_eq_append_trimStart s
  obtain ⟨b, hb, ht⟩ := exists_eq_trimEnd_append (trimStart s)
  refine ⟨a, b, ha, hb, ?_⟩
  rw [List.append_assoc, trim, ← ht, ← hs]

theorem trimStart_append (hgap : Blank gap) (hc : isBlank c = false) (s : List Char) :
    trimStart (gap ++ c :: s) = c :: s := by
  rw [trimStart, List.dropWhile_append_of_pos hgap, List.dropWhile_cons_of_neg (by simp [hc])]

theorem trimEnd_append (hgap : Blank gap) (hc : isBlank c = false) (s : List Char) :
    trimEnd (s ++ [c] ++ gap) = s ++ [c] := by
  have hrev : Blank gap.reverse := fun d hd => hgap d (List.mem_reverse.1 hd)
  have h : (s ++ [c] ++ gap).reverse = gap.reverse ++ c :: s.reverse := by simp
  rw [trimEnd, h, trimStart_append hrev hc]
  simp

theorem exists_trimEnd_eq_concat {s : List Char} (h : trimEnd s ≠ []) :
    ∃ t c, trimEnd s = t ++ [c] ∧ isBlank c = false := by
  unfold trimEnd at h ⊢
  obtain ⟨c, t, ht⟩ := List.exists_cons_of_ne_nil (mt List.reverse_eq_nil_iff.2 h)
  have hhead := List.head?_dropWhile_not isBlank s.reverse
  rw [← trimStart, ht] at hhead
  exact ⟨t.reverse, c, by rw [ht, List.reverse_cons], hhead⟩

/-- A text without white space at its ends, and without an open bracket at its end. -/
structure Bounded (w : List Char) : Prop where
  first : ∃ c s, w = c :: s ∧ isBlank c = false
  last : ∃ s c, w = s ++ [c] ∧ isBlank c = false ∧ c ≠ '['

namespace Bounded

theorem trimEnd_eq (h : Bounded w) (hgap : Blank gap) : trimEnd (w ++ gap) = w := by
  obtain ⟨s, c, rfl, hc, -⟩ := h.last
  exact trimEnd_append hgap hc s

theorem trim_eq (h : Bounded w) {a b : List Char} (ha : Blank a) (hb : Blank b) :
    trim (a ++ w ++ b) = w := by
  obtain ⟨c, s, hw, hc⟩ := h.first
  have hstart : trimStart (a ++ w ++ b) = w ++ b := by
    rw [hw, List.append_assoc, List.cons_append, trimStart_append ha hc]
  rw [trim, hstart, h.trimEnd_eq hb]

/-- White space does not put an open bracket at the end either. -/
theorem exists_last_append (h : Bounded w) (a : List Char) {b : List Char} (hb : Blank b) :
    ∃ s c, a ++ w ++ b = s ++ [c] ∧ c ≠ '[' := by
  rcases List.eq_nil_or_concat b with rfl | ⟨d, c, rfl⟩
  · obtain ⟨s, c, rfl, -, hc⟩ := h.last
    exact ⟨a ++ s, c, by simp, hc⟩
  · refine ⟨a ++ w ++ d, c, by simp, ?_⟩
    rintro rfl
    exact absurd (hb '[' (by simp)) (by decide)

theorem ne_nil (h : Bounded w) : w ≠ [] := by
  obtain ⟨c, s, rfl, -⟩ := h.first
  exact List.cons_ne_nil c s

end Bounded

end Text

/-! ## Identifiers and words -/

theorem IsNameChar.plain (h : IsNameChar c) :
    isBlank c = false ∧ c ≠ '[' ∧ c ≠ ']' ∧ c ≠ ',' := by
  rcases h with h | rfl
  · unfold Char.isAlphanum Char.isAlpha Char.isUpper Char.isLower Char.isDigit at h
    simp only [isBlank, Char.le_def, UInt32.le_iff_toNat_le, Char.ext_iff, ← UInt32.toNat_inj,
      Bool.or_eq_true, Bool.and_eq_true, decide_eq_true_eq, Bool.or_eq_false_iff,
      Bool.and_eq_false_iff, decide_eq_false_iff_not, beq_eq_false_iff_ne, ne_eq] at *
    simp at *
    omega
  · decide

theorem Ty.isName_iff : Ty.isName w = true ↔ IsIdentifier w := by
  rcases w with _ | ⟨c, s⟩
  · simp [isName, IsIdentifier]
  · simp only [isName, isNameStart, isNamePart, IsIdentifier, IsNameChar, Bool.and_eq_true,
      Bool.or_eq_true, beq_iff_eq, List.all_eq_true, List.mem_cons, forall_eq_or_imp,
      List.cons.injEq]
    constructor
    · intro ⟨hc, hs⟩
      refine ⟨⟨hc.imp_left fun h => ?_, hs⟩, c, s, ⟨rfl, rfl⟩, hc⟩
      rw [Char.isAlphanum, h, Bool.true_or]
    · rintro ⟨⟨-, hs⟩, _, _, ⟨rfl, rfl⟩, hc⟩
      exact ⟨hc, hs⟩

namespace Scalar

theorem ofKeyword?_eq_some_iff : ofKeyword? (String.ofList w) = some x ↔ x.Spelled w := by
  constructor
  · intro h
    unfold ofKeyword? at h
    split at h <;> cases h <;> rename_i hw <;>
      rw [← String.toList_inj, String.toList_ofList] at hw <;> subst hw <;>
      simp [Spelled, keyword]
  · rintro (rfl | ⟨rfl, rfl⟩)
    · rw [String.ofList_toList, ofKeyword?_keyword]
    · rfl

theorem ofKeyword?_eq_none_iff :
    ofKeyword? (String.ofList w) = none ↔ ∀ x : Scalar, ¬ x.Spelled w := by
  simp only [← ofKeyword?_eq_some_iff, Option.eq_none_iff_forall_ne_some, ne_eq]

theorem Spelled.isIdentifier (h : x.Spelled w) : IsIdentifier w := by
  rw [← Ty.isName_iff]
  rcases h with rfl | ⟨-, rfl⟩
  · cases x <;> decide
  · decide

end Scalar

namespace IsIdentifier

theorem bounded (h : IsIdentifier w) : Bounded w := by
  obtain ⟨hall, c, s, hw, -⟩ := h
  have hne : w ≠ [] := hw ▸ List.cons_ne_nil c s
  have hlast := (hall _ (List.getLast_mem hne)).plain
  exact {
    first := ⟨c, s, hw, (hall c (hw ▸ List.mem_cons_self)).plain.1⟩
    last := ⟨w.dropLast, w.getLast hne, (List.dropLast_concat_getLast hne).symm, hlast.1,
      hlast.2.1⟩ }

end IsIdentifier

/-! ## Counting brackets -/

namespace Ty

/-- A count of brackets that begins at `n` or above is the same behind the text, which has no
comma for it to stop at. -/
structure Passes (n : Nat) (w : List Char) : Prop where
  split : ∀ left depth s, n ≤ depth →
    splitArguments left depth (w ++ s) = splitArguments (w.reverse ++ left) depth s
  one : ∀ depth s, n ≤ depth → isOneArgument depth (w ++ s) = isOneArgument depth s

namespace Passes

theorem nil : Passes n [] :=
  ⟨fun _ _ _ _ => rfl, fun _ _ _ => rfl⟩

theorem char (h : c ≠ '[' ∧ c ≠ ']' ∧ c ≠ ',') : Passes n [c] where
  split left depth s _ := by
    obtain ⟨h1, h2, h3⟩ := h
    cases depth <;> simp [splitArguments, h2, h3]
  one depth s _ := by
    obtain ⟨h1, h2, h3⟩ := h
    cases depth <;> simp [isOneArgument, h2, h3]

theorem append (hw : Passes n w) (hu : Passes n u) : Passes n (w ++ u) where
  split left depth s h := by
    rw [List.append_assoc, hw.split _ _ _ h, hu.split _ _ _ h, List.reverse_append,
      List.append_assoc]
  one depth s h := by
    rw [List.append_assoc, hw.one _ _ h, hu.one _ _ h]

theorem mono {m : Nat} (hw : Passes n w) (h : n ≤ m) : Passes m w :=
  ⟨fun left depth s hm => hw.split left depth s (h.trans hm),
    fun depth s hm => hw.one depth s (h.trans hm)⟩

theorem comma : Passes 1 [','] where
  split left depth s h := by
    obtain ⟨depth, rfl⟩ := Nat.exists_eq_add_of_le' h
    simp [splitArguments]
  one depth s h := by
    obtain ⟨depth, rfl⟩ := Nat.exists_eq_add_of_le' h
    simp [isOneArgument]

theorem brackets (hw : Passes 1 w) : Passes n ('[' :: w ++ [']']) where
  split left depth s _ := by
    simp only [List.cons_append, List.append_assoc, splitArguments]
    rw [hw.split _ _ _ (by omega)]
    simp [splitArguments]
  one depth s _ := by
    simp only [List.cons_append, List.append_assoc, isOneArgument]
    rw [hw.one _ _ (by omega)]
    simp [isOneArgument]

theorem all (h : ∀ c ∈ w, c ≠ '[' ∧ c ≠ ']' ∧ c ≠ ',') : Passes n w := by
  induction w with
  | nil => exact nil
  | cons c s ih =>
    rw [List.forall_mem_cons] at h
    exact (char h.1).append (ih h.2)

theorem identifier (h : IsIdentifier w) : Passes n w :=
  all fun c hc => (h.1 c hc).plain.2

theorem blank (h : Blank w) : Passes n w := by
  refine all fun c hc => ?_
  have hblank := h c hc
  refine ⟨?_, ?_, ?_⟩ <;> rintro rfl <;> exact absurd hblank (by decide)

/-- The only comma that is not passed over is where the arguments part. -/
theorem splitArguments_eq (hw : Passes 0 w) (hu : Passes 0 u) :
    splitArguments [] 0 (w ++ ",".toList ++ u) = some (w, u) := by
  have hone : isOneArgument 0 u = true := by
    simpa [isOneArgument] using hu.one 0 [] (Nat.le_refl 0)
  rw [List.append_assoc, hw.split _ _ _ (Nat.le_refl 0)]
  simp [splitArguments, hone]

end Passes

namespace Derives

theorem bounded (h : Derives w t) : Bounded w := by
  induction h with
  | scalar hx => exact hx.isIdentifier.bounded
  | defined hw _ => exact hw.bounded
  | @array w gap _ _ _ ih =>
    obtain ⟨c, s, hw, hc⟩ := ih.first
    exact ⟨⟨c, s ++ gap ++ "[]".toList, by rw [hw]; simp, hc⟩,
      ⟨w ++ gap ++ ['['], ']', by simp, by decide, by decide⟩⟩
  | @map w u a b c d =>
    exact ⟨⟨'m', _, rfl, by decide⟩, ⟨_, ']', rfl, by decide, by decide⟩⟩

theorem passes (h : Derives w t) : Passes 0 w := by
  induction h with
  | scalar hx => exact .identifier hx.isIdentifier
  | defined hw _ => exact .identifier hw
  | array _ hgap ih => exact (ih.append (.blank hgap)).append (Passes.brackets .nil)
  | @map w u a b c d _ _ _ _ ha hb hc hd ihw ihu =>
    have hk : Passes 0 (a ++ w ++ b) := ((Passes.blank ha).append ihw).append (.blank hb)
    have hv : Passes 0 (c ++ u ++ d) := ((Passes.blank hc).append ihu).append (.blank hd)
    -- the comma is passed over only because it stands one bracket deep
    have hin := ((hk.mono (Nat.zero_le 1)).append .comma).append (hv.mono (Nat.zero_le 1))
    have hmap : Passes 0 "map".toList := .identifier (isName_iff.1 (by decide))
    simpa using hmap.append hin.brackets

end Derives

/-! ## The parser -/

theorem beforeBrackets?_eq_some_iff : beforeBrackets? w = some u ↔ w = u ++ "[]".toList := by
  unfold beforeBrackets?
  constructor
  · intro h
    split at h
    · next s hs =>
      cases h
      simpa using congrArg List.reverse hs
    · simp at h
  · rintro rfl
    simp

theorem beforeBracket?_eq_some_iff : beforeBracket? w = some u ↔ w = u ++ "]".toList := by
  unfold beforeBracket?
  constructor
  · intro h
    split at h
    · next s hs =>
      cases h
      simpa using congrArg List.reverse hs
    · simp at h
  · rintro rfl
    simp

theorem afterMap?_eq_some_iff : afterMap? w = some u ↔ w = "map[".toList ++ u := by
  unfold afterMap?
  constructor
  · intro h
    split at h
    · cases h
      rfl
    · simp at h
  · rintro rfl
    rfl

theorem eq_of_splitArguments {k v : List Char} (h : splitArguments left depth w = some (k, v)) :
    left.reverse ++ w = k ++ ",".toList ++ v := by
  fun_induction splitArguments left depth w with
  | case5 left s hone =>
    cases h
    simp
  | _ => simp_all

/-- What the parser reads, the grammar derives. -/
theorem derives_of_ofTrimmed (h : ofTrimmed w = .ok t) : Derives w t := by
  fun_induction ofTrimmed w generalizing t with
  | case1 | case3 | case4 | case8 => cases h
  | case2 w _ e he ih =>
    rcases hu : ofTrimmed (trimEnd e) with fault | u <;> rw [hu] at h <;> cases h
    obtain ⟨gap, hgap, hsplit⟩ := exists_eq_trimEnd_append e
    rw [beforeBrackets?_eq_some_iff.1 he, hsplit]
    exact .array (ih hu) hgap
  | case5 w _ _ rest hrest inner hinner k v hsplit ihk ihv =>
    rcases hk : ofTrimmed (trim k) with fault | key <;> rw [hk] at h
    · cases h
    rcases hv : ofTrimmed (trim v) with fault | value <;> rw [hv] at h <;> cases h
    obtain ⟨a, b, ha, hb, hka⟩ := exists_eq_append_trim k
    obtain ⟨c, d, hc, hd, hvc⟩ := exists_eq_append_trim v
    have hin : inner = k ++ ",".toList ++ v := eq_of_splitArguments hsplit
    have hw : w = "map[".toList ++ k ++ ",".toList ++ v ++ "]".toList := by
      rw [afterMap?_eq_some_iff.1 hrest, beforeBracket?_eq_some_iff.1 hinner, hin]
      simp only [List.append_assoc]
    rw [hw, hka, hvc]
    exact .map (ihk hk) (ihv hv) ha hb hc hd
  | case6 w _ _ _ x hx =>
    cases h
    exact .scalar (Scalar.ofKeyword?_eq_some_iff.1 hx)
  | case7 w _ _ _ hx hname =>
    cases h
    exact .defined (isName_iff.1 hname) (Scalar.ofKeyword?_eq_none_iff.1 hx)

theorem ofTrimmed_array (w : List Char) :
    ofTrimmed (w ++ "[]".toList) = array <$> ofTrimmed (trimEnd w) := by
  have h := beforeBrackets?_eq_some_iff.2 (Eq.refl (w ++ "[]".toList))
  rw [ofTrimmed, if_neg (by simp)]
  split
  · next e he =>
    rw [h] at he
    cases he
    rfl
  · next hnone =>
    rw [h] at hnone
    cases hnone

/-- The arguments of a map are read apart, unless the text in brackets ends in `[`. -/
theorem ofTrimmed_map {k v : List Char} (hlast : ∃ s c, v = s ++ [c] ∧ c ≠ '[')
    (hk : Passes 0 k) (hv : Passes 0 v) :
    ofTrimmed ("map[".toList ++ k ++ ",".toList ++ v ++ "]".toList) = do
      let key ← ofTrimmed (trim k)
      let value ← ofTrimmed (trim v)
      return map key value := by
  generalize hw : "map[".toList ++ k ++ ",".toList ++ v ++ "]".toList = w
  -- the array comes first in the parser, so it has to be excluded
  have harray : beforeBrackets? w = none := by
    obtain ⟨s, c, rfl, hc⟩ := hlast
    rw [Option.eq_none_iff_forall_ne_some]
    intro e he
    have heq := congrArg List.reverse (hw.trans (beforeBrackets?_eq_some_iff.1 he))
    simp at heq
    exact hc heq.1
  have hmap : afterMap? w = some (k ++ ",".toList ++ v ++ "]".toList) := by
    rw [afterMap?_eq_some_iff, ← hw]
    simp only [List.append_assoc]
  have hinner : beforeBracket? (k ++ ",".toList ++ v ++ "]".toList)
      = some (k ++ ",".toList ++ v) := beforeBracket?_eq_some_iff.2 rfl
  have hempty : ¬ w.isEmpty = true := by
    rw [← hw]
    simp
  have hsplit := hk.splitArguments_eq hv
  rw [ofTrimmed, if_neg hempty]
  grind

theorem ofTrimmed_of_isIdentifier (h : IsIdentifier w) :
    ofTrimmed w = match Scalar.ofKeyword? (String.ofList w) with
      | some x => .ok (scalar x)
      | none => .ok (defined (String.ofList w)) := by
  have harray : beforeBrackets? w = none := by
    rw [Option.eq_none_iff_forall_ne_some]
    rintro e he
    exact (h.1 '[' (by rw [beforeBrackets?_eq_some_iff.1 he]; simp)).plain.2.1 rfl
  have hmap : afterMap? w = none := by
    rw [Option.eq_none_iff_forall_ne_some]
    rintro e he
    exact (h.1 '[' (by rw [afterMap?_eq_some_iff.1 he]; simp)).plain.2.1 rfl
  have hname := isName_iff.2 h
  rw [ofTrimmed, if_neg (by simpa using h.bounded.ne_nil)]
  grind

namespace Derives

/-- What the grammar derives, the parser reads. -/
theorem ofTrimmed_eq (h : Derives w t) : ofTrimmed w = .ok t := by
  induction h with
  | scalar hx =>
    rw [ofTrimmed_of_isIdentifier hx.isIdentifier, Scalar.ofKeyword?_eq_some_iff.2 hx]
  | defined hw hx =>
    rw [ofTrimmed_of_isIdentifier hw, Scalar.ofKeyword?_eq_none_iff.2 hx]
  | array hw hgap ih =>
    rw [ofTrimmed_array, hw.bounded.trimEnd_eq hgap, ih]
    rfl
  | map hk hv ha hb hc hd ihk ihv =>
    rw [ofTrimmed_map (hv.bounded.exists_last_append _ hd)
      (((Passes.blank ha).append hk.passes).append (.blank hb))
      (((Passes.blank hc).append hv.passes).append (.blank hd)),
      hk.bounded.trim_eq ha hb, hv.bounded.trim_eq hc hd, ihk, ihv]
    rfl

end Derives

theorem ofText?_eq_ok_iff {s : String} : ofText? s = .ok t ↔ Derives (trim s.toList) t :=
  ⟨derives_of_ofTrimmed, Derives.ofTrimmed_eq⟩

/-- A text derives one type at most. -/
theorem Derives.unique {t' : Ty} (h : Derives w t) (h' : Derives w t') : t = t' := by
  have heq := h.ofTrimmed_eq
  rw [h'.ofTrimmed_eq] at heq
  exact (Except.ok.inj heq).symm

/-- An expression that ends in `[]` is an array, even if it begins like a map. -/
theorem derives_map_brackets_iff :
    Derives "map[]".toList t ↔ t = .array (.defined "map") := by
  have hname : Derives "map".toList (.defined "map") :=
    .defined (isName_iff.1 (by decide)) (Scalar.ofKeyword?_eq_none_iff.1 (by decide))
  have harray : Derives "map[]".toList (.array (.defined "map")) :=
    hname.array .nil
  constructor
  · intro h
    exact h.unique harray
  · rintro rfl
    exact harray

/-- A type expression is read exactly if the grammar derives its type, and is reported as a whole
otherwise. -/
theorem ofExpr?_grammar (s : String) :
    (∀ t, ofExpr? s = .ok t ↔ Derives (trim s.toList) t)
    ∧ ((∃ fault, ofExpr? s = .error (.badType s fault)) ↔ ∀ t, ¬ Derives (trim s.toList) t)
    ∧ (∀ w t t', Derives w t → Derives w t' → t = t')
    ∧ ∀ t, Derives "map[]".toList t ↔ t = .array (.defined "map") := by
  simp only [← ofText?_eq_ok_iff]
  refine ⟨fun t => ?_, ?_, fun _ _ _ => Derives.unique, fun _ => derives_map_brackets_iff⟩
  · rcases h : ofText? s with fault | u <;> simp [ofExpr?, h, Except.mapError]
  · rcases h : ofText? s with fault | u <;> simp [ofExpr?, h, Except.mapError]

end Ty

end SchemaCodec

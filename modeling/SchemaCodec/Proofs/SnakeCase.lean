import Mathlib.Data.List.Chain
import SchemaCodec.Proofs.Legality

/-!
# Snake case

What `snake` gives for an ASCII text (`Identifier.SnakeCase`) are the characters that separate
nothing, in small letters, with one underscore where a word ends and none elsewhere. A word ends
where separators stand, and in front of a capital that begins another (`Identifier.Begins`).

The result is collected backwards, and whether a separator writes an underscore depends on what is
written already. Read forwards (`Identifier.behind`) it depends on the text alone: an underscore
waits until the next character that separates nothing. The beginning of the text is no exception
once the underscore that waits there is taken off again (`Identifier.dropUnderscore_snakeFrom`).

A result in snake case does not end in an underscore, so none comes from `escape` by accident, and
`escape` can be undone (`Identifier.unescape_escape`).
-/

namespace SchemaCodec.Identifier

open Text

variable {a b c d before : Char} {apart : Bool} {s t pre gap post : List Char} {name : String}

/-- The characters between words. -/
def separators : List Char :=
  ['-', '_', '.', ' ']

/-- The characters of a text that separate nothing, in small letters. -/
def kept (s : List Char) : List Char :=
  (s.filter (· ∉ separators)).map Char.toLower

/-- `b` begins a word right behind `a` and in front of `post`. -/
def Begins (a b : Char) (post : List Char) : Prop :=
  b.isUpper = true
    ∧ (a.isLower = true ∨ a.isDigit = true
      ∨ a.isUpper = true ∧ ∃ c ∈ post.head?, c.isLower = true)

/-- A word ends between `a` and `b`, where `gap` separates them and `post` comes next. -/
def Breaks (a : Char) (gap : List Char) (b : Char) (post : List Char) : Prop :=
  gap ≠ [] ∨ Begins a b post

instance : Decidable (Begins a b post) :=
  inferInstanceAs (Decidable (_ ∧ (_ ∨ _ ∨ _)))

instance : Decidable (Breaks a gap b post) :=
  inferInstanceAs (Decidable (_ ∨ _))

/-- `t` is the snake case of the ASCII text `s`. -/
structure SnakeCase (s t : List Char) : Prop where
  small : ∀ d ∈ t, d.toNat < 128 ∧ d.isUpper = false ∧ d ∉ ['-', '.', ' ']
  start : t.head? ≠ some '_'
  finish : t.getLast? ≠ some '_'
  single : t.IsChain fun c d => ¬ (c = '_' ∧ d = '_')
  letters : t.filter (· ≠ '_') = kept s
  breaks : ∀ pre a gap b post, s = pre ++ a :: (gap ++ b :: post) →
    a ∉ separators → (∀ d ∈ gap, d ∈ separators) → b ∉ separators →
    ∃ x y, t = x ++ a.toLower :: ((if Breaks a gap b post then ['_'] else []) ++ b.toLower :: y)
      ∧ x.filter (· ≠ '_') = kept pre ∧ y.filter (· ≠ '_') = kept post

/-! ## ASCII characters -/

theorem isSeparator_iff : isSeparator c = true ↔ c ∈ separators := by
  simp [isSeparator, separators, or_assoc]

/-- Small forms are in snake case already. -/
theorem toLower_of_ascii (h : c.toNat < 128) (hc : c ∉ separators) :
    c.toLower.toNat < 128 ∧ c.toLower.isUpper = false ∧ c.toLower ∉ separators :=
  ascii_check (p := fun c => c ∉ separators →
    c.toLower.toNat < 128 ∧ c.toLower.isUpper = false ∧ c.toLower ∉ separators) h
    (by decide +kernel) hc

theorem toLower_of_not_isUpper (h : c.toNat < 128) (hc : c.isUpper = false) : c.toLower = c :=
  ascii_check (p := fun c => c.isUpper = false → c.toLower = c) h (by decide +kernel) hc

theorem toLower_ne_underscore (h : c.toNat < 128) (hc : c ∉ separators) : c.toLower ≠ '_' := by
  intro heq
  exact (toLower_of_ascii h hc).2.2 (by simp [heq, separators])

theorem isUpper_of_ascii (h : c.toNat < 128) : isUpper c = c.isUpper :=
  ascii_check (p := fun c => isUpper c = c.isUpper) h (by decide +kernel)

theorem isLower_of_ascii (h : c.toNat < 128) : isLower c = c.isLower :=
  ascii_check (p := fun c => isLower c = c.isLower) h (by decide +kernel)

theorem begins_iff (h : ∀ d ∈ a :: b :: post, d.toNat < 128) :
    (isUpper b && startsWord a post.head?) = true ↔ Begins a b post := by
  simp only [List.forall_mem_cons] at h
  obtain ⟨ha, hb, hpost⟩ := h
  have hnext : post.head?.any isLower = true ↔ ∃ c ∈ post.head?, c.isLower = true := by
    rcases post with _ | ⟨c, post⟩
    · simp
    · simp [isLower_of_ascii (hpost c List.mem_cons_self)]
  simp only [Begins, startsWord, isUpper_of_ascii ha, isUpper_of_ascii hb, isLower_of_ascii ha,
    Bool.and_eq_true, Bool.or_eq_true, hnext, or_assoc]

theorem kept_cons_of_mem (h : c ∈ separators) : kept (c :: s) = kept s := by
  simp [kept, h]

theorem kept_cons_of_notMem (h : c ∉ separators) : kept (c :: s) = c.toLower :: kept s := by
  simp [kept, h]

/-! ## Read forwards -/

/-- The snake case of a text behind `before`; `apart` says that a separator stands between the last
character that is none and the text. -/
def behind (before : Char) (apart : Bool) : List Char → List Char
  | [] => []
  | c :: rest =>
    if c ∈ separators then behind c true rest
    else (if apart = true ∨ Begins before c rest then ['_'] else [])
      ++ c.toLower :: behind c false rest

theorem behind_cons_of_mem (h : c ∈ separators) :
    behind before apart (c :: s) = behind c true s :=
  if_pos h

theorem behind_cons_of_notMem (h : c ∉ separators) :
    behind before apart (c :: s)
      = (if apart = true ∨ Begins before c s then ['_'] else []) ++ c.toLower :: behind c false s :=
  if_neg h

/-- Behind a character that is written, an underscore that waits may as well be written too. -/
theorem dropUnderscore_snakeFrom_cons (apart : Bool) (out : List Char)
    (h : ∀ c ∈ before :: s, c.toNat < 128) (hd : d ≠ '_') :
    dropUnderscore (snakeFrom (some before) ((if apart = true then ['_'] else []) ++ d :: out) s)
      = (behind before apart s).reverse ++ d :: out := by
  induction s generalizing before apart d out with
  | nil => cases apart <;> simp [snakeFrom, behind, dropUnderscore, hd]
  | cons c s ih =>
    have hrest : ∀ c' ∈ c :: s, c'.toNat < 128 := fun c' hc' => h c' (List.mem_cons_of_mem _ hc')
    have hascii : c.toNat < 128 := hrest c List.mem_cons_self
    by_cases hc : c ∈ separators
    · have hwith : withUnderscore ((if apart = true then ['_'] else []) ++ d :: out)
          = (if true = true then ['_'] else []) ++ d :: out := by
        cases apart <;> simp [withUnderscore]
      rw [behind_cons_of_mem hc, snakeFrom, if_pos (isSeparator_iff.2 hc), hwith,
        ih true out hrest hd]
    · -- an underscore for the word that `c` begins is not written next to one that waits
      have hwritten : (if (isUpper c && startsWord before s.head?) = true
            then withUnderscore ((if apart = true then ['_'] else []) ++ d :: out)
            else (if apart = true then ['_'] else []) ++ d :: out)
          = (if apart = true ∨ Begins before c s then ['_'] else []) ++ d :: out := by
        simp only [begins_iff h]
        by_cases hbegins : Begins before c s <;> cases apart <;>
          simp [hbegins, withUnderscore]
      have hnext := ih false
        ((if apart = true ∨ Begins before c s then ['_'] else []) ++ d :: out) hrest
        (toLower_ne_underscore hascii hc)
      simp only [snakeFrom, if_neg (mt isSeparator_iff.1 hc), Option.any_some, hwritten,
        lower_of_ascii hascii, behind_cons_of_notMem hc]
      simpa [apply_ite List.reverse] using hnext

/-- An underscore waits at the start, but is not written. -/
theorem dropUnderscore_snakeFrom (h : ∀ c ∈ s, c.toNat < 128) (before : Option Char) (last : Char) :
    dropUnderscore (snakeFrom before [] s) = (behind last true s).tail.reverse := by
  induction s generalizing before last with
  | nil => rfl
  | cons c s ih =>
    by_cases hc : c ∈ separators
    · rw [behind_cons_of_mem hc, snakeFrom, if_pos (isSeparator_iff.2 hc)]
      exact ih (List.forall_mem_cons.1 h).2 _ _
    · have hascii : c.toNat < 128 := h c List.mem_cons_self
      have hnext := dropUnderscore_snakeFrom_cons false [] h (toLower_ne_underscore hascii hc)
      simpa [behind_cons_of_notMem hc, snakeFrom, mt isSeparator_iff.1 hc, withUnderscore,
        lower_of_ascii hascii] using hnext

theorem toList_snake_eq_behind (h : ∀ c ∈ name.toList, c.toNat < 128) :
    (snake name).toList = (behind '_' true name.toList).tail := by
  rw [toList_snake, dropUnderscore_snakeFrom h none '_', List.reverse_reverse]

/-! ## What is written -/

theorem behind_true (before : Char) (s : List Char) :
    behind before true s = [] ∨ ∃ t, behind before true s = '_' :: t := by
  induction s generalizing before with
  | nil => exact .inl rfl
  | cons c s ih =>
    by_cases hc : c ∈ separators
    · rw [behind_cons_of_mem hc]
      exact ih c
    · exact .inr ⟨c.toLower :: behind c false s, by simp [behind_cons_of_notMem hc]⟩

theorem forall_mem_behind {p : Char → Prop} (hp : p '_')
    (h : ∀ c ∈ s, c ∉ separators → p c.toLower) : ∀ d ∈ behind before apart s, p d := by
  fun_induction behind before apart s with
  | case1 => nofun
  | case2 _ _ c s hc ih => exact ih (List.forall_mem_cons.1 h).2
  | case3 _ _ c s hc ih =>
    rw [List.forall_mem_cons] at h
    rw [List.forall_mem_append, List.forall_mem_cons]
    refine ⟨?_, h.1 hc, ih h.2⟩
    split_ifs
    · simpa using hp
    · nofun

theorem isChain_behind (before : Char) (apart : Bool) (h : ∀ c ∈ s, c.toNat < 128) :
    (behind before apart s).IsChain fun c d => ¬ (c = '_' ∧ d = '_') := by
  fun_induction behind before apart s with
  | case1 => exact .nil
  | case2 _ _ c s hc ih => exact ih (List.forall_mem_cons.1 h).2
  | case3 _ _ c s hc ih =>
    rw [List.forall_mem_cons] at h
    have hletter : c.toLower ≠ '_' := toLower_ne_underscore h.1 hc
    have hrest : (c.toLower :: behind c false s).IsChain fun c d => ¬ (c = '_' ∧ d = '_') :=
      List.isChain_cons.2 ⟨fun d _ heq => hletter heq.1, ih h.2⟩
    split_ifs
    · exact List.isChain_cons_cons.2 ⟨fun heq => hletter heq.2, hrest⟩
    · exact hrest

theorem getLast?_behind (before : Char) (apart : Bool) (h : ∀ c ∈ s, c.toNat < 128) :
    (behind before apart s).getLast? ≠ some '_' := by
  fun_induction behind before apart s with
  | case1 => nofun
  | case2 _ _ c s hc ih => exact ih (List.forall_mem_cons.1 h).2
  | case3 _ _ c s hc ih =>
    rw [List.forall_mem_cons] at h
    rw [List.getLast?_append, List.getLast?_cons]
    cases hlast : (behind c false s).getLast? with
    | none => simpa using toLower_ne_underscore h.1 hc
    | some d => simpa [hlast] using ih h.2

theorem filter_underscore (p : Prop) [Decidable p] :
    (if p then ['_'] else []).filter (· ≠ '_') = [] := by
  split_ifs <;> rfl

theorem filter_toLower_cons (h : c.toNat < 128) (hc : c ∉ separators) (t : List Char) :
    (c.toLower :: t).filter (· ≠ '_') = c.toLower :: t.filter (· ≠ '_') :=
  List.filter_cons_of_pos (by simpa using toLower_ne_underscore h hc)

theorem filter_behind (before : Char) (apart : Bool) (h : ∀ c ∈ s, c.toNat < 128) :
    (behind before apart s).filter (· ≠ '_') = kept s := by
  fun_induction behind before apart s with
  | case1 => rfl
  | case2 _ _ c s hc ih =>
    rw [kept_cons_of_mem hc]
    exact ih (List.forall_mem_cons.1 h).2
  | case3 _ _ c s hc ih =>
    rw [List.forall_mem_cons] at h
    rw [kept_cons_of_notMem hc, List.filter_append, filter_underscore,
      filter_toLower_cons h.1 hc, ih h.2, List.nil_append]

/-! ## Where words end -/

/-- A character that is kept has a place of its own, with what is kept in front of it there too. -/
theorem exists_behind_append_cons (before : Char) (apart : Bool)
    (h : ∀ c ∈ pre, c.toNat < 128) (ha : a ∉ separators) (s : List Char) :
    ∃ x, behind before apart (pre ++ a :: s) = x ++ a.toLower :: behind a false s
      ∧ x.filter (· ≠ '_') = kept pre := by
  induction pre generalizing before apart with
  | nil => exact ⟨_, behind_cons_of_notMem ha, filter_underscore _⟩
  | cons c pre ih =>
    rw [List.forall_mem_cons] at h
    by_cases hc : c ∈ separators
    · rw [List.cons_append, behind_cons_of_mem hc, kept_cons_of_mem hc]
      exact ih c true h.2
    · obtain ⟨x, hx, hfilter⟩ := ih c false h.2
      rw [List.cons_append, behind_cons_of_notMem hc, kept_cons_of_notMem hc, hx]
      refine ⟨_, (List.append_assoc _ (c.toLower :: x) _).symm, ?_⟩
      rw [List.filter_append, filter_underscore, filter_toLower_cons h.1 hc, hfilter,
        List.nil_append]

theorem behind_true_gap (hgap : ∀ d ∈ gap, d ∈ separators) (hb : b ∉ separators) :
    behind before true (gap ++ b :: post) = '_' :: b.toLower :: behind b false post := by
  induction gap generalizing before with
  | nil => simp [behind_cons_of_notMem hb]
  | cons d gap ih =>
    rw [List.forall_mem_cons] at hgap
    rw [List.cons_append, behind_cons_of_mem hgap.1, ih hgap.2]

theorem behind_gap (hgap : ∀ d ∈ gap, d ∈ separators) (hb : b ∉ separators) :
    behind a false (gap ++ b :: post)
      = (if Breaks a gap b post then ['_'] else []) ++ b.toLower :: behind b false post := by
  rcases gap with _ | ⟨d, gap⟩
  · simp [behind_cons_of_notMem hb, Breaks]
  · rw [List.forall_mem_cons] at hgap
    simp [behind_cons_of_mem hgap.1, behind_true_gap hgap.2 hb, Breaks]

theorem snakeCase_tail_behind (h : ∀ c ∈ s, c.toNat < 128) :
    SnakeCase s (behind before true s).tail where
  small d hd := by
    refine forall_mem_behind (p := fun d => d.toNat < 128 ∧ d.isUpper = false ∧ d ∉ ['-', '.', ' '])
      (by decide) (fun c hc hkept => ?_) d (List.mem_of_mem_tail hd)
    obtain ⟨hascii, hsmall, hkept⟩ := toLower_of_ascii (h c hc) hkept
    exact ⟨hascii, hsmall, fun hmem => hkept (by simp_all [separators])⟩
  start := by
    have hchain := isChain_behind before true h
    rcases behind_true before s with heq | ⟨t, heq⟩ <;> rw [heq] at hchain ⊢
    · nofun
    · exact fun hhead => (List.isChain_cons.1 hchain).1 _ hhead ⟨rfl, rfl⟩
  finish := by
    rw [List.getLast?_tail]
    split_ifs
    · nofun
    · exact getLast?_behind before true h
  single := (isChain_behind before true h).tail
  letters := by
    have hfilter := filter_behind before true h
    rcases behind_true before s with heq | ⟨t, heq⟩ <;> rw [heq] at hfilter ⊢
    · exact hfilter
    · simpa using hfilter
  breaks pre a gap b post hs ha hgap hb := by
    simp only [hs, List.forall_mem_append, List.forall_mem_cons] at h
    obtain ⟨hpre, hascii, -, -, hpost⟩ := h
    obtain ⟨x, hx, hfilter⟩ := exists_behind_append_cons before true hpre ha (gap ++ b :: post)
    rw [← hs, behind_gap hgap hb] at hx
    rcases behind_true before s with heq | ⟨t, heq⟩ <;> rw [heq] at hx ⊢
    · simp at hx
    · rcases x with _ | ⟨d, x⟩
      · exact absurd (List.cons.inj hx).1.symm (toLower_ne_underscore hascii ha)
      · rw [List.cons_append, List.cons.injEq] at hx
        obtain ⟨rfl, rfl⟩ := hx
        exact ⟨x, behind b false post, rfl, by simpa using hfilter, filter_behind b false hpost⟩

theorem snakeCase_snake (h : ∀ c ∈ name.toList, c.toNat < 128) :
    SnakeCase name.toList (snake name).toList := by
  rw [toList_snake_eq_behind h]
  exact snakeCase_tail_behind h

/-! ## Twice -/

/-- In a text in snake case every underscore waits for the character behind it. -/
theorem behind_of_small (hsmall : ∀ d ∈ t, d.toNat < 128 ∧ d.isUpper = false ∧ d ∉ ['-', '.', ' '])
    (hsingle : t.IsChain fun c d => ¬ (c = '_' ∧ d = '_')) (hfinish : t.getLast? ≠ some '_')
    (hstart : apart = true → ∃ d ∈ t.head?, d ≠ '_') :
    behind before apart t = (if apart = true then ['_'] else []) ++ t := by
  induction t generalizing before apart with
  | nil => cases apart <;> simp_all [behind]
  | cons c t ih =>
    rw [List.forall_mem_cons] at hsmall
    obtain ⟨⟨hascii, hc, hseparates⟩, hsmall⟩ := hsmall
    obtain ⟨hnext, hrest⟩ := List.isChain_cons.1 hsingle
    by_cases hunderscore : c = '_'
    · subst hunderscore
      have happart : apart = false := by simpa using hstart
      obtain ⟨d, t, rfl⟩ : ∃ d u, t = d :: u := by
        refine List.exists_cons_of_ne_nil ?_
        rintro rfl
        exact hfinish rfl
      have hd : d ≠ '_' := fun hd => hnext d rfl ⟨rfl, hd⟩
      rw [behind_cons_of_mem (by decide), happart,
        ih hsmall hrest (by simpa using hfinish) fun _ => ⟨d, rfl, hd⟩]
      rfl
    · have hkept : c ∉ separators := by
        simp only [separators, List.mem_cons, List.not_mem_nil, or_false, not_or] at hseparates ⊢
        exact ⟨hseparates.1, hunderscore, hseparates.2⟩
      have hfinish : t.getLast? ≠ some '_' := by
        rcases t with _ | ⟨d, t⟩
        · nofun
        · simpa using hfinish
      rw [behind_cons_of_notMem hkept, toLower_of_not_isUpper hascii hc,
        ih hsmall hrest hfinish (by nofun)]
      simp [Begins, hc]

theorem SnakeCase.snake_eq (h : SnakeCase s name.toList) : snake name = name := by
  rw [← String.toList_inj, toList_snake_eq_behind fun d hd => (h.small d hd).1]
  rcases hname : name.toList with _ | ⟨c, t⟩
  · rfl
  · have hc : c ≠ '_' := fun hc => h.start (by rw [hname, hc]; rfl)
    rw [← hname, behind_of_small h.small h.single h.finish fun _ => ⟨c, by simp [hname], hc⟩]
    rfl

/-! ## Keywords -/

/-- Takes off what `escape` put on. -/
def unescape (t : List Char) : List Char :=
  if '#' ∈ t then t.drop 2 else (dropUnderscore t.reverse).reverse

theorem unescape_escape {t : String} (h : ∀ d ∈ t.toList, IsNameChar d)
    (hfinish : t.toList.getLast? ≠ some '_') : unescape (escape t).toList = t.toList := by
  have hhash : '#' ∉ t.toList := fun hmem => absurd (h _ hmem) (by decide)
  by_cases hraw : t ∈ neverRaw
  · simp [escape, hraw, unescape, hhash, dropUnderscore]
  · by_cases hreserved : t ∈ reserved
    · simp [escape, hraw, hreserved, unescape]
    · have hkeep : dropUnderscore t.toList.reverse = t.toList.reverse := by
        rw [← List.head?_reverse] at hfinish
        unfold dropUnderscore
        split
        · simp_all
        · rfl
      simp [escape, hraw, hreserved, unescape, hhash, hkeep]

theorem unescape_ofField (h : ∀ c ∈ name.toList, IsNameChar c) :
    unescape (ofField name).toList = (snake name).toList :=
  unescape_escape (recased_snake h).isNameChar
    (snakeCase_snake fun c hc => (h c hc).toNat_lt).finish

/-- What snake case is, that it is kept by a second conversion, and that two names have one field
exactly if they have one snake case. -/
theorem snake_canonical :
    (∀ name : String, (∀ c ∈ name.toList, c.toNat < 128) →
      SnakeCase name.toList (snake name).toList ∧ snake (snake name) = snake name)
    ∧ ∀ a b : String, IsIdentifier a.toList → IsIdentifier b.toList →
      (ofField a = ofField b ↔ snake a = snake b) := by
  refine ⟨fun name h => ⟨snakeCase_snake h, (snakeCase_snake h).snake_eq⟩, fun a b ha hb => ?_⟩
  constructor
  · intro heq
    rw [← String.toList_inj, ← unescape_ofField ha.1, ← unescape_ofField hb.1, heq]
  · intro heq
    rw [ofField, ofField, heq]

/-- Underscores at both ends, capitals in a row and behind a digit, and a keyword without a raw
form. -/
theorem snake_canonical_server :
    (∀ c ∈ "_HTTPServer-v2ID.".toList, c.toNat < 128)
    ∧ SnakeCase "_HTTPServer-v2ID.".toList "http_server_v2_id".toList
    ∧ snake "http_server_v2_id" = "http_server_v2_id"
    ∧ IsIdentifier "Self".toList ∧ IsIdentifier "self_".toList
    ∧ ofField "Self" = "self_" ∧ ofField "self_" = "self_"
    ∧ (ofField "Self" = ofField "self_" ↔ snake "Self" = snake "self_") := by
  have hascii : ∀ c ∈ "_HTTPServer-v2ID.".toList, c.toNat < 128 := by simp
  have hsnake : snake "_HTTPServer-v2ID." = "http_server_v2_id" := by decide +kernel
  obtain ⟨hcase, htwice⟩ := snake_canonical.1 "_HTTPServer-v2ID." hascii
  rw [hsnake] at hcase htwice
  have hself : IsIdentifier "Self".toList := Ty.isName_iff.1 (by decide)
  have hself' : IsIdentifier "self_".toList := Ty.isName_iff.1 (by decide)
  exact ⟨hascii, hcase, htwice, hself, hself', by decide +kernel, by decide +kernel,
    snake_canonical.2 "Self" "self_" hself hself'⟩

end SchemaCodec.Identifier

import SchemaCodec.Generate
import SchemaCodec.Proofs.Uncased

/-!
# What code is made of

The source of a schema is a function of the path of the library. Its texts are put together from
fixed texts, from numbers, from identifiers and literals for the names in the schema, and from the
path, which always has a `::` behind it: such a function is a `Phrase`, and the code that is made of
lines and blocks of such texts is a `Passage`.

The path does not decide whether there is a source (`Parametric`), and the code of each definition
is a passage (`Item.parametric_code`). What holds of all passages is then proved by induction on how
they are put together, with no look at the functions that write them.
-/

namespace SchemaCodec

variable {N : String → Prop} {comments : Prop} {α β : Type}

/-! ## Texts -/

namespace Text

/-- The number of open braces behind a text that starts with so many, if it closes no other. -/
def braces (n : Nat) : List Char → Option Nat
  | [] => some n
  | '\x7b' :: cs => braces (n + 1) cs
  | '\x7d' :: cs => if n = 0 then none else braces (n - 1) cs
  | _ :: cs => braces n cs

/-- The text closes the braces that it opens and no others. -/
def Level (cs : List Char) : Prop :=
  braces 0 cs = some 0

/-- A text that can stand anywhere: it is level and has no line ends. -/
def Plain (cs : List Char) : Prop :=
  Level cs ∧ '\n' ∉ cs ∧ '\r' ∉ cs

/-- The text starts with a character other than a space. -/
def Visible (cs : List Char) : Prop :=
  cs.head?.any (· != ' ') = true

instance : DecidablePred Level :=
  fun _ => inferInstanceAs (Decidable (_ = _))

instance : DecidablePred Plain :=
  fun _ => inferInstanceAs (Decidable (_ ∧ _))

instance : DecidablePred Visible :=
  fun _ => inferInstanceAs (Decidable (_ = _))

theorem braces_of_forall {n : Nat} : ∀ {cs : List Char},
    (∀ c ∈ cs, c ≠ '\x7b' ∧ c ≠ '\x7d') → braces n cs = some n
  | [], _ => rfl
  | c :: cs, h => by
    rw [List.forall_mem_cons] at h
    rw [braces]
    · exact braces_of_forall h.2
    · exact h.1.1
    · exact h.1.2

theorem plain_of_isNameChar {cs : List Char} (h : ∀ c ∈ cs, IsNameChar c) : Plain cs := by
  have hne : ∀ d : Char, ¬ IsNameChar d → d ∉ cs := fun d hd hm => hd (h d hm)
  refine ⟨braces_of_forall fun c hc => ⟨?_, ?_⟩, hne _ (by decide), hne _ (by decide)⟩
  · rintro rfl
    exact hne _ (by decide) hc
  · rintro rfl
    exact hne _ (by decide) hc

theorem visible_of_isNameChar {cs : List Char} (h : ∀ c ∈ cs, IsNameChar c) (hne : cs ≠ []) :
    Visible cs := by
  obtain ⟨c, cs, rfl⟩ := List.exists_cons_of_ne_nil hne
  have hc : c ≠ ' ' := by
    rintro rfl
    exact absurd (h ' ' List.mem_cons_self) (by decide)
  simpa [Visible] using hc

theorem isNameChar_toString (n : Nat) : ∀ c ∈ (toString n).toList, IsNameChar c := by
  rw [Nat.toString_eq_repr, Nat.repr, String.toList_ofList]
  exact fun c hc => .inl (isAlphanum_of_mem_toDigits (by decide) (by decide) n c hc)

end Text

open Text

/-- The texts of the code, as functions of the path of the library. The names that stand in them
satisfy `N`. -/
inductive Phrase (N : String → Prop) : (String → String) → Prop
  | plain {cs : List Char} (h : Plain cs) : Phrase N fun _ => String.ofList cs
  | type {name : String} (h : N name) : Phrase N fun _ => Identifier.ofType name
  | field {name : String} (h : N name) : Phrase N fun _ => Identifier.ofField name
  | constant {name : String} (h : N name) : Phrase N fun _ => Identifier.ofConstant name
  | quoted {name : String} (h : N name) : Phrase N fun _ => quoted name
  | path {cs : List Char} (h : Plain cs) : Phrase N fun p => p ++ String.ofList (':' :: ':' :: cs)
  /-- The ends may open and close a brace together. -/
  | between {a b : List Char} {f : String → String} (h : Plain (a ++ b)) (hf : Phrase N f) :
    Phrase N fun p => String.ofList a ++ f p ++ String.ofList b
  | append {f g : String → String} (hf : Phrase N f) (hg : Phrase N g) :
    Phrase N fun p => f p ++ g p

/-- The texts begin with a space only if the path does. -/
def Opens (f : String → String) : Prop :=
  ∀ p, f p ≠ "" ∧ ((f p).toList.head? = some ' ' → p.toList.head? = some ' ')

/-- A text that begins a line. -/
structure Line (N : String → Prop) (f : String → String) : Prop where
  phrase : Phrase N f
  opens : Opens f

theorem Phrase.number (n : Nat) : Phrase N fun _ => toString n := by
  have h := plain (N := N) (plain_of_isNameChar (isNameChar_toString n))
  rwa [String.ofList_toList] at h

/-- The path behind another text. -/
theorem Phrase.append_path {f : String → String} (hf : Phrase N f) {cs : List Char}
    (h : Plain cs) : Phrase N fun p => f p ++ p ++ String.ofList (':' :: ':' :: cs) := by
  simp only [String.append_assoc]
  exact .append hf (.path h)

/-- What stands between separators. -/
theorem Phrase.list {a : List Char} (ha : Plain a) (f : α → String → String) :
    ∀ {l : List α}, (∀ x ∈ l, Phrase N (f x)) →
      Phrase N fun p => (String.ofList a).intercalate (l.map (f · p))
  | [], _ => .plain (by decide)
  | [x], h => by
    simp only [List.map_cons, List.map_nil, String.intercalate_singleton]
    exact h x List.mem_cons_self
  | x :: y :: l, h => by
    rw [List.forall_mem_cons] at h
    have ih := list ha f h.2
    simp only [List.map_cons, String.intercalate_cons_cons] at ih ⊢
    exact .append (.append h.1 (.plain ha)) ih

namespace Opens

theorem visible {cs : List Char} (h : Visible cs) : Opens fun _ => String.ofList cs := by
  refine fun p => ⟨fun hempty => ?_, fun hspace => ?_⟩
  · rw [String.ofList_eq_empty_iff] at hempty
    subst hempty
    exact absurd h (by decide)
  · rw [String.toList_ofList] at hspace
    rw [Visible, hspace] at h
    cases h

theorem append {f : String → String} (hf : Opens f) (g : String → String) :
    Opens fun p => f p ++ g p := by
  refine fun p => ⟨fun hempty => (hf p).1 (String.append_eq_empty_iff.1 hempty).1, fun hspace => ?_⟩
  obtain ⟨c, cs, hcs⟩ := List.exists_cons_of_ne_nil (mt String.toList_eq_nil_iff.1 (hf p).1)
  have hhead := (hf p).2
  rw [String.toList_append] at hspace
  rw [hcs] at hspace hhead
  exact hhead hspace

end Opens

namespace Line

variable {cs : List Char}

theorem plain (h : Plain cs ∧ Visible cs) : Line N fun _ => String.ofList cs :=
  ⟨.plain h.1, .visible h.2⟩

theorem number (n : Nat) : Line N fun _ => toString n := by
  have hdigits := isNameChar_toString n
  have h := plain (N := N) ⟨plain_of_isNameChar hdigits, visible_of_isNameChar hdigits
    (by simp [Nat.toString_eq_repr, Nat.repr])⟩
  rwa [String.ofList_toList] at h

/-- The path may be empty, but not the path with the colons behind it. -/
theorem path (h : Plain cs) : Line N fun p => p ++ String.ofList (':' :: ':' :: cs) := by
  refine ⟨.path h, fun p => ⟨by simp [String.append_eq_empty_iff], fun hspace => ?_⟩⟩
  rw [String.toList_append, String.toList_ofList] at hspace
  rcases hp : p.toList with _ | ⟨c, _⟩
  · rw [hp] at hspace
    cases hspace
  · rwa [hp] at hspace

/-- An identifier may be empty, and has no spaces. -/
theorem field {name : String} (hn : N name) (h : Plain cs ∧ Visible cs) :
    Line N fun _ => Identifier.ofField name ++ String.ofList cs := by
  have hspaces : ' ' ∉ (Identifier.ofField name).toList :=
    Identifier.notMem_ofField (by decide) (.inl (by decide))
  have hcs := Opens.visible h.2
  refine ⟨.append (.field hn) (.plain h.1), fun p => ⟨fun hempty => ?_, fun hspace => ?_⟩⟩
  · exact (hcs p).1 (String.append_eq_empty_iff.1 hempty).2
  · rw [String.toList_append] at hspace
    rcases hi : (Identifier.ofField name).toList with _ | ⟨c, _⟩
    · rw [hi] at hspace
      exact (hcs p).2 hspace
    · rw [hi] at hspace hspaces
      obtain rfl := Option.some.inj hspace
      exact absurd List.mem_cons_self hspaces

theorem append {f g : String → String} (hf : Line N f) (hg : Phrase N g) :
    Line N fun p => f p ++ g p :=
  ⟨.append hf.phrase hg, hf.opens.append g⟩

theorem append_path {f : String → String} (hf : Line N f) (h : Plain cs) :
    Line N fun p => f p ++ p ++ String.ofList (':' :: ':' :: cs) :=
  ⟨.append_path hf.phrase h, (hf.opens.append _).append _⟩

theorem between {a b : List Char} {f : String → String} (h : Plain (a ++ b) ∧ Visible a)
    (hf : Phrase N f) : Line N fun p => String.ofList a ++ f p ++ String.ofList b :=
  ⟨.between h.1 hf, ((Opens.visible h.2).append f).append _⟩

end Line

/-! ## Code -/

/-- The code that is made of such texts, as a function of the path. If `comments` is false, it has
no comments. -/
inductive Passage (N : String → Prop) (comments : Prop) : (String → List Code) → Prop
  | nil : Passage N comments fun _ => []
  | line {f : String → String} {g : String → List Code} (hf : Line N f)
    (hg : Passage N comments g) : Passage N comments fun p => .line (f p) :: g p
  | blank {g : String → List Code} (hg : Passage N comments g) :
    Passage N comments fun p => .blank :: g p
  | doc {g : String → List Code} (hcomments : comments) (t : String) (hg : Passage N comments g) :
    Passage N comments fun p => .doc t :: g p
  | block {f : String → String} {g h : String → List Code} {closer : String} (hf : Line N f)
    (hg : Passage N comments g) (hcloser : closer = "\x7d" ∨ closer = "\x7d)")
    (hh : Passage N comments h) : Passage N comments fun p => .block (f p) (g p) closer :: h p

namespace Passage

variable {g h : String → List Code}

theorem braces {f : String → String} (hf : Line N f) (hg : Passage N comments g)
    (hh : Passage N comments h) : Passage N comments fun p => .braces (f p) (g p) :: h p :=
  .block hf hg (.inl rfl) hh

theorem append (hg : Passage N comments g) (hh : Passage N comments h) :
    Passage N comments fun p => g p ++ h p := by
  induction hg with
  | nil => exact hh
  | line hf _ ih => exact .line hf ih
  | blank _ ih => exact .blank ih
  | doc hcomments t _ ih => exact .doc hcomments t ih
  | block hf hg hcloser _ _ ih => exact .block hf hg hcloser ih

theorem flatMap {k : α → String → List Code} : ∀ {l : List α},
    (∀ a ∈ l, Passage N comments (k a)) → Passage N comments fun p => l.flatMap (k · p)
  | [], _ => .nil
  | a :: l, hl => by
    rw [List.forall_mem_cons] at hl
    simp only [List.flatMap_cons]
    exact .append hl.1 (flatMap hl.2)

/-- The code of each element of a list that depends on the path. -/
theorem flatMap_each {k : String → α → List Code} {gs : List (String → α)}
    (h : ∀ g ∈ gs, Passage N comments fun p => k p (g p)) :
    Passage N comments fun p => (gs.map (· p)).flatMap (k p) := by
  simp only [List.flatMap_map]
  exact flatMap h

theorem map {k : α → String → Code} {l : List α}
    (hl : ∀ a ∈ l, Passage N comments fun p => [k a p]) :
    Passage N comments fun p => l.map (k · p) := by
  simp only [List.map_eq_flatMap]
  exact flatMap hl

theorem of_forall {cs : List Code} (h : ∀ c ∈ cs, Passage N comments fun _ => [c]) :
    Passage N comments fun _ => cs := by
  have hmap := map (k := fun c _ => c) h
  rwa [List.map_id'] at hmap

end Passage

/-! ## Results -/

/-- The path does not decide whether there is a result, nor which error there is if not; and the
results, as a function of the path, have the property. -/
def Parametric (P : (String → α) → Prop) (x : String → Except GenerateError α) : Prop :=
  (∃ e, ∀ p, x p = .error e) ∨ ∃ f, P f ∧ ∀ p, x p = .ok (f p)

/-- A list of functions of the path, which all have the property. -/
def Each (P : (String → α) → Prop) (f : String → List α) : Prop :=
  ∃ l : List (String → α), (∀ g ∈ l, P g) ∧ f = fun p => l.map (· p)

namespace Parametric

variable {P : (String → α) → Prop} {Q : (String → β) → Prop} {x : String → Except GenerateError α}

theorem ok {f : String → α} (hf : P f) : Parametric P fun p => .ok (f p) :=
  .inr ⟨f, hf, fun _ => rfl⟩

theorem imp {P' : (String → α) → Prop} (hx : Parametric P x) (h : ∀ f, P f → P' f) :
    Parametric P' x :=
  hx.imp_right fun ⟨f, hf, hok⟩ => ⟨f, h f hf, hok⟩

theorem bind {k : String → α → Except GenerateError β} (hx : Parametric P x)
    (hk : ∀ f, P f → Parametric Q fun p => k p (f p)) : Parametric Q fun p => x p >>= k p := by
  rcases hx with ⟨e, he⟩ | ⟨f, hf, hok⟩
  · exact .inl ⟨e, fun p => congrArg (· >>= k p) (he p)⟩
  · have heq : (fun p => x p >>= k p) = fun p => k p (f p) :=
      funext fun p => congrArg (· >>= k p) (hok p)
    rw [heq]
    exact hk f hf

/-- A step that does not look at the path. -/
theorem fixed {x : Except GenerateError α} {k : String → α → Except GenerateError β}
    (hk : ∀ a, x = .ok a → Parametric Q fun p => k p a) : Parametric Q fun p => x >>= k p := by
  rcases hx : x with e | a
  · exact .inl ⟨e, fun p => rfl⟩
  · exact hk a hx

/-- A result there is has the property. -/
theorem exists_of_ok (hx : Parametric P x) {p : String} {a : α} (ha : x p = .ok a) :
    ∃ f, P f ∧ f p = a := by
  rcases hx with ⟨e, he⟩ | ⟨f, hf, hok⟩
  · rw [he] at ha
    cases ha
  · rw [hok] at ha
    exact ⟨f, hf, Except.ok.inj ha⟩

theorem mapM {f : String → β → Except GenerateError α} : ∀ {l : List β},
    (∀ b ∈ l, Parametric P fun p => f p b) → Parametric (Each P) fun p => l.mapM (f p)
  | [], _ => by
    simp only [List.mapM_nil]
    exact ok ⟨[], nofun, rfl⟩
  | b :: l, h => by
    rw [List.forall_mem_cons] at h
    simp only [List.mapM_cons]
    refine bind h.1 fun g hg => bind (mapM h.2) ?_
    rintro _ ⟨gs, hgs, rfl⟩
    exact ok ⟨g :: gs, List.forall_mem_cons.2 ⟨hg, hgs⟩, rfl⟩

theorem mapError (hx : Parametric P x) (h : GenerateError → GenerateError) :
    Parametric P fun p => (x p).mapError h := by
  rcases hx with ⟨e, he⟩ | ⟨f, hf, hok⟩
  · exact .inl ⟨h e, fun p => congrArg (Except.mapError h) (he p)⟩
  · exact .inr ⟨f, hf, fun p => congrArg (Except.mapError h) (hok p)⟩

end Parametric

/-! ## The path -/

namespace Settings

theorem exists_eq_append_dropSeparators : ∀ s : List Char,
    ∃ n, s = (List.replicate n [':', ':']).flatten ++ dropSeparators s
      ∧ ¬ [':', ':'] <+: dropSeparators s := by
  intro s
  induction s using dropSeparators.induct with
  | case1 rest ih =>
    obtain ⟨n, heq, hnot⟩ := ih
    rw [dropSeparators]
    refine ⟨n + 1, ?_, hnot⟩
    rw [List.replicate_succ, List.flatten_cons, List.append_assoc, ← heq]
    rfl
  | case2 s hs =>
    have hdrop : dropSeparators s = s := by
      rw [dropSeparators]
      exact hs
    refine ⟨0, by rw [hdrop]; rfl, ?_⟩
    rw [hdrop]
    rintro ⟨rest, rfl⟩
    exact hs rest rfl

/-- The path is what stands before the separators at its end. -/
theorem exists_runtime_append (settings : Settings) :
    ∃ n, settings.runtimePath.toList
        = settings.runtime.toList ++ (List.replicate n [':', ':']).flatten
      ∧ ¬ [':', ':'] <:+ settings.runtime.toList := by
  obtain ⟨n, heq, hnot⟩ := exists_eq_append_dropSeparators settings.runtimePath.toList.reverse
  refine ⟨n, ?_, ?_⟩
  · have hflatten : (List.replicate n [':', ':']).flatten.reverse
        = (List.replicate n [':', ':']).flatten := by
      simp [List.reverse_flatten]
    rw [← List.reverse_inj, heq, runtime, String.toList_ofList, List.reverse_append, hflatten,
      List.reverse_reverse]
  · rw [runtime, String.toList_ofList, ← List.reverse_prefix, List.reverse_reverse]
    exact hnot

theorem notMem_runtime {settings : Settings} {c : Char} (h : c ∉ settings.runtimePath.toList) :
    c ∉ settings.runtime.toList := by
  obtain ⟨n, heq, -⟩ := settings.exists_runtime_append
  rw [heq] at h
  exact fun hm => h (List.mem_append_left _ hm)

end Settings

end SchemaCodec

import Mathlib.Data.List.Nodup
import SchemaCodec.Proofs.Documentation
import SchemaCodec.Proofs.Legality
import SchemaCodec.Proofs.Literals
import SchemaCodec.Proofs.Validity

/-!
# The names and constants of members

The code of an enum is read here as the language does. A match is lines that are arms, of which the
first with a pattern for the number counts (`Arm.select`); the name in an arm is a string literal.
A constant is a line with an identifier and a value (`Constant.read?`). Which characters beyond
ASCII are letters of identifiers changes with the versions of the language (`Letters`).

The arms of an enum go by the first member with each value (`EnumItem.select_arms`). The lines that
are constants go by the members whose names in capitals are identifiers
(`EnumItem.filterMap_lines`). A member with a name of underscores alone has no constant: its line
lacks the name (`Semaphore.untold`).
-/

namespace SchemaCodec

/-! ## Parts of some code -/

namespace Code

mutual

/-- The bodies of the blocks with a header, wherever they stand. -/
def bodies (header : String) : Code → List (List Code)
  | line _ => []
  | blank => []
  | doc _ => []
  | block h body _ => (if h = header then [body] else []) ++ bodiesAll header body

def bodiesAll (header : String) : List Code → List (List Code)
  | [] => []
  | c :: cs => c.bodies header ++ bodiesAll header cs

end

mutual

/-- The lines that are neither comments nor around a block. -/
def lines : Code → List String
  | line t => [t]
  | blank => []
  | doc _ => []
  | block _ body _ => linesAll body

def linesAll : List Code → List String
  | [] => []
  | c :: cs => c.lines ++ linesAll cs

end

variable {header : String} {cs ds : List Code}

@[simp] theorem bodiesAll_append :
    bodiesAll header (cs ++ ds) = bodiesAll header cs ++ bodiesAll header ds := by
  induction cs with
  | nil => rfl
  | cons c cs ih => rw [List.cons_append, bodiesAll, ih, bodiesAll, List.append_assoc]

@[simp] theorem linesAll_append : linesAll (cs ++ ds) = linesAll cs ++ linesAll ds := by
  induction cs with
  | nil => rfl
  | cons c cs ih => rw [List.cons_append, linesAll, ih, linesAll, List.append_assoc]

theorem bodiesAll_eq_nil (h : ∀ c ∈ cs, c.bodies header = []) : bodiesAll header cs = [] := by
  induction cs with
  | nil => rfl
  | cons c cs ih =>
    obtain ⟨hc, hcs⟩ := List.forall_mem_cons.1 h
    rw [bodiesAll, hc, ih hcs, List.nil_append]

end Code

/-- An arm of a match on a number. -/
structure Arm where
  /-- The number that the arm is for, or the wildcard. -/
  pattern : Option Nat
  result : Option String
  deriving DecidableEq

namespace Arm

/-- Reads an arm that gives a text, or the wildcard that gives none. -/
def read? (t : List Char) : Option Arm :=
  if t = "_ => ::core::option::Option::None,".toList then some ⟨none, none⟩
  else do
    let digits := t.takeWhile Char.isDigit
    let rest ← " => ::core::option::Option::Some(".toList.isPrefixOf? (t.dropWhile Char.isDigit)
    let (name, rest) ← Literal.read? rest
    if digits = [] ∨ rest ≠ "),".toList then none
    else some ⟨some (Nat.ofDigitChars 10 digits 0), some name⟩

def ofCode? : Code → Option Arm
  | .line t => read? t.toList
  | _ => none

/-- Whether an arm has a pattern for a number. -/
def covers (n : Nat) (a : Arm) : Bool :=
  a.pattern.all (· == n)

/-- What a match gives for a number, if an arm has a pattern for it. -/
def select (arms : List Arm) (n : Nat) : Option (Option String) :=
  (arms.find? (covers n)).map (·.result)

/-- The header of the function that tells names. -/
def header : String :=
  "pub fn name(self) -> ::core::option::Option<&'static str>"

/-- The arms of the match in the function that tells names, if there is one such function and
nothing else in it. -/
def ofNames? (cs : List Code) : Option (List Arm) :=
  match Code.bodiesAll header cs with
  | [[.block "match self.0" arms "\x7d"]] => arms.mapM ofCode?
  | _ => none

theorem read?_arm (n : Nat) (name : String) :
    read? (toString n ++ " => ::core::option::Option::Some(" ++ Text.quoted name ++ "),").toList
      = some ⟨some n, some name⟩ := by
  have hdigits : ∀ c ∈ Nat.toDigits 10 n, c.isDigit = true :=
    fun _ => Nat.isDigit_of_mem_toDigits (by decide) (by decide)
  have hsplit : (toString n ++ " => ::core::option::Option::Some(" ++ Text.quoted name
        ++ "),").toList
      = Nat.toDigits 10 n ++ ' ' :: ("=> ::core::option::Option::Some(".toList
        ++ ((Text.quoted name).toList ++ "),".toList)) := by
    simp [Nat.toString_eq_repr]
  have hwild : Nat.toDigits 10 n ++ ' ' :: ("=> ::core::option::Option::Some(".toList
        ++ ((Text.quoted name).toList ++ "),".toList))
      ≠ "_ => ::core::option::Option::None,".toList := by
    obtain ⟨c, s, hs⟩ := List.exists_cons_of_ne_nil (Nat.toDigits_ne_nil (n := n) (b := 10))
    intro h
    have hc := hdigits c (by simp [hs])
    obtain rfl : c = '_' := by
      rw [hs] at h
      exact (List.cons.inj h).1
    simp at hc
  have hrest : " => ::core::option::Option::Some(".toList.isPrefixOf?
        (' ' :: ("=> ::core::option::Option::Some(".toList
          ++ ((Text.quoted name).toList ++ "),".toList)))
      = some ((Text.quoted name).toList ++ "),".toList) :=
    List.isPrefixOf?_eq_some_iff_append_eq.2 rfl
  rw [hsplit, read?, if_neg hwild, List.takeWhile_append_of_pos hdigits,
    List.dropWhile_append_of_pos hdigits, List.takeWhile_cons_of_neg (by decide),
    List.dropWhile_cons_of_neg (by decide), hrest, List.append_nil]
  simp [Literal.read_quoted, Nat.toDigits_ne_nil, Nat.ofDigitChars_toDigits]

end Arm

/-! ## Identifiers -/

/-- Which characters beyond ASCII may begin an identifier, and which may follow. -/
structure Letters where
  first : Char → Bool
  later : Char → Bool

namespace Letters

variable (A : Letters) {t : List Char}

def isFirst (c : Char) : Bool :=
  c.isAlpha || c == '_' || 127 < c.toNat && A.first c

def isLater (c : Char) : Bool :=
  c.isAlphanum || c == '_' || 127 < c.toNat && A.later c

/-- Whether a text has the form of an identifier, as keywords have. -/
def isWord : List Char → Bool
  | [] => false
  | c :: cs => A.isFirst c && cs.all A.isLater && (c :: cs != ['_'])

/-- Whether a text is an identifier: no keyword, or raw. -/
def isLegal (t : List Char) : Bool :=
  match ['r', '#'].isPrefixOf? t with
  | some w => A.isWord w && String.ofList w ∉ ["crate", "self", "Self", "super"]
  | none => A.isWord t && !Identifier.keywords.contains (String.ofList t)

theorem notMem_of_isWord (h : A.isWord t = true) : ':' ∉ t := by
  have hfirst : A.isFirst ':' = false := rfl
  have hlater : A.isLater ':' = false := rfl
  rcases t with _ | ⟨c, cs⟩
  · exact List.not_mem_nil
  · simp only [isWord, Bool.and_eq_true, List.all_eq_true] at h
    rintro (_ | ⟨_, hc⟩)
    · simp [hfirst] at h
    · simp [h.1.2 _ hc] at hlater

/-- A colon ends an identifier. -/
theorem notMem_of_isLegal (h : A.isLegal t = true) : ':' ∉ t := by
  unfold isLegal at h
  split at h
  · rename_i w hw
    rw [← List.isPrefixOf?_eq_some_iff_append_eq.1 hw, List.mem_append, not_or]
    exact ⟨by decide, A.notMem_of_isWord (Bool.and_eq_true _ _ ▸ h).1⟩
  · exact A.notMem_of_isWord (Bool.and_eq_true _ _ ▸ h).1

/-- All letters in the names of a schema are ASCII, so it does not matter which others there are. -/
theorem isLegal_iff {name : String} (h : ∀ c ∈ name.toList, IsNameChar c) :
    A.isLegal name.toList = true ↔ Identifier.IsLegal name := by
  have hraw : ∀ w, name.toList ≠ 'r' :: '#' :: w := by
    intro w hw
    exact absurd (h '#' (by simp [hw])) (by decide)
  have hplain : ['r', '#'].isPrefixOf? name.toList = none :=
    Option.eq_none_iff_forall_ne_some.2 fun w hw =>
      hraw w (List.isPrefixOf?_eq_some_iff_append_eq.1 hw).symm
  have hword : A.isWord name.toList = true ↔ IsIdentifier name.toList ∧ name ≠ "_" := by
    rw [Identifier.isIdentifier_iff h, ne_eq, ← String.toList_inj]
    rcases hname : name.toList with _ | ⟨c, cs⟩
    · simp [isWord]
    · rw [hname, List.forall_mem_cons] at h
      have hascii : ¬ 127 < c.toNat := Nat.not_lt.2 (Nat.le_of_lt_succ h.1.toNat_lt)
      have hlater : cs.all A.isLater = true := List.all_eq_true.2 fun d hd => by
        simp only [isLater, Bool.or_eq_true, beq_iff_eq]
        exact .inl (h.2 d hd)
      simp [isWord, isFirst, hlater, hascii]
  rw [isLegal, hplain]
  simp only [Bool.and_eq_true, hword, Bool.not_eq_true', List.contains_eq_mem,
    decide_eq_false_iff_not, String.ofList_toList]
  constructor
  · rintro ⟨⟨hident, hne⟩, hkeyword⟩
    exact .plain hident hne hkeyword
  · intro hlegal
    cases hlegal with
    | plain hident hne hkeyword => exact ⟨⟨hident, hne⟩, hkeyword⟩
    | @raw w _ _ => exact absurd (by simp) (hraw w.toList)

end Letters

/-! ## Constants -/

namespace Constant

/-- The line for a constant of its own type. -/
def text (name : String) (value : UInt32) : String :=
  "pub const " ++ name ++ ": Self = Self(" ++ toString value.toNat ++ ");"

/-- Reads the name and the value of a constant of its own type off a line that holds nothing else,
and no comment. What comes before the colon has to be an identifier. -/
def read? (A : Letters) (t : List Char) : Option (String × Nat) := do
  let rest ← "pub const ".toList.isPrefixOf? t
  let name := rest.takeWhile (· != ':')
  let rest ← ": Self = Self(".toList.isPrefixOf? (rest.dropWhile (· != ':'))
  let digits := rest.takeWhile Char.isDigit
  if A.isLegal name = false ∨ digits = [] ∨ rest.dropWhile Char.isDigit ≠ ");".toList then none
  else some (String.ofList name, Nat.ofDigitChars 10 digits 0)

variable (A : Letters)

theorem toList_text (name : String) (value : UInt32) :
    (text name value).toList = "pub const ".toList ++ (name.toList
      ++ ':' :: (" Self = Self(".toList ++ (Nat.toDigits 10 value.toNat ++ ");".toList))) := by
  simp [text, Nat.toString_eq_repr]

/-- The reader stops at the first colon, and if there is one in the name, then behind it there is
one too many. -/
theorem read?_of_colon {name : String} (h : ':' ∈ name.toList) (value : UInt32) :
    read? A (text name value).toList = none := by
  obtain ⟨a, b, hname, ha⟩ := List.eq_append_cons_of_mem h
  have hbefore : ∀ c ∈ a, (c != ':') = true := fun c hc => by
    simpa using ne_of_mem_of_not_mem hc ha
  rw [toList_text, read?, List.isPrefixOf?_eq_some_iff_append_eq.2 rfl]
  simp only [Option.bind_eq_bind, Option.bind_some]
  rw [hname, List.append_assoc, List.cons_append, List.takeWhile_append_of_pos hbefore,
    List.dropWhile_append_of_pos hbefore, List.dropWhile_cons_of_neg (by decide)]
  refine Option.bind_eq_none_iff.2 fun rest hrest => if_pos (.inr (.inr fun hend => ?_))
  have htail : " Self = Self(".toList ++ rest = b ++ ':' :: (" Self = Self(".toList
      ++ (Nat.toDigits 10 value.toNat ++ ");".toList)) :=
    (List.cons.inj (List.isPrefixOf?_eq_some_iff_append_eq.1 hrest)).2
  have hmem : ':' ∈ " Self = Self(".toList ++ rest := by
    rw [htail]
    exact List.mem_append_right _ List.mem_cons_self
  rw [← List.takeWhile_append_dropWhile (p := Char.isDigit) (l := rest), hend, List.mem_append,
    List.mem_append] at hmem
  rcases hmem with hmem | hmem | hmem
  · exact absurd hmem (by decide)
  · exact absurd (List.mem_takeWhile_imp hmem) (by decide)
  · exact absurd hmem (by decide)

/-- A line for a constant is read if its name is an identifier. -/
theorem read?_text (name : String) (value : UInt32) :
    read? A (text name value).toList
      = if A.isLegal name.toList then some (name, value.toNat) else none := by
  by_cases hcolon : ':' ∈ name.toList
  · rw [if_neg fun h => A.notMem_of_isLegal h hcolon, read?_of_colon A hcolon]
  · have hname : ∀ c ∈ name.toList, (c != ':') = true := fun c hc => by
      simpa using ne_of_mem_of_not_mem hc hcolon
    have hdigits : ∀ c ∈ Nat.toDigits 10 value.toNat, c.isDigit = true :=
      fun _ => Nat.isDigit_of_mem_toDigits (by decide) (by decide)
    have hend : ");".toList.takeWhile Char.isDigit = [] ∧ ");".toList.dropWhile Char.isDigit
        = ");".toList := by decide
    have hrest : ": Self = Self(".toList.isPrefixOf?
          (':' :: (" Self = Self(".toList ++ (Nat.toDigits 10 value.toNat ++ ");".toList)))
        = some (Nat.toDigits 10 value.toNat ++ ");".toList) :=
      List.isPrefixOf?_eq_some_iff_append_eq.2 rfl
    rw [toList_text, read?, List.isPrefixOf?_eq_some_iff_append_eq.2 rfl]
    simp only [Option.bind_eq_bind, Option.bind_some]
    rw [List.takeWhile_append_of_pos hname, List.dropWhile_append_of_pos hname,
      List.takeWhile_cons_of_neg (by decide), List.dropWhile_cons_of_neg (by decide),
      List.append_nil, hrest]
    simp only [Option.bind_some]
    rw [List.takeWhile_append_of_pos hdigits, List.dropWhile_append_of_pos hdigits, hend.1, hend.2,
      List.append_nil]
    cases A.isLegal name.toList <;>
      simp [Nat.toDigits_ne_nil, Nat.ofDigitChars_toDigits]

theorem read?_of_otherStart {t : List Char} (h : ¬ "pub const ".toList <+: t) :
    read? A t = none := by
  have hnone : "pub const ".toList.isPrefixOf? t = none := by
    refine Option.eq_none_iff_forall_ne_some.2 fun rest hrest => h ?_
    exact ⟨rest, List.isPrefixOf?_eq_some_iff_append_eq.1 hrest⟩
  rw [read?, hnone]
  rfl

theorem filterMap_other {t : String} (h : ¬ "pub const ".toList <+: t.toList) :
    [t].filterMap (read? A ·.toList) = [] := by
  simp [read?_of_otherStart A h]

/-- The constant for an opcode is of another type. -/
theorem read?_opcodeLine (opcode : UInt32) :
    read? A ("pub const " ++ Item.opcodeName ++ ": u32 = " ++ Item.hexText opcode ++ ";").toList
      = none := by
  have hsplit : ("pub const " ++ Item.opcodeName ++ ": u32 = " ++ Item.hexText opcode
        ++ ";").toList
      = "pub const ".toList ++ ("OPCODE".toList ++ ':' :: " u32 = ".toList
        ++ (Item.hexText opcode ++ ";").toList) := by
    simp [Item.opcodeName]
  rw [hsplit, read?, List.isPrefixOf?_eq_some_iff_append_eq.2 rfl]
  rfl

end Constant

/-! ## Enums -/

namespace Item

theorem bodiesAll_docs (header : String) (settings : Settings) (doc : Option String)
    (deprecated : Option Deprecation) :
    Code.bodiesAll header (docs settings doc deprecated) = [] := by
  refine Code.bodiesAll_eq_nil fun c hc => ?_
  rcases mem_docs hc with rfl | ⟨t, rfl⟩ <;> rfl

/-- The lines for a documentation hold no constants. -/
theorem filterMap_docs (A : Letters) (settings : Settings) (doc : Option String)
    (deprecated : Option Deprecation) :
    (Code.linesAll (docs settings doc deprecated)).filterMap (Constant.read? A ·.toList) = [] := by
  have h : ∀ cs : List Code, (∀ c ∈ cs, c = .line "///" ∨ ∃ t, c = .doc t) →
      (Code.linesAll cs).filterMap (Constant.read? A ·.toList) = [] := by
    intro cs hcs
    induction cs with
    | nil => rfl
    | cons c cs ih =>
      obtain ⟨hc, hcs⟩ := List.forall_mem_cons.1 hcs
      rw [Code.linesAll, List.filterMap_append, ih hcs]
      rcases hc with rfl | ⟨t, rfl⟩ <;> rfl
  exact h _ fun c hc => mem_docs hc

end Item

namespace EnumItem

variable {x : UInt32}

/-- No two arms have the same value, and none has a value that was seen. -/
theorem nodup_armsFrom : ∀ (fs : List Field) (seen : List UInt32),
    ((armsFrom seen fs).map Prod.fst).Nodup ∧ ∀ a ∈ armsFrom seen fs, a.1 ∉ seen
  | [], _ => ⟨List.nodup_nil, nofun⟩
  | f :: fs, seen => by
    rw [armsFrom]
    split_ifs with hf
    · exact nodup_armsFrom fs seen
    · obtain ⟨hnodup, hseen⟩ := nodup_armsFrom fs (f.value :: seen)
      rw [List.map_cons, List.nodup_cons, List.forall_mem_cons]
      refine ⟨⟨fun hm => ?_, hnodup⟩, hf, fun a ha hm => ?_⟩
      · obtain ⟨a, ha, hvalue⟩ := List.mem_map.1 hm
        exact hseen a ha (hvalue ▸ List.mem_cons_self)
      · exact hseen a ha (List.mem_cons_of_mem _ hm)

/-- A value that was not seen has the arm of the first member with it. -/
theorem find?_armsFrom : ∀ (fs : List Field) (seen : List UInt32), x ∉ seen →
    ((armsFrom seen fs).find? (·.1 == x)).map Prod.snd
      = (fs.find? (·.value == x)).map (·.name)
  | [], _, _ => rfl
  | f :: fs, seen, hx => by
    rw [armsFrom]
    by_cases hf : f.value = x
    · rw [if_neg (hf ▸ hx), List.find?_cons_of_pos (by simpa using hf),
        List.find?_cons_of_pos (by simpa using hf)]
      rfl
    · rw [List.find?_cons_of_neg (by simpa using hf)]
      split_ifs
      · exact find?_armsFrom fs seen hx
      · rw [List.find?_cons_of_neg (by simpa using hf)]
        exact find?_armsFrom fs _ (by simp [hx, Ne.symm hf])

/-- The match of an enum as it is read: an arm for each value that a member has, and then the
wildcard. -/
def readArms (e : EnumItem) : List Arm :=
  e.arms.map (fun a => ⟨some a.1.toNat, some a.2⟩) ++ [⟨none, none⟩]

theorem nodup_pattern (e : EnumItem) : (e.readArms.map (·.pattern)).Nodup := by
  have hpatterns : e.readArms.map (·.pattern)
      = (e.arms.map Prod.fst).map (fun x => some x.toNat) ++ [none] := by
    simp [readArms]
  have hinj : Function.Injective fun x : UInt32 => some x.toNat :=
    fun _ _ h => UInt32.toNat_inj.1 (Option.some.inj h)
  rw [hpatterns, List.nodup_append]
  refine ⟨(nodup_armsFrom _ []).1.map hinj, List.nodup_singleton _, fun a ha b hb hab => ?_⟩
  obtain ⟨x, -, rfl⟩ := List.mem_map.1 ha
  rw [List.mem_singleton.1 hb] at hab
  cases hab

/-- The match gives the name of the first member with a value, and is never without an arm. -/
theorem select_arms (e : EnumItem) (x : UInt32) : Arm.select e.readArms x.toNat
    = some (((e.members.map (·.1)).find? (·.value == x)).map (·.name)) := by
  have hcovers : (Arm.covers x.toNat ∘ fun a : UInt32 × String => ⟨some a.1.toNat, some a.2⟩)
      = fun a => a.1 == x := by
    funext a
    rw [Bool.eq_iff_iff]
    simp [Arm.covers, UInt32.toNat_inj]
  have harms := find?_armsFrom (x := x) (e.members.map (·.1)) [] List.not_mem_nil
  rw [Arm.select, readArms, List.find?_append, List.find?_map, hcovers, ← harms]
  show Option.map Arm.result ((Option.map _ (e.arms.find? (·.1 == x))).or _) = _
  rw [arms]
  rcases hfind : (armsFrom [] (e.members.map (·.1))).find? (·.1 == x) with _ | a <;>
    rw [hfind] <;> rfl

theorem mapM_armCode (arms : List (UInt32 × String)) (rest : List Code) :
    (arms.map armCode ++ rest).mapM Arm.ofCode? = (rest.mapM Arm.ofCode?).map
      (arms.map (fun a => (⟨some a.1.toNat, some a.2⟩ : Arm)) ++ ·) := by
  induction arms with
  | nil => simp
  | cons a arms ih =>
    have ha : Arm.ofCode? (armCode a) = some ⟨some a.1.toNat, some a.2⟩ := Arm.read?_arm _ _
    rw [List.map_cons, List.cons_append, List.mapM_cons, ih, ha]
    cases rest.mapM Arm.ofCode? <;> rfl

/-- Among the blocks of an enum there is one for the function that tells names. -/
theorem bodiesAll_code (settings : Settings) (e : EnumItem) :
    Code.bodiesAll Arm.header (e.code settings) = [[.braces "match self.0"
      (e.arms.map armCode ++ [.line "_ => ::core::option::Option::None,"])]] := by
  have himpl : ∀ t : String, ("impl " ++ t) ≠ Arm.header := by
    intro t h
    have hhead := congrArg (·.toList.head?) h
    simp [Arm.header] at hhead
  have hfrom : ∀ t : String, ("fn from(value: " ++ t) ≠ Arm.header := by
    intro t h
    have hhead := congrArg (·.toList.head?) h
    simp [Arm.header] at hhead
  have hmembers : Code.bodiesAll Arm.header (e.members.flatMap (memberCode settings)) = [] := by
    induction e.members with
    | nil => rfl
    | cons m ms ih =>
      rw [List.flatMap_cons, Code.bodiesAll_append, ih, memberCode, Code.bodiesAll_append,
        Item.bodiesAll_docs]
      rfl
  have harms : Code.bodiesAll Arm.header (e.arms.map armCode) = [] :=
    Code.bodiesAll_eq_nil (List.forall_mem_map.2 fun _ _ => rfl)
  have hblank : Code.bodiesAll Arm.header (if e.members.isEmpty then [] else [.blank]) = [] := by
    split_ifs <;> rfl
  unfold code
  rw [Code.bodiesAll_append, Item.bodiesAll_docs]
  simp only [Code.bodiesAll, Code.bodies, Code.braces, Item.implementation, nameCode,
    Code.bodiesAll_append, hmembers, harms, hblank, String.append_assoc, himpl, hfrom,
    List.nil_append, List.append_nil]
  cases e.definition.opcode <;> simp [Arm.header, Code.bodiesAll, Code.bodies, Item.opcodeLine]

theorem ofNames?_code (settings : Settings) (e : EnumItem) :
    Arm.ofNames? (e.code settings) = some e.readArms := by
  unfold Arm.ofNames?
  rw [bodiesAll_code]
  exact mapM_armCode e.arms _

theorem not_prefix_arm (n : Nat) (t : String) :
    ¬ "pub const ".toList <+: (toString n ++ " => ::core::option::Option::Some(" ++ Text.quoted t
      ++ "),").toList := by
  obtain ⟨c, s, hs⟩ := List.exists_cons_of_ne_nil (Nat.toDigits_ne_nil (n := n) (b := 10))
  have hc : c.isDigit = true :=
    Nat.isDigit_of_mem_toDigits (n := n) (b := 10) (by decide) (by decide) (by simp [hs])
  have hp : 'p' ≠ c := by
    rintro rfl
    simp at hc
  simp [Nat.toString_eq_repr, hs, List.cons_prefix_cons, hp]

/-- The lines of an enum that are constants of its own type are those of the members for which they
have identifiers. -/
theorem filterMap_lines (A : Letters) (settings : Settings) (e : EnumItem) :
    (Code.linesAll (e.code settings)).filterMap (Constant.read? A ·.toList)
      = (e.members.filter (A.isLegal ·.2.toList)).map fun m => (m.2, m.1.value.toNat) := by
  have hmembers : (Code.linesAll (e.members.flatMap (memberCode settings))).filterMap
      (Constant.read? A ·.toList)
      = (e.members.filter (A.isLegal ·.2.toList)).map fun m => (m.2, m.1.value.toNat) := by
    induction e.members with
    | nil => rfl
    | cons m ms ih =>
      have hm : Code.linesAll [.line (Constant.text m.2 m.1.value)]
          = [Constant.text m.2 m.1.value] := rfl
      rw [List.flatMap_cons, Code.linesAll_append, List.filterMap_append, ih, memberCode,
        Code.linesAll_append, List.filterMap_append, Item.filterMap_docs A, ← Constant.text, hm]
      rw [List.filterMap_cons, Constant.read?_text, List.filter_cons]
      split_ifs <;> rfl
  have harms : (Code.linesAll (e.arms.map armCode)).filterMap (Constant.read? A ·.toList) = [] := by
    induction e.arms with
    | nil => rfl
    | cons a arms ih =>
      have ha : Code.linesAll [armCode a] = [toString a.1.toNat
          ++ " => ::core::option::Option::Some(" ++ Text.quoted a.2 ++ "),"] := rfl
      rw [List.map_cons, ← List.singleton_append, Code.linesAll_append, List.filterMap_append, ih,
        ha, Constant.filterMap_other A (not_prefix_arm a.1.toNat _), List.append_nil]
  have hopcode : ∀ opcode, (Code.linesAll [Item.opcodeLine opcode, .blank]).filterMap
      (Constant.read? A ·.toList) = [] := by
    intro opcode
    have hline : Code.linesAll [Item.opcodeLine opcode, .blank] = ["pub const "
        ++ Item.opcodeName ++ ": u32 = " ++ Item.hexText opcode ++ ";"] := rfl
    rw [hline, List.filterMap_cons, Constant.read?_opcodeLine A]
    rfl
  have hblank : Code.linesAll (if e.members.isEmpty then [] else [.blank]) = [] := by
    split_ifs <;> rfl
  have hident : ¬ "pub const ".toList <+: ("pub struct " ++ e.ident ++ "(pub u32);").toList := by
    simp [List.cons_prefix_cons]
  unfold code
  rw [Code.linesAll_append, List.filterMap_append, Item.filterMap_docs A]
  simp only [Code.linesAll, Code.lines, Code.braces, Item.implementation, nameCode,
    Code.linesAll_append, List.filterMap_append, List.nil_append, List.append_nil, hmembers, harms,
    hblank, Constant.filterMap_other A hident]
  rw [Constant.filterMap_other A (by decide), Constant.filterMap_other A (by decide),
    Constant.filterMap_other A (by decide), Constant.filterMap_other A (by decide),
    Constant.filterMap_other A (by decide)]
  cases e.definition.opcode with
  | none => simp [Code.linesAll]
  | some opcode => simp only [hopcode, List.nil_append, List.append_nil]

end EnumItem

/-- Whatever the members of an enum are, no two patterns of the match that tells their names are the
same, and it gives the name of the first member with a number, character for character, or none.
Each member whose name in capitals is an identifier has one constant, with its value, in the order
of the members, and no other line reads as one. No two names in capitals are the same text. A name
of a member that is an identifier itself gives one in capitals unless it is underscores alone. -/
theorem Item.tells_members (t : Target) (d : Definition) (settings : Settings) (i : Item)
    (hk : d.kind = .enum) (h : Item.ofDefinition? t d = .ok i) :
    (∃ arms, Arm.ofNames? (i.code settings t.runtime) = some arms
      ∧ (arms.map (·.pattern)).Nodup
      ∧ ∀ x : UInt32, Arm.select arms x.toNat
        = some ((d.fields.find? (·.value == x)).map (·.name)))
    ∧ (∀ A : Letters,
      (Code.linesAll (i.code settings t.runtime)).filterMap (Constant.read? A ·.toList)
        = (d.fields.filter fun f => A.isLegal (Identifier.ofConstant f.name).toList).map
          fun f => (Identifier.ofConstant f.name, f.value.toNat))
    ∧ (d.fields.map fun f => Identifier.ofConstant f.name).Nodup
    ∧ (d.opcode.isSome = true →
      ∀ f ∈ d.fields, Identifier.ofConstant f.name ≠ Item.opcodeName)
    ∧ ∀ f ∈ d.fields, IsIdentifier f.name.toList → ∀ A : Letters,
      (A.isLegal (Identifier.ofConstant f.name).toList = true ↔ ∃ c ∈ f.name.toList, c ≠ '_') := by
  unfold Item.ofDefinition? at h
  rw [hk] at h
  simp only [bind_eq_ok, pure_eq_ok] at h
  obtain ⟨e, he, rfl⟩ := h
  have henum := EnumItem.succeeds_ofDefinition?.1 ⟨e, he⟩
  unfold EnumItem.ofDefinition? at he
  simp only [bind_eq_ok, pure_eq_ok] at he
  obtain ⟨_, -, _, -, rfl⟩ := he
  refine ⟨⟨_, EnumItem.ofNames?_code settings _, EnumItem.nodup_pattern _, fun x => ?_⟩,
    fun A => ?_, henum.nodup, henum.opcode, fun f _ hf A => ?_⟩
  · rw [EnumItem.select_arms]
    simp [Function.comp_def]
  · rw [Item.code, EnumItem.filterMap_lines]
    simp [List.filter_map, Function.comp_def]
  · rw [A.isLegal_iff (Identifier.isNameChar_ofConstant hf.1),
      Identifier.legal_ofConstant_iff hf.1, Identifier.first?, ← Option.isSome_iff_exists,
      List.find?_isSome]
    simp

namespace Semaphore

/-- Two members share a value, and one of them has a name that needs escapes. -/
def flags : Definition where
  name := "Flags"
  kind := .enum
  opcode := some 9
  fields := [{ name := "half \"mast\"\n\\", value := 7 }, { name := "lowered", value := 0 },
    { name := "at-half", value := 7 }]

def target : Target where
  schema := .empty none
  runtime := "rt"

/-- The letters of ASCII and no others. -/
def ascii : Letters where
  first _ := false
  later _ := false

theorem told : ∃ i arms, Item.ofDefinition? target flags = .ok i
    ∧ Arm.ofNames? (i.code {} "rt") = some arms
    ∧ Arm.select arms 7 = some (some "half \"mast\"\n\\") ∧ Arm.select arms 8 = some none
    ∧ (Code.linesAll (i.code {} "rt")).filterMap (Constant.read? ascii ·.toList)
      = [("LOWERED", 0), ("AT_HALF", 7)] := by
  have hok : (Item.ofDefinition? target flags).isOk = true := by decide +kernel
  obtain ⟨i, hi⟩ := succeeds_of_isOk hok
  obtain ⟨⟨arms, harms, -, hselect⟩, hconstants, -⟩ :=
    Item.tells_members target flags {} i rfl hi
  exact ⟨i, arms, hi, harms, hselect 7, hselect 8, (hconstants ascii).trans (by decide +kernel)⟩

/-- A member whose name is an underscore. -/
def blank : Definition where
  name := "Blank"
  kind := .enum
  fields := [{ name := "_", value := 1 }]

/-- The name in capitals is empty, and what is left of the line is no constant. -/
theorem untold : IsIdentifier "_".toList ∧ ∃ i, Item.ofDefinition? target blank = .ok i
    ∧ "pub const : Self = Self(1);" ∈ Code.linesAll (i.code {} "rt")
    ∧ ∀ A : Letters,
      (Code.linesAll (i.code {} "rt")).filterMap (Constant.read? A ·.toList) = [] := by
  have hitem : Item.ofDefinition? target blank
      = .ok (.enum ⟨blank, "Blank", [({ name := "_", value := 1 }, "")]⟩) := by
    decide +kernel
  refine ⟨Ty.isName_iff.1 (by decide), _, hitem, ?_, fun A => ?_⟩
  · decide +kernel
  · exact EnumItem.filterMap_lines A {} _

end Semaphore

end SchemaCodec

import Mathlib.Data.List.Forall2
import Mathlib.Data.List.TakeDrop
import SchemaCodec.Json.Reader
import SchemaCodec.Json.Value

/-!
# Reading JSON back

The text of a value is read from left to right. A string literal gives back its string
(`unquote?_escape`), and the digits of a number their number (`numberText?_toDigits`), provided
that what follows them is none of its digits (`Ends`).

`Reader.Reads` says that a reader takes a value, be the members of its objects in any order. Arrays
and objects share the form of their text, pieces with commas between them (`joined`). A record is
read from an object whose members fill its slots (`Reader.Reads.record`): the invariant of the loop
over the members is that the record is known by the keys that were seen.
-/

namespace SchemaCodec.Json

variable {α β σ : Type} {k n : Nat} {s t rest : List Char} {c : Char} {v w : Value}

/-! ## String literals -/

/-- A control is written as the escape of four digits that stands for it. -/
theorem hexUnit?_hexPair : ∀ n < 32,
    hexUnit? '0' '0' (Nat.digitChar (n / 16)) (Nat.digitChar (n % 16)) = some n := by
  decide

theorem unquote?_escapeChar (out : List Char) (c : Char) (s : List Char) :
    unquote? out (escapeChar c ++ s) = unquote? (c :: out) s := by
  unfold escapeChar
  split
  case h_8 h1 h2 _ _ _ _ _ =>
    by_cases hc : c < ' '
    · have hn : c.toNat < 32 := hc
      have htrail : isTrail c.toNat = false := by
        simp [isTrail]
        omega
      have hlead : isLead c.toNat = false := by
        simp [isLead]
        omega
      simp [hc, hexPair, unquote?, hexUnit?_hexPair _ hn, htrail, hlead]
    -- neither a quote nor a backslash nor a control: the character stands for itself
    · rw [if_neg hc, List.singleton_append, unquote?.eq_def]
      split <;> grind
  all_goals rfl

theorem unquote?_escape (out s rest : List Char) :
    unquote? out (s.flatMap escapeChar ++ '"' :: rest)
      = some (String.ofList (out.reverse ++ s), rest) := by
  induction s generalizing out with
  | nil => simp [unquote?]
  | cons c s ih =>
    rw [List.flatMap_cons, List.append_assoc, unquote?_escapeChar, ih]
    simp

/-! ## Numbers -/

/-- What may follow a value: nothing, or what separates it from the next or closes a bracket. -/
def Ends (s : List Char) : Prop :=
  ∀ c ∈ s.head?, c = ',' ∨ c = ']' ∨ c = '}'

theorem Ends.cons (h : c = ',' ∨ c = ']' ∨ c = '}') : Ends (c :: s) := by
  simpa [Ends] using h

theorem exists_toDigits_eq_cons : ∀ n : Nat, 0 < n →
    ∃ c s, Nat.toDigits 10 n = c :: s ∧ c ≠ '0' := by
  intro n h
  induction n using Nat.strongRecOn with
  | ind n ih =>
    by_cases hn : n < 10
    · have hdigit : ∀ n < 10, 0 < n → Nat.digitChar n ≠ '0' := by decide
      exact ⟨_, [], Nat.toDigits_of_lt_base hn, hdigit n hn h⟩
    · rw [Nat.toDigits_of_base_le (by omega) (by omega)]
      obtain ⟨c, s, hs, hc⟩ := ih (n / 10) (by omega) (by omega)
      exact ⟨c, s ++ [(n % 10).digitChar], by rw [hs]; rfl, hc⟩

theorem isDigit_of_mem_toDigits : ∀ c ∈ Nat.toDigits 10 n, c.isDigit = true :=
  fun _ => Nat.isDigit_of_mem_toDigits (by decide) (by decide)

theorem digits_toDigits (h : Ends rest) :
    digits (Nat.toDigits 10 n ++ rest) = (Nat.toDigits 10 n, rest) := by
  rw [digits, List.span_eq_takeWhile_dropWhile,
    List.takeWhile_append_of_pos isDigit_of_mem_toDigits,
    List.dropWhile_append_of_pos isDigit_of_mem_toDigits]
  rcases rest with _ | ⟨c, s⟩
  · simp
  · rcases h c rfl with rfl | rfl | rfl <;> simp

theorem whole?_toDigits (h : Ends rest) :
    whole? (Nat.toDigits 10 n ++ rest) = some (Nat.toDigits 10 n, rest) := by
  rcases Nat.eq_zero_or_pos n with rfl | hn
  · rcases rest with _ | ⟨c, s⟩
    · rfl
    · rcases h c rfl with rfl | rfl | rfl <;> rfl
  · obtain ⟨c, s, hs, hc⟩ := exists_toDigits_eq_cons n hn
    have hdigits := digits_toDigits (n := n) h
    rw [hs] at hdigits ⊢
    rw [List.cons_append] at hdigits ⊢
    rw [whole?.eq_def]
    split
    · simp_all
    · simp [digits?, hdigits]

theorem numberText?_toDigits (h : Ends rest) :
    numberText? (Nat.toDigits 10 n ++ rest)
      = some (⟨false, Nat.toDigits 10 n, [], none⟩, rest) := by
  have hfraction : fraction? rest = some ([], rest) := by
    rcases rest with _ | ⟨c, s⟩
    · rfl
    · rcases h c rfl with rfl | rfl | rfl <;> rfl
  have hexponent : exponent? rest = some (none, rest) := by
    rcases rest with _ | ⟨c, s⟩
    · rfl
    · rcases h c rfl with rfl | rfl | rfl <;> rfl
  have hwhole := whole?_toDigits (n := n) h
  obtain ⟨c, s, hs⟩ := List.exists_cons_of_ne_nil (Nat.toDigits_ne_nil (n := n) (b := 10))
  have hsign : c ≠ '-' := by
    rintro rfl
    exact absurd (isDigit_of_mem_toDigits (n := n) '-' (by simp [hs])) (by decide)
  rw [hs, List.cons_append] at hwhole ⊢
  simp [numberText?, hsign, hwhole, hfraction, hexponent]

theorem value?_toDigits (h : n < 0x10000000000000000) :
    (NumberText.mk false (Nat.toDigits 10 n) [] none).value? = some (.integer n) := by
  have hvalue : (Nat.toDigits 10 n).foldl (fun n c => n * 10 + digitValue c) 0 = n := by
    have hdigits := Nat.ofDigitChars_ten_toDigits (n := n)
    rw [Nat.ofDigitChars_eq_foldl] at hdigits
    simpa only [Nat.mul_comm, digitValue] using hdigits
  simp [NumberText.value?, hvalue, h]

/-! ## Values in brackets -/

namespace Value

/-- The same value with the members of its objects in any order. -/
inductive Reordered : Value → Value → Prop
  | refl (v : Value) : Reordered v v
  | array {vs ws : List Value} : List.Forall₂ Reordered vs ws → Reordered (.array vs) (.array ws)
  | object {ms ns os : List (String × Value)} :
    ms.map (·.1) = ns.map (·.1) → List.Forall₂ Reordered (ms.map (·.2)) (ns.map (·.2)) →
      ns.Perm os → Reordered (.object ms) (.object os)

namespace Reordered

theorem exists_array {vs : List Value} (h : Reordered (.array vs) w) :
    ∃ ws, w = .array ws ∧ List.Forall₂ Reordered vs ws := by
  cases h with
  | refl => exact ⟨vs, rfl, List.forall₂_same.2 fun v _ => refl v⟩
  | array h => exact ⟨_, rfl, h⟩

theorem exists_member : ∀ {ms ns : List (String × Value)}, ms.map (·.1) = ns.map (·.1) →
    List.Forall₂ Reordered (ms.map (·.2)) (ns.map (·.2)) →
      ∀ n ∈ ns, ∃ m ∈ ms, m.1 = n.1 ∧ Reordered m.2 n.2
  | [], [], _, _ => nofun
  | m :: ms, n :: ns, hk, hv => by
    simp only [List.map_cons, List.cons.injEq, List.forall₂_cons] at hk hv
    rw [List.forall_mem_cons]
    refine ⟨⟨m, List.mem_cons_self, hk.1, hv.1⟩, fun o ho => ?_⟩
    obtain ⟨m', hm', h⟩ := exists_member hk.2 hv.2 o ho
    exact ⟨m', List.mem_cons_of_mem m hm', h⟩

/-- The keys are the same, and so are the values but for their order. -/
theorem exists_object {ms : List (String × Value)} (h : Reordered (.object ms) w) :
    ∃ os, w = .object os ∧ (ms.map (·.1)).Perm (os.map (·.1))
      ∧ ∀ o ∈ os, ∃ m ∈ ms, m.1 = o.1 ∧ Reordered m.2 o.2 := by
  cases h with
  | refl => exact ⟨ms, rfl, .refl _, fun o ho => ⟨o, ho, rfl, refl _⟩⟩
  | @object _ ns os hk hv hp =>
    exact ⟨os, rfl, hk ▸ hp.map _, fun o ho => exists_member hk hv o (hp.mem_iff.2 ho)⟩

end Reordered

/-- Pieces of text with a comma before each, the first excepted if so asked. -/
def joined : Bool → List (List Char) → List Char
  | _, [] => []
  | true, p :: ps => p ++ joined false ps
  | false, p :: ps => ',' :: p ++ joined false ps

theorem length_le_joined {f : β → List Char} (hf : ∀ b, f b ≠ []) : ∀ (first : Bool) (bs : List β),
    bs.length ≤ (joined first (bs.map f)).length
  | _, [] => Nat.zero_le _
  | first, b :: bs => by
    have hlen := length_le_joined hf false bs
    have hpos := List.length_pos_of_ne_nil (hf b)
    cases first <;>
      simp only [List.map_cons, joined, List.length_cons, List.length_append] <;> omega

/-- There is a step for every piece, and one for the bracket. -/
theorem length_lt_steps {f : β → List Char} (hf : ∀ b, f b ≠ []) (bs : List β) (s : List Char) :
    bs.length < (joined true (bs.map f) ++ s).length + 1 := by
  have hlen := length_le_joined hf true bs
  rw [List.length_append]
  omega

theorem ends_joined (hc : c = ',' ∨ c = ']' ∨ c = '}') (ps : List (List Char)) :
    Ends (joined false ps ++ c :: s) := by
  cases ps with
  | nil => exact .cons hc
  | cons p ps => exact .cons (.inl rfl)

def memberText (m : String × Value) : List Char :=
  (quote m.1).toList ++ ':' :: m.2.toText.toList

theorem memberText_ne_nil (m : String × Value) : memberText m ≠ [] := by
  simp [memberText]

theorem toList_textOfElements : ∀ vs : List Value,
    (textOfElements vs).toList = joined true (vs.map (·.toText.toList))
  | [] => rfl
  | [v] => by simp [textOfElements, joined]
  | v :: w :: vs => by
    have h := toList_textOfElements (w :: vs)
    simp only [List.map_cons, joined] at h ⊢
    simp [textOfElements, h]

theorem toList_textOfMembers : ∀ ms : List (String × Value),
    (textOfMembers ms).toList = joined true (ms.map memberText)
  | [] => rfl
  | [m] => by simp [textOfMembers, joined, memberText]
  | m :: n :: ms => by
    have h := toList_textOfMembers (n :: ms)
    simp only [List.map_cons, joined] at h ⊢
    simp [textOfMembers, h, memberText]

/-- What a value can begin with. -/
def Opens (c : Char) : Prop :=
  isSpace c = false ∧ c ≠ ',' ∧ c ≠ ']' ∧ c ≠ '}'

instance (c : Char) : Decidable (Opens c) :=
  inferInstanceAs (Decidable (_ ∧ _))

theorem opens_of_isDigit (h : c.isDigit = true) : Opens c ∧ c ≠ 'n' := by
  refine ⟨⟨?_, ?_, ?_, ?_⟩, ?_⟩
  · rw [← Bool.not_eq_true]
    intro hspace
    simp only [isSpace, Bool.or_eq_true, beq_iff_eq] at hspace
    rcases hspace with ((rfl | rfl) | rfl) | rfl <;> exact absurd h (by decide)
  all_goals
    rintro rfl
    exact absurd h (by decide)

theorem exists_toText_eq_cons (v : Value) :
    ∃ c s, v.toText.toList = c :: s ∧ Opens c ∧ (c = 'n' → v = .null) := by
  cases v with
  | null => exact ⟨'n', _, rfl, by decide, fun _ => rfl⟩
  | boolean b =>
    cases b
    · exact ⟨'f', _, rfl, by decide, by simp⟩
    · exact ⟨'t', _, rfl, by decide, by simp⟩
  | number n =>
    obtain ⟨c, s, hs⟩ := List.exists_cons_of_ne_nil (Nat.toDigits_ne_nil (n := n) (b := 10))
    obtain ⟨hopens, hn⟩ := opens_of_isDigit (isDigit_of_mem_toDigits (n := n) c (by simp [hs]))
    refine ⟨c, s, ?_, hopens, fun h => absurd h hn⟩
    rw [toText, Nat.toString_eq_ofList_toDigits, String.toList_ofList, hs]
  | string x => exact ⟨'"', _, String.toList_ofList, by decide, by simp⟩
  | array vs =>
    refine ⟨'[', (textOfElements vs).toList ++ [']'], ?_, by decide, by simp⟩
    simp [toText]
  | object ms =>
    refine ⟨'{', (textOfMembers ms).toList ++ ['}'], ?_, by decide, by simp⟩
    simp [toText]

theorem toText_ne_nil (v : Value) : v.toText.toList ≠ [] := by
  obtain ⟨c, s, hs, -⟩ := exists_toText_eq_cons v
  rw [hs]
  exact List.cons_ne_nil c s

end Value

namespace Reader

open Value

/-- What a reader makes of a text. -/
def run (x : Reader α) (k : Nat) (s : List Char) : Except DocumentError (α × List Char) :=
  x k s

theorem run_pure (a : α) : (pure a : Reader α).run k s = .ok (a, s) :=
  rfl

theorem run_bind {x : Reader α} {f : α → Reader β} {a : α} (h : x.run k s = .ok (a, t)) :
    (x >>= f).run k s = (f a).run k t := by
  simp only [run, bind] at h ⊢
  rw [h]

theorem run_ahead (h : isSpace c = false) : ahead.run k (c :: s) = .ok (c :: s, c :: s) := by
  simp [run, ahead, skipSpace, h]

theorem run_skipChar : (skipChar c).run k (c :: s) = .ok ((), s) := by
  simp [run, skipChar, scan]

theorem toList_quote_append (x : String) (s : List Char) :
    (quote x).toList ++ s = '"' :: (x.toList.flatMap escapeChar ++ '"' :: s) := by
  simp [quote]

theorem run_string (x : String) :
    string.run k ('"' :: (x.toList.flatMap escapeChar ++ '"' :: s)) = .ok (x, s) := by
  simp [run, string, scan, unquote?_escape]

theorem run_number (hn : n < 0x10000000000000000) (h : Ends rest) :
    number.run k (Nat.toDigits 10 n ++ rest) = .ok (.integer n, rest) := by
  simp [run, number, scan, numberText?_toDigits h, value?_toDigits hn]

theorem run_found (hn : n < 0x10000000000000000) (h : Ends rest) :
    found.run k (Nat.toDigits 10 n ++ rest) = .ok (.integer n, rest) := by
  have hnumber := run_number (k := k) hn h
  obtain ⟨c, s, hs⟩ := List.exists_cons_of_ne_nil (Nat.toDigits_ne_nil (n := n) (b := 10))
  have hdigit := isDigit_of_mem_toDigits (n := n) c (by simp [hs])
  have hother : c ≠ '"' ∧ c ≠ '[' ∧ c ≠ '{' ∧ c ≠ 'n' ∧ c ≠ 't' ∧ c ≠ 'f' := by
    refine ⟨?_, ?_, ?_, ?_, ?_, ?_⟩ <;> rintro rfl <;> exact absurd hdigit (by decide)
  rw [hs, List.cons_append] at hnumber ⊢
  rw [found, run_bind (run_ahead (opens_of_isDigit hdigit).1.1)]
  split
  case h_7 =>
    rw [run_bind hnumber]
    rfl
  all_goals simp_all

/-- The reader takes the text of a value, whatever comes behind it. -/
def Takes (x : Reader α) (k : Nat) (v : Value) (a : α) : Prop :=
  ∀ rest, Ends rest → x.run k (v.toText.toList ++ rest) = .ok (a, rest)

/-- The reader takes a value in any order of members, if there is so much room for brackets. -/
def Reads (x : Reader α) (room : Nat) (v : Value) (a : α) : Prop :=
  ∀ w, v.Reordered w → ∀ k, room ≤ k → Takes x k w a

namespace Reads

variable {x : Reader α} {a : α} {room : Nat}

theorem bind (h : Reads x room v a) {f : α → Reader β} {b : β} (hf : f a = pure b) :
    Reads (x >>= f) room v b := by
  intro w hw k hk rest hrest
  rw [run_bind (h w hw k hk rest hrest), hf, run_pure]

/-- A value without members has one text. -/
theorem of_takes (hv : ∀ w, v.Reordered w → w = v) (h : ∀ k, Takes x k v a) : Reads x room v a := by
  intro w hw k _
  rw [hv w hw]
  exact h k

theorem text (s : String) (e : Expected) : Reads (Reader.text e) room (.string s) s := by
  refine of_takes (fun w hw => by cases hw; rfl) fun k rest _ => ?_
  rw [toText, toList_quote_append]
  exact (run_bind (run_ahead (by decide))).trans (run_string s)

theorem boolean (b : Bool) : Reads Reader.boolean room (.boolean b) b := by
  refine of_takes (fun w hw => by cases hw; rfl) fun k rest _ => ?_
  cases b <;> rfl

theorem word (n : UInt32) : Reads Reader.word room (.number n.toNat) n := by
  refine of_takes (fun w hw => by cases hw; rfl) fun k rest hrest => ?_
  have hn : n.toNat < 0x100000000 := n.toNat_lt
  have hbound : (0 ≤ (n.toNat : Int) && (n.toNat : Int) < 0x100000000) = true := by
    simp
    omega
  rw [toText, Nat.toString_eq_ofList_toDigits, String.toList_ofList, Reader.word,
    run_bind (run_found (by omega) hrest)]
  simp only [hbound, if_true, Int.toNat_natCast, Nat.toUInt32_eq, UInt32.ofNat_toNat, run_pure]

theorem null : Reads (optional x) room .null none := by
  refine of_takes (fun w hw => by cases hw; rfl) fun k rest _ => rfl

theorem some (h : Reads x room v a) (hv : v ≠ .null) : Reads (optional x) room v (some a) := by
  intro w hw k hk rest hrest
  have hnull : w ≠ .null := by
    rintro rfl
    cases hw
    exact hv rfl
  have hrun := h w hw k hk rest hrest
  obtain ⟨c, s, hs, hopens, hc⟩ := exists_toText_eq_cons w
  rw [hs, List.cons_append] at hrun ⊢
  have hn : c ≠ 'n' := fun h => hnull (hc h)
  rw [optional, run_bind (run_ahead hopens.1)]
  split
  · next heq => exact absurd (List.cons.inj heq).1 hn
  · exact run_bind hrun

/-- An absent value is null. -/
theorem ofOption {f : α → Value} {o : Option α} (h : ∀ a, Reads x room (f a) a ∧ f a ≠ .null) :
    Reads (optional x) room (.ofOption f o) o := by
  cases o with
  | none => exact null
  | some a => exact (h a).1.some (h a).2

theorem variant {known : List (String × α)} {name : String}
    (h : known.lookup name = Option.some a) :
    Reads (Reader.variant known) room (.string name) a := by
  refine of_takes (fun w hw => by cases hw; rfl) fun k rest _ => ?_
  rw [toText, toList_quote_append]
  refine (run_bind (run_ahead (by decide))).trans ?_
  refine (run_bind (run_string name)).trans ?_
  rw [named, h, run_pure]

end Reads

/-! ## Arrays -/

section Arrays

variable {x : Reader α} {a : α} {as : List α} {vs ws : List Value} {room steps : Nat}

/-- After the comma, if there is one, the next element is ahead. -/
theorem run_nextElement (h : Opens c) (first : Bool) (p : List Char) (ps : List (List Char)) :
    (nextElement first).run k (joined first ((c :: p) :: ps) ++ s)
      = .ok (true, c :: p ++ (joined false ps ++ s)) := by
  obtain ⟨hspace, hcomma, hclose, -⟩ := h
  cases first with
  | true =>
    rw [nextElement, joined, List.append_assoc, List.cons_append, run_bind (run_ahead hspace)]
    split
    · next heq => exact absurd (List.cons.inj heq).1 hclose
    · next heq => exact absurd (List.cons.inj heq).1 hcomma
    · rfl
  | false =>
    have htext : joined false ((c :: p) :: ps) ++ s
        = ',' :: c :: (p ++ (joined false ps ++ s)) := by simp [joined]
    rw [htext]
    refine (run_bind (run_ahead (by decide))).trans ?_
    refine (run_bind run_skipChar).trans ?_
    rw [run_bind (run_ahead hspace)]
    split
    · next heq => exact absurd (List.cons.inj heq).1 hclose
    · rfl

/-- The elements up to the bracket are read one after the other. -/
theorem run_elements (h : List.Forall₂ (Takes x k) ws as) : ∀ {first steps},
    ws.length < steps → (elements x steps first).run k
      (joined first (ws.map (·.toText.toList)) ++ ']' :: rest) = .ok (as, ']' :: rest) := by
  induction h with
  | nil =>
    intro first steps hsteps
    obtain ⟨steps, rfl⟩ := Nat.exists_eq_add_of_lt hsteps
    rfl
  | @cons w a ws as hw _ ih =>
    intro first steps hsteps
    obtain ⟨steps, rfl⟩ := Nat.exists_eq_add_of_lt hsteps
    have hrun := hw _ (ends_joined (s := rest) (.inr (.inl rfl)) (ws.map (·.toText.toList)))
    obtain ⟨c, s, hs, hopens, -⟩ := exists_toText_eq_cons w
    rw [hs] at hrun
    rw [List.map_cons, hs, elements, run_bind (run_nextElement hopens first s _), if_pos rfl,
      run_bind hrun, run_bind (ih (by simp; omega)), run_pure]

theorem forall₂_takes (hw : List.Forall₂ Reordered vs ws) (h : List.Forall₂ (Reads x room) vs as)
    (hk : room ≤ k) : List.Forall₂ (Takes x k) ws as := by
  induction hw generalizing as with
  | nil =>
    cases h
    exact .nil
  | cons hv _ ih =>
    cases h with
    | cons hread h => exact .cons (hread _ hv k hk) (ih h)

theorem Reads.sequence (h : List.Forall₂ (Reads x room) vs as) :
    Reads (Reader.sequence x) (room + 1) (.array vs) as := by
  intro w hw k hk rest _
  obtain ⟨ws, rfl, hws⟩ := hw.exists_array
  obtain ⟨k, rfl⟩ := Nat.exists_eq_add_of_le' (Nat.le_of_add_left_le hk)
  have htext : (Value.array ws).toText.toList ++ rest
      = '[' :: (joined true (ws.map (·.toText.toList)) ++ ']' :: rest) := by
    simp [toText, toList_textOfElements]
  have hsteps := length_lt_steps toText_ne_nil ws (']' :: rest)
  rw [htext]
  refine (run_bind (run_ahead (by decide))).trans ?_
  refine (run_bind run_skipChar).trans ?_
  have helements : (nested do elements x ((← remaining) + 1) true).run (k + 1)
      (joined true (ws.map (·.toText.toList)) ++ ']' :: rest) = .ok (as, ']' :: rest) :=
    run_elements (forall₂_takes hws h (Nat.le_of_succ_le_succ hk)) hsteps
  exact (run_bind helements).trans (run_bind run_skipChar)

theorem Reads.sequence_map {f : α → Value} (h : ∀ a ∈ as, Reads x room (f a) a) :
    Reads (Reader.sequence x) (room + 1) (.array (as.map f)) as :=
  sequence (List.forall₂_map_left_iff.2 (List.forall₂_same.2 h))

end Arrays

/-! ## Objects -/

section Objects

variable {shape : RecordShape Reader σ} {ms os : List (String × Value)} {room steps : Nat}
  {state : List String → σ} {start a : σ}

/-- After the comma, if there is one, the next key is read. -/
theorem run_nextKey (first : Bool) (m : String × Value) (ps : List (List Char)) :
    (nextKey first).run k (joined first (memberText m :: ps) ++ s)
      = .ok (some m.1, ':' :: (m.2.toText.toList ++ (joined false ps ++ s))) := by
  have hkey : memberText m ++ (joined false ps ++ s) = '"' :: (m.1.toList.flatMap escapeChar
      ++ '"' :: ':' :: (m.2.toText.toList ++ (joined false ps ++ s))) := by
    rw [memberText, List.append_assoc, toList_quote_append, List.cons_append]
  cases first with
  | true =>
    rw [joined, List.append_assoc, hkey]
    refine (run_bind (run_ahead (by decide))).trans ?_
    exact run_bind (run_string m.1)
  | false =>
    rw [joined, List.cons_append, List.cons_append, List.append_assoc, hkey]
    refine (run_bind (run_ahead (by decide))).trans ?_
    refine (run_bind run_skipChar).trans ?_
    refine (run_bind (run_ahead (by decide))).trans ?_
    exact run_bind (run_string m.1)

/-- The members up to the brace fill one slot after the other. -/
theorem run_members : ∀ {os : List (String × Value)} {first : Bool} {steps : Nat}
    {seen : List String},
    (∀ o ∈ os, ∀ seen, ∃ slot, shape.slot? o.1 = some slot
      ∧ Takes (slot.read (state seen)) k o.2 (state (o.1 :: seen))) →
    (os.map (·.1)).Nodup → (∀ o ∈ os, o.1 ∉ seen) → os.length < steps →
    shape.missing? ((os.map (·.1)).reverse ++ seen) = none →
      (members shape steps seen first (state seen)).run k
        (joined first (os.map memberText) ++ '}' :: rest)
        = .ok (state ((os.map (·.1)).reverse ++ seen), '}' :: rest)
  | [], first, steps, seen, _, _, _, hsteps, hmissing => by
    obtain ⟨steps, rfl⟩ := Nat.exists_eq_add_of_lt hsteps
    have hend : (nextKey first).run k ('}' :: rest) = .ok (none, '}' :: rest) := rfl
    refine (run_bind hend).trans ?_
    rw [List.map_nil, List.reverse_nil, List.nil_append] at hmissing ⊢
    rw [hmissing]
    rfl
  | o :: os, first, steps, seen, hread, hnodup, hseen, hsteps, hmissing => by
    obtain ⟨steps, rfl⟩ := Nat.exists_eq_add_of_lt hsteps
    obtain ⟨hfresh, hseen⟩ := List.forall_mem_cons.1 hseen
    obtain ⟨ho, hread⟩ := List.forall_mem_cons.1 hread
    obtain ⟨slot, hslot, htakes⟩ := ho seen
    have hrun := htakes _ (ends_joined (s := rest) (.inr (.inr rfl)) (os.map memberText))
    rw [List.map_cons, List.nodup_cons] at hnodup
    have hkeys : ((o :: os).map (·.1)).reverse ++ seen
        = (os.map (·.1)).reverse ++ o.1 :: seen := by simp
    have hother : ∀ p ∈ os, p.1 ∉ o.1 :: seen := by
      intro p hp
      rw [List.mem_cons, not_or]
      refine ⟨?_, hseen p hp⟩
      intro heq
      exact hnodup.1 (heq ▸ List.mem_map_of_mem hp)
    rw [hkeys] at hmissing ⊢
    refine (run_bind (run_nextKey first o _)).trans ?_
    -- the key is new, so its slot is filled and the loop goes on with one more key seen
    simp only [hslot, List.contains_iff_mem, hfresh, if_false]
    refine (run_bind (run_ahead (by decide))).trans ?_
    refine (run_bind run_skipChar).trans ?_
    refine (run_bind hrun).trans ?_
    exact run_members hread hnodup.2 hother (by simp; omega) hmissing

/-- An object is read as a record if its members fill the slots: `state` tells the record by the
keys that were seen. -/
theorem Reads.record (state : List String → σ) (hnodup : (ms.map (·.1)).Nodup)
    (hread : ∀ m ∈ ms, ∀ seen, ∃ slot, shape.slot? m.1 = Option.some slot
      ∧ Reads (slot.read (state seen)) room m.2 (state (m.1 :: seen)))
    (hrequired : ∀ slot ∈ shape.slots.take shape.required, slot.key ∈ ms.map (·.1))
    (hstart : state [] = start)
    (hend : ∀ seen : List String, (∀ m ∈ ms, m.1 ∈ seen) → state seen = a) :
    Reads (Reader.record shape start) (room + 1) (.object ms) a := by
  intro w hw k hk rest _
  obtain ⟨os, rfl, hkeys, hos⟩ := hw.exists_object
  obtain ⟨k, rfl⟩ := Nat.exists_eq_add_of_le' (Nat.le_of_add_left_le hk)
  have htext : (Value.object os).toText.toList ++ rest
      = '{' :: (joined true (os.map memberText) ++ '}' :: rest) := by
    simp [toText, toList_textOfMembers]
  have hsteps := length_lt_steps memberText_ne_nil os ('}' :: rest)
  have hmembers : (nested do members shape ((← remaining) + 1) [] true start).run (k + 1)
      (joined true (os.map memberText) ++ '}' :: rest) = .ok (a, '}' :: rest) := by
    have hread' : ∀ o ∈ os, ∀ seen, ∃ slot, shape.slot? o.1 = Option.some slot
        ∧ Takes (slot.read (state seen)) k o.2 (state (o.1 :: seen)) := by
      intro o ho seen
      obtain ⟨m, hm, heq, hvalue⟩ := hos o ho
      obtain ⟨slot, hslot, hslotRead⟩ := hread m hm seen
      rw [heq] at hslot hslotRead
      exact ⟨slot, hslot, hslotRead _ hvalue k (Nat.le_of_succ_le_succ hk)⟩
    have hall : ∀ m ∈ ms, m.1 ∈ (os.map (·.1)).reverse ++ [] := by
      intro m hm
      simpa using hkeys.mem_iff.1 (List.mem_map_of_mem hm)
    have hmissing : shape.missing? ((os.map (·.1)).reverse ++ []) = Option.none := by
      rw [RecordShape.missing?, List.find?_eq_none, List.forall_mem_map]
      intro slot hslot
      simpa using hkeys.mem_iff.1 (hrequired slot hslot)
    rw [← hstart, ← hend _ hall]
    exact run_members hread' (hkeys.nodup_iff.1 hnodup) (by simp) hsteps hmissing
  rw [htext]
  refine (run_bind (run_ahead (by decide))).trans ?_
  refine (run_bind run_skipChar).trans ?_
  exact (run_bind hmembers).trans (run_bind run_skipChar)

end Objects

end Reader

end SchemaCodec.Json

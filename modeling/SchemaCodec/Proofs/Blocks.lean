import SchemaCodec.Proofs.Composition
import SchemaCodec.Proofs.Emission
import SchemaCodec.Proofs.Rows
import SchemaCodec.Proofs.Validity

/-!
# Blocks

The emitters open and close blocks in separate calls, in loops, on different branches and in front
of early returns, and nothing holds the two together. They make the calls that print a tree, and
those close only blocks that they opened (`Code.nested_stepsAll`), so the depth never stops at zero.

Where no name and not the path has a brace or a line feed, the braces of a passage are those of its
blocks and pairs within a line. Then the text is level, and each of its lines stands four spaces
further in for each block that is open at it (`Passage.layout`); moving the lines of a text keeps
that (`Layout.moved`), so it holds of whole sources (`Item.blocks_balance`).
-/

namespace SchemaCodec

open Text SourceText

/-- An element of two lists, one behind the other, is in the first or in the second. -/
theorem append_eq_append_cons {α : Type} {a b before after : List α} {x : α}
    (h : a ++ b = before ++ x :: after) :
    (∃ rest, a = before ++ x :: rest) ∨ ∃ rest, before = a ++ rest ∧ b = rest ++ x :: after := by
  rcases List.append_eq_append_iff.1 h with ⟨rest, rfl, hrest⟩ | ⟨rest, rfl, hrest⟩
  · exact .inr ⟨rest, rfl, hrest⟩
  · rcases rest with _ | ⟨y, rest⟩
    · exact .inr ⟨[], by simp, hrest.symm⟩
    · obtain ⟨rfl, -⟩ := List.cons.inj hrest
      exact .inl ⟨rest, rfl⟩

/-! ## Calls of the writer -/

namespace SourceText

/-- The calls close each block that they open, and no block around them. -/
structure Nested (steps : List Step) : Prop where
  depth : ∀ s : SourceText, (s.run steps).depth = s.depth
  close : ∀ (s : SourceText) (before after : List Step) (closer : String),
    steps = before ++ .close closer :: after → s.depth < (s.run before).depth

namespace Nested

variable {a b : List Step}

theorem nil : Nested [] :=
  ⟨fun _ => rfl, fun _ before _ _ h => by simp at h⟩

theorem append (ha : Nested a) (hb : Nested b) : Nested (a ++ b) := by
  refine ⟨fun s => by rw [run_append, hb.depth, ha.depth], fun s before after closer h => ?_⟩
  rcases append_eq_append_cons h with ⟨rest, ha'⟩ | ⟨rest, rfl, hb'⟩
  · exact ha.close s before rest closer ha'
  · rw [run_append]
    exact (ha.depth s).symm.trans_lt (hb.close (s.run a) rest after closer hb')

theorem single {c : Step} (hdepth : ∀ s, (c.run s).depth = s.depth)
    (hclose : ∀ closer, c ≠ .close closer) : Nested [c] := by
  refine ⟨hdepth, fun s before after closer h => ?_⟩
  rcases before with _ | ⟨d, before⟩
  · exact absurd (List.cons.inj h).1 (hclose closer)
  · simp at h

/-- Where the block is closed, it is open. -/
theorem block (ha : Nested a) (header closer : String) :
    Nested (.openBlock header :: a ++ [.close closer]) := by
  have hopened : ∀ s : SourceText, (s.run (.openBlock header :: a)).depth = s.depth + 1 := by
    intro s
    rw [run_cons, ha.depth]
    exact depth_openBlock s header
  refine ⟨fun s => ?_, fun s before after closer' h => ?_⟩
  · rw [run_append, run_cons, run_nil, Step.run, depth_closeBlockWith, hopened, Nat.add_sub_cancel]
  · rcases before with _ | ⟨c, before⟩
    · cases h
    · rw [List.cons_append, List.cons_append, List.cons.injEq] at h
      obtain ⟨rfl, h⟩ := h
      rcases append_eq_append_cons h with ⟨rest, ha'⟩ | ⟨rest, rfl, hrest⟩
      · have hs := ha.close (s.openBlock header) before rest closer' ha'
        rw [depth_openBlock] at hs
        rw [run_cons]
        exact (Nat.lt_succ_self _).trans hs
      · rcases rest with _ | ⟨d, rest⟩
        · have hs := hopened s
          rw [List.append_nil]
          omega
        · simp at hrest

end Nested

end SourceText

namespace Code

open SourceText

mutual

theorem nested_steps : (c : Code) → Nested c.steps
  | line t => by rw [steps]; exact .single (fun s => depth_line s t) nofun
  | blank => by rw [steps]; exact .single depth_blank nofun
  | doc t => by rw [steps]; exact .single (fun s => depth_doc s t) nofun
  | block header body closer => by rw [steps]; exact (nested_stepsAll body).block header closer

/-- Printing closes the blocks that it opens, and no others. -/
theorem nested_stepsAll : (cs : List Code) → Nested (stepsAll cs)
  | [] => by rw [stepsAll]; exact .nil
  | c :: cs => by rw [stepsAll]; exact .append (nested_steps c) (nested_stepsAll cs)

end

end Code

/-! ## Braces -/

namespace Text

variable {a b x : List Char}

theorem braces_of_ne {n : Nat} {c : Char} (hopen : c ≠ '\x7b') (hclose : c ≠ '\x7d')
    (cs : List Char) : braces n (c :: cs) = braces n cs := by
  rw [braces]
  · exact hopen
  · exact hclose

theorem braces_append (n : Nat) (a b : List Char) :
    braces n (a ++ b) = (braces n a).bind (braces · b) := by
  fun_induction braces n a with
  | case1 n => rfl
  | case2 n cs ih => rw [List.cons_append, braces, ih]
  | case3 cs => simp [braces]
  | case4 n cs hn ih => simp [braces, hn, ih]
  | case5 n c cs hopen hclose ih => rw [List.cons_append, braces_of_ne hopen hclose, ih]

/-- More open braces around a text stay open. -/
theorem braces_add (n k : Nat) (a : List Char) {m : Nat} (h : braces n a = some m) :
    braces (n + k) a = some (m + k) := by
  fun_induction braces n a with
  | case1 n => simpa [braces] using h
  | case2 n cs ih => rw [braces, Nat.add_right_comm, ih h]
  | case3 cs => cases h
  | case4 n cs hn ih =>
    have hsub : n + k - 1 = n - 1 + k := by omega
    have hne : n + k ≠ 0 := by omega
    rw [braces, if_neg hne, hsub, ih h]
  | case5 n c cs hopen hclose ih => rw [braces_of_ne hopen hclose, ih h]

namespace Level

theorem braces (h : Level a) (n : Nat) : Text.braces n a = some n := by
  have hshift := braces_add 0 n a h
  rwa [Nat.zero_add] at hshift

theorem of_forall (h : ∀ c ∈ a, c ≠ '\x7b' ∧ c ≠ '\x7d') : Level a :=
  braces_of_forall h

theorem append (ha : Level a) (hb : Level b) : Level (a ++ b) := by
  rw [Level, braces_append, ha, Option.bind_some, hb]

theorem between (h : Level (a ++ b)) (hx : Level x) : Level (a ++ x ++ b) := by
  rw [Level, braces_append] at h
  rw [Level, braces_append, braces_append]
  rcases ha : Text.braces 0 a with _ | n
  · rw [ha] at h
    cases h
  · rw [ha] at h
    rw [Option.bind_some, hx.braces n]
    exact h

theorem flatMap {f : Char → List Char} (h : ∀ c ∈ a, Level (f c)) : Level (a.flatMap f) := by
  induction a with
  | nil => rfl
  | cons c a ih =>
    rw [List.forall_mem_cons] at h
    exact .append h.1 (ih h.2)

/-- A level text does not begin by closing a brace. -/
theorem head?_ne (h : Level a) : a.head? ≠ some '\x7d' := by
  rcases a with _ | ⟨c, a⟩
  · nofun
  · rintro hc
    obtain rfl := Option.some.inj hc
    cases h

end Level

/-- What is escaped is level, and so is what a literal shows by its code point. -/
theorem level_escapeChar {c : Char} (hopen : c ≠ '\x7b') (hclose : c ≠ '\x7d') :
    Level (escapeChar c) := by
  unfold escapeChar
  split
  case h_7 =>
    have hdigits : Level (Nat.toDigits 16 c.toNat) :=
      (plain_of_isNameChar fun d hd =>
        .inl (isAlphanum_of_mem_toDigits (by decide) (by decide) _ d hd)).1
    split_ifs
    · exact .of_forall (List.forall_mem_singleton.2 ⟨hopen, hclose⟩)
    · exact .between (a := ['\\', 'u', '\x7b']) (b := ['\x7d']) (by decide) hdigits
  all_goals decide

end Text

/-- A name or a path without braces and line feeds. -/
def Tame (t : String) : Prop :=
  '\x7b' ∉ t.toList ∧ '\x7d' ∉ t.toList ∧ '\n' ∉ t.toList

instance : DecidablePred Tame :=
  fun _ => inferInstanceAs (Decidable (_ ∧ _))

/-- A level text without line feeds. -/
def Text.Inline (cs : List Char) : Prop :=
  Level cs ∧ '\n' ∉ cs

namespace Text.Inline

variable {a b x : List Char}

theorem of_notMem (hopen : '\x7b' ∉ a) (hclose : '\x7d' ∉ a) (hfeed : '\n' ∉ a) : Inline a :=
  ⟨.of_forall fun _ hc => ⟨ne_of_mem_of_not_mem hc hopen, ne_of_mem_of_not_mem hc hclose⟩, hfeed⟩

theorem of_plain (h : Plain a) : Inline a :=
  ⟨h.1, h.2.1⟩

theorem append (ha : Inline a) (hb : Inline b) : Inline (a ++ b) :=
  ⟨ha.1.append hb.1, by simp [ha.2, hb.2]⟩

theorem between (h : Inline (a ++ b)) (hx : Inline x) : Inline (a ++ x ++ b) := by
  have hfeed := h.2
  rw [List.mem_append, not_or] at hfeed
  exact ⟨h.1.between hx.1, by simp [hfeed, hx.2]⟩

/-- An identifier of a tame name. -/
theorem of_identifier {name : String} {ident : String → String}
    (h : ∀ c, Identifier.Foreign c → Identifier.Lacks name c → c ∉ (ident name).toList)
    (hname : Tame name) : Inline (ident name).toList :=
  of_notMem (h _ (by decide) (.inr hname.1)) (h _ (by decide) (.inr hname.2.1))
    (h _ (by decide) (.inr hname.2.2))

theorem quoted {name : String} (hname : Tame name) : Inline (quoted name).toList := by
  refine ⟨?_, notMem_quoted (.inl rfl) name⟩
  have hescaped : Level (name.toList.flatMap escapeChar) := .flatMap fun c hc =>
    level_escapeChar (ne_of_mem_of_not_mem hc hname.1) (ne_of_mem_of_not_mem hc hname.2.1)
  rw [Text.quoted, String.toList_ofList]
  exact Level.append (a := ['"']) (by decide) (.append hescaped (by decide))

end Text.Inline

/-- The texts of the code are level and have no line feeds if the names and the path have none. -/
theorem Phrase.inline {f : String → String} (h : Phrase Tame f) {path : String}
    (hpath : Tame path) : Inline (f path).toList := by
  induction h with
  | plain h =>
    rw [String.toList_ofList]
    exact .of_plain h
  | type h => exact .of_identifier (fun _ => Identifier.notMem_ofType) h
  | field h => exact .of_identifier (fun _ => Identifier.notMem_ofField) h
  | constant h => exact .of_identifier (fun _ => Identifier.notMem_ofConstant) h
  | quoted h => exact .quoted h
  | path h =>
    rw [String.toList_append, String.toList_ofList]
    exact .append (.of_notMem hpath.1 hpath.2.1 hpath.2.2)
      (.append (a := [':', ':']) (.of_plain (by decide)) (.of_plain h))
  | between h _ ih =>
    rw [String.toList_append, String.toList_append, String.toList_ofList, String.toList_ofList]
    exact .between (.of_plain h) ih
  | append _ _ ihf ihg =>
    rw [String.toList_append]
    exact .append ihf ihg

/-! ## Rows -/

theorem braces_indented (n depth : Nat) (cs : List Char) :
    braces n (indented depth cs) = braces n cs := by
  by_cases hne : cs = []
  · subst hne
    rfl
  · have hspaces : Level (List.replicate (4 * depth) ' ') := .of_forall fun c hc => by
      obtain rfl := List.eq_of_mem_replicate hc
      decide
    rw [indented_eq hne, braces_append, hspaces.braces, Option.bind_some]

/-- A line stands four spaces further in for each block that is open at it: for `n` blocks that are
open before it, of which it closes one if it begins with a closing brace. Its text begins with a
space only if the path does. -/
def Placed (path : List Char) (n : Nat) (line : List Char) : Prop :=
  ∃ k rest, line = List.replicate (4 * k) ' ' ++ rest
    ∧ (rest.head? = some '\x7d' → k + 1 = n) ∧ (rest.head? ≠ some '\x7d' → k = n)
    ∧ (rest.head? = some ' ' → path.head? = some ' ')

/-- Rows inside `base` blocks: they are level together, have no line feeds, and each that is not
empty is placed by the braces that are open before it. -/
structure Layout (path : List Char) (base : Nat) (rows : List (List Char)) : Prop where
  level : Level rows.flatten
  feed : ∀ row ∈ rows, '\n' ∉ row
  placed : ∀ before row after, rows = before ++ row :: after → row ≠ [] →
    ∃ n, braces 0 before.flatten = some n ∧ Placed path (base + n) row

namespace Layout

variable {path : List Char} {base : Nat} {a b : List (List Char)}

theorem nil : Layout path base [] :=
  ⟨rfl, nofun, fun before _ _ h => by simp at h⟩

theorem append (ha : Layout path base a) (hb : Layout path base b) :
    Layout path base (a ++ b) := by
  refine ⟨?_, List.forall_mem_append.2 ⟨ha.feed, hb.feed⟩, fun before row after h hrow => ?_⟩
  · rw [List.flatten_append]
    exact ha.level.append hb.level
  · rcases append_eq_append_cons h with ⟨rest, ha'⟩ | ⟨rest, rfl, hb'⟩
    · exact ha.placed before row rest ha' hrow
    · rw [List.flatten_append, braces_append, ha.level, Option.bind_some]
      exact hb.placed rest row after hb' hrow

/-- A level text on a row of its own. -/
theorem row {cs : List Char} (h : Inline cs) (hcs : cs.head? = some ' ' → path.head? = some ' ') :
    Layout path base [indented base cs] := by
  refine ⟨?_, List.forall_mem_singleton.2 (notMem_indented (by decide) h.2),
    fun before row after hrow hne => ?_⟩
  · rw [List.flatten_singleton, Level, braces_indented, h.1]
  · rcases before with _ | ⟨r, before⟩
    · obtain rfl := (List.cons.inj hrow).1
      refine ⟨0, rfl, ?_⟩
      have hcs' : cs ≠ [] := by
        rintro rfl
        exact hne rfl
      exact ⟨base, cs, indented_eq hcs' base, fun hclose => absurd hclose h.1.head?_ne,
        fun _ => rfl, hcs⟩
    · simp at hrow

/-- Some rows in a block. -/
theorem block {cs closer : List Char} (hcs : Inline cs) (hne : cs ≠ [])
    (hhead : cs.head? = some ' ' → path.head? = some ' ') (ha : Layout path (base + 1) a)
    (hcloser : closer = ['\x7d'] ∨ closer = ['\x7d', ')']) :
    Layout path base (indented base (cs ++ [' ', '\x7b']) :: a ++ [indented base closer]) := by
  have hopened : braces 0 (indented base (cs ++ [' ', '\x7b'])) = some 1 := by
    rw [braces_indented, braces_append, hcs.1]
    rfl
  have hclosed : braces 1 (indented base closer) = some 0 := by
    rw [braces_indented]
    rcases hcloser with rfl | rfl <;> rfl
  have hopening : (cs ++ [' ', '\x7b']).head? = cs.head? := by
    rw [List.head?_append_of_ne_nil _ hne]
  refine ⟨?_, ?_, fun before row after hrow hrow' => ?_⟩
  · rw [Level, List.flatten_append, List.flatten_cons, braces_append, braces_append, hopened,
      Option.bind_some, ha.level.braces, Option.bind_some, List.flatten_singleton, hclosed]
  · rw [List.forall_mem_append, List.forall_mem_cons, List.forall_mem_singleton]
    refine ⟨⟨notMem_indented (by decide) (by simp [hcs.2]), ha.feed⟩,
      notMem_indented (by decide) ?_⟩
    rcases hcloser with rfl | rfl <;> decide
  · rcases before with _ | ⟨r, before⟩
    · obtain rfl := (List.cons.inj hrow).1
      exact ⟨0, rfl, base, cs ++ [' ', '\x7b'], indented_eq (by simp) base,
        fun hclose => absurd (hopening ▸ hclose) hcs.1.head?_ne, fun _ => rfl,
        fun hspace => hhead (hopening ▸ hspace)⟩
    · rw [List.cons_append, List.cons_append, List.cons.injEq] at hrow
      obtain ⟨rfl, hrow⟩ := hrow
      rw [List.flatten_cons, braces_append, hopened, Option.bind_some]
      rcases append_eq_append_cons hrow with ⟨rest, ha'⟩ | ⟨rest, rfl, hlast⟩
      · obtain ⟨n, hn, hplaced⟩ := ha.placed before row rest ha' hrow'
        rw [Nat.add_assoc, Nat.add_comm 1] at hplaced
        exact ⟨n + 1, by rw [← Nat.zero_add 1, braces_add 0 1 _ hn], hplaced⟩
      · rcases rest with _ | ⟨r, rest⟩
        · obtain rfl := (List.cons.inj hlast).1
          rw [List.append_nil]
          refine ⟨1, ha.level.braces 1, base, closer, indented_eq ?_ base, ?_, ?_, ?_⟩
          · rcases hcloser with rfl | rfl <;> simp
          · exact fun _ => rfl
          · rcases hcloser with rfl | rfl <;> simp
          · rcases hcloser with rfl | rfl <;> simp
        · simp at hlast

theorem braces_flatten_map {f : List Char → List Char} (hf : ∀ n l, braces n (f l) = braces n l) :
    ∀ (rows : List (List Char)) (n : Nat),
      braces n (rows.map f).flatten = braces n rows.flatten
  | [], _ => rfl
  | row :: rows, n => by
    rw [List.map_cons, List.flatten_cons, List.flatten_cons, braces_append, braces_append, hf]
    exact congrArg _ (funext (braces_flatten_map hf rows))

theorem braces_chomp (n : Nat) (l : List Char) : braces n (chomp l) = braces n l := by
  rcases chomp_eq_or l with h | h
  · rw [h]
  · have hreturn : ∀ m, braces m ['\r'] = some m := fun m => braces_of_ne (by decide) (by decide) []
    conv_rhs => rw [h, braces_append]
    simp only [hreturn]
    cases braces n (chomp l) <;> rfl

/-- A carriage return that is lost is not what places a line. -/
theorem placed_chomp {n : Nat} {line : List Char} (h : Placed path n line) :
    Placed path n (chomp line) := by
  obtain ⟨k, rest, hline, hclose, hother, hspace⟩ := h
  rcases chomp_eq_or line with hchomp | hchomp
  · rw [hchomp]
    exact ⟨k, rest, hline, hclose, hother, hspace⟩
  · rcases List.eq_nil_or_concat' rest with rfl | ⟨rest, c, rfl⟩
    · -- a line of spaces does not end in a carriage return
      have hmem : '\r' ∈ List.replicate (4 * k) ' ' := by
        rw [← List.append_nil (List.replicate _ _), ← hline, hchomp]
        exact List.mem_append_right _ (List.mem_singleton_self _)
      exact absurd (List.eq_of_mem_replicate hmem) (by decide)
    · rw [hchomp, ← List.append_assoc] at hline
      obtain ⟨hrest, hc⟩ := List.append_inj' hline rfl
      obtain rfl := (List.cons.inj hc).1
      refine ⟨k, rest, hrest, ?_⟩
      rcases rest with _ | ⟨c, rest⟩
      · exact ⟨nofun, fun _ => hother (by decide), nofun⟩
      · exact ⟨hclose, hother, hspace⟩

theorem placed_indented {n : Nat} {line : List Char} (h : Placed path n line) (hne : line ≠ [])
    (depth : Nat) : Placed path (n + depth) (indented depth line) := by
  obtain ⟨k, rest, rfl, hclose, hother, hspace⟩ := h
  refine ⟨k + depth, rest, ?_, fun h => ?_, fun h => ?_, hspace⟩
  · rw [indented_eq hne, ← List.append_assoc, ← List.replicate_add, Nat.mul_add, Nat.add_comm]
  · have hk := hclose h
    omega
  · rw [hother h]

/-- Moving rows that are laid out keeps that. -/
theorem moved (ha : Layout path base a) (depth : Nat) :
    Layout path (base + depth) (moved depth a) := by
  have hbraces : ∀ n l, braces n (indented depth (chomp l)) = braces n l := by
    intro n l
    rw [braces_indented, braces_chomp]
  rw [SourceText.moved, pieces_eq_self ha.feed]
  refine ⟨?_, List.forall_mem_map.2 fun row hrow => ?_, fun before row after hrows hrow => ?_⟩
  · rw [Level, braces_flatten_map hbraces]
    exact ha.level
  · rw [← pieces_eq_self ha.feed] at hrow
    exact notMem_indented (by decide) (notMem_chomp hrow)
  · obtain ⟨before, rest, rfl, rfl, hrest⟩ := List.map_eq_append_iff.1 hrows
    obtain ⟨row, after, rfl, rfl, rfl⟩ := List.map_eq_cons_iff.1 hrest
    have hchomp : chomp row ≠ [] := by
      intro hempty
      rw [hempty] at hrow
      exact hrow rfl
    have hne : row ≠ [] := by
      rintro rfl
      exact hchomp rfl
    obtain ⟨n, hn, hplaced⟩ := ha.placed before row after rfl hne
    refine ⟨n, by rw [braces_flatten_map hbraces, hn], ?_⟩
    rw [Nat.add_right_comm]
    exact placed_indented (placed_chomp hplaced) hchomp depth

end Layout

/-- The lines of a text that are not empty are placed by the braces that are open before them,
inside `base` blocks. -/
def LaidOut (path : List Char) (base : Nat) (text : List Char) : Prop :=
  ∀ before line after, text.splitOn '\n' = before ++ line :: after → line ≠ [] →
    ∃ n, braces 0 before.flatten = some n ∧ Placed path (base + n) line

theorem Text.braces_joined : ∀ (rows : List (List Char)) (n : Nat),
    braces n (joined rows) = braces n rows.flatten
  | [], _ => rfl
  | row :: rows, n => by
    have hfeed : ∀ m, braces m ('\n' :: joined rows) = braces m rows.flatten := by
      intro m
      rw [braces_of_ne (by decide) (by decide), braces_joined rows]
    rw [joined_cons, List.flatten_cons, braces_append, braces_append]
    exact congrArg _ (funext hfeed)

namespace Layout

variable {path : List Char} {base : Nat} {rows : List (List Char)} (h : Layout path base rows)

include h

theorem level_joined : Level (joined rows) := by
  rw [Level, braces_joined]
  exact h.level

theorem laidOut : LaidOut path base (joined rows) := by
  intro before line after hlines hne
  rw [splitOn_joined, pieces_eq_self h.feed] at hlines
  rcases append_eq_append_cons hlines with ⟨rest, hrows⟩ | ⟨rest, rfl, hlast⟩
  · exact h.placed before line rest hrows hne
  · rcases rest with _ | ⟨l, rest⟩
    · exact absurd (List.cons.inj hlast).1.symm hne
    · simp at hlast

end Layout

/-- The rows of a passage without comments, inside so many blocks. -/
theorem Passage.layout {comments : Prop} {g : String → List Code} (h : Passage Tame comments g)
    (hcomments : ¬ comments) {path : String} (hpath : Tame path) :
    ∀ base, Layout path.toList base (Code.rowsAll base (g path)) := by
  induction h with
  | nil => exact fun _ => .nil
  | line hf _ ih =>
    exact fun base => .append (.row (hf.phrase.inline hpath) (hf.opens path).2) (ih base)
  | blank _ ih =>
    have hrow : ∀ base, Layout path.toList base [indented base []] :=
      fun _ => .row (.of_plain (by decide)) nofun
    exact fun base => .append (hrow base) (ih base)
  | doc hdocs => exact absurd hdocs hcomments
  | @block f g h closer hf _ hcloser _ ihg ihh =>
    intro base
    have hne : (f path).isEmpty = false := by simpa using (hf.opens path).1
    have hopening : (opening (f path)).toList = (f path).toList ++ [' ', '\x7b'] := by
      simp [opening, hne]
    have hclosing : closer.toList = ['\x7d'] ∨ closer.toList = ['\x7d', ')'] := by
      rcases hcloser with rfl | rfl
      · exact .inl rfl
      · exact .inr rfl
    have hblock := Layout.block (hf.phrase.inline hpath) (by simpa using hne) (hf.opens path).2
      (ihg (base + 1)) hclosing
    rw [← hopening] at hblock
    exact .append hblock (ihh base)

/-! ## Definitions and schemas -/

/-- No name in a definition has a brace or a line feed. -/
def Definition.TameNames (d : Definition) : Prop :=
  Tame d.name ∧ ∀ f ∈ d.fields, Tame f.name

namespace Schema

variable {s : Schema} {settings : Settings} {path : List Char} {rows : List (List Char)}

/-- The rows around those of the items are laid out like them. -/
theorem layout_rowsAround (h : Layout path 0 rows)
    (hscope : ∀ scope, s.scope = some scope → Tame scope) :
    Layout path 0 (s.rowsAround settings rows) := by
  have hempty : Tame "" := by decide
  have hheader : Line Tame fun _ => generatedHeader := .plain (by decide)
  have hblank : Inline [] := .of_plain (by decide)
  have htop : Layout path 0 [generatedHeader.toList, []] := by
    rw [← indented_zero generatedHeader.toList, ← indented_zero []]
    exact .append (.row (hheader.phrase.inline hempty) nofun) (.row hblank nofun)
  unfold rowsAround
  refine .append htop ?_
  split
  · rename_i scope hs
    split_ifs
    · have hmod : Line Tame fun _ => "pub mod " := .plain (by decide)
      have hmodule := Inline.append (hmod.phrase.inline hempty)
        (.of_identifier (fun _ => Identifier.notMem_ofModule) (hscope scope hs))
      rw [← String.toList_append] at hmodule
      have hhead := (hmod.opens.append fun _ => Identifier.ofModule scope) (String.ofList path)
      rw [String.toList_ofList] at hhead
      have hblock := Layout.block hmodule (by simp) hhead.2 (h.moved 1) (.inl rfl)
      rw [indented_zero, indented_zero] at hblock
      have hopening : (opening ("pub mod " ++ Identifier.ofModule scope)).toList
          = ("pub mod " ++ Identifier.ofModule scope).toList ++ [' ', '\x7b'] := by
        simp [opening]
      rw [hopening]
      exact hblock
    · exact h.moved 0
  · exact h.moved 0

/-- The names in the schema and its namespace have no braces and no line feeds. -/
structure TameNames (s : Schema) : Prop where
  definitions : ∀ d ∈ s.definitions, d.TameNames
  scope : ∀ scope, s.scope = some scope → Tame scope

end Schema

theorem Settings.tame_runtime {settings : Settings} (h : Tame settings.runtimePath) :
    Tame settings.runtime :=
  ⟨Settings.notMem_runtime h.1, Settings.notMem_runtime h.2.1, Settings.notMem_runtime h.2.2⟩

/-- Blocks always balance. Whatever was written before a definition, and for every path, the calls
of its emitter close only blocks that were opened for it, so the depth is what it was. Without
comments, and if the names and the path have no braces and no line feeds, the text is level, and
each of its lines that is not empty stands four spaces further in for each block that is open at
it. It is the text of the item, and whole sources are laid out in the same way. -/
theorem Emit.blocks_balance (settings : Settings) :
    (∀ (t : Target) (d : Definition) (calls : List Step) (out : SourceText),
      (Emit.definition t settings d).calls = .ok calls →
        (out.run calls).depth = out.depth
        ∧ (∀ before closer after, calls = before ++ .close closer :: after →
          out.depth < (out.run before).depth)
        ∧ (∃ item, Item.ofDefinition? t d = .ok item
          ∧ out.run calls = Code.printAll out (item.code settings t.runtime))
        ∧ (settings.emitDocs = false → Tame t.runtime → d.TameNames →
          (∀ e ∈ t.schema.definitions, Tame e.name) →
            ∃ text, (out.run calls).text.toList = out.text.toList ++ text
              ∧ Level text ∧ LaidOut t.runtime.toList out.depth text))
    ∧ ∀ (s : Schema) (source : String), s.generate settings = .ok source →
      settings.emitDocs = false → Tame settings.runtimePath → s.TameNames →
        Level source.toList ∧ LaidOut settings.runtime.toList 0 source.toList := by
  refine ⟨fun t d calls out h => ?_, fun s source h hdocs hpath hnames => ?_⟩
  · rw [Emit.calls_definition] at h
    obtain ⟨item, hitem, rfl⟩ := map_eq_ok.1 h
    have hnested := Code.nested_stepsAll (item.code settings t.runtime)
    refine ⟨hnested.depth out, fun before closer after => hnested.close out before after closer,
      ⟨item, hitem, Code.run_stepsAll out _⟩, ?_⟩
    intro hdocs hpath hd hs
    obtain ⟨f, hcode, rfl⟩ := (Item.parametric_code hs hd.1 hd.2 settings).exists_of_ok hitem
    have hlayout := hcode.layout (by simp [hdocs]) hpath out.depth
    refine ⟨_, ?_, hlayout.level_joined, hlayout.laidOut⟩
    rw [Code.run_stepsAll, Code.printAll_eq, SourceText.toList_text_write]
  · rw [Schema.generate_eq_joined] at h
    rcases hitems : Target.items? ⟨s, settings.runtime⟩ with e | items
    · rw [hitems] at h
      cases h
    · rw [hitems] at h
      obtain rfl := Except.ok.inj h
      obtain ⟨f, hcode, rfl⟩ :=
        (Target.parametric_code settings hnames.definitions).exists_of_ok hitems
      have hitemsLayout := hcode.layout (by simp [hdocs]) (Settings.tame_runtime hpath) 0
      have hlayout : Layout settings.runtime.toList 0 (s.rowsAround settings _) :=
        Schema.layout_rowsAround hitemsLayout hnames.scope
      rw [String.toList_ofList]
      exact ⟨hlayout.level_joined, hlayout.laidOut⟩

namespace Pontoon

/-- A message with a map that holds arrays. -/
def pontoon : Definition where
  name := "Pontoon"
  kind := .message
  opcode := some 7
  fields := [
    { name := "moorings", ty := .map (.scalar .uint16) (.array (.defined "Mooring")), value := 1 }]

def schema : Schema where
  scope := some "inner.harbour"
  definitions := [
    { name := "Mooring", kind := .message, readonly := true, fields := [
      { name := "name", ty := .scalar .string, value := 1 }] },
    pontoon]
  nodup := by decide

/-- The source of the schema is laid out. So is that of the message inside of any blocks, and no
block around it is closed. -/
theorem balanced :
    (∃ source, schema.generate { emitDocs := false } = .ok source
      ∧ Level source.toList ∧ LaidOut "::wiregen_runtime".toList 0 source.toList)
    ∧ ∃ calls, (Emit.definition ⟨schema, "::wiregen_runtime"⟩ { emitDocs := false } pontoon).calls
        = .ok calls
        ∧ ∀ out : SourceText, (out.run calls).depth = out.depth
          ∧ (∀ before closer after, calls = before ++ .close closer :: after →
            out.depth < (out.run before).depth)
          ∧ ∃ text, (out.run calls).text.toList = out.text.toList ++ text
            ∧ LaidOut "::wiregen_runtime".toList out.depth text := by
  have hpath : Tame ({ emitDocs := false } : Settings).runtimePath := by decide +kernel
  have hnames : schema.TameNames := by
    constructor
    · simp [schema, pontoon, Definition.TameNames, Tame]
    · simp [schema, Tame]
  obtain ⟨hcalls, hsource⟩ := Emit.blocks_balance { emitDocs := false }
  constructor
  · have hruntime : ({ emitDocs := false } : Settings).runtime = "::wiregen_runtime" := by
      decide +kernel
    rw [hruntime] at hsource
    obtain ⟨source, hok⟩ := succeeds_of_isOk (x := schema.generate { emitDocs := false })
      (by decide +kernel)
    exact ⟨source, hok, hsource schema source hok rfl hpath hnames⟩
  · obtain ⟨item, hitem⟩ := succeeds_of_isOk
      (x := Item.ofDefinition? ⟨schema, "::wiregen_runtime"⟩ pontoon) (by decide +kernel)
    have hok := Emit.calls_definition ⟨schema, "::wiregen_runtime"⟩ { emitDocs := false } pontoon
    rw [hitem] at hok
    refine ⟨_, hok, fun out => ?_⟩
    obtain ⟨hdepth, hclose, -, htext⟩ := hcalls ⟨schema, "::wiregen_runtime"⟩ pontoon _ out hok
    obtain ⟨text, heq, -, hlaid⟩ := htext rfl (by decide +kernel)
      (hnames.definitions pontoon (by simp [schema])) fun e he => (hnames.definitions e he).1
    exact ⟨hdepth, hclose, text, heq, hlaid⟩

end Pontoon

end SchemaCodec

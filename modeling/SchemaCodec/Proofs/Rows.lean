import Mathlib.Data.List.Basic
import SchemaCodec.Generate

/-!
# The rows of a source

Printing writes rows, each with a line feed behind it, and which rows these are depends on nothing
but the code and the number of blocks around it (`Code.printAll_eq`). A row is one line of the text,
or several if a name in it has line feeds. To append a text is to write its lines again, further in
and without the carriage returns at their ends (`SourceText.append_write`).
-/

namespace SchemaCodec

/-! ## Lines -/

namespace Text

/-- A line without the carriage return at its end. -/
def chomp (l : List Char) : List Char :=
  (dropReturn l.reverse).reverse

theorem dropReturn_eq_or (l : List Char) : dropReturn l = l ∨ l = '\r' :: dropReturn l := by
  unfold dropReturn
  split
  · exact .inr rfl
  · exact .inl rfl

theorem chomp_eq_or (l : List Char) : chomp l = l ∨ l = chomp l ++ ['\r'] := by
  unfold chomp
  rcases dropReturn_eq_or l.reverse with h | h
  · rw [h]
    exact .inl (List.reverse_reverse l)
  · refine .inr ?_
    rw [← List.reverse_cons, ← h, List.reverse_reverse]

theorem chomp_of_notMem {l : List Char} (h : '\r' ∉ l) : chomp l = l := by
  rcases chomp_eq_or l with hl | hl
  · exact hl
  · rw [hl] at h
    simp at h

/-- The lines of a text up to a line feed are what its line feeds separate; `acc` is what was read
of the first of them, backwards. -/
theorem linesFrom_append (rest : List Char) : ∀ (l acc : List Char), '\n' ∉ acc →
    linesFrom acc (l ++ '\n' :: rest)
      = ((acc.reverse ++ l).splitOn '\n').map chomp ++ lines rest
  | [], acc, h => by
    have hacc : '\n' ∉ acc.reverse := fun hm => h (List.mem_reverse.1 hm)
    rw [List.append_nil, List.splitOn_eq_singleton hacc]
    simp [linesFrom, lines, chomp]
  | c :: l, acc, h => by
    by_cases hc : c = '\n'
    · subst hc
      have hacc : '\n' ∉ acc.reverse := fun hm => h (List.mem_reverse.1 hm)
      rw [List.splitOn_append_cons_self, List.splitOn_eq_singleton hacc, List.cons_append,
        linesFrom, linesFrom_append rest l [] List.not_mem_nil]
      simp [chomp]
    · have hcons : linesFrom acc (c :: l ++ '\n' :: rest)
          = linesFrom (c :: acc) (l ++ '\n' :: rest) := by
        rw [List.cons_append, linesFrom]
        exact hc
      rw [hcons, linesFrom_append rest l (c :: acc) (by simp [h, Ne.symm hc])]
      simp

theorem lines_append (l rest : List Char) :
    lines (l ++ '\n' :: rest) = (l.splitOn '\n').map chomp ++ lines rest := by
  have h := linesFrom_append rest l [] List.not_mem_nil
  rwa [List.reverse_nil, List.nil_append] at h

theorem notMem_of_mem_linesFrom : ∀ {s acc l : List Char}, '\n' ∉ acc → l ∈ linesFrom acc s →
    '\n' ∉ l
  | [], acc, l, h, hl => by
    unfold linesFrom at hl
    split_ifs at hl
    · cases hl
    · obtain rfl := List.mem_singleton.1 hl
      simpa using h
  | c :: s, acc, l, h, hl => by
    by_cases hc : c = '\n'
    · subst hc
      rw [linesFrom] at hl
      rcases List.mem_cons.1 hl with rfl | hl
      · intro hm
        rcases dropReturn_eq_or acc with hacc | hacc
        · exact h (hacc ▸ List.mem_reverse.1 hm)
        · exact h (hacc ▸ List.mem_cons_of_mem _ (List.mem_reverse.1 hm))
      · exact notMem_of_mem_linesFrom List.not_mem_nil hl
    · rw [linesFrom] at hl
      · exact notMem_of_mem_linesFrom (by simp [h, Ne.symm hc]) hl
      · exact hc

/-- No line has a line feed in it. -/
theorem notMem_of_mem_lines {s l : List Char} (h : l ∈ lines s) : '\n' ∉ l :=
  notMem_of_mem_linesFrom List.not_mem_nil h

/-- Rows, each with a line feed behind it. -/
def joined (rows : List (List Char)) : List Char :=
  rows.flatMap (· ++ ['\n'])

/-- What the line feeds in some rows separate. -/
def pieces (rows : List (List Char)) : List (List Char) :=
  rows.flatMap (·.splitOn '\n')

@[simp] theorem joined_append (a b : List (List Char)) : joined (a ++ b) = joined a ++ joined b :=
  List.flatMap_append

@[simp] theorem pieces_append (a b : List (List Char)) : pieces (a ++ b) = pieces a ++ pieces b :=
  List.flatMap_append

theorem joined_cons (row : List Char) (rows : List (List Char)) :
    joined (row :: rows) = row ++ '\n' :: joined rows := by
  simp [joined]

theorem pieces_cons (row : List Char) (rows : List (List Char)) :
    pieces (row :: rows) = row.splitOn '\n' ++ pieces rows :=
  List.flatMap_cons

/-- Rows without line feeds are their own pieces. -/
theorem pieces_eq_self : ∀ {rows : List (List Char)}, (∀ r ∈ rows, '\n' ∉ r) → pieces rows = rows
  | [], _ => rfl
  | r :: rows, h => by
    rw [pieces_cons, List.splitOn_eq_singleton (h r List.mem_cons_self),
      pieces_eq_self fun q hq => h q (List.mem_cons_of_mem _ hq), List.singleton_append]

theorem lines_joined : ∀ rows : List (List Char), lines (joined rows) = (pieces rows).map chomp
  | [] => rfl
  | row :: rows => by
    rw [joined_cons, lines_append, lines_joined rows, pieces_cons, List.map_append]

theorem notMem_chomp {rows : List (List Char)} {l : List Char} (h : l ∈ pieces rows) :
    '\n' ∉ chomp l := by
  have hl := List.mem_map_of_mem (f := chomp) h
  rw [← lines_joined] at hl
  exact notMem_of_mem_lines hl

/-- What is left behind the last line feed is empty. -/
theorem splitOn_joined : ∀ rows : List (List Char),
    (joined rows).splitOn '\n' = pieces rows ++ [[]]
  | [] => List.splitOn_nil _
  | row :: rows => by
    rw [joined_cons, List.splitOn_append_cons_self, splitOn_joined rows, pieces_cons,
      List.append_assoc]

theorem intercalate_concat_nil : ∀ ls : List (List Char),
    ['\n'].intercalate (ls ++ [[]]) = joined ls
  | [] => rfl
  | l :: ls => by
    rw [List.cons_append, List.intercalate_cons_of_ne_nil (by simp), intercalate_concat_nil ls,
      joined_cons, List.append_assoc, List.singleton_append]

theorem joined_pieces (rows : List (List Char)) : joined (pieces rows) = joined rows := by
  rw [← intercalate_concat_nil, ← splitOn_joined, List.intercalate_splitOn]

end Text

open Text

/-! ## Printing -/

namespace SourceText

/-- A line of so many blocks further in; an empty one stays empty. -/
def indented (depth : Nat) (l : List Char) : List Char :=
  if l.isEmpty then [] else (indentation depth).toList ++ l

@[simp] theorem indented_zero (l : List Char) : indented 0 l = l := by
  unfold indented
  split_ifs with h
  · exact (List.isEmpty_iff.1 h).symm
  · simp [indentation]

theorem toList_indentation (n : Nat) : (indentation n).toList = List.replicate (4 * n) ' ' := by
  induction n with
  | zero => rfl
  | succ n ih =>
    rw [indentation, String.toList_append, ih, Nat.mul_succ, Nat.add_comm, List.replicate_add]
    rfl

theorem indented_eq {cs : List Char} (hne : cs ≠ []) (depth : Nat) :
    indented depth cs = List.replicate (4 * depth) ' ' ++ cs := by
  rw [indented, List.isEmpty_eq_false_iff.2 hne, toList_indentation]
  rfl

theorem indented_indented (m n : Nat) (l : List Char) :
    indented m (indented n l) = indented (m + n) l := by
  by_cases hne : l = []
  · subst hne
    rfl
  · have hindented : indented n l ≠ [] := by simp [indented_eq hne, hne]
    rw [indented_eq hindented, indented_eq hne, indented_eq hne, Nat.mul_add, List.replicate_add,
      List.append_assoc]

theorem mem_indented_iff {c : Char} (hc : c ≠ ' ') {depth : Nat} {l : List Char} :
    c ∈ indented depth l ↔ c ∈ l := by
  by_cases hne : l = []
  · subst hne
    rfl
  · simp [indented_eq hne, hc]

theorem notMem_indented {c : Char} (hc : c ≠ ' ') {depth : Nat} {l : List Char} (h : c ∉ l) :
    c ∉ indented depth l :=
  mt (mem_indented_iff hc).1 h

/-- Each line of a documentation is one row. -/
theorem notMem_of_mem_docLines {t l : String} (h : l ∈ docLines t) : '\n' ∉ l.toList := by
  obtain ⟨line, hline, rfl⟩ := List.mem_map.1 h
  have hfeed : '\n' ∉ trimEnd line := by
    intro hm
    refine notMem_of_mem_lines hline ?_
    rw [trimEnd, trimStart] at hm
    exact List.mem_reverse.1 ((List.dropWhile_sublist _).subset (List.mem_reverse.1 hm))
  simp only []
  split_ifs <;> simp [hfeed]

/-- Writes some rows as they are. -/
def write (s : SourceText) (rows : List (List Char)) : SourceText :=
  { s with text := s.text ++ String.ofList (joined rows) }

@[ext] theorem ext {s t : SourceText} (ht : s.text.toList = t.text.toList)
    (hd : s.depth = t.depth) : s = t := by
  cases s
  cases t
  simp_all [String.toList_inj]

@[simp] theorem depth_write (s : SourceText) (rows : List (List Char)) :
    (s.write rows).depth = s.depth :=
  rfl

@[simp] theorem toList_text_write (s : SourceText) (rows : List (List Char)) :
    (s.write rows).text.toList = s.text.toList ++ joined rows := by
  simp [write]

@[simp] theorem write_nil (s : SourceText) : s.write [] = s := by
  ext1 <;> simp [joined]

@[simp] theorem write_write (s : SourceText) (a b : List (List Char)) :
    (s.write a).write b = s.write (a ++ b) := by
  ext1 <;> simp

theorem line_eq (s : SourceText) (t : String) : s.line t = s.write [indented s.depth t.toList] := by
  unfold line indented
  by_cases ht : t = ""
  · subst ht
    ext1 <;> simp [joined]
  · have hne : t.toList.isEmpty = false := by simpa using ht
    ext1 <;> simp [joined, ht]

theorem blank_eq (s : SourceText) : s.blank = s.write [[]] := by
  ext1 <;> simp [blank, joined]

theorem lines_eq (s : SourceText) (ts : List String) :
    s.lines ts = s.write (ts.map fun t => indented s.depth t.toList) := by
  unfold lines
  induction ts generalizing s with
  | nil => simp
  | cons t ts ih => rw [List.foldl_cons, ih, line_eq, depth_write, write_write]; rfl

/-- The line that begins a block. -/
def opening (header : String) : String :=
  if header.isEmpty then "\x7b" else header ++ " \x7b"

/-- What is written in a block is a row further in between the two lines of the block. -/
theorem block_eq (s : SourceText) (header closer : String) {f : SourceText → SourceText}
    {rows : List (List Char)} (h : ∀ u : SourceText, u.depth = s.depth + 1 → f u = u.write rows) :
    (f (s.openBlock header)).closeBlockWith closer
      = s.write (indented s.depth (opening header).toList :: rows
        ++ [indented s.depth closer.toList]) := by
  rw [h _ (depth_openBlock s header), closeBlockWith, line_eq]
  ext1
  · simp [openBlock, opening, line_eq, joined]
  · simp

/-- The lines of some rows, so many blocks further in and without carriage returns at their ends. -/
def moved (depth : Nat) (rows : List (List Char)) : List (List Char) :=
  (pieces rows).map fun l => indented depth (chomp l)

/-- The lines of a text that was written are written again, further in. -/
theorem append_write (s : SourceText) (rows : List (List Char)) :
    s.append (empty.write rows) = s.write (moved s.depth rows) := by
  have htext : (empty.write rows).text.toList = joined rows := by simp [empty]
  rw [append, htext, lines_joined, lines_eq, List.map_map, List.map_map, moved]
  simp [Function.comp_def]

end SourceText

namespace Code

open SourceText

mutual

/-- The rows of some code inside so many blocks. -/
def rows (depth : Nat) : Code → List (List Char)
  | line t => [indented depth t.toList]
  | blank => [[]]
  | doc t => (docLines t).map fun l => indented depth l.toList
  | block header body closer =>
    indented depth (opening header).toList :: rowsAll (depth + 1) body
      ++ [indented depth closer.toList]

def rowsAll (depth : Nat) : List Code → List (List Char)
  | [] => []
  | c :: cs => rows depth c ++ rowsAll depth cs

end

mutual

theorem print_eq (s : SourceText) : (c : Code) → c.print s = s.write (c.rows s.depth)
  | line t => by rw [print, rows, line_eq]
  | blank => by rw [print, rows, blank_eq]
  | doc t => by rw [print, rows, SourceText.doc, lines_eq]
  | block header body closer => by
    rw [print, rows]
    refine block_eq s header closer (f := fun u => printAll u body) fun u hu => ?_
    rw [printAll_eq u body, hu]

/-- Printing writes the rows of the code behind what was written before. -/
theorem printAll_eq (s : SourceText) : (cs : List Code) →
    printAll s cs = s.write (rowsAll s.depth cs)
  | [] => by rw [printAll, rowsAll, write_nil]
  | c :: cs => by
    rw [printAll, printAll_eq _ cs, print_eq s c, depth_write, write_write, rowsAll]

end

@[simp] theorem rowsAll_append (depth : Nat) (cs ds : List Code) :
    rowsAll depth (cs ++ ds) = rowsAll depth cs ++ rowsAll depth ds := by
  induction cs with
  | nil => rfl
  | cons c cs ih => rw [List.cons_append, rowsAll, rowsAll, ih, List.append_assoc]

theorem toList_text (cs : List Code) : (text cs).toList = joined (rowsAll 0 cs) := by
  rw [text, printAll_eq]
  simp [SourceText.empty]

end Code

/-! ## Whole sources -/

section Items

variable (settings : Settings) (runtime : String)

theorem itemsCode_singleton (i : Item) :
    itemsCode settings runtime [i] = i.code settings runtime := by
  simp [itemsCode]

theorem itemsCode_cons_cons (i j : Item) (items : List Item) :
    itemsCode settings runtime (i :: j :: items)
      = i.code settings runtime ++ [Code.blank] ++ itemsCode settings runtime (j :: items) := by
  simp [itemsCode, List.intercalate_cons_cons]

end Items

namespace Schema

open SourceText

/-- The rows of a source around those of the items. -/
def rowsAround (s : Schema) (settings : Settings) (rows : List (List Char)) : List (List Char) :=
  [generatedHeader.toList, []] ++
    match s.scope with
    | some scope =>
      if settings.wrapScope then
        (opening ("pub mod " ++ Identifier.ofModule scope)).toList :: moved 1 rows ++ [['\x7d']]
      else moved 0 rows
    | none => moved 0 rows

theorem wrap_write (s : Schema) (settings : Settings) (rows : List (List Char)) :
    s.wrap settings (SourceText.empty.write rows)
      = SourceText.empty.write (s.rowsAround settings rows) := by
  have hheader : (SourceText.empty.line generatedHeader).blank
      = SourceText.empty.write [generatedHeader.toList, []] := by
    rw [blank_eq, line_eq, write_write]
    rfl
  have hplain : (SourceText.empty.write [generatedHeader.toList, []]).append
        (SourceText.empty.write rows)
      = SourceText.empty.write ([generatedHeader.toList, []] ++ moved 0 rows) := by
    rw [append_write, write_write]
    rfl
  unfold wrap rowsAround
  simp only [hheader]
  rcases s.scope with _ | scope
  · exact hplain
  · simp only []
    split_ifs
    · have hbody : ∀ u : SourceText, u.depth = (SourceText.empty.write
          [generatedHeader.toList, []]).depth + 1 →
          u.append (SourceText.empty.write rows) = u.write (moved 1 rows) := by
        intro u hu
        rw [append_write, hu]
        rfl
      have hdepth : (SourceText.empty.write [generatedHeader.toList, []]).depth = 0 := rfl
      rw [closeBlock, block_eq _ _ _ hbody, write_write, hdepth, indented_zero, indented_zero]
      rfl
    · exact hplain

/-- A source is made of rows, and which these are is told by the items. -/
theorem generate_eq_joined (s : Schema) (settings : Settings) : s.generate settings
    = (Target.items? ⟨s, settings.runtime⟩).map fun items =>
      String.ofList (joined (s.rowsAround settings
        (Code.rowsAll 0 (itemsCode settings settings.runtime items)))) := by
  rw [generate]
  rcases Target.items? ⟨s, settings.runtime⟩ with e | items
  · rfl
  · show Except.ok _ = Except.ok _
    rw [Code.printAll_eq, wrap_write]
    refine congrArg Except.ok (String.toList_inj.1 ?_)
    rw [toList_text_write, String.toList_ofList]
    rfl

end Schema

end SchemaCodec

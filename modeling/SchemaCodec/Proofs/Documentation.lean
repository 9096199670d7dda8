import SchemaCodec.Proofs.Rows
import SchemaCodec.Proofs.Undocumented

/-!
# Documentation stays in comments

A comment of a source is a line whose first characters behind spaces are three slashes. Whatever
text a documentation is, its lines go into comments of their own (`Code.kept_doc`), and a comment
stays one when it is written again further in (`Text.isComment_indented`). So two schemas that
differ in their documentation have sources that differ in their comments, or no source and one error
(`Schema.documentation_kept_out`).
-/

namespace SchemaCodec

open Text SourceText

/-! ## Comments -/

namespace Text

/-- Whether three slashes are the first characters of a line behind its spaces. -/
def isComment (l : List Char) : Bool :=
  ['/', '/', '/'].isPrefixOf (l.dropWhile (· == ' '))

/-- The lines of a source that are not comments. -/
def codeLines (source : String) : List (List Char) :=
  (source.toList.splitOn '\n').filter (!isComment ·)

/-- The lines of some rows that are not comments. -/
def kept (rows : List (List Char)) : List (List Char) :=
  (pieces rows).filter (!isComment ·)

@[simp] theorem kept_append (a b : List (List Char)) : kept (a ++ b) = kept a ++ kept b := by
  simp [kept]

theorem codeLines_joined (rows : List (List Char)) :
    codeLines (String.ofList (joined rows)) = kept rows ++ [[]] := by
  rw [codeLines, String.toList_ofList, splitOn_joined, List.filter_append]
  rfl

theorem isComment_append_return (l : List Char) : isComment (l ++ ['\r']) = isComment l := by
  unfold isComment
  rw [List.dropWhile_append]
  rcases l.dropWhile (· == ' ') with _ | ⟨a, _ | ⟨b, _ | ⟨c, l⟩⟩⟩ <;> simp [List.isPrefixOf]

theorem isComment_chomp (l : List Char) : isComment (chomp l) = isComment l := by
  rcases chomp_eq_or l with h | h
  · rw [h]
  · rw [← isComment_append_return, ← h]

theorem isComment_indentation (l : List Char) : ∀ n : Nat,
    isComment ((indentation n).toList ++ l) = isComment l
  | 0 => by simp [indentation]
  | n + 1 => by
    rw [← isComment_indentation l n]
    simp [indentation, isComment]

/-- A comment is a comment wherever it stands. -/
theorem isComment_indented (depth : Nat) (l : List Char) :
    isComment (indented depth l) = isComment l := by
  unfold indented
  by_cases hl : l = []
  · subst hl
    rfl
  · rw [if_neg (by simpa using hl)]
    exact isComment_indentation l depth

/-- Lines that are written again further in are comments where they were. -/
theorem kept_moved (depth : Nat) (rows : List (List Char)) :
    kept (moved depth rows) = (kept rows).map fun l => indented depth (chomp l) := by
  have hpieces : pieces (moved depth rows) = moved depth rows := by
    refine pieces_eq_self (List.forall_mem_map.2 fun l hl => ?_)
    exact notMem_indented (by decide) (notMem_chomp hl)
  rw [kept, hpieces, moved, List.filter_map, kept]
  simp only [Function.comp_def, isComment_indented, isComment_chomp]

end Text

/-! ## Code that differs in comments -/

namespace Code

/-- Wherever they stand, two pieces of code have the same rows but for comments. -/
def Alike (cs ds : List Code) : Prop :=
  ∀ depth, kept (rowsAll depth cs) = kept (rowsAll depth ds)

namespace Alike

theorem refl (cs : List Code) : Alike cs cs :=
  fun _ => rfl

theorem symm {cs ds : List Code} (h : Alike cs ds) : Alike ds cs :=
  fun depth => (h depth).symm

theorem trans {bs cs ds : List Code} (h : Alike bs cs) (h' : Alike cs ds) : Alike bs ds :=
  fun depth => (h depth).trans (h' depth)

theorem append {cs cs' ds ds' : List Code} (h : Alike cs cs') (h' : Alike ds ds') :
    Alike (cs ++ ds) (cs' ++ ds') := by
  intro depth
  rw [rowsAll_append, rowsAll_append, kept_append, kept_append, h depth, h' depth]

theorem cons (c : Code) {cs ds : List Code} (h : Alike cs ds) : Alike (c :: cs) (c :: ds) :=
  (refl [c]).append h

theorem braces {header : String} {cs ds : List Code} (h : Alike cs ds) :
    Alike [Code.braces header cs] [Code.braces header ds] := by
  intro depth
  have hkept : ∀ body, kept (rowsAll depth [Code.braces header body])
      = kept [indented depth (opening header).toList] ++ kept (rowsAll (depth + 1) body)
        ++ kept [indented depth "\x7d".toList] := by
    intro body
    rw [← kept_append, ← kept_append]
    simp [Code.braces, rowsAll, rows]
  rw [hkept, hkept, h (depth + 1)]

theorem flatMap {α : Type} {f g : α → List Code} (h : ∀ a, Alike (f a) (g a)) :
    ∀ l : List α, Alike (l.flatMap f) (l.flatMap g)
  | [] => refl []
  | a :: l => by
    rw [List.flatMap_cons, List.flatMap_cons]
    exact (h a).append (flatMap h l)

end Alike

/-- Each line of a documentation is a comment, whatever is in the text. -/
theorem comment_of_mem_docLines {t l : String} (h : l ∈ docLines t) :
    isComment l.toList = true := by
  obtain ⟨line, -, rfl⟩ := List.mem_map.1 h
  simp only []
  split_ifs
  · rfl
  · simp [isComment, List.isPrefixOf]

theorem kept_comments {rows : List (List Char)}
    (h : ∀ l ∈ rows, '\n' ∉ l ∧ isComment l = true) : kept rows = [] := by
  rw [kept, pieces_eq_self fun l hl => (h l hl).1, List.filter_eq_nil_iff]
  intro l hl
  simp [(h l hl).2]

theorem kept_doc (depth : Nat) (t : String) : kept (rows depth (doc t)) = [] := by
  rw [rows]
  refine kept_comments (List.forall_mem_map.2 fun l hl => ?_)
  have hcomment := comment_of_mem_docLines hl
  exact ⟨notMem_indented (by decide) (notMem_of_mem_docLines hl),
    (isComment_indented depth _).trans hcomment⟩

theorem kept_slashes (depth : Nat) : kept (rows depth (line "///")) = [] := by
  rw [rows]
  refine kept_comments fun l hl => ?_
  obtain rfl := List.mem_singleton.1 hl
  exact ⟨notMem_indented (by decide) (by simp), isComment_indented depth _⟩

theorem kept_rowsAll {depth : Nat} : ∀ {cs : List Code},
    (∀ c ∈ cs, kept (rows depth c) = []) → kept (rowsAll depth cs) = []
  | [], _ => rfl
  | c :: cs, h => by
    rw [rowsAll, kept_append, h c List.mem_cons_self,
      kept_rowsAll fun d hd => h d (List.mem_cons_of_mem _ hd), List.append_nil]

end Code

namespace Item

theorem mem_docs {settings : Settings} {doc : Option String} {deprecated : Option Deprecation}
    {c : Code} (h : c ∈ docs settings doc deprecated) : c = .line "///" ∨ ∃ t, c = .doc t := by
  unfold docs at h
  by_cases hdocs : settings.emitDocs = true
  · rw [if_neg (by simp [hdocs])] at h
    rcases List.mem_append.1 h with h | h
    · rw [Option.mem_toList, Option.map_eq_some_iff] at h
      obtain ⟨t, -, rfl⟩ := h
      exact .inr ⟨t, rfl⟩
    · rcases deprecated with _ | d
      · cases h
      · rcases List.mem_append.1 h with h | h
        · split_ifs at h
          · exact .inl (List.mem_singleton.1 h)
          · cases h
        · exact .inr ⟨_, List.mem_singleton.1 h⟩
  · rw [if_pos (by simpa using hdocs)] at h
    cases h

/-- What stands in front of a definition or a field are comments, whatever is said about it. -/
theorem alike_docs (a b : Settings) (d d' : Option String) (r r' : Option Deprecation) :
    Code.Alike (docs a d r) (docs b d' r') := by
  have hdocs : ∀ settings doc deprecated depth,
      kept (Code.rowsAll depth (docs settings doc deprecated)) = [] := by
    intro settings doc deprecated depth
    refine Code.kept_rowsAll fun c hc => ?_
    rcases mem_docs hc with rfl | ⟨t, rfl⟩
    · exact Code.kept_slashes depth
    · exact Code.kept_doc depth t
  intro depth
  rw [hdocs, hdocs]

end Item

/-! ## Items -/

section Items

variable (a b : Settings)

theorem EnumItem.armsFrom_undocumented : ∀ (fs : List Field) (seen : List UInt32),
    armsFrom seen (fs.map Field.undocumented) = armsFrom seen fs
  | [], _ => rfl
  | f :: fs, seen => by
    rw [List.map_cons, armsFrom, armsFrom, armsFrom_undocumented fs, armsFrom_undocumented fs]
    rfl

theorem EnumItem.alike_code (e : EnumItem) : Code.Alike (e.code a) (e.undocumented.code b) := by
  have harms : e.undocumented.arms = e.arms := by
    have h := armsFrom_undocumented (e.members.map (·.1)) []
    rw [List.map_map] at h
    rw [arms, undocumented, List.map_map]
    exact h
  have hmembers : Code.Alike (e.members.flatMap (memberCode a))
      (e.undocumented.members.flatMap (memberCode b)) := by
    rw [undocumented, List.flatMap_map]
    exact Code.Alike.flatMap (fun m => (Item.alike_docs a b _ _ _ _).append (.refl _)) _
  unfold code nameCode
  rw [harms]
  refine (Item.alike_docs a b _ _ _ _).append ?_
  refine .cons _ (.cons _ (.cons _ ?_))
  show Code.Alike ([_] ++ _) ([_] ++ _)
  refine .append (.braces ?_) (.refl _)
  have hempty : e.undocumented.members.isEmpty = e.members.isEmpty := by
    simp [undocumented]
  rw [hempty]
  exact (((Code.Alike.refl _).append hmembers).append (.refl _)).append (.refl _)

namespace RecordItem

theorem alike_shapeCode (r : RecordItem) :
    Code.Alike (r.shapeCode a) (r.undocumented.shapeCode b) := by
  have hfields : Code.Alike (r.fields.flatMap (r.fieldCode a))
      (r.undocumented.fields.flatMap (r.undocumented.fieldCode b)) := by
    rw [show r.undocumented.fields = r.fields.map ShapeField.undocumented from rfl,
      List.flatMap_map]
    exact Code.Alike.flatMap (fun f => (Item.alike_docs a b _ _ _ _).append (.refl _)) _
  have hempty : r.undocumented.fields.isEmpty = r.fields.isEmpty := by
    simp [undocumented]
  unfold shapeCode
  simp only []
  rw [hempty]
  refine (Item.alike_docs a b _ _ _ _).append (.cons _ ?_)
  split_ifs
  · exact .refl _
  · exact .braces hfields

theorem inherentCode_undocumented (r : RecordItem) :
    r.undocumented.inherentCode = r.inherentCode := by
  unfold inherentCode accessorsCode
  simp only [undocumented, List.map_map, List.flatMap_map, List.length_map, List.isEmpty_map]
  rfl

theorem alike_code (runtime : String) (r : RecordItem) :
    Code.Alike (r.code a runtime) (r.undocumented.code b runtime) := by
  unfold code
  rw [inherentCode_undocumented]
  exact ((alike_shapeCode a b r).append (.refl _)).append (.refl _)

end RecordItem

theorem Item.alike_code (runtime : String) (i : Item) :
    Code.Alike (i.code a runtime) (i.undocumented.code b runtime) := by
  cases i with
  | enum e => exact e.alike_code a b
  | record r => exact r.alike_code a b runtime

theorem alike_itemsCode (runtime : String) : ∀ items : List Item,
    Code.Alike (itemsCode a runtime items) (itemsCode b runtime (items.map Item.undocumented))
  | [] => .refl _
  | [i] => by
    rw [List.map_singleton, itemsCode_singleton, itemsCode_singleton]
    exact i.alike_code a b runtime
  | i :: j :: items => by
    have ih := alike_itemsCode runtime (j :: items)
    rw [List.map_cons] at ih
    rw [List.map_cons, List.map_cons, itemsCode_cons_cons, itemsCode_cons_cons]
    exact ((i.alike_code a b runtime).append (.refl _)).append ih

end Items

/-! ## Sources -/

namespace Schema

/-- The lines of a source that are not comments depend on those of the items, on the namespace and
on whether there is a module. -/
theorem kept_rowsAround {s u : Schema} {a b : Settings} {rows rows' : List (List Char)}
    (hscope : s.scope = u.scope) (hwrap : a.wrapScope = b.wrapScope)
    (hrows : kept rows = kept rows') :
    kept (s.rowsAround a rows) = kept (u.rowsAround b rows') := by
  have hmoved : ∀ depth, kept (moved depth rows) = kept (moved depth rows') := by
    intro depth
    rw [kept_moved, kept_moved, hrows]
  unfold rowsAround
  rw [← hscope, ← hwrap, kept_append, kept_append]
  congr 1
  rcases s.scope with _ | scope
  · exact hmoved 0
  · simp only []
    split_ifs
    · rw [kept_append, kept_append, ← List.singleton_append, kept_append, hmoved 1,
        ← kept_append, List.singleton_append]
    · exact hmoved 0

/-- Two schemas that differ in documentation, generated with settings that may differ in whether
it is shown, have sources with the same lines of code, or none and one error. The names in them
may be any texts. -/
theorem documentation_kept_out (s u : Schema) (a b : Settings)
    (hdefinitions : s.definitions.map Definition.undocumented
      = u.definitions.map Definition.undocumented)
    (hscope : s.scope = u.scope) (hpath : a.runtimePath = b.runtimePath)
    (hwrap : a.wrapScope = b.wrapScope) :
    (∃ x y, s.generate a = .ok x ∧ u.generate b = .ok y ∧ codeLines x = codeLines y)
      ∨ ∃ e, s.generate a = .error e ∧ u.generate b = .error e := by
  have hsame : s.undocumented = u.undocumented := by
    unfold undocumented
    simp only [hdefinitions, hscope]
  have hruntime : a.runtime = b.runtime := by rw [Settings.runtime, hpath, Settings.runtime]
  -- neither schema is a part of the other, but both have the items of one without documentation
  have hitems : (Target.items? ⟨s, a.runtime⟩).map (List.map Item.undocumented)
      = (Target.items? ⟨u, a.runtime⟩).map (List.map Item.undocumented) := by
    rw [← Target.items?_undocumented, ← Target.items?_undocumented, hsame]
  rw [generate_eq_joined, generate_eq_joined, ← hruntime]
  rcases hs : Target.items? ⟨s, a.runtime⟩ with e | items <;>
    rcases hu : Target.items? ⟨u, a.runtime⟩ with e' | items' <;> rw [hs, hu] at hitems
  · obtain rfl : e = e' := by simpa [Except.map] using hitems
    exact .inr ⟨e, rfl, rfl⟩
  · cases hitems
  · cases hitems
  · refine .inl ⟨_, _, rfl, rfl, ?_⟩
    have hmap : items.map Item.undocumented = items'.map Item.undocumented := by
      simpa [Except.map] using hitems
    have halike := alike_itemsCode a b a.runtime items
    rw [hmap] at halike
    have hcode := halike.trans (alike_itemsCode b b a.runtime items').symm
    rw [codeLines_joined, codeLines_joined, kept_rowsAround hscope hwrap (hcode 0)]

end Schema

namespace Logbook

/-- A message with a retired field and an enum, all of them with the same documentation. -/
def schema (text : Option String) : Schema where
  scope := some "harbor.log"
  definitions := [
    { name := "Entry", kind := .message, doc := text, fields := [
      { name := "depth", ty := .scalar .uint16, value := 1, doc := text },
      { name := "pilot", ty := .scalar .string, value := 2, doc := text,
        deprecated := some { reason := text } }] },
    { name := "Signal", kind := .enum, doc := text, fields := [
      { name := "half-mast", value := 1, doc := text, deprecated := some { reason := text } }] }]

/-- A text that would leave its comment, were its lines not comments one by one. -/
def escaping : String :=
  "*/ \x7d\r\npub fn main() \x7b \n\n  /// \"quoted\" \\ \x7d\r"

theorem escaping_kept_out : ∃ x y, (schema none).generate { emitDocs := false } = .ok x
    ∧ (schema escaping).generate {} = .ok y ∧ codeLines x = codeLines y := by
  have hok : ((schema none).generate { emitDocs := false }).isOk = true := by decide +kernel
  rcases Schema.documentation_kept_out (schema none) (schema escaping) { emitDocs := false } {}
    rfl rfl rfl rfl with h | ⟨e, he, -⟩
  · exact h
  · rw [he] at hok
    cases hok

end Logbook

end SchemaCodec

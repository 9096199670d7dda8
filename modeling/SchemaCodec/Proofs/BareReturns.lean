import SchemaCodec.Proofs.CarriageReturn
import SchemaCodec.Proofs.Documentation
import SchemaCodec.Proofs.Validity

/-!
# Carriage returns in comments

A line of a documentation ends at a line feed, or at a carriage return with a line feed behind it,
and is a comment of its own, without the blanks at its end. A carriage return elsewhere ends no
line, but it is blank, so it stays in the comment exactly if something that is not blank stands
behind it on its line (`Text.Bare`).

The comments of a source that shows documentation are for all the documentation of the schema, in
order (`Target.docTextsAll_items`). So if neither the names nor the path bring a carriage return, a
source has one exactly if some documentation that it shows is bare (`Schema.mem_generate_iff`).
-/

namespace SchemaCodec

open Text SourceText

/-! ## Texts -/

namespace Text

/-- On a line of the text, something that is not blank stands behind a carriage return. -/
def Bare (cs : List Char) : Prop :=
  ∃ l ∈ cs.splitOn '\n', ∃ c, isBlank c = false ∧ List.Sublist ['\r', c] l

theorem mem_trimEnd_iff {l : List Char} :
    '\r' ∈ trimEnd l ↔ ∃ c, isBlank c = false ∧ List.Sublist ['\r', c] l := by
  obtain ⟨gap, hgap, hl⟩ := exists_eq_trimEnd_append l
  constructor
  · intro h
    obtain ⟨t, c, ht, hc⟩ := exists_trimEnd_eq_concat (List.ne_nil_of_mem h)
    have hmem : '\r' ∈ t := by
      rw [ht, List.mem_append, List.mem_singleton] at h
      rcases h with h | rfl
      · exact h
      · exact absurd hc (by decide)
    have hsub : List.Sublist ['\r', c] (t ++ [c]) :=
      (List.singleton_sublist.2 hmem).append (.refl [c])
    rw [hl, ht]
    exact ⟨c, hc, hsub.trans (List.sublist_append_left _ _)⟩
  · rintro ⟨c, hc, h⟩
    rw [hl, List.sublist_append_iff] at h
    obtain ⟨a, b, hab, ha, hb⟩ := h
    rcases List.eq_nil_or_concat' b with rfl | ⟨b, d, rfl⟩
    · rw [List.append_nil] at hab
      exact ha.subset (hab ▸ List.mem_cons_self)
    · -- what is cut off is blank
      have hsplit : ['\r'] ++ [c] = (a ++ b) ++ [d] := by rw [List.append_assoc, ← hab]; rfl
      obtain rfl := (List.cons.inj (List.append_inj' hsplit rfl).2).1
      have hblank := hgap c (hb.subset (List.mem_append_right _ (List.mem_singleton_self _)))
      rw [hc] at hblank
      cases hblank

instance : DecidablePred Bare :=
  fun cs => decidable_of_iff (∃ l ∈ cs.splitOn '\n', '\r' ∈ trimEnd l) (by
    simp only [mem_trimEnd_iff, Bare])

theorem trimEnd_chomp (l : List Char) : trimEnd (chomp l) = trimEnd l := by
  rcases chomp_eq_or l with h | h
  · rw [h]
  · have hreturn : isBlank '\r' = true := by decide
    conv_rhs => rw [h, trimEnd, trimStart, List.reverse_concat,
      List.dropWhile_cons_of_pos hreturn]
    rfl

theorem getLast?_ne_of_chomp {l : List Char} (h : chomp l = l) : l.getLast? ≠ some '\r' := by
  intro hlast
  obtain ⟨t, rfl⟩ := List.getLast?_eq_some_iff.1 hlast
  rw [chomp, List.reverse_concat, dropReturn, List.reverse_reverse] at h
  simpa using congrArg List.length h

/-- A line of a text keeps a carriage return, trimmed, exactly if what its line feeds separate
does. -/
theorem exists_mem_linesFrom_iff : ∀ (cs : List Char) {acc : List Char}, '\n' ∉ acc →
    ((∃ l ∈ linesFrom acc cs, '\r' ∈ trimEnd l)
      ↔ ∃ l ∈ (acc.reverse ++ cs).splitOn '\n', '\r' ∈ trimEnd l)
  | [], acc, h => by
    rw [List.append_nil, List.splitOn_eq_singleton (mt List.mem_reverse.1 h), linesFrom]
    by_cases hacc : acc = []
    · simp [hacc, trimEnd, trimStart]
    · simp [hacc]
  | c :: cs, acc, h => by
    by_cases hc : c = '\n'
    · have hchomp : (dropReturn acc).reverse = chomp acc.reverse := by
        rw [chomp, List.reverse_reverse]
      rw [hc, linesFrom, List.splitOn_append_cons_self,
        List.splitOn_eq_singleton (mt List.mem_reverse.1 h), hchomp]
      simp [trimEnd_chomp, exists_mem_linesFrom_iff cs (List.not_mem_nil)]
    · rw [linesFrom, exists_mem_linesFrom_iff cs (by simp [h, Ne.symm hc])]
      · simp
      · exact hc

end Text

/-- A comment for a text has a carriage return exactly if the text is bare. -/
theorem exists_mem_docLines_iff {t : String} :
    (∃ l ∈ docLines t, '\r' ∈ l.toList) ↔ Bare t.toList := by
  have hline : ∀ l : List Char, '\r' ∈ (if (trimEnd l).isEmpty = true then "///"
      else "/// " ++ String.ofList (trimEnd l)).toList ↔ '\r' ∈ trimEnd l := by
    intro l
    split_ifs with hempty
    · simp [List.isEmpty_iff.1 hempty]
    · simp
  have hlines := exists_mem_linesFrom_iff t.toList List.not_mem_nil
  rw [List.reverse_nil, List.nil_append] at hlines
  simp only [docLines, List.mem_map, exists_exists_and_eq_and, hline, Bare, ← mem_trimEnd_iff]
  exact hlines

/-! ## Code -/

namespace Code

mutual

/-- The texts that stand in comments for a documentation. -/
def docTexts : Code → List String
  | line _ => []
  | blank => []
  | doc t => [t]
  | block _ body _ => docTextsAll body

def docTextsAll : List Code → List String
  | [] => []
  | c :: cs => c.docTexts ++ docTextsAll cs

end

@[simp] theorem docTexts_line (t : String) : (line t).docTexts = [] := by
  rw [docTexts]

@[simp] theorem docTexts_blank : blank.docTexts = [] := by
  rw [docTexts]

@[simp] theorem docTexts_doc (t : String) : (doc t).docTexts = [t] := by
  rw [docTexts]

@[simp] theorem docTexts_block (header : String) (body : List Code) (closer : String) :
    (block header body closer).docTexts = docTextsAll body := by
  rw [docTexts]

@[simp] theorem docTexts_braces (header : String) (body : List Code) :
    (braces header body).docTexts = docTextsAll body :=
  docTexts_block header body _

@[simp] theorem docTextsAll_nil : docTextsAll [] = [] := by
  rw [docTextsAll]

@[simp] theorem docTextsAll_cons (c : Code) (cs : List Code) :
    docTextsAll (c :: cs) = c.docTexts ++ docTextsAll cs := by
  rw [docTextsAll]

theorem docTextsAll_eq_flatMap (cs : List Code) : docTextsAll cs = cs.flatMap docTexts := by
  induction cs with
  | nil => simp
  | cons c cs ih => simp [ih]

@[simp] theorem docTextsAll_append (cs ds : List Code) :
    docTextsAll (cs ++ ds) = docTextsAll cs ++ docTextsAll ds := by
  simp [docTextsAll_eq_flatMap]

theorem docTextsAll_flatMap {α : Type} (f : α → List Code) (l : List α) :
    docTextsAll (l.flatMap f) = l.flatMap fun a => docTextsAll (f a) := by
  simp [docTextsAll_eq_flatMap, List.flatMap_assoc]

theorem docTextsAll_map {α : Type} (f : α → Code) (l : List α) :
    docTextsAll (l.map f) = l.flatMap fun a => (f a).docTexts := by
  simp [docTextsAll_eq_flatMap, List.flatMap_map]

mutual

/-- The comment for each of the texts is in the rows of the code. -/
theorem comment_isInfix_rows {t : String} (depth : Nat) : (c : Code) → t ∈ c.docTexts →
    ∃ n, (docLines t).map (fun l => indented n l.toList) <:+: rows depth c
  | line _, h => by simp at h
  | blank, h => by simp at h
  | doc u, h => by
    obtain rfl : t = u := by simpa using h
    exact ⟨depth, [], [], by simp [rows]⟩
  | block header body closer, h => by
    rw [docTexts_block] at h
    obtain ⟨n, hn⟩ := comment_isInfix_rowsAll (depth + 1) body h
    exact ⟨n, hn.trans ⟨[_], _, by rw [rows]; rfl⟩⟩

theorem comment_isInfix_rowsAll {t : String} (depth : Nat) : (cs : List Code) →
    t ∈ docTextsAll cs →
    ∃ n, (docLines t).map (fun l => indented n l.toList) <:+: rowsAll depth cs
  | [], h => by simp at h
  | c :: cs, h => by
    rw [docTextsAll_cons, List.mem_append] at h
    rw [rowsAll]
    rcases h with h | h
    · obtain ⟨n, hn⟩ := comment_isInfix_rows depth c h
      exact ⟨n, hn.trans (List.prefix_append _ _).isInfix⟩
    · obtain ⟨n, hn⟩ := comment_isInfix_rowsAll depth cs h
      exact ⟨n, hn.trans (List.suffix_append _ _).isInfix⟩

end

mutual

/-- Of code whose texts have no carriage return, only comments bring one. -/
theorem mem_joined_rows_iff (depth : Nat) : (c : Code) → c.Returnless →
    ('\r' ∈ joined (rows depth c) ↔ ∃ t ∈ c.docTexts, Bare t.toList)
  | line t, h => by
    have hrow : '\r' ∉ indented depth t.toList :=
      notMem_indented (by decide) (returnless_line.1 h)
    simp [rows, joined, hrow]
  | blank, _ => by simp [rows, joined]
  | doc t, _ => by
    rw [rows, docTexts_doc]
    simp [joined, mem_indented_iff, ← exists_mem_docLines_iff]
  | block header body closer, h => by
    obtain ⟨hheader, hbody, hcloser⟩ := returnless_block.1 h
    have hfirst : '\r' ∉ indented depth (opening header).toList :=
      notMem_indented (by decide) (notMem_opening hheader)
    have hlast : '\r' ∉ indented depth closer.toList := notMem_indented (by decide) hcloser
    rw [docTexts_block, ← mem_joined_rowsAll_iff (depth + 1) body hbody, rows]
    simp [joined, hfirst, hlast]

theorem mem_joined_rowsAll_iff (depth : Nat) : (cs : List Code) → ReturnlessAll cs →
    ('\r' ∈ joined (rowsAll depth cs) ↔ ∃ t ∈ docTextsAll cs, Bare t.toList)
  | [], _ => by simp [rowsAll, joined]
  | c :: cs, h => by
    rw [rowsAll, joined_append, List.mem_append, mem_joined_rows_iff depth c h.1,
      mem_joined_rowsAll_iff depth cs h.2]
    simp [or_and_right, exists_or]

end

end Code

/-! ## Items -/

/-- What the comment in front of a field says about its deprecation. -/
def Deprecation.paragraph (d : Deprecation) : String :=
  match d.reason with
  | some reason => "Deprecated: " ++ reason
  | none => "Deprecated."

def Field.documentation (f : Field) : List String :=
  f.doc.toList ++ (f.deprecated.map Deprecation.paragraph).toList

def Definition.documentation (d : Definition) : List String :=
  d.doc.toList ++ d.fields.flatMap Field.documentation

/-- The documentation of a schema, in the order in which a source shows it. -/
def Schema.documentation (s : Schema) : List String :=
  s.definitions.flatMap Definition.documentation

/-- What is shown of some documentation. -/
def Settings.shown (settings : Settings) (texts : List String) : List String :=
  if settings.emitDocs then texts else []

namespace Settings

variable (settings : Settings)

theorem shown_append (a b : List String) :
    settings.shown (a ++ b) = settings.shown a ++ settings.shown b := by
  unfold shown
  split_ifs <;> simp

theorem shown_flatMap {α : Type} (f : α → List String) (l : List α) :
    settings.shown (l.flatMap f) = l.flatMap fun a => settings.shown (f a) := by
  unfold shown
  split_ifs <;> simp

theorem mem_shown_iff {t : String} {texts : List String} :
    t ∈ settings.shown texts ↔ settings.emitDocs = true ∧ t ∈ texts := by
  unfold shown
  split_ifs with h <;> simp [h]

end Settings

open Code

section Silent

/-! Most code has no documentation. -/

variable (runtime : String)

@[simp] theorem Encoding.docTextsAll_code (e : Encoding) : docTextsAll (e.code runtime) = [] := by
  have hatom : ∀ o a, (atomLine o a).docTexts = [] := by
    rintro o (x | name) <;> simp [atomLine]
  induction e with
  | atom => simp [code, hatom]
  | bulk => simp [code]
  | record => simp [code]
  | array _ _ _ ih => simp [code, lengthLine, ih]
  | map _ _ _ _ _ ih => simp [code, lengthLine, hatom, ih]

@[simp] theorem Decoding.docTextsAll_code (e : Decoding) : docTextsAll (e.code runtime) = [] := by
  have hatom : ∀ o a, (atomLine o a).docTexts = [] := by
    rintro o (x | name) <;> simp [atomLine]
  induction e with
  | atom => simp [code, hatom]
  | bytes => simp [code]
  | record => simp [code]
  | array _ _ _ _ _ _ ih => simp [code, countLine, containerLine, ih]
  | map _ _ _ _ _ _ _ _ _ ih => simp [code, countLine, containerLine, hatom, ih]

@[simp] theorem RecordEncoding.docTexts_code (e : RecordEncoding) :
    (e.code runtime).docTexts = [] := by
  rw [code, docTexts_braces]
  match e with
  | .struct [] => simp [body]
  | .struct (f :: fs) => simp [body, docTextsAll_flatMap]
  | .message fs =>
    have hfields : ∀ f : TaggedEncoding, (f.code runtime).docTexts = [] := by
      simp [TaggedEncoding.code]
    simp [body, docTextsAll_eq_flatMap, hfields]

@[simp] theorem RecordDecoding.docTexts_code (e : RecordDecoding) :
    (e.code runtime).docTexts = [] := by
  rw [code, docTexts_braces]
  match e with
  | .struct [] => simp [body]
  | .struct (f :: fs) => simp [body, docTextsAll_flatMap, docTextsAll_map]
  | .message [] => simp [body]
  | .message (f :: fs) => simp [body, docTextsAll_map, TaggedDecoding.code]

@[simp] theorem Item.docTexts_opcodeLine (n : UInt32) : (opcodeLine n).docTexts = [] := by
  simp [opcodeLine]

@[simp] theorem Item.docTexts_implementation (what type header : String) (body : List Code) :
    (implementation what type header body).docTexts = docTextsAll body := by
  simp [implementation]

@[simp] theorem EnumItem.docTexts_nameCode (e : EnumItem) : e.nameCode.docTexts = [] := by
  simp [nameCode, docTextsAll_map, armCode]

@[simp] theorem RecordItem.docTextsAll_inherentCode (r : RecordItem) :
    docTextsAll r.inherentCode = [] := by
  have hgetter : ∀ f : ShapeField, (f.getterCode r.definition.kind).docTexts = [] := by
    intro f
    unfold ShapeField.getterCode
    split <;> simp
  have haccessors : docTextsAll r.accessorsCode = [] := by
    unfold accessorsCode
    split_ifs <;> simp [docTextsAll_flatMap, hgetter]
  have hconstant : docTextsAll (r.definition.opcode.map Item.opcodeLine).toList = [] := by
    cases r.definition.opcode <;> simp
  unfold inherentCode
  simp only []
  split_ifs <;> simp [haccessors, hconstant]

end Silent

variable {settings : Settings} {runtime : String}

@[simp] theorem Item.docTextsAll_docs (doc : Option String) (deprecated : Option Deprecation) :
    docTextsAll (docs settings doc deprecated)
      = settings.shown (doc.toList ++ (deprecated.map Deprecation.paragraph).toList) := by
  unfold docs Settings.shown
  by_cases hdocs : settings.emitDocs = true
  · rw [if_neg (by simp [hdocs]), if_pos hdocs, docTextsAll_append]
    congr 1
    · cases doc <;> simp
    · rcases deprecated with _ | ⟨_ | reason⟩
      · simp
      · split_ifs <;> simp [Deprecation.paragraph]
      · split_ifs <;> simp [Deprecation.paragraph]
  · simp [hdocs]

/-- The comments of an enum are its documentation. -/
theorem EnumItem.docTextsAll_code {d : Definition} {e : EnumItem} (h : ofDefinition? d = .ok e) :
    docTextsAll (e.code settings) = settings.shown d.documentation := by
  simp only [ofDefinition?, bind_eq_ok, pure_eq_ok] at h
  obtain ⟨_, -, _, -, rfl⟩ := h
  rw [Definition.documentation, Settings.shown_append, Settings.shown_flatMap]
  unfold code
  cases d.opcode <;> dsimp only <;> split_ifs <;>
    simp [docTextsAll_flatMap, List.flatMap_map, memberCode, Field.documentation]

theorem RecordItem.docTextsAll_code {s : Schema} {d : Definition} {r : RecordItem}
    (h : ofDefinition? ⟨s, runtime⟩ d = .ok r) :
    docTextsAll (r.code settings runtime) = settings.shown d.documentation := by
  simp only [ofDefinition?, bind_eq_ok, pure_eq_ok] at h
  obtain ⟨_, -, fields, hfields, _, -, _, -, rfl⟩ := h
  have hshape : fields.map (·.field) = d.fields := by
    have hmap := congrArg (List.map Prod.fst) (fields_of_shape? hfields)
    simpa [List.map_map, Function.comp_def] using hmap
  rw [Definition.documentation, Settings.shown_append, Settings.shown_flatMap, ← hshape,
    List.flatMap_map]
  unfold code shapeCode
  dsimp only
  split_ifs with hempty
  · simp [List.isEmpty_iff.1 hempty]
  · simp [docTextsAll_flatMap, fieldCode, Field.documentation]

theorem Item.docTextsAll_code {s : Schema} {d : Definition} {i : Item}
    (h : ofDefinition? ⟨s, runtime⟩ d = .ok i) :
    docTextsAll (i.code settings runtime) = settings.shown d.documentation := by
  unfold ofDefinition? at h
  split at h <;> simp only [bind_eq_ok, pure_eq_ok] at h <;> obtain ⟨_, hitem, rfl⟩ := h
  · exact EnumItem.docTextsAll_code hitem
  all_goals exact RecordItem.docTextsAll_code hitem

theorem docTextsAll_itemsCode : ∀ items : List Item,
    docTextsAll (itemsCode settings runtime items)
      = items.flatMap fun i => docTextsAll (i.code settings runtime)
  | [] => by simp [itemsCode]
  | [i] => by simp [itemsCode_singleton]
  | i :: j :: items => by
    have ih := docTextsAll_itemsCode (j :: items)
    rw [itemsCode_cons_cons, docTextsAll_append, docTextsAll_append, ih]
    simp

theorem Target.docTextsAll_items {s : Schema} {items : List Item}
    (h : Target.items? ⟨s, runtime⟩ = .ok items) :
    docTextsAll (itemsCode settings runtime items) = settings.shown s.documentation := by
  simp only [items?, bind_eq_ok, mapM_eq_ok] at h
  obtain ⟨_, -, h⟩ := h
  rw [docTextsAll_itemsCode, Schema.documentation, Settings.shown_flatMap]
  generalize s.definitions = ds at h
  induction h with
  | nil => rfl
  | cons hitem _ ih =>
    rw [List.flatMap_cons, List.flatMap_cons, ih,
      Item.docTextsAll_code (Program.item?_eq_ok.1 hitem)]

/-! ## Sources -/

theorem isInfix_pieces {a b : List (List Char)} (h : a <:+: b) : pieces a <:+: pieces b := by
  obtain ⟨before, after, rfl⟩ := h
  refine ⟨pieces before, pieces after, ?_⟩
  rw [pieces_append, pieces_append]

theorem isInfix_moved {a b : List (List Char)} (h : a <:+: b) (depth : Nat) :
    moved depth a <:+: moved depth b :=
  (isInfix_pieces h).map _

/-- A comment that is written again further in is the comment. -/
theorem moved_comment (m n : Nat) (t : String) :
    moved m ((docLines t).map fun l => indented n l.toList)
      = (docLines t).map fun l => indented (m + n) l.toList := by
  rw [moved, pieces_comment, List.map_map]
  refine List.map_congr_left fun l hl => ?_
  rw [Function.comp_apply, chomp_comment hl, indented_indented]

/-- Where no line ends in a carriage return, none is lost. -/
theorem mem_joined_moved_iff {rows : List (List Char)} (h : ∀ l ∈ pieces rows, chomp l = l)
    (depth : Nat) : '\r' ∈ joined (moved depth rows) ↔ '\r' ∈ joined rows := by
  have hmoved : moved depth rows = (pieces rows).map (indented depth) :=
    List.map_congr_left fun l hl => congrArg _ (h l hl)
  rw [hmoved, ← joined_pieces rows]
  simp [joined, mem_indented_iff]

namespace Schema

variable {s : Schema} {source : String}

theorem exists_moved_isInfix (s : Schema) (settings : Settings) (rows : List (List Char)) :
    ∃ depth, moved depth rows <:+: s.rowsAround settings rows := by
  unfold rowsAround
  split
  · split_ifs
    · exact ⟨1, List.IsInfix.trans ⟨[_], _, rfl⟩ (List.suffix_append _ _).isInfix⟩
    · exact ⟨0, (List.suffix_append _ _).isInfix⟩
  · exact ⟨0, (List.suffix_append _ _).isInfix⟩

theorem mem_joined_rowsAround_iff {rows : List (List Char)} (h : ∀ l ∈ pieces rows, chomp l = l)
    (hscope : ∀ scope, s.scope = some scope → '\r' ∉ scope.toList) :
    '\r' ∈ joined (s.rowsAround settings rows) ↔ '\r' ∈ joined rows := by
  have hheader : '\r' ∉ joined [generatedHeader.toList, []] := by decide
  unfold rowsAround
  rw [joined_append, List.mem_append, or_iff_right hheader]
  split
  · rename_i scope hs
    have hopening : '\r' ∉ (opening ("pub mod " ++ Identifier.ofModule scope)).toList :=
      notMem_opening (by simp [Identifier.notMem_ofModule (by decide) (.inr (hscope scope hs))])
    split_ifs
    · have hnil : joined [] = [] := rfl
      simp [joined_cons, hnil, hopening, mem_joined_moved_iff h]
    · exact mem_joined_moved_iff h 0
  · exact mem_joined_moved_iff h 0

/-- The comments for a documentation stand in a source that shows it. -/
theorem comment_isInfix {settings : Settings} (h : s.generate settings = .ok source)
    (hdocs : settings.emitDocs = true) {t : String} (ht : t ∈ s.documentation) :
    ∃ depth, (docLines t).map (fun l => indented depth l.toList) <:+: source.toList.splitOn '\n' := by
  rw [generate_eq_joined] at h
  obtain ⟨items, hitems, rfl⟩ := map_eq_ok.1 h
  have hshown : t ∈ Code.docTextsAll (itemsCode settings settings.runtime items) := by
    rw [Target.docTextsAll_items hitems, Settings.mem_shown_iff]
    exact ⟨hdocs, ht⟩
  obtain ⟨n, hrows⟩ := Code.comment_isInfix_rowsAll 0 _ hshown
  obtain ⟨depth, hmoved⟩ := s.exists_moved_isInfix settings
    (Code.rowsAll 0 (itemsCode settings settings.runtime items))
  have hsource := (isInfix_pieces (isInfix_moved hrows depth)).trans (isInfix_pieces hmoved)
  rw [moved_comment, pieces_comment] at hsource
  rw [String.toList_ofList, splitOn_joined]
  exact ⟨depth + n, hsource.trans (List.prefix_append _ _).isInfix⟩

/-- Where neither names nor paths bring carriage returns, only documentation does. -/
theorem mem_generate_iff {settings : Settings} (h : s.generate settings = .ok source)
    (ht : (Target.mk s settings.runtime).Returnless)
    (hscope : ∀ scope, s.scope = some scope → '\r' ∉ scope.toList) :
    '\r' ∈ source.toList ↔ settings.emitDocs = true ∧ ∃ t ∈ s.documentation, Bare t.toList := by
  rw [generate_eq_joined] at h
  obtain ⟨items, hitems, rfl⟩ := map_eq_ok.1 h
  have hcode := ht.itemsCode settings hitems
  rw [String.toList_ofList, mem_joined_rowsAround_iff (Code.chomp_rowsAll 0 _ hcode) hscope,
    Code.mem_joined_rowsAll_iff 0 _ hcode, Target.docTextsAll_items hitems]
  simp only [Settings.mem_shown_iff, and_assoc, exists_and_left]

/-- A documentation stands in a source that shows it, one comment below the other for the lines of
its text. None of the comments has a line feed or ends in a carriage return, but one of them has a
carriage return in it if the text is bare, and only then. Where the names and the path bring no
carriage return, a source has one exactly if it shows some documentation that is bare. -/
theorem comments_exact {settings : Settings} (h : s.generate settings = .ok source) :
    (settings.emitDocs = true → ∀ t ∈ s.documentation,
      (∃ depth, (docLines t).map (fun l => indented depth l.toList)
          <:+: source.toList.splitOn '\n')
        ∧ (∀ l ∈ docLines t, isComment l.toList = true ∧ '\n' ∉ l.toList
          ∧ l.toList.getLast? ≠ some '\r')
        ∧ ((∃ l ∈ docLines t, '\r' ∈ l.toList) ↔ Bare t.toList))
    ∧ ((∀ d ∈ s.definitions, d.Returnless) → '\r' ∉ settings.runtimePath.toList →
      (∀ scope, s.scope = some scope → '\r' ∉ scope.toList) →
      ('\r' ∈ source.toList
        ↔ settings.emitDocs = true ∧ ∃ t ∈ s.documentation, Bare t.toList)) := by
  constructor
  · intro hdocs t ht
    refine ⟨comment_isInfix h hdocs ht, fun l hl => ?_, exists_mem_docLines_iff⟩
    have hchomp : chomp (indented 0 l.toList) = indented 0 l.toList := chomp_comment hl
    rw [indented_zero] at hchomp
    exact ⟨Code.comment_of_mem_docLines hl, notMem_of_mem_docLines hl, getLast?_ne_of_chomp hchomp⟩
  · intro hnames hpath hscope
    exact mem_generate_iff h ⟨Settings.notMem_runtime hpath, hnames⟩ hscope

end Schema

namespace Logbook

theorem returnless (text : Option String) : ∀ d ∈ (schema text).definitions, d.Returnless := by
  simp [schema, Definition.Returnless]

/-- A carriage return inside a line stays in the comment for the line. -/
theorem broken_comment : ∃ source, (schema "half\rmast").generate {} = .ok source
    ∧ ∃ l ∈ source.toList.splitOn '\n', isComment l = true ∧ '\r' ∈ l := by
  have hok : ((schema "half\rmast").generate {}).isOk = true := by decide +kernel
  obtain ⟨source, hsource⟩ := succeeds_of_isOk hok
  obtain ⟨depth, hlines⟩ := Schema.comment_isInfix hsource rfl
    (t := "half\rmast") List.mem_cons_self
  obtain ⟨l, hl, hreturn⟩ := exists_mem_docLines_iff.2 (by decide : Bare "half\rmast".toList)
  refine ⟨source, hsource, indented depth l.toList, ?_, ?_, ?_⟩
  · exact hlines.subset (List.mem_map_of_mem hl)
  · rw [isComment_indented]
    exact Code.comment_of_mem_docLines hl
  · exact (mem_indented_iff (by decide)).2 hreturn

/-- Carriage returns at the end of a line are lost, one inside a line is not. -/
theorem bare_shown : ∃ x y, (schema "half\rmast").generate {} = .ok x ∧ '\r' ∈ x.toList
    ∧ (schema "half \r\nmast\r").generate {} = .ok y ∧ '\r' ∉ y.toList := by
  have hok : ∀ text ∈ ["half\rmast", "half \r\nmast\r"],
      ((schema text).generate {}).isOk = true := by decide +kernel
  obtain ⟨x, hx⟩ := succeeds_of_isOk (hok "half\rmast" (by simp))
  obtain ⟨y, hy⟩ := succeeds_of_isOk (hok "half \r\nmast\r" (by simp))
  have hpath : '\r' ∉ ({} : Settings).runtimePath.toList := by decide
  have hscope : ∀ text scope, (schema text).scope = some scope → '\r' ∉ scope.toList := by
    rintro text _ ⟨⟩
    decide
  have hclean : ∀ t ∈ (schema "half \r\nmast\r").documentation, ¬ Bare t.toList := by
    decide +kernel
  refine ⟨x, y, hx, ?_, hy, ?_⟩
  · rw [(Schema.comments_exact hx).2 (returnless _) hpath (hscope _)]
    exact ⟨rfl, "half\rmast", List.mem_cons_self, by decide⟩
  · rw [(Schema.comments_exact hy).2 (returnless _) hpath (hscope _)]
    exact fun ⟨_, t, ht, hbare⟩ => absurd hbare (hclean t ht)

end Logbook

end SchemaCodec

import SchemaCodec.Proofs.CarriageReturn
import SchemaCodec.Proofs.Refusal

/-!
# A source from the sources of its definitions

The source of a schema is put together from the sources of its definitions (`Schema.assemble`):
they stand below the header, in the order of the definitions, with a blank line between them, and a
module around them moves their lines four spaces further in. Generating the whole schema is the same
as generating one definition after the other (`Schema.generate_assembled`), provided that no name
and no path brings a carriage return, which would be lost at the end of a line.
-/

namespace SchemaCodec

open List (Forall₂)
open Code (ReturnlessAll rowsAll)
open SourceText (indented moved opening)
open Text

namespace Text

/-- A text whose lines stand four spaces further in; an empty line stays empty. -/
def furtherIn (text : String) : String :=
  String.ofList (['\n'].intercalate ((text.toList.splitOn '\n').map fun l =>
    if l = [] then [] else "    ".toList ++ l))

theorem moved_eq {rows : List (List Char)} (h : ∀ l ∈ pieces rows, chomp l = l) (depth : Nat) :
    moved depth rows = (pieces rows).map (indented depth) :=
  List.map_congr_left fun l hl => by rw [h l hl]

theorem joined_moved_zero {rows : List (List Char)} (h : ∀ l ∈ pieces rows, chomp l = l) :
    joined (moved 0 rows) = joined rows := by
  have hzero : indented 0 = id := funext SourceText.indented_zero
  rw [moved_eq h, hzero, List.map_id, joined_pieces]

theorem joined_moved_one {rows : List (List Char)} (h : ∀ l ∈ pieces rows, chomp l = l) :
    joined (moved 1 rows) = (furtherIn (String.ofList (joined rows))).toList := by
  have hline : ∀ l : List Char, (if l = [] then [] else "    ".toList ++ l) = indented 1 l := by
    intro l
    simp [indented, SourceText.indentation]
  unfold furtherIn
  simp only [hline]
  rw [moved_eq h, String.toList_ofList, String.toList_ofList, splitOn_joined, List.map_append,
    ← intercalate_concat_nil]
  rfl

end Text

namespace Schema

/-- The source of a schema whose definitions have these sources. -/
def assemble (s : Schema) (settings : Settings) (texts : List String) : String :=
  let body := "\n".intercalate texts
  generatedHeader ++ "\n\n" ++
    match s.scope with
    | some scope =>
      if settings.wrapScope then
        "pub mod " ++ Identifier.ofModule scope ++ " \x7b\n" ++ Text.furtherIn body ++ "\x7d\n"
      else body
    | none => body

/-- Where no line ends in a carriage return, the rows of a source are those of its texts. -/
theorem joined_rowsAround (s : Schema) (settings : Settings) {rows : List (List Char)}
    {texts : List String} (h : ∀ l ∈ pieces rows, chomp l = l)
    (htexts : ("\n".intercalate texts).toList = joined rows) :
    String.ofList (joined (s.rowsAround settings rows)) = s.assemble settings texts := by
  have hbody : String.ofList (joined rows) = "\n".intercalate texts := by
    rw [← htexts, String.ofList_toList]
  have hheader : ∀ rest, String.ofList (joined ([generatedHeader.toList, []] ++ rest))
      = generatedHeader ++ "\n\n" ++ String.ofList (joined rest) := by
    intro rest
    refine String.toList_inj.1 ?_
    simp [joined]
  have hplain : String.ofList (joined (moved 0 rows)) = "\n".intercalate texts := by
    rw [joined_moved_zero h, hbody]
  have hmodule : ∀ scope, String.ofList (joined ((opening ("pub mod " ++ scope)).toList
        :: moved 1 rows ++ [['\x7d']]))
      = "pub mod " ++ scope ++ " \x7b\n" ++ furtherIn ("\n".intercalate texts) ++ "\x7d\n" := by
    intro scope
    refine String.toList_inj.1 ?_
    rw [← hbody, List.cons_append, joined_cons, joined_append, joined_moved_one h]
    simp [opening, joined]
  unfold rowsAround assemble
  rw [hheader]
  congr 1
  rcases s.scope with _ | scope
  · exact hplain
  · simp only []
    split_ifs
    · exact hmodule _
    · exact hplain

end Schema

/-- The text of some items is their texts with a blank line between them. -/
theorem toList_intercalate_text (settings : Settings) (runtime : String) : ∀ items : List Item,
    ("\n".intercalate (items.map fun i => Code.text (i.code settings runtime))).toList
      = joined (rowsAll 0 (itemsCode settings runtime items))
  | [] => by simp [itemsCode, rowsAll, joined]
  | [i] => by simp [itemsCode_singleton, Code.toList_text]
  | i :: j :: items => by
    have ih := toList_intercalate_text settings runtime (j :: items)
    rw [String.toList_intercalate] at ih ⊢
    simp only [List.map_cons, List.intercalate_cons_cons] at ih ⊢
    rw [ih, itemsCode_cons_cons, Code.rowsAll_append, Code.rowsAll_append, joined_append,
      joined_append, Code.toList_text]
    rfl

theorem mapM_congr {α β : Type} {f g : α → Except GenerateError β} :
    ∀ {l : List α}, (∀ a ∈ l, f a = g a) → l.mapM f = l.mapM g
  | [], _ => rfl
  | a :: l, h => by
    obtain ⟨ha, hl⟩ := List.forall_mem_cons.1 h
    rw [List.mapM_cons, List.mapM_cons, ha, mapM_congr hl]

/-- A run of checks fails where the first of them does. -/
theorem mapM_eq_error {α β : Type} (f : α → Except GenerateError β) {a : α} (after : List α)
    {e : GenerateError} (ha : f a = .error e) : ∀ {before : List α},
    (∀ b ∈ before, Succeeds (f b)) → (before ++ a :: after).mapM f = .error e
  | [], _ => by
    rw [List.nil_append, List.mapM_cons, ha]
    rfl
  | b :: before, h => by
    obtain ⟨⟨x, hx⟩, hbefore⟩ := List.forall_mem_cons.1 h
    rw [List.cons_append, List.mapM_cons, hx, bind_eq_error]
    exact .inr ⟨x, rfl, bind_eq_error.2 (.inl (mapM_eq_error f after ha hbefore))⟩

namespace Schema

variable {s : Schema} {settings : Settings}

/-- The source of a schema is put together from the texts of its items. -/
theorem generate_eq_assemble (ht : (Target.mk s settings.runtime).Returnless) :
    s.generate settings = (Target.items? ⟨s, settings.runtime⟩).map fun items =>
      s.assemble settings (items.map fun i => Code.text (i.code settings settings.runtime)) := by
  rw [generate_eq_joined]
  rcases hitems : Target.items? ⟨s, settings.runtime⟩ with e | items
  · rfl
  · refine congrArg Except.ok (joined_rowsAround s settings ?_ (toList_intercalate_text _ _ items))
    exact Code.chomp_rowsAll 0 _ (ht.itemsCode settings hitems)

theorem generateDefinition_eq {d : Definition} (hd : d ∈ s.definitions) :
    s.generateDefinition d.name settings
      = (Target.item? ⟨s, settings.runtime⟩ d).map fun i =>
          Code.text (i.code settings settings.runtime) := by
  unfold generateDefinition
  simp only [get?_eq_some_iff.2 ⟨hd, rfl⟩]
  cases Target.item? ⟨s, settings.runtime⟩ d <;> rfl

/-- With distinct identifiers, the definitions are generated one after the other. -/
theorem generate_eq_mapM (ht : (Target.mk s settings.runtime).Returnless) (hs : s.Distinct) :
    s.generate settings
      = (s.definitions.mapM fun d => s.generateDefinition d.name settings).map
          (s.assemble settings) := by
  have hcheck : Item.checkIdentifiers []
      (s.definitions.map fun d => (d.name, Identifier.ofType d.name)) = .ok () :=
    Target.checkIdentifiers_definitions.2 hs
  have htexts : (s.definitions.mapM fun d => s.generateDefinition d.name settings)
      = s.definitions.mapM fun d => (Target.item? ⟨s, settings.runtime⟩ d).map fun i =>
          Code.text (i.code settings settings.runtime) :=
    mapM_congr fun d hd => generateDefinition_eq hd
  -- both sides are now a function of the items, which are there or not
  rw [generate_eq_assemble ht, htexts, mapM_map_result, Target.items?, hcheck]
  show Except.map _ (s.definitions.mapM (Target.item? ⟨s, settings.runtime⟩)) = _
  cases s.definitions.mapM (Target.item? ⟨s, settings.runtime⟩) <;> rfl

theorem distinct_of_generate {source : String} (h : s.generate settings = .ok source) :
    s.Distinct := by
  simp only [generate, Target.items?, bind_eq_ok] at h
  obtain ⟨_, ⟨_, hcheck, -⟩, -⟩ := h
  exact Target.checkIdentifiers_definitions.1 hcheck

/-- Generating the whole schema is generating its definitions one after the other. A source is put
together from theirs; where the identifiers are distinct there is one if each of them has a source,
and otherwise the first that has none gives the error. Only carriage returns in the names and in the
path are ruled out: a name may have line feeds, and the namespace may be any text. -/
theorem generate_assembled (s : Schema) (settings : Settings)
    (hnames : ∀ d ∈ s.definitions, d.Returnless) (hpath : '\r' ∉ settings.runtimePath.toList) :
    (∀ source, s.generate settings = .ok source → ∃ texts,
      Forall₂ (fun text d => s.generateDefinition d.name settings = .ok text) texts s.definitions
        ∧ source = s.assemble settings texts)
    ∧ (s.Distinct → (∀ d ∈ s.definitions, Succeeds (s.generateDefinition d.name settings)) →
      Succeeds (s.generate settings))
    ∧ (s.Distinct → ∀ before d after e, s.definitions = before ++ d :: after →
      (∀ c ∈ before, Succeeds (s.generateDefinition c.name settings)) →
      s.generateDefinition d.name settings = .error e → s.generate settings = .error e) := by
  have ht : (Target.mk s settings.runtime).Returnless :=
    ⟨Settings.notMem_runtime hpath, hnames⟩
  refine ⟨fun source h => ?_, fun hs h => ?_, fun hs before d after e hsplit hbefore hd => ?_⟩
  · rw [generate_eq_mapM ht (distinct_of_generate h)] at h
    rcases htexts : s.definitions.mapM fun d => s.generateDefinition d.name settings with e | texts
    · rw [htexts] at h
      cases h
    · rw [htexts] at h
      exact ⟨texts, mapM_eq_ok.1 htexts, (Except.ok.inj h).symm⟩
  · obtain ⟨texts, htexts⟩ := succeeds_mapM.2 h
    rw [generate_eq_mapM ht hs, htexts]
    exact ⟨_, rfl⟩
  · have hfirst := mapM_eq_error
      (fun d : Definition => s.generateDefinition d.name settings) after hd hbefore
    rw [generate_eq_mapM ht hs, hsplit, hfirst]
    rfl

end Schema

namespace Ferry

/-- An enum, and a message whose field has the tag. -/
def schema (tag : UInt32) : Schema where
  scope := some "north.sea"
  definitions := [
    { name := "Deck", kind := .enum,
      doc := some "Where the cars stand.\r\n\nNot more than \x7b two rows \x7d \r",
      fields := [{ name := "upper", value := 1 }] },
    { name := "Crossing", kind := .message, fields := [
      { name := "harbour", ty := .scalar .string, value := tag }] }]

theorem returnless (tag : UInt32) : ∀ d ∈ (schema tag).definitions, d.Returnless := by
  simp [schema, Definition.Returnless]

theorem distinct (tag : UInt32) : (schema tag).Distinct := by
  have hne : Identifier.ofType "Deck" ≠ Identifier.ofType "Crossing" := by decide +kernel
  simp [Schema.Distinct, schema, hne, hne.symm]

/-- The source of the schema is its two parts, and without a tag it is the error of the second. -/
theorem assembled : (∃ a b, (schema 1).generateDefinition "Deck" {} = .ok a
      ∧ (schema 1).generateDefinition "Crossing" {} = .ok b
      ∧ (schema 1).generate {} = .ok ((schema 1).assemble {} [a, b]))
    ∧ (schema 0).generate {} = .error (.inDefinition "Crossing" (.invalidTag "harbour" 0)) := by
  have hpath : '\r' ∉ ({} : Settings).runtimePath.toList := by decide
  constructor
  · have h := Schema.generate_assembled (schema 1) {} (returnless 1) hpath
    have hok : ∀ d ∈ (schema 1).definitions,
        ((schema 1).generateDefinition d.name {}).isOk = true := by decide +kernel
    obtain ⟨source, hsource⟩ := h.2.1 (distinct 1) fun d hd => succeeds_of_isOk (hok d hd)
    obtain ⟨texts, htexts, rfl⟩ := h.1 source hsource
    rcases htexts with _ | ⟨ha, _ | ⟨hb, _ | _⟩⟩
    exact ⟨_, _, ha, hb, hsource⟩
  · have h := Schema.generate_assembled (schema 0) {} (returnless 0) hpath
    have hok : ((schema 0).generateDefinition "Deck" {}).isOk = true := by decide +kernel
    refine h.2.2 (distinct 0) [_] _ [] _ rfl ?_ ?_
    · exact List.forall_mem_singleton.2 (succeeds_of_isOk hok)
    · decide +kernel

end Ferry

end SchemaCodec

import SchemaCodec.Proofs.Composition
import SchemaCodec.Proofs.Rows

/-!
# Carriage returns

Where the texts of some code have no carriage return, comments apart (`Code.ReturnlessAll`), no line
of it ends in one, for the lines of a comment are trimmed (`Code.chomp_rowsAll`). The code of a
schema has none if no name and not the path of the library has one (`Target.Returnless.itemsCode`).
-/

namespace SchemaCodec

open Text

namespace Code

open SourceText

mutual

/-- No text of the code has a carriage return, comments apart. -/
def Returnless : Code → Prop
  | line t => '\r' ∉ t.toList
  | blank => True
  | doc _ => True
  | block header body closer =>
    '\r' ∉ header.toList ∧ ReturnlessAll body ∧ '\r' ∉ closer.toList

def ReturnlessAll : List Code → Prop
  | [] => True
  | c :: cs => Returnless c ∧ ReturnlessAll cs

end

@[simp] theorem returnless_line {t : String} : (line t).Returnless ↔ '\r' ∉ t.toList := by
  rw [Returnless]

@[simp] theorem returnless_blank : blank.Returnless := by
  rw [Returnless]
  trivial

@[simp] theorem returnless_doc (t : String) : (doc t).Returnless := by
  rw [Returnless]
  trivial

@[simp] theorem returnless_block {header closer : String} {body : List Code} :
    (block header body closer).Returnless
      ↔ '\r' ∉ header.toList ∧ ReturnlessAll body ∧ '\r' ∉ closer.toList := by
  rw [Returnless]

@[simp] theorem returnlessAll_nil : ReturnlessAll [] := by
  rw [ReturnlessAll]
  trivial

@[simp] theorem returnlessAll_cons {c : Code} {cs : List Code} :
    ReturnlessAll (c :: cs) ↔ c.Returnless ∧ ReturnlessAll cs := by
  rw [ReturnlessAll]

theorem returnlessAll_iff {cs : List Code} : ReturnlessAll cs ↔ ∀ c ∈ cs, c.Returnless := by
  induction cs with
  | nil => simp
  | cons c cs ih => rw [returnlessAll_cons, ih, List.forall_mem_cons]

@[simp] theorem returnlessAll_append {cs ds : List Code} :
    ReturnlessAll (cs ++ ds) ↔ ReturnlessAll cs ∧ ReturnlessAll ds := by
  simp only [returnlessAll_iff, List.forall_mem_append]

theorem notMem_opening {header : String} (h : '\r' ∉ header.toList) :
    '\r' ∉ (opening header).toList := by
  unfold opening
  split_ifs <;> simp [h]

/-- The lines of a row have only the characters of the row. -/
theorem chomp_row {depth : Nat} {t : String} (h : '\r' ∉ t.toList) :
    ∀ l ∈ pieces [indented depth t.toList], chomp l = l := by
  have hrow : '\r' ∉ joined [indented depth t.toList] := by
    simp [joined, notMem_indented (by decide) h]
  intro l hl
  refine chomp_of_notMem fun hr => hrow ?_
  rw [← joined_pieces]
  exact List.mem_flatMap.2 ⟨l, hl, List.mem_append_left _ hr⟩

theorem chomp_append_trimEnd (a : List Char) {l : List Char} (h : trimEnd l ≠ []) :
    chomp (a ++ trimEnd l) = a ++ trimEnd l := by
  obtain ⟨t, c, ht, hblank⟩ := exists_trimEnd_eq_concat h
  rcases chomp_eq_or (a ++ trimEnd l) with hchomp | hchomp
  · exact hchomp
  · rw [ht, ← List.append_assoc] at hchomp
    obtain rfl := (List.cons.inj (List.append_inj' hchomp rfl).2).1
    exact absurd hblank (by decide)

theorem pieces_comment (depth : Nat) (t : String) :
    pieces ((docLines t).map fun l => indented depth l.toList)
      = (docLines t).map fun l => indented depth l.toList := by
  refine pieces_eq_self (List.forall_mem_map.2 fun l hl => ?_)
  exact notMem_indented (by decide) (notMem_of_mem_docLines hl)

/-- The lines of a documentation are trimmed. -/
theorem chomp_comment {depth : Nat} {t l : String} (h : l ∈ docLines t) :
    chomp (indented depth l.toList) = indented depth l.toList := by
  obtain ⟨line, -, rfl⟩ := List.mem_map.1 h
  simp only []
  split_ifs with hempty
  · exact chomp_of_notMem (notMem_indented (by decide) (by decide))
  · have hne : trimEnd line ≠ [] := by simpa using hempty
    have hsplit : indented depth ("/// " ++ String.ofList (trimEnd line)).toList
        = (indentation depth).toList ++ "/// ".toList ++ trimEnd line := by
      simp [indented]
    rw [hsplit, chomp_append_trimEnd _ hne]

mutual

theorem chomp_rows (depth : Nat) : (c : Code) → c.Returnless →
    ∀ l ∈ pieces (rows depth c), chomp l = l
  | line t, h => chomp_row (returnless_line.1 h)
  | blank, _ => by
    have hblank : pieces (rows depth blank) = [[]] := rfl
    rw [hblank, List.forall_mem_singleton]
    rfl
  | doc t, _ => by
    rw [rows, pieces_comment, List.forall_mem_map]
    exact fun l hl => chomp_comment hl
  | block header body closer, h => by
    have hrows : rows depth (block header body closer)
        = [indented depth (opening header).toList] ++ rowsAll (depth + 1) body
          ++ [indented depth closer.toList] := by
      rw [rows, List.singleton_append]
    rw [hrows, pieces_append, pieces_append, List.forall_mem_append, List.forall_mem_append]
    exact ⟨⟨chomp_row (notMem_opening h.1), chomp_rowsAll (depth + 1) body h.2.1⟩,
      chomp_row h.2.2⟩

/-- No line of the code ends in a carriage return. -/
theorem chomp_rowsAll (depth : Nat) : (cs : List Code) → ReturnlessAll cs →
    ∀ l ∈ pieces (rowsAll depth cs), chomp l = l
  | [], _ => nofun
  | c :: cs, h => by
    rw [rowsAll, pieces_append, List.forall_mem_append]
    exact ⟨chomp_rows depth c h.1, chomp_rowsAll depth cs h.2⟩

end

end Code

/-! ## Items -/

open Code (ReturnlessAll returnlessAll_nil)

/-- No name in a definition has a carriage return. -/
def Definition.Returnless (d : Definition) : Prop :=
  '\r' ∉ d.name.toList ∧ ∀ f ∈ d.fields, '\r' ∉ f.name.toList

/-- Neither the path of the library nor a name in the schema has a carriage return. -/
structure Target.Returnless (t : Target) : Prop where
  runtime : '\r' ∉ t.runtime.toList
  definitions : ∀ d ∈ t.schema.definitions, d.Returnless

section Passages

variable {path : String} (hpath : '\r' ∉ path.toList)

include hpath

theorem Phrase.notMem_return {f : String → String} (h : Phrase (fun name => '\r' ∉ name.toList) f) :
    '\r' ∉ (f path).toList := by
  induction h with
  | plain h => simpa using h.2.2
  | type h => exact Identifier.notMem_ofType (by decide) (.inr h)
  | field h => exact Identifier.notMem_ofField (by decide) (.inr h)
  | constant h => exact Identifier.notMem_ofConstant (by decide) (.inr h)
  | quoted => exact notMem_quoted (.inr rfl) _
  | path h => simp [hpath, h.2.2]
  | between h _ ih =>
    have hends := h.2.2
    rw [List.mem_append, not_or] at hends
    simp [hends, ih]
  | append _ _ ihf ihg => simp [ihf, ihg]

/-- A passage has no carriage return, comments apart. -/
theorem Passage.returnlessAll {comments : Prop} {g : String → List Code}
    (h : Passage (fun name => '\r' ∉ name.toList) comments g) : ReturnlessAll (g path) := by
  induction h with
  | nil => exact returnlessAll_nil
  | line hf _ ih => simp [hf.phrase.notMem_return hpath, ih]
  | blank _ ih => simp [ih]
  | doc _ t _ ih => simp [ih]
  | block hf _ hcloser _ ihg ihh =>
    rcases hcloser with rfl | rfl <;> simp [hf.phrase.notMem_return hpath, ihg, ihh]

end Passages

/-- The code of a schema has no carriage return, comments apart. -/
theorem Target.Returnless.itemsCode {s : Schema} {runtime : String}
    (ht : (Target.mk s runtime).Returnless) (settings : Settings) {items : List Item}
    (h : Target.items? ⟨s, runtime⟩ = .ok items) :
    ReturnlessAll (itemsCode settings runtime items) := by
  obtain ⟨f, hcode, rfl⟩ := (Target.parametric_code (N := fun name => '\r' ∉ name.toList)
    settings ht.definitions).exists_of_ok h
  exact hcode.returnlessAll ht.runtime

end SchemaCodec

import SchemaCodec.Proofs.Composition
import SchemaCodec.Proofs.Rows
import SchemaCodec.Proofs.Validity

/-!
# The path of the library in a source

A `Template` is a text with gaps for the path, each of which is filled with the path and the colons
behind it. The texts of a passage are templates, and indenting a text, splitting it into lines and
trimming these can be done before the gaps are filled, as long as the path has no line feed. So the
source of a schema is a fixed template, and changing the path changes nothing but what stands in the
gaps (`Schema.generate_parametric`).
-/

namespace SchemaCodec

open Text SourceText

/-- What a separator separates does not contain it. -/
theorem notMem_of_mem_splitOn {α : Type} [BEq α] [LawfulBEq α] {a : α} :
    ∀ {l part : List α}, part ∈ l.splitOn a → a ∉ part
  | [], part, h => by
    rw [List.splitOn_nil, List.mem_singleton] at h
    subst h
    exact List.not_mem_nil
  | b :: l, part, h => by
    rw [List.splitOn_cons_eq_if_modifyHead] at h
    split_ifs at h with hb
    · rcases List.mem_cons.1 h with rfl | h
      · exact List.not_mem_nil
      · exact notMem_of_mem_splitOn h
    · have hne : b ≠ a := by simpa using hb
      obtain ⟨first, rest, hparts⟩ := List.exists_cons_of_ne_nil (List.splitOn_ne_nil a l)
      rw [hparts, List.modifyHead_cons] at h
      have hrest : ∀ q ∈ first :: rest, a ∉ q := fun q hq => notMem_of_mem_splitOn (hparts ▸ hq)
      rcases List.mem_cons.1 h with rfl | h
      · simpa [hne.symm] using hrest first List.mem_cons_self
      · exact hrest part (List.mem_cons_of_mem _ h)

/-- A text with gaps. -/
abbrev Template := List (Option Char)

namespace Template

variable {t u : Template} {p : List Char}

/-- What a gap is filled with; no gap is left empty. -/
def slot (p : List Char) : Option Char → List Char
  | some c => [c]
  | none => p ++ [':', ':']

def fill (p : List Char) (t : Template) : List Char :=
  t.flatMap (slot p)

/-- A text without gaps. -/
def solid (cs : List Char) : Template :=
  cs.map some

@[simp] theorem fill_append : fill p (t ++ u) = fill p t ++ fill p u :=
  List.flatMap_append

@[simp] theorem fill_solid (cs : List Char) : fill p (solid cs) = cs := by
  induction cs with
  | nil => rfl
  | cons c cs ih => exact congrArg (c :: ·) ih

theorem slot_ne_nil (x : Option Char) : slot p x ≠ [] := by
  cases x <;> simp [slot]

theorem fill_eq_nil_iff : fill p t = [] ↔ t = [] := by
  rw [fill, List.flatMap_eq_nil_iff, List.eq_nil_iff_forall_not_mem]
  exact forall₂_congr fun x _ => iff_false_intro (slot_ne_nil x)

/-- Filling goes part by part. -/
theorem fill_intercalate (x : Option Char) : ∀ ts : List Template,
    fill p ([x].intercalate ts) = (slot p x).intercalate (ts.map (fill p))
  | [] => rfl
  | [t] => by simp
  | t :: u :: ts => by
    have hx : fill p [x] = slot p x := by simp [fill]
    rw [List.intercalate_cons_cons, fill_append, fill_append, fill_intercalate x (u :: ts), hx,
      List.map_cons, List.map_cons, List.map_cons, List.intercalate_cons_cons]

theorem notMem_fill {c : Char} (hp : c ∉ p) (hc : c ≠ ':') (h : some c ∉ t) : c ∉ fill p t := by
  intro hm
  obtain ⟨x, hx, hm⟩ := List.mem_flatMap.1 hm
  cases x with
  | none => simp [slot, hp, hc] at hm
  | some d =>
    obtain rfl := List.mem_singleton.1 hm
    exact h hx

/-- The lines of a filled template are the filled lines of the template. -/
theorem splitOn_fill (hp : '\n' ∉ p) (t : Template) :
    (fill p t).splitOn '\n' = (t.splitOn (some '\n')).map (fill p) := by
  have hlines : fill p t = ['\n'].intercalate ((t.splitOn (some '\n')).map (fill p)) := by
    rw [← show slot p (some '\n') = ['\n'] from rfl, ← fill_intercalate, List.intercalate_splitOn]
  have hne : (t.splitOn (some '\n')).map (fill p) ≠ [] := by simp
  rw [hlines]
  refine List.splitOn_intercalate '\n' (List.forall_mem_map.2 fun l hl => ?_) hne
  exact notMem_fill hp (by decide) (notMem_of_mem_splitOn hl)

/-- A line of a template without the carriage return at its end. -/
def chomp (t : Template) : Template :=
  if t.getLast? = some (some '\r') then t.dropLast else t

/-- A gap ends in a colon, so no carriage return of the path is lost. -/
theorem chomp_fill (t : Template) : Text.chomp (fill p t) = fill p t.chomp := by
  rcases List.eq_nil_or_concat' t with rfl | ⟨t, x, rfl⟩
  · rfl
  · have hfill : fill p (t ++ [x]) = fill p t ++ slot p x := by simp [fill]
    unfold chomp Text.chomp
    rw [hfill]
    cases x with
    | none => simp [slot, dropReturn, fill]
    | some c =>
      by_cases hc : c = '\r'
      · subst hc
        simp [slot, dropReturn]
      · simp [slot, dropReturn, hc, fill]

end Template

/-! ## Texts and rows -/

open Template

/-- The texts are one template, filled with the path. -/
def Fills (f : String → List Char) : Prop :=
  ∃ t : Template, ∀ p, f p = fill p.toList t

/-- The rows are templates, filled with the path. -/
def FillRows (f : String → List (List Char)) : Prop :=
  ∃ ts : List Template, ∀ p, '\n' ∉ p.toList → f p = ts.map (fill p.toList)

namespace Fills

variable {f g : String → List Char}

theorem solid (cs : List Char) : Fills fun _ => cs :=
  ⟨Template.solid cs, fun _ => (fill_solid cs).symm⟩

theorem append (hf : Fills f) (hg : Fills g) : Fills fun p => f p ++ g p := by
  obtain ⟨t, ht⟩ := hf
  obtain ⟨u, hu⟩ := hg
  exact ⟨t ++ u, fun p => by simp only [ht, hu, fill_append]⟩

theorem path (cs : List Char) : Fills fun p => p.toList ++ ':' :: ':' :: cs :=
  ⟨none :: Template.solid cs, fun p => by
    show _ = slot p.toList none ++ fill p.toList (Template.solid cs)
    simp [slot]⟩

theorem indented (hf : Fills f) (depth : Nat) : Fills fun p => indented depth (f p) := by
  obtain ⟨t, ht⟩ := hf
  by_cases hempty : t = []
  · refine ⟨[], fun p => ?_⟩
    simp only [ht, hempty]
    rfl
  · refine ⟨Template.solid (indentation depth).toList ++ t, fun p => ?_⟩
    have hne : (fill p.toList t).isEmpty = false := by
      simpa [fill_eq_nil_iff] using hempty
    simp only [ht, SourceText.indented, hne, fill_append, fill_solid]
    rfl

end Fills

namespace FillRows

variable {f g : String → List (List Char)}

theorem nil : FillRows fun _ => [] :=
  ⟨[], fun _ _ => rfl⟩

theorem cons {r : String → List Char} (hr : Fills r) (hg : FillRows g) :
    FillRows fun p => r p :: g p := by
  obtain ⟨t, ht⟩ := hr
  obtain ⟨ts, hts⟩ := hg
  exact ⟨t :: ts, fun p hp => by simp only [ht, hts p hp, List.map_cons]⟩

theorem append (hf : FillRows f) (hg : FillRows g) : FillRows fun p => f p ++ g p := by
  obtain ⟨ts, hts⟩ := hf
  obtain ⟨us, hus⟩ := hg
  exact ⟨ts ++ us, fun p hp => by simp only [hts p hp, hus p hp, List.map_append]⟩

theorem solid (rows : List (List Char)) : FillRows fun _ => rows := by
  induction rows with
  | nil => exact .nil
  | cons row rows ih => exact .cons (.solid row) ih

/-- The rows stay templates when their lines are moved. -/
theorem moved (hf : FillRows f) (depth : Nat) : FillRows fun p => moved depth (f p) := by
  obtain ⟨ts, hts⟩ := hf
  have hlines : ∀ p : String, '\n' ∉ p.toList → SourceText.moved depth (f p)
      = (ts.flatMap (·.splitOn (some '\n'))).map fun l =>
        SourceText.indented depth (fill p.toList (Template.chomp l)) := by
    intro p hp
    rw [SourceText.moved, hts p hp, pieces, List.flatMap_map, List.map_flatMap, List.map_flatMap]
    refine List.flatMap_congr fun t _ => ?_
    rw [splitOn_fill hp, List.map_map]
    exact List.map_congr_left fun l _ => by simp only [Function.comp_apply, chomp_fill]
  generalize ts.flatMap (·.splitOn (some '\n')) = ls at hlines
  have hrows : FillRows fun p => ls.map fun l =>
      SourceText.indented depth (fill p.toList (Template.chomp l)) := by
    clear hlines
    induction ls with
    | nil => exact .nil
    | cons l ls ih => exact .cons (.indented ⟨Template.chomp l, fun _ => rfl⟩ depth) ih
  obtain ⟨us, hus⟩ := hrows
  exact ⟨us, fun p hp => (hlines p hp).trans (hus p hp)⟩

theorem joined (hf : FillRows f) : ∃ t : Template, ∀ p, '\n' ∉ p.toList →
    joined (f p) = fill p.toList t := by
  obtain ⟨ts, hts⟩ := hf
  refine ⟨ts.flatMap (· ++ Template.solid ['\n']), fun p hp => ?_⟩
  rw [hts p hp, Text.joined, List.flatMap_map, fill, List.flatMap_assoc]
  refine List.flatMap_congr fun t _ => ?_
  show _ = fill p.toList (t ++ Template.solid ['\n'])
  rw [fill_append, fill_solid]

end FillRows

namespace Settings

end Settings

/-- The rows around those of the items are the same for every path. -/
theorem FillRows.rowsAround {f : String → List (List Char)} (hf : FillRows f) (s : Schema)
    (settings : Settings) : FillRows fun p => s.rowsAround settings (f p) := by
  unfold Schema.rowsAround
  refine .append (.solid _) ?_
  rcases s.scope with _ | scope
  · exact hf.moved 0
  · dsimp only
    split_ifs
    · exact .append (.cons (.solid _) (hf.moved 1)) (.solid _)
    · exact hf.moved 0

namespace Berth

/-- Messages whose types are those of the library in part. -/
def schema : Schema where
  scope := some "harbour"
  definitions := [
    { name := "Berth", kind := .message, readonly := true, fields := [
      { name := "id", ty := .scalar .guid, value := 1 }] },
    { name := "Booking", kind := .message, fields := [
      { name := "berth", ty := .defined "Berth", value := 1 },
      { name := "nights", ty := .array (.scalar .date), value := 2 }] }]

end Berth

end SchemaCodec

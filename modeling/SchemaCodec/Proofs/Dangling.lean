import SchemaCodec.Proofs.Commands

/-!
# Mentions of missing definitions

Loading a schema looks for mentions of missing definitions in all fields, and the source of a
schema is refused when a check meets one. The two agree: a schema with such a mention has no source
(`Schema.Valid.dangling_eq_nil`), and an error that a definition is missing is about one of the
mentions, found in the definition that holds it (`Schema.exists_dangling_of_generate`). So loading
refuses no schema that has a source, and leaves no missing definition to be found later
(`Schema.dangling_refused`).
-/

namespace SchemaCodec

open CommandLine

variable {s : Schema} {d : Definition} {settings : Settings}

namespace Schema

theorem has_eq_false_iff {name : String} : s.has name = false ↔ s.get? name = none := by
  simp [has, get?, Definition.byName?]

theorem mem_dangling {x : Dangling} : x ∈ s.dangling ↔ ∃ d ∈ s.definitions, ∃ f ∈ d.fields,
    ∃ name ∈ f.ty.names, s.get? name = none ∧ ⟨d.name, f.name, name⟩ = x := by
  simp only [dangling, List.mem_flatMap, List.mem_map, List.mem_filter, Bool.not_eq_true',
    has_eq_false_iff, and_assoc]

/-- Whatever the fields of a valid schema mention is there; members of enums mention nothing. -/
theorem Valid.exists_of_mem_names (hs : s.Valid) (hd : d ∈ s.definitions) {f : Field}
    (hf : f ∈ d.fields) {name : String} (hn : name ∈ f.ty.names) : ∃ e, s.get? name = some e := by
  have hvalid := hs.definitions d hd
  rw [Definition.Valid] at hvalid
  cases hk : d.kind with
  | enum =>
    rw [hk] at hvalid
    rw [hvalid.ty f hf] at hn
    cases hn
  | struct =>
    rw [hk] at hvalid
    exact hvalid.2.names f hf name hn
  | message =>
    rw [hk] at hvalid
    exact hvalid.2.names f hf name hn

theorem Valid.dangling_eq_nil (hs : s.Valid) : s.dangling = [] := by
  refine List.eq_nil_iff_forall_not_mem.2 fun x hx => ?_
  obtain ⟨d, hd, f, hf, name, hn, hnone, -⟩ := mem_dangling.1 hx
  obtain ⟨e, he⟩ := hs.exists_of_mem_names hd hf hn
  rw [hnone] at he
  cases he

/-- Either two definitions share an identifier, or the error tells what is wrong with one of
them. -/
theorem unfit_of_generate {e : GenerateError} (h : s.generate settings = .error e) :
    (∃ ident first second, e = .duplicateIdentifier ident first second)
      ∨ ∃ d ∈ s.definitions, ∃ cause, d.Unfit s cause ∧ e = .inDefinition d.name cause := by
  rw [generate, bind_pure_eq_error] at h
  rcases bind_eq_error.1 h with h | ⟨_, -, h⟩
  · obtain ⟨_, name, ident, _, first, -, -, -, rfl⟩ := Item.exists_of_checkIdentifiers h
    exact .inl ⟨ident, first, name, rfl⟩
  · obtain ⟨d, hd, h⟩ := exists_mem_of_mapM_eq_error h
    obtain ⟨cause, hcause, rfl⟩ := Target.item?_eq_error.1 h
    exact .inr ⟨d, hd, cause, Item.unfit_of_ofDefinition? hcause, rfl⟩

theorem exists_dangling_of_generate {e : GenerateError} (h : s.generate settings = .error e)
    {name : String} (hroot : e.root = .unresolvedType name) : ∃ x ∈ s.dangling,
      x.target = name ∧ e = .inDefinition x.definition (.unresolvedType name) := by
  obtain ⟨ident, first, second, rfl⟩ | ⟨d, hd, cause, hcause, rfl⟩ := unfit_of_generate h
  · cases hroot
  · cases hcause with
    | type hf ht =>
      cases ht with
      | name hn hnone =>
        cases hroot
        exact ⟨_, mem_dangling.2 ⟨d, hd, _, hf, name, hn, hnone, rfl⟩, rfl, rfl⟩
      | key _ _ => cases hroot
    | _ => cases hroot

end Schema

/-- A schema is loaded if it can be read and nothing that it mentions is missing. -/
theorem CommandLine.loadSchema?_eq_ok {t : FileTree} {path : String} :
    (t.run (loadSchema? path)).1 = .ok s
      ↔ (t.run (Schema.ofFile? path)).1 = .ok s ∧ s.dangling = [] := by
  rw [run_loadSchema?]
  rcases (t.run (Schema.ofFile? path)).1 with e | c
  · simp [Except.mapError, Except.bind]
  · simp only [Except.mapError, Except.bind, checkDangling, Except.ok.injEq]
    split
    · rename_i hnil
      constructor
      · intro h
        cases h
        exact ⟨rfl, hnil⟩
      · exact fun h => congrArg _ h.1
    · rename_i hcons
      constructor
      · intro h
        cases h
      · rintro ⟨heq, hnil⟩
        rw [heq, hnil] at hcons
        cases hcons

/-- What is read is known from its scope and its definitions. -/
theorem Schema.eq_ok_of_parts {ε : Type} {x : Except ε Schema}
    (h : (x.toOption.map fun c => (c.scope, c.definitions)) = some (s.scope, s.definitions)) :
    x = .ok s := by
  rcases x with e | c
  · cases h
  · cases s
    cases c
    simp only [Except.toOption, Option.map_some, Option.some.injEq, Prod.mk.injEq] at h
    obtain ⟨rfl, rfl⟩ := h
    rfl

/-- A schema that mentions missing definitions has no source, and if it mentions none, then no
error is that a definition is missing. So a schema with a source is loaded from any file that it can
be read from, and a schema that is loaded is refused for other reasons only. -/
theorem Schema.dangling_refused (s : Schema) (settings : Settings) :
    (s.dangling ≠ [] → ∃ e, s.generate settings = .error e)
      ∧ (s.dangling = [] → ∀ e, s.generate settings = .error e →
        ∀ name, e.root ≠ .unresolvedType name)
      ∧ ∀ (t : FileTree) (path : String),
        ((∃ source, s.generate settings = .ok source) →
          (t.run (Schema.ofFile? path)).1 = .ok s → (t.run (loadSchema? path)).1 = .ok s)
        ∧ ((t.run (loadSchema? path)).1 = .ok s → ∀ e, s.generate settings = .error e →
          ∀ name, e.root ≠ .unresolvedType name) := by
  have hresolved : s.dangling = [] → ∀ e, s.generate settings = .error e →
      ∀ name, e.root ≠ .unresolvedType name := by
    intro hnil e he name hroot
    obtain ⟨x, hx, -⟩ := exists_dangling_of_generate he hroot
    rw [hnil] at hx
    cases hx
  refine ⟨fun hne => ?_, hresolved, fun t path => ⟨fun hsource hfile => ?_, fun hload => ?_⟩⟩
  · rcases he : s.generate settings with e | source
    · exact ⟨e, rfl⟩
    · exact absurd (succeeds_generate.1 ⟨source, he⟩).dangling_eq_nil hne
  · exact loadSchema?_eq_ok.2 ⟨hfile, (succeeds_generate.1 hsource).dangling_eq_nil⟩
  · exact hresolved (loadSchema?_eq_ok.1 hload).2

namespace Harbour

/-- A message with one field. -/
def messageOf (name field : String) (ty : Ty) (tag : UInt32) : Schema where
  definitions := [
    { name := name, kind := .message, fields := [{ name := field, ty := ty, value := tag }] }]

def schema : Schema := messageOf "Buoy" "depth" (.scalar .uint16) 1

/-- The schema lacks what it mentions. -/
def adrift : Schema := messageOf "Buoy" "chain" (.array (.defined "Link")) 1

/-- A schema next to the working directory. -/
def files : FileTree where
  working := ["home", "harbour"]
  entries := [(["home", "schema.json"], .file ("\x7b\"definitions\":[\x7b\"name\":\"Buoy\","
    ++ "\"kind\":\"message\",\"fields\":[\x7b\"name\":\"depth\",\"type\":\"uint16\","
    ++ "\"value\":1\x7d]\x7d]\x7d").toUTF8.data)]

theorem file_eq : (files.run (Schema.ofFile? "../schema.json")).1 = .ok schema :=
  Schema.eq_ok_of_parts (by decide +kernel)

theorem source_exists : ∃ source, schema.generate {} = .ok source :=
  succeeds_of_isOk (by decide +kernel)

/-- A schema is refused for what it lacks; one with a source is loaded from its file; and one that
is loaded is refused for a field without a tag. -/
theorem refused_or_loaded :
    (adrift.dangling = [⟨"Buoy", "chain", "Link"⟩] ∧ ∃ e, adrift.generate {} = .error e)
    ∧ ((∃ source, schema.generate {} = .ok source)
      ∧ (files.run (loadSchema? "../schema.json")).1 = .ok schema)
    ∧ ∃ untagged e, (Project.files.run (loadSchema? "schema.json")).1 = .ok untagged
      ∧ untagged.generate {} = .error e ∧ ∀ name, e.root ≠ .unresolvedType name := by
  have hdangling : adrift.dangling = [⟨"Buoy", "chain", "Link"⟩] := by decide +kernel
  have hload : (Project.files.run (loadSchema? "schema.json")).1
      = .ok (messageOf "Leaf" "color" (.scalar .byte) 0) :=
    Schema.eq_ok_of_parts (by decide +kernel)
  have herror : (messageOf "Leaf" "color" (.scalar .byte) 0).generate {}
      = .error (.inDefinition "Leaf" (.invalidTag "color" 0)) := by
    decide +kernel
  refine ⟨⟨hdangling, ?_⟩, ⟨source_exists, ?_⟩, _, _, hload, herror, ?_⟩
  · exact (Schema.dangling_refused adrift {}).1 (by rw [hdangling]; nofun)
  · exact ((Schema.dangling_refused schema {}).2.2 _ _).1 source_exists file_eq
  · exact ((Schema.dangling_refused _ {}).2.2 _ _).2 hload _ herror

end Harbour

end SchemaCodec

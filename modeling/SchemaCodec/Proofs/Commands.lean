import SchemaCodec.CommandLine.Run
import SchemaCodec.Files.Tree
import SchemaCodec.Proofs.Refusal

/-!
# The two commands agree

`check` makes the source of a schema with the default settings and throws it away, and `generate`
makes it with those of the project. No setting decides whether there is a source
(`render?_or_validate?`), and reading leaves the files as they are, so both commands load the same
schema. Hence `check` has nothing to say against a schema exactly if `generate` comes to write its
output, and otherwise both fail for the same reason (`check_eq_none_iff`).
-/

namespace SchemaCodec

/-- What an action gives on some files, and the files it leaves. -/
def FileTree.run {α : Type} (t : FileTree) (x : StateM FileTree α) : α × FileTree :=
  x t

theorem FileTree.run_bind {α β : Type} (t : FileTree) (x : StateM FileTree α)
    (f : α → StateM FileTree β) : t.run (x >>= f) = (t.run x).2.run (f (t.run x).1) :=
  rfl

namespace CommandLine

/-- Two failures have the same reason: they are one failure to load the schema, or there is no
source and the error is the same. Only the outermost words of their reports may differ. -/
inductive Failure.Alike : Failure → Failure → Prop
  | badSchema (path : String) (e : SchemaError) : Alike (.badSchema path e) (.badSchema path e)
  | dangling (first : Dangling) (count : Nat) :
    Alike (.dangling first count) (.dangling first count)
  | source (e : GenerateError) : Alike (.validation e) (.generation e)

theorem Failure.Alike.tail_chain {f g : Failure} (h : f.Alike g) : f.chain.tail = g.chain.tail := by
  cases h <;> rfl

/-- Whatever the settings are, a schema has a source for both commands, or for none of them and
with one error. -/
theorem render?_or_validate? (s : Schema) (settings : Settings) :
    (∃ text, render? s settings = .ok text ∧ validate? s = .ok ())
      ∨ ∃ e, render? s settings = .error (.generation e)
        ∧ validate? s = .error (.validation e) := by
  have hv : verdict (s.generate settings) = verdict (s.generate {}) := by
    rw [Schema.verdict_generate, Schema.verdict_generate]
    exact Target.verdict_items? _ _ s
  unfold render? validate?
  rcases hs : s.generate settings with e | text
  · rcases hd : s.generate {} with e' | _
    · rw [hs, hd] at hv
      obtain rfl : e = e' := by simpa [verdict, Except.map] using hv
      exact .inr ⟨e, rfl, rfl⟩
    · rw [hs, hd] at hv
      cases hv
  · obtain ⟨_, hd⟩ := exists_of_verdict hv hs
    rw [hd]
    exact .inl ⟨text, rfl, rfl⟩

/-! ## Reading -/

/-- Whatever the files are, they are left as they are. -/
def ReadOnly {α : Type} (x : StateM FileTree α) : Prop :=
  ∀ t : FileTree, (t.run x).2 = t

namespace ReadOnly

variable {α β : Type}

theorem pure (a : α) : ReadOnly (Pure.pure a) :=
  fun _ => rfl

theorem bind {x : StateM FileTree α} {f : α → StateM FileTree β} (hx : ReadOnly x)
    (hf : ∀ a, ReadOnly (f a)) : ReadOnly (x >>= f) := by
  intro t
  rw [FileTree.run_bind, hf, hx]

theorem readText (path : String) : ReadOnly (Files.readText path) :=
  fun _ => rfl

theorem isPresent (path : String) : ReadOnly (Files.isPresent path) :=
  fun _ => rfl

theorem settingsOfFile? (path : String) : ReadOnly (settingsOfFile? path) := by
  refine (readText path).bind fun r => ?_
  cases r <;> exact pure _

theorem resolveSettings? (config : Option String) : ReadOnly (resolveSettings? config) := by
  cases config with
  | some path => exact settingsOfFile? path
  | none =>
    refine (isPresent projectFile).bind fun present => ?_
    cases present
    · exact pure _
    · exact settingsOfFile? projectFile

theorem loadSchema? (path : String) : ReadOnly (loadSchema? path) := by
  have hfile : ReadOnly (Schema.ofFile? path) := by
    refine (readText path).bind fun r => ?_
    cases r <;> exact pure _
  exact hfile.bind fun _ => pure _

end ReadOnly

variable {t : FileTree} {schema : String} {config : Option String}

/-- A schema is read first, and what it mentions is looked for then. -/
theorem run_loadSchema? (t : FileTree) (schema : String) : (t.run (loadSchema? schema)).1
    = ((t.run (Schema.ofFile? schema)).1.mapError (.badSchema schema)).bind checkDangling :=
  rfl

/-- A schema that is not loaded is not one, or it mentions missing definitions. -/
theorem alike_of_loadSchema? {f : Failure} (h : (t.run (loadSchema? schema)).1 = .error f) :
    f.Alike f := by
  rw [run_loadSchema?] at h
  generalize (t.run (Schema.ofFile? schema)).1 = x at h
  cases x with
  | error e =>
    cases h
    exact .badSchema schema e
  | ok s =>
    simp only [Except.mapError, Except.bind, checkDangling] at h
    split at h
    · cases h
    · cases h
      exact .dangling _ _

/-! ## Both commands on the same files -/

/-- `check` fails if the schema is not loaded or has no source. -/
theorem failure_check : (t.run (Command.run (.check schema))).1.failure
    = match (t.run (loadSchema? schema)).1.bind validate? with
      | .ok _ => none
      | .error f => some f := by
  show (Outcome.ofResult _ ((t.run (loadSchema? schema)).1.bind _)).failure = _
  rcases (t.run (loadSchema? schema)).1 with f | s
  · rfl
  · simp only [Except.bind]
    rcases validate? s with f | _ <;> rfl

/-- The source to write is that of the schema that is loaded. -/
theorem run_prepare? (schema : String) {settings : Settings}
    (h : (t.run (resolveSettings? config)).1 = .ok settings) :
    t.run (prepare? schema config)
      = ((t.run (loadSchema? schema)).1.bind fun s => (render? s settings).map (s, ·), t) := by
  unfold prepare?
  rw [FileTree.run_bind, h, ReadOnly.resolveSettings? config t]
  refine Prod.ext ?_ (ReadOnly.loadSchema? schema t)
  show (t.run (loadSchema? schema)).1.bind _ = _
  rcases (t.run (loadSchema? schema)).1 with f | s
  · rfl
  · simp only [Except.bind]
    rcases render? s settings with f | text <;> rfl

/-- `generate` ends with the reason why there is no source, or else as writing the source does. -/
theorem run_generate (output : String) : t.run (Command.run (.generate schema output config))
    = match t.run (prepare? schema config) with
      | (.error f, t') => (⟨"", some f⟩, t')
      | (.ok (s, text), t') =>
        let (written, t') := t'.run (writeOutput output text)
        (.ofResult "" (written.map fun _ => "✓ Generated " ++ toString s.definitions.length
          ++ " definitions → " ++ output ++ "\n"), t') := by
  unfold Command.run runGenerate
  rw [FileTree.run_bind]
  rcases t.run (prepare? schema config) with ⟨f | ⟨s, text⟩, t'⟩ <;> rfl

/-- With any settings of the project, `check` succeeds exactly if `generate` comes to write its
output. Otherwise `generate` fails as well and leaves the files as they are. Either the schema is
not loaded, which both commands report alike, or there is no source; then the errors are the same,
and the reports differ in their outermost words. -/
theorem check_eq_none_iff {settings : Settings} (output : String)
    (h : (t.run (resolveSettings? config)).1 = .ok settings) :
    ((t.run (Command.run (.check schema))).1.failure = none
        ↔ ∃ s text, t.run (prepare? schema config) = (.ok (s, text), t)
          ∧ (t.run (Command.run (.generate schema output config))).2
            = (t.run (writeOutput output text)).2)
      ∧ ∀ f, (t.run (Command.run (.check schema))).1.failure = some f →
        ∃ g, t.run (Command.run (.generate schema output config)) = (⟨"", some g⟩, t)
          ∧ f.Alike g ∧ f.chain.tail = g.chain.tail := by
  have hprepare := run_prepare? schema h
  rw [failure_check]
  rcases hl : (t.run (loadSchema? schema)).1 with f | s
  · -- both commands stop before the settings matter
    rw [hl] at hprepare
    refine ⟨⟨nofun, ?_⟩, fun f' hf => ?_⟩
    · rintro ⟨s, text, hok, -⟩
      rw [hprepare] at hok
      cases hok
    · cases hf
      refine ⟨f, ?_, alike_of_loadSchema? hl, rfl⟩
      rw [run_generate, hprepare]
      rfl
  · rw [hl] at hprepare
    simp only [Except.bind] at hprepare ⊢
    rcases render?_or_validate? s settings with ⟨text, hr, hv⟩ | ⟨e, hr, hv⟩
    · rw [hr] at hprepare
      rw [hv]
      refine ⟨⟨fun _ => ⟨s, text, hprepare, ?_⟩, fun _ => rfl⟩, nofun⟩
      rw [run_generate, hprepare]
      rfl
    · rw [hr] at hprepare
      rw [hv]
      refine ⟨⟨nofun, ?_⟩, fun f hf => ?_⟩
      · rintro ⟨s', text, hok, -⟩
        rw [hprepare] at hok
        cases hok
      · cases hf
        have halike : (Failure.validation e).Alike (.generation e) := .source e
        refine ⟨.generation e, ?_, halike, halike.tail_chain⟩
        rw [run_generate, hprepare]
        rfl

namespace Project

/-- A project without comments in its sources, and a schema with a field that lacks a tag. -/
def files : FileTree where
  working := ["project"]
  entries := [
    (["project", "wiregen.toml"], .file "[generator]\nemit_docs = false\n".toUTF8.data),
    (["project", "schema.json"], .file
      ("\x7b\"definitions\":[\x7b\"name\":\"Leaf\",\"kind\":\"message\","
      ++ "\"fields\":[\x7b\"name\":\"color\",\"type\":\"byte\"\x7d]\x7d]\x7d").toUTF8.data)]

theorem settings_eq : (files.run (resolveSettings? none)).1 = .ok { emitDocs := false } := by
  decide +kernel

theorem failure_check_eq : (files.run (Command.run (.check "schema.json"))).1.failure
    = some (.validation (.inDefinition "Leaf" (.invalidTag "color" 0))) := by
  decide +kernel

/-- Both commands refuse the field, and nothing is written. -/
theorem refused_by_both : (files.run (resolveSettings? none)).1 = .ok { emitDocs := false }
    ∧ (files.run (Command.run (.check "schema.json"))).1.failure
      = some (.validation (.inDefinition "Leaf" (.invalidTag "color" 0)))
    ∧ files.run (Command.run (.generate "schema.json" "leaf.rs" none))
      = (⟨"", some (.generation (.inDefinition "Leaf" (.invalidTag "color" 0)))⟩, files) := by
  refine ⟨settings_eq, failure_check_eq, ?_⟩
  obtain ⟨g, hg, halike, -⟩ := (check_eq_none_iff "leaf.rs" settings_eq).2 _ failure_check_eq
  rw [hg]
  cases halike
  rfl

end Project

end CommandLine

end SchemaCodec

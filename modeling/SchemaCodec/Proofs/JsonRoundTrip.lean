import SchemaCodec.Proofs.Insertion
import SchemaCodec.Proofs.JsonText
import SchemaCodec.Proofs.TypeText
import SchemaCodec.Schema.Json

/-!
# Schemas come back from JSON

A type is read back from its text (`Ty.ofText?_toText`), unless it mentions a name that is no
identifier or stands for a scalar. So each part of a schema is read back from its JSON value: types,
fields, definitions, files (`SchemaFile.reads`). A record that is read in part is what its
`known` says, the components for the keys that were seen and the default for the others.

Definitions become a schema one by one (`Schema.insertAll_cases`): either all of them are inserted,
or the first name that is taken ends it (`Schema.json_round_trip`).
-/

namespace SchemaCodec

open Json (Value)
open Json.Reader (Reads)

variable {room : Nat}

/-! ## Records -/

theorem Json.Reader.Reads.textOption (o : Option String) :
    Reads (Json.Reader.optional (Json.Reader.text .text)) room (.ofOption .string o) o :=
  ofOption fun s => ⟨text s .text, nofun⟩

theorem Ty.reads {t : Ty} (h : ∀ name ∈ t.names, IsReference name) :
    Reads Ty.read room t.toJson t := by
  refine (Reads.text t.toText .text).bind ?_
  rw [ofText?_toText h]

theorem Kind.reads (k : Kind) : Reads Kind.read room k.toJson k := by
  cases k <;> exact Reads.variant rfl

/-- A deprecation as far as it is known from the keys that were seen. -/
def Deprecation.known (d : Deprecation) (seen : List String) : Deprecation where
  reason := if "reason" ∈ seen then d.reason else none

theorem Deprecation.reads (d : Deprecation) : Reads Deprecation.read (room + 1) d.toJson d := by
  refine Reads.record d.known (by simp) ?_ (by simp [shape]) rfl ?_
  · simp only [List.forall_mem_cons]
    refine ⟨fun seen => ⟨_, rfl, (Reads.textOption _).bind ?_⟩, nofun⟩
    simp [known]
  · intro seen hseen
    simp only [List.forall_mem_cons] at hseen
    simp [known, hseen]

/-- A field as far as it is known from the keys that were seen. -/
def Field.known (f : Field) (seen : List String) : Field where
  name := if "name" ∈ seen then f.name else ""
  ty := if "type" ∈ seen then f.ty else .scalar .uint32
  value := if "value" ∈ seen then f.value else 0
  deprecated := if "deprecated" ∈ seen then f.deprecated else none
  doc := if "doc" ∈ seen then f.doc else none

theorem Field.reads {f : Field} (h : ∀ name ∈ f.ty.names, Ty.IsReference name) :
    Reads Field.read (room + 2) f.toJson f := by
  refine Reads.record f.known (by simp) ?_ (by simp [shape]) rfl ?_
  · simp only [List.forall_mem_cons]
    refine ⟨fun seen => ⟨_, rfl, (Reads.text f.name .text).bind ?_⟩,
      fun seen => ⟨_, rfl, (Ty.reads h).bind ?_⟩,
      fun seen => ⟨_, rfl, (Reads.word f.value).bind ?_⟩,
      fun seen => ⟨_, rfl, (Reads.ofOption (f := Deprecation.toJson) fun d =>
        ⟨d.reads, nofun⟩).bind ?_⟩,
      fun seen => ⟨_, rfl, (Reads.textOption _).bind ?_⟩, nofun⟩
    all_goals simp [known]
  · intro seen hseen
    simp only [List.forall_mem_cons] at hseen
    simp [known, hseen]

/-- A definition as far as it is known from the keys that were seen. -/
def Definition.known (d : Definition) (seen : List String) : Definition where
  name := if "name" ∈ seen then d.name else ""
  kind := if "kind" ∈ seen then d.kind else .struct
  fields := if "fields" ∈ seen then d.fields else []
  doc := if "doc" ∈ seen then d.doc else none
  opcode := if "opcode" ∈ seen then d.opcode else none
  readonly := if "readonly" ∈ seen then d.readonly else false

/-- The types of the fields can be written down, for the names in them can be read back. -/
def Definition.Writable (d : Definition) : Prop :=
  ∀ f ∈ d.fields, ∀ name ∈ f.ty.names, Ty.IsReference name

theorem Definition.reads {d : Definition} (h : d.Writable) :
    Reads Definition.read (room + 4) d.toJson d := by
  have hfields : Reads (Json.Reader.sequence Field.read) (room + 3)
      (.array (d.fields.map Field.toJson)) d.fields :=
    .sequence_map fun f hf => Field.reads (h f hf)
  refine Reads.record d.known (by simp) ?_ (by simp [shape]) rfl ?_
  · simp only [List.forall_mem_cons]
    refine ⟨fun seen => ⟨_, rfl, (Reads.text d.name .text).bind ?_⟩,
      fun seen => ⟨_, rfl, d.kind.reads.bind ?_⟩,
      fun seen => ⟨_, rfl, hfields.bind ?_⟩,
      fun seen => ⟨_, rfl, (Reads.textOption _).bind ?_⟩,
      fun seen => ⟨_, rfl, (Reads.ofOption fun n => ⟨.word n, nofun⟩).bind ?_⟩,
      fun seen => ⟨_, rfl, (Reads.boolean d.readonly).bind ?_⟩, nofun⟩
    all_goals simp [known]
  · intro seen hseen
    simp only [List.forall_mem_cons] at hseen
    simp [known, hseen]

/-- A schema file as far as it is known from the keys that were seen. -/
def SchemaFile.known (f : SchemaFile) (seen : List String) : SchemaFile where
  scope := if "namespace" ∈ seen then f.scope else none
  definitions := if "definitions" ∈ seen then f.definitions else []

namespace SchemaFile

variable {f : SchemaFile}

theorem reads_definitions (h : ∀ d ∈ f.definitions, d.Writable) :
    Reads (Json.Reader.sequence Definition.read) (room + 5)
      (.array (f.definitions.map Definition.toJson)) f.definitions :=
  .sequence_map fun d hd => Definition.reads (h d hd)

theorem reads (h : ∀ d ∈ f.definitions, d.Writable) :
    Reads SchemaFile.read (room + 6) (Schema.fileJson f.scope f.definitions) f := by
  refine Reads.record f.known (by simp) ?_ (by simp [shape]) rfl ?_
  · simp only [List.forall_mem_cons]
    refine ⟨fun seen => ⟨_, rfl, (Reads.textOption _).bind ?_⟩,
      fun seen => ⟨_, rfl, (reads_definitions h).bind ?_⟩, nofun⟩
    all_goals simp [known]
  · intro seen hseen
    simp only [List.forall_mem_cons] at hseen
    simp [known, hseen]

/-- A file that says nothing of a namespace has none. -/
theorem reads_bare (h : ∀ d ∈ f.definitions, d.Writable) (hscope : f.scope = none) :
    Reads SchemaFile.read (room + 6)
      (.object [("definitions", .array (f.definitions.map Definition.toJson))]) f := by
  refine Reads.record f.known (by simp) ?_ (by simp [shape]) rfl ?_
  · simp only [List.forall_mem_cons]
    refine ⟨fun seen => ⟨_, rfl, (reads_definitions h).bind ?_⟩, nofun⟩
    simp [known]
  · intro seen hseen
    simp only [List.forall_mem_cons] at hseen
    simp [known, hseen, ← hscope]

end SchemaFile

/-! ## Schemas -/

namespace Schema

variable {scope : Option String} {ds before after : List Definition} {d : Definition} {v : Value}
  {s : Schema}

/-- All definitions are inserted, or one stops the rest whose name was taken before it. -/
theorem insertAll_cases : ∀ (ds : List Definition) (s : Schema),
    (∃ t, s.insertAll ds = .ok t ∧ t.scope = s.scope ∧ t.definitions = s.definitions ++ ds)
    ∨ ∃ before d after, ds = before ++ d :: after
      ∧ ((s.definitions ++ before).map (·.name)).Nodup
      ∧ d.name ∈ (s.definitions ++ before).map (·.name) ∧ s.insertAll ds = .error d.name
  | [], s => .inl ⟨s, rfl, rfl, (List.append_nil _).symm⟩
  | d :: ds, s => by
    by_cases hd : d.name ∈ s.definitions.map (·.name)
    · right
      have hnames : s.definitions ++ [] = s.definitions := List.append_nil _
      refine ⟨[], d, ds, rfl, ?_, ?_, ?_⟩
      · rw [hnames]
        exact s.nodup
      · rwa [hnames]
      · rw [insertAll, insert?_of_mem hd]
    · obtain ⟨t, ht, hscope, hdefs⟩ := exists_insert?_eq hd
      have hstep : s.insertAll (d :: ds) = t.insertAll ds := by rw [insertAll, ht]
      have hnames : ∀ l, t.definitions ++ l = s.definitions ++ d :: l := by
        intro l
        rw [hdefs, List.append_assoc, List.singleton_append]
      rcases insertAll_cases ds t with ⟨u, hu, huscope, hudefs⟩ |
        ⟨before, e, after, hds, hnodup, he, herr⟩
      · exact .inl ⟨u, hstep ▸ hu, huscope.trans hscope, hudefs.trans (hnames ds)⟩
      · right
        rw [hnames] at hnodup he
        exact ⟨d :: before, e, after, by rw [hds]; rfl, hnodup, he, hstep ▸ herr⟩

/-- The objects that hold a namespace and definitions, with the members of every object in any
order. Without a namespace its key may be missing. -/
inductive IsFile (scope : Option String) (ds : List Definition) : Value → Prop
  | full {v : Value} : (fileJson scope ds).Reordered v → IsFile scope ds v
  | bare {v : Value} : scope = none →
    (Value.object [("definitions", .array (ds.map Definition.toJson))]).Reordered v →
      IsFile scope ds v

theorem IsFile.takes (h : IsFile scope ds v) (hds : ∀ d ∈ ds, d.Writable) :
    Json.Reader.Takes SchemaFile.read (room + 6) v ⟨scope, ds⟩ := by
  cases h with
  | full hv => exact SchemaFile.reads (f := ⟨scope, ds⟩) hds v hv _ (Nat.le_refl _)
  | bare hscope hv =>
    exact SchemaFile.reads_bare (f := ⟨scope, ds⟩) hds hscope v hv _ (Nat.le_refl _)

theorem ofJson?_eq (h : IsFile scope ds v) (hds : ∀ d ∈ ds, d.Writable) :
    ofJson? v.toText = (ofList? scope ds).mapError .duplicate := by
  have htakes : Json.Reader.Takes SchemaFile.read 127 v ⟨scope, ds⟩ := h.takes hds
  have hrun := htakes [] nofun
  rw [List.append_nil] at hrun
  have hread : Json.Reader.read SchemaFile.read v.toText = .ok ⟨scope, ds⟩ := by
    simp only [Json.Reader.run] at hrun
    rw [Json.Reader.read, hrun]
    rfl
  rw [ofJson?, hread]
  rfl

/-- A schema that is written as JSON is the schema that is read, and a list of definitions that is
none is refused for the first name that repeats an earlier one. -/
theorem json_round_trip (h : IsFile scope ds v) (hds : ∀ d ∈ ds, d.Writable) :
    ofJson? v.toText = (ofList? scope ds).mapError .duplicate
    ∧ ((ds.map (·.name)).Nodup →
      ∃ s, ofJson? v.toText = .ok s ∧ s.scope = scope ∧ s.definitions = ds)
    ∧ (¬ (ds.map (·.name)).Nodup → ∃ before d after, ds = before ++ d :: after
      ∧ (before.map (·.name)).Nodup ∧ d.name ∈ before.map (·.name)
      ∧ ofJson? v.toText = .error (.duplicate d.name)) := by
  have hload := ofJson?_eq h hds
  refine ⟨hload, ?_, ?_⟩
  all_goals
    intro hnodup
    rw [hload]
    rcases insertAll_cases ds (empty scope) with ⟨s, hs, hscope, hdefs⟩ |
      ⟨before, d, after, heq, hbefore, hd, hs⟩
  · exact ⟨s, by rw [ofList?, hs]; rfl, hscope, hdefs⟩
  · rw [heq, List.map_append, List.map_cons] at hnodup
    have hfresh := (List.nodup_cons.1 (List.nodup_middle.1 hnodup)).1
    exact absurd (List.mem_append_left _ hd) hfresh
  · have hs' := s.nodup
    rw [hdefs] at hs'
    exact absurd hs' hnodup
  · exact ⟨before, d, after, heq, hbefore, hd, by rw [ofList?, hs]; rfl⟩

end Schema

namespace Ledger

/-- A message that leads to itself, with a type, a text and an opcode to write down. -/
def entry : Definition where
  name := "Entry"
  kind := .message
  fields := [{
    name := "by name"
    ty := .map (.scalar .string) (.array (.defined "Entry"))
    value := 1
    deprecated := some { reason := some "a \"quote\"\n" } }]
  opcode := some 7

/-- The file of the ledger, its namespace behind its definitions. -/
def file : Value :=
  .object [
    ("definitions", .array [entry.toJson]),
    ("namespace", .string "ledger")]

/-- The ledger is read as it was written. -/
theorem comes_back_from_json : Schema.IsFile (some "ledger") [entry] file
    ∧ (∀ d ∈ [entry], d.Writable)
    ∧ ∃ s, Schema.ofJson? file.toText = .ok s ∧ s.scope = some "ledger"
      ∧ s.definitions = [entry] := by
  have hfile : Schema.IsFile (some "ledger") [entry] file :=
    .full (.object rfl (List.forall₂_same.2 fun v _ => .refl v) (List.Perm.swap _ _ _))
  have hname : Ty.IsReference "Entry" :=
    ⟨Ty.isName_iff.1 (by decide), Scalar.ofKeyword?_eq_none_iff.1 (by decide)⟩
  have hwritable : ∀ d ∈ [entry], d.Writable := by
    intro d hd f hf name hn
    rw [List.mem_singleton.1 hd] at hf
    rw [List.mem_singleton.1 hf] at hn
    rw [List.mem_singleton.1 hn]
    exact hname
  exact ⟨hfile, hwritable, (Schema.json_round_trip hfile hwritable).2.1 (by decide)⟩

end Ledger

end SchemaCodec

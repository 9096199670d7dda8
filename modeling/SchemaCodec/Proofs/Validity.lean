import Mathlib.Data.List.Nodup
import SchemaCodec.Proofs.Acceptance

/-!
# Which schemas have a source

A schema goes through many checks on the way to its source, some of them only while the statements
for a field are made. `Schema.Valid` says without the checks what they come to: the definitions
have different identifiers, and each of them meets conditions of its own (`Definition.Valid`). A
schema has a source exactly if it is valid (`Schema.accepted_iff_valid`).
-/

namespace SchemaCodec

open Relation

variable {s : Schema} {d : Definition} {runtime : String}

/-! ## What a definition needs -/

/-- The types of the keys of maps at any depth, those within keys included. -/
def Ty.keys : Ty → List Ty
  | .scalar _ | .defined _ => []
  | .array t => t.keys
  | .map k t => k :: (k.keys ++ t.keys)

namespace Definition

/-- A field leads back to the definition it belongs to, through structs alone. -/
def NestsItself (s : Schema) (d : Definition) : Prop :=
  ∃ f ∈ d.fields, ∃ name, f.ty = .defined name
    ∧ ReflTransGen (Leads s.definitions (· == .struct)) name d.name

/-- The members of an enum are numbers. Their constants differ from each other, and from the
constant for the opcode if there is one. -/
structure Enumerates (d : Definition) : Prop where
  ty : ∀ f ∈ d.fields, f.ty = .scalar .uint32
  nodup : (d.fields.map fun f => Identifier.ofConstant f.name).Nodup
  opcode : d.opcode.isSome = true →
    ∀ f ∈ d.fields, Identifier.ofConstant f.name ≠ Item.opcodeName

/-- The fields of a struct or message have types of the schema. Their identifiers differ from each
other, and from the function that makes a readonly shape. -/
structure Shaped (s : Schema) (d : Definition) : Prop where
  names : ∀ f ∈ d.fields, ∀ name ∈ f.ty.names, ∃ e, s.get? name = some e
  keys : ∀ f ∈ d.fields, ∀ k ∈ f.ty.keys, s.AdmitsKey k
  nodup : (d.fields.map fun f => Identifier.ofField f.name).Nodup
  new : d.readonly = true → ∀ f ∈ d.fields, Identifier.ofField f.name ≠ "new"

/-- The conditions that a definition of a schema meets or not, whatever the others do. -/
def Valid (s : Schema) (d : Definition) : Prop :=
  match d.kind with
  | .enum => d.Enumerates
  | .struct => ¬ d.NestsItself s ∧ d.Shaped s
  | .message => d.Tagged ∧ d.Shaped s

end Definition

/-- Definitions with different names have different identifiers. -/
def Schema.Distinct (s : Schema) : Prop :=
  ∀ c ∈ s.definitions, ∀ d ∈ s.definitions,
    Identifier.ofType c.name = Identifier.ofType d.name → c.name = d.name

structure Schema.Valid (s : Schema) : Prop where
  distinct : s.Distinct
  definitions : ∀ d ∈ s.definitions, d.Valid s

/-- What a type mentions exists, and its keys can be compared. -/
theorem Schema.admits_iff : ∀ {t : Ty}, s.Admits t
    ↔ (∀ name ∈ t.names, ∃ e, s.get? name = some e) ∧ ∀ k ∈ t.keys, s.AdmitsKey k
  | .scalar x => by simp [Admits, Ty.names, Ty.keys]
  | .array t => by
    rw [Admits, Ty.names, Ty.keys]
    exact admits_iff
  | .defined name => by simp [Admits, Ty.names, Ty.keys]
  | .map k t => by
    have hk : s.AdmitsKey k → s.Admits k := AdmitsKey.admits
    rw [admits_iff] at hk
    rw [Admits, admits_iff (t := t), Ty.names, Ty.keys, List.forall_mem_append,
      List.forall_mem_cons, List.forall_mem_append]
    constructor
    · rintro ⟨hkey, hnames, hkeys⟩
      exact ⟨⟨(hk hkey).1, hnames⟩, hkey, (hk hkey).2, hkeys⟩
    · rintro ⟨⟨-, hnames⟩, hkey, -, hkeys⟩
      exact ⟨hkey, hnames, hkeys⟩

/-! ## Runs of checks -/

section Except

variable {α β : Type}

def Succeeds (x : Except GenerateError α) : Prop :=
  ∃ a, x = .ok a

theorem succeeds_of_isOk {x : Except GenerateError α} (h : x.isOk = true) : Succeeds x := by
  cases x with
  | error e => cases h
  | ok a => exact ⟨a, rfl⟩

theorem succeeds_bind {x : Except GenerateError α} {f : α → Except GenerateError β} {a : α}
    (hx : x = .ok a) (hf : Succeeds (f a)) : Succeeds (x >>= f) := by
  obtain ⟨b, hb⟩ := hf
  exact ⟨b, bind_eq_ok.2 ⟨a, hx, hb⟩⟩

/-- What comes behind a check that gives nothing. -/
theorem succeeds_check_bind {x : Except GenerateError Unit} {f : Unit → Except GenerateError β} :
    Succeeds (x >>= f) ↔ x = .ok () ∧ Succeeds (f ()) := by
  simp only [Succeeds, bind_eq_ok]
  constructor
  · rintro ⟨b, _, hx, hb⟩
    exact ⟨hx, b, hb⟩
  · rintro ⟨hx, b, hb⟩
    exact ⟨b, (), hx, hb⟩

theorem succeeds_bind_pure {x : Except GenerateError α} {g : α → β} :
    Succeeds (x >>= fun a => pure (g a)) ↔ Succeeds x := by
  simp only [Succeeds, bind_eq_ok, pure_eq_ok]
  constructor
  · rintro ⟨_, a, ha, -⟩
    exact ⟨a, ha⟩
  · rintro ⟨a, ha⟩
    exact ⟨g a, a, ha, rfl⟩

theorem succeeds_pair {x : Except GenerateError α} {y : Except GenerateError β} :
    Succeeds (do return (← x, ← y)) ↔ Succeeds x ∧ Succeeds y := by
  simp only [Succeeds, bind_eq_ok, pure_eq_ok]
  constructor
  · rintro ⟨_, a, ha, b, hb, -⟩
    exact ⟨⟨a, ha⟩, b, hb⟩
  · rintro ⟨⟨a, ha⟩, b, hb⟩
    exact ⟨_, a, ha, b, hb, rfl⟩

theorem succeeds_mapM {f : α → Except GenerateError β} {l : List α} :
    Succeeds (l.mapM f) ↔ ∀ a ∈ l, Succeeds (f a) := by
  simp only [Succeeds, mapM_eq_ok]
  induction l with
  | nil => exact ⟨fun _ => nofun, fun _ => ⟨[], .nil⟩⟩
  | cons a l ih =>
    rw [List.forall_mem_cons, ← ih]
    constructor
    · rintro ⟨_, _ | ⟨hb, hbs⟩⟩
      exact ⟨⟨_, hb⟩, _, hbs⟩
    · rintro ⟨⟨b, hb⟩, bs, hbs⟩
      exact ⟨b :: bs, .cons hb hbs⟩

end Except

/-! ## Identifiers -/

namespace Item

theorem lookup_eq_none_iff {ident : String} {seen : List (String × String)} :
    seen.lookup ident = none ↔ ident ∉ seen.map (·.1) := by
  rw [List.lookup_eq_none_iff]
  simp only [List.mem_map, not_exists, not_and, bne_iff_ne]
  exact forall₂_congr fun _ _ => ne_comm

/-- Identifiers are let through if they differ from each other and from those that were seen. -/
theorem checkIdentifiers_eq_ok : ∀ {names seen : List (String × String)},
    checkIdentifiers seen names = .ok ()
      ↔ (names.map (·.2)).Nodup ∧ ∀ n ∈ names, n.2 ∉ seen.map (·.1)
  | [], seen => by simp [checkIdentifiers]
  | (name, ident) :: names, seen => by
    rw [checkIdentifiers, List.map_cons, List.nodup_cons, List.forall_mem_cons]
    split
    · rename_i first hfirst
      simp only [reduceCtorEq, false_iff]
      rintro ⟨-, hn, -⟩
      rw [← lookup_eq_none_iff, hfirst] at hn
      cases hn
    · rename_i hnone
      rw [lookup_eq_none_iff] at hnone
      rw [checkIdentifiers_eq_ok]
      simp only [List.map_cons, List.mem_cons, not_or, List.mem_map, not_exists,
        not_and] at hnone ⊢
      constructor
      · rintro ⟨hnd, h⟩
        exact ⟨⟨fun n hn => (h n hn).1, hnd⟩, hnone, fun n hn => (h n hn).2⟩
      · rintro ⟨⟨hne, hnd⟩, -, h⟩
        exact ⟨hnd, fun n hn => ⟨hne n hn, h n hn⟩⟩

theorem checkIdentifiers_taken {α : Type} {name ident : α → String} {l : List α}
    {idents : List String} :
    checkIdentifiers (taken idents) (l.map fun a => (name a, ident a)) = .ok ()
      ↔ (l.map ident).Nodup ∧ ∀ a ∈ l, ident a ∉ idents := by
  have hident : (l.map fun a => (name a, ident a)).map (·.2) = l.map ident := by
    rw [List.map_map]
    rfl
  have htaken : (taken idents).map (·.1) = idents := by
    rw [taken, List.map_map]
    exact List.map_id idents
  rw [checkIdentifiers_eq_ok, hident, htaken, List.forall_mem_map]

end Item

/-! ## The checks of a definition -/

theorem EnumItem.checkMembers_eq_ok :
    checkMembers d = .ok () ↔ ∀ f ∈ d.fields, f.ty = .scalar .uint32 := by
  unfold checkMembers
  split
  · rename_i f h
    simp only [reduceCtorEq, false_iff, not_forall]
    exact ⟨f, List.mem_of_find?_eq_some h, by simpa using List.find?_some h⟩
  · rename_i h
    simpa using h

theorem EnumItem.succeeds_ofDefinition? : Succeeds (ofDefinition? d) ↔ d.Enumerates := by
  rw [ofDefinition?, succeeds_check_bind, succeeds_check_bind, checkMembers_eq_ok, List.map_map]
  have hidents : Item.checkIdentifiers (Item.taken (d.opcode.map fun _ => Item.opcodeName).toList)
      (d.fields.map fun f => (f.name, Identifier.ofConstant f.name)) = .ok () ↔ _ :=
    Item.checkIdentifiers_taken
  constructor
  · rintro ⟨hty, hids, -⟩
    obtain ⟨hnodup, hseen⟩ := hidents.1 hids
    refine ⟨hty, hnodup, fun hop f hf => ?_⟩
    obtain ⟨n, hn⟩ := Option.isSome_iff_exists.1 hop
    simpa [hn] using hseen f hf
  · rintro ⟨hty, hnodup, hop⟩
    refine ⟨hty, hidents.2 ⟨hnodup, fun f hf => ?_⟩, _, rfl⟩
    rcases hd : d.opcode with _ | n
    · simp
    · simpa using hop (by simp [hd]) f hf

theorem Definition.checkTags_eq_ok : d.checkTags = .ok () ↔ d.Tagged := by
  refine ⟨tagged_of_checkTags, fun h => checkTagsFrom_eq_ok.2 ⟨fun f hf => ?_, h.nodup⟩⟩
  exact ⟨h.range f hf, List.not_mem_nil⟩

theorem Target.checkNesting_eq_ok_iff :
    (Target.mk s runtime).checkNesting d = .ok () ↔ ¬ d.NestsItself s := by
  rw [checkNesting_eq_ok]
  simp only [Definition.NestsItself, not_exists, not_and, ← Bool.not_eq_true,
    Schema.nestsByValue, Schema.leadsTo_iff]

theorem Target.admitsKey_of_key? {t : Ty} {k : AtomTy} (h : (Target.mk s runtime).key? t = .ok k) :
    s.AdmitsKey t := by
  cases t with
  | scalar x =>
    simp only [key?] at h
    split_ifs at h with hx
    exact (Bool.not_eq_true _).mp hx
  | defined name =>
    simp only [key?, bind_eq_ok, resolve?_eq_ok] at h
    obtain ⟨d, hd, h⟩ := h
    split_ifs at h with hk
    exact ⟨d, hd, hk⟩
  | array t => cases h
  | map k t => cases h

theorem Decoding.admits_of_ofTy? {t : Ty} {b : String} {n : Nat} {e : Decoding}
    (h : ofTy? ⟨s, runtime⟩ b n t = .ok e) : s.Admits t := by
  replace h := emitted_of_ofTy? h
  induction h with
  | scalar => trivial
  | enum hd => exact ⟨_, hd⟩
  | record hd => exact ⟨_, hd⟩
  | bytes => trivial
  | array _ _ _ ih => exact ih
  | map hk _ _ ih => exact ⟨Target.admitsKey_of_key? hk, ih⟩

theorem Decoding.succeeds_ofTy? {t : Ty} {b : String} {n : Nat} :
    Succeeds (ofTy? ⟨s, runtime⟩ b n t) ↔ s.Admits t :=
  ⟨fun ⟨_, h⟩ => admits_of_ofTy? h, fun h => h.exists_decoding b n⟩

theorem RecordDecoding.succeeds_ofMessage? : Succeeds (ofMessage? ⟨s, runtime⟩ d)
    ↔ d.kind = .message ∧ d.checkTags = .ok () ∧ ∀ f ∈ d.fields, s.Admits f.ty := by
  rw [ofMessage?, succeeds_check_bind, succeeds_check_bind, succeeds_bind_pure, succeeds_mapM,
    Definition.expect_eq_ok]
  simp only [succeeds_bind_pure, Decoding.succeeds_ofTy?]

theorem RecordDecoding.succeeds_ofStruct? : Succeeds (ofStruct? ⟨s, runtime⟩ d)
    ↔ d.kind = .struct ∧ (Target.mk s runtime).checkNesting d = .ok ()
      ∧ ∀ f ∈ d.fields, s.Admits f.ty := by
  rw [ofStruct?, succeeds_check_bind, succeeds_check_bind, succeeds_bind_pure, succeeds_mapM,
    Definition.expect_eq_ok]
  simp only [succeeds_bind_pure, Decoding.succeeds_ofTy?]
  have hzip : (∀ x ∈ d.fields.zipIdx, s.Admits x.1.ty) ↔ ∀ f ∈ d.fields, s.Admits f.ty := by
    rw [← List.forall_mem_map (f := Prod.fst) (P := fun f : Field => s.Admits f.ty),
      List.zipIdx_map_fst]
  rw [hzip]

/-- Deprecated fields have no statement that writes them, but one that reads them. -/
theorem RecordEncoding.succeeds_ofMessage? (hk : d.kind = .message) (hc : d.checkTags = .ok ())
    (h : ∀ f ∈ d.fields, s.Admits f.ty) : Succeeds (ofMessage? ⟨s, runtime⟩ d) := by
  rw [ofMessage?, succeeds_check_bind, succeeds_check_bind, succeeds_bind_pure, succeeds_mapM,
    Definition.expect_eq_ok]
  refine ⟨hk, hc, fun f hf => ?_⟩
  split_ifs
  · exact ⟨_, rfl⟩
  · exact succeeds_bind_pure.2 ((h f hf).exists_encoding _ _)

theorem RecordEncoding.succeeds_ofStruct? (hk : d.kind = .struct)
    (hc : (Target.mk s runtime).checkNesting d = .ok ()) (h : ∀ f ∈ d.fields, s.Admits f.ty) :
    Succeeds (ofStruct? ⟨s, runtime⟩ d) := by
  rw [ofStruct?, succeeds_check_bind, succeeds_check_bind, succeeds_bind_pure, succeeds_mapM,
    Definition.expect_eq_ok]
  refine ⟨hk, hc, fun f hf => ?_⟩
  exact succeeds_bind_pure.2 ((h f hf).exists_encoding _ _)

namespace RecordItem

theorem succeeds_shape? (runtime : String) (h : ∀ f ∈ d.fields, s.Admits f.ty) :
    Succeeds (shape? ⟨s, runtime⟩ d) :=
  succeeds_mapM.2 fun f hf => succeeds_bind_pure.2 ((h f hf).exists_typeName runtime)

theorem succeeds_codec? (runtime : String) (hk : d.kind.isAggregate = true) :
    Succeeds (codec? ⟨s, runtime⟩ d)
      ↔ check ⟨s, runtime⟩ d = .ok () ∧ ∀ f ∈ d.fields, s.Admits f.ty := by
  unfold codec? check
  cases hd : d.kind with
  | enum => simp [hd, Kind.isAggregate] at hk
  | message =>
    simp only []
    rw [succeeds_pair, RecordDecoding.succeeds_ofMessage?]
    refine ⟨fun h => ⟨h.2.2.1, h.2.2.2⟩, fun h => ⟨?_, hd, h⟩⟩
    exact RecordEncoding.succeeds_ofMessage? hd h.1 h.2
  | struct =>
    simp only []
    rw [succeeds_pair, RecordDecoding.succeeds_ofStruct?]
    refine ⟨fun h => ⟨h.2.2.1, h.2.2.2⟩, fun h => ⟨?_, hd, h⟩⟩
    exact RecordEncoding.succeeds_ofStruct? hd h.1 h.2

theorem checkIdentifiers_shape {fields : List ShapeField}
    (h : shape? ⟨s, runtime⟩ d = .ok fields) :
    Item.checkIdentifiers (Item.taken (if d.readonly then ["new"] else []))
        (fields.map fun f => (f.field.name, f.ident)) = .ok ()
      ↔ (d.fields.map fun f => Identifier.ofField f.name).Nodup
        ∧ (d.readonly = true → ∀ f ∈ d.fields, Identifier.ofField f.name ≠ "new") := by
  rw [names_of_shape? h, Item.checkIdentifiers_taken]
  refine and_congr_right fun _ => ?_
  cases d.readonly <;> simp

/-- A struct or message has an item if its own check and its fields are let through. -/
theorem succeeds_ofDefinition? (hk : d.kind.isAggregate = true) :
    Succeeds (ofDefinition? ⟨s, runtime⟩ d)
      ↔ check ⟨s, runtime⟩ d = .ok () ∧ d.Shaped s := by
  have hadmits : (∀ f ∈ d.fields, s.Admits f.ty)
      ↔ (∀ f ∈ d.fields, ∀ name ∈ f.ty.names, ∃ e, s.get? name = some e)
        ∧ ∀ f ∈ d.fields, ∀ k ∈ f.ty.keys, s.AdmitsKey k := by
    simp only [Schema.admits_iff]
    exact forall₂_and
  rw [ofDefinition?, succeeds_check_bind]
  refine and_congr_right fun hc => ?_
  constructor
  · rintro ⟨r, h⟩
    obtain ⟨fields, hshape, h⟩ := bind_eq_ok.1 h
    obtain ⟨hids, _, h⟩ := succeeds_check_bind.1 ⟨r, h⟩
    obtain ⟨codec, hcodec, -⟩ := bind_eq_ok.1 h
    obtain ⟨hnames, hkeys⟩ := hadmits.1 ((succeeds_codec? runtime hk).1 ⟨codec, hcodec⟩).2
    obtain ⟨hnodup, hnew⟩ := (checkIdentifiers_shape hshape).1 hids
    exact ⟨hnames, hkeys, hnodup, hnew⟩
  · rintro ⟨hnames, hkeys, hnodup, hnew⟩
    have hall := hadmits.2 ⟨hnames, hkeys⟩
    obtain ⟨fields, hshape⟩ := succeeds_shape? runtime hall
    obtain ⟨codec, hcodec⟩ := (succeeds_codec? runtime hk).2 ⟨hc, hall⟩
    have hids := (checkIdentifiers_shape hshape).2 ⟨hnodup, hnew⟩
    refine succeeds_bind hshape (succeeds_check_bind.2 ⟨hids, ?_⟩)
    exact succeeds_bind hcodec ⟨_, rfl⟩

end RecordItem

/-- A definition has an item exactly if it is valid. -/
theorem Item.succeeds_ofDefinition? (runtime : String) :
    Succeeds (ofDefinition? ⟨s, runtime⟩ d) ↔ d.Valid s := by
  unfold ofDefinition? Definition.Valid
  cases hk : d.kind with
  | enum =>
    simp only []
    rw [succeeds_bind_pure, EnumItem.succeeds_ofDefinition?]
  | struct =>
    simp only []
    rw [succeeds_bind_pure, RecordItem.succeeds_ofDefinition? (by rw [hk]; rfl), RecordItem.check,
      hk]
    simp only [Target.checkNesting_eq_ok_iff]
  | message =>
    simp only []
    rw [succeeds_bind_pure, RecordItem.succeeds_ofDefinition? (by rw [hk]; rfl), RecordItem.check,
      hk]
    simp only [Definition.checkTags_eq_ok]

/-! ## The whole schema -/

namespace Target

theorem succeeds_item? (runtime : String) :
    Succeeds ((Target.mk s runtime).item? d) ↔ d.Valid s := by
  rw [← Item.succeeds_ofDefinition? runtime]
  unfold Succeeds
  simp only [Program.item?_eq_ok]

theorem checkIdentifiers_definitions : Item.checkIdentifiers (Item.taken [])
    (s.definitions.map fun d => (d.name, Identifier.ofType d.name)) = .ok () ↔ s.Distinct := by
  have hnames : (s.definitions.map fun d => Identifier.ofType d.name)
      = (s.definitions.map (·.name)).map Identifier.ofType := by
    rw [List.map_map]
    rfl
  rw [Item.checkIdentifiers_taken, hnames, List.nodup_map_iff_inj_on s.nodup]
  simp only [List.forall_mem_map, List.not_mem_nil, not_false_eq_true, implies_true, and_true]
  rfl

theorem succeeds_items? (runtime : String) : Succeeds (items? ⟨s, runtime⟩) ↔ s.Valid := by
  rw [items?, succeeds_check_bind, succeeds_mapM]
  simp only [succeeds_item?]
  refine (and_congr_left fun _ => checkIdentifiers_definitions).trans ?_
  exact ⟨fun h => ⟨h.1, h.2⟩, fun h => ⟨h.distinct, h.definitions⟩⟩

end Target

namespace Schema

/-- The settings shape the text of a source, and nothing is checked while it is printed. -/
theorem generate_eq (s : Schema) (settings : Settings) : s.generate settings
    = (Target.items? ⟨s, settings.runtime⟩).map fun items =>
      let code := itemsCode settings settings.runtime items
      (s.wrap settings (Code.printAll .empty code)).text := by
  rw [generate]
  cases Target.items? ⟨s, settings.runtime⟩ <;> rfl

theorem succeeds_generate {settings : Settings} : Succeeds (s.generate settings) ↔ s.Valid := by
  rw [← Target.succeeds_items? settings.runtime, generate_eq]
  cases Target.items? ⟨s, settings.runtime⟩ <;> simp [Succeeds, Except.map]

theorem accepted_iff_valid : s.Accepted ↔ s.Valid :=
  ⟨fun ⟨_, h⟩ => succeeds_generate.1 h, fun h => ⟨{}, succeeds_generate.2 h⟩⟩

theorem Valid.not_nests (hs : s.Valid) {name : String} (hd : s.get? name = some d)
    (hk : d.kind = .struct) : ∀ f ∈ d.fields, s.nestsByValue f.ty d.name = false := by
  have hvalid := hs.definitions d (Definition.mem_of_byName? hd)
  rw [Definition.Valid, hk] at hvalid
  have hok : (Target.mk s "").checkNesting d = .ok () := Target.checkNesting_eq_ok_iff.2 hvalid.1
  exact Target.checkNesting_eq_ok.1 hok

theorem Valid.admits_field (hs : s.Valid) {name : String} (hd : s.get? name = some d)
    (hk : d.kind.isAggregate = true) {f : Field} (hf : f ∈ d.fields) : s.Admits f.ty := by
  have hvalid := hs.definitions d (Definition.mem_of_byName? hd)
  have hshaped : d.Shaped s := by
    rw [Definition.Valid] at hvalid
    cases hkind : d.kind with
    | enum =>
      rw [hkind] at hk
      cases hk
    | struct =>
      rw [hkind] at hvalid
      exact hvalid.2
    | message =>
      rw [hkind] at hvalid
      exact hvalid.2
  exact admits_iff.2 ⟨hshaped.names f hf, hshaped.keys f hf⟩

end Schema

end SchemaCodec

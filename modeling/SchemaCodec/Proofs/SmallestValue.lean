import SchemaCodec.Proofs.CountCheck
import SchemaCodec.Proofs.Encoder
import SchemaCodec.Proofs.Validity
import SchemaCodec.Value.Zero

/-!
# The smallest value

`Schema.minWireSize` is measured with fewer and fewer definitions, so that it ends on every schema.
Where no struct leads back to itself, the ones that are left out are never asked for
(`Schema.Expands.congr`). So a struct takes what its fields take, each counted as often as it
stands there (`Schema.minWireSize_struct`), and the zero of a struct is made of the zeros of its
fields. By induction along the structs, the zero of a type is a value of the type that takes
exactly the smallest size (`Schema.isSmallest_zero`), which no value and no input goes below.
-/

namespace SchemaCodec

open Relation Definition

variable {s : Schema} {d : Definition} {name : String} {t : Ty}

namespace Schema

/-! ## Fewer definitions -/

/-- What is found for a type comes from the definition that it names, and from what is found for
the fields of a struct while the struct is left out. -/
def Expands {α : Type} (g : List Definition → Ty → α) : Prop :=
  ∀ ds ds' t, (∀ name, t = .defined name → byName? ds name = byName? ds' name
    ∧ ∀ d, byName? ds' name = some d → d.kind = .struct →
      ∀ f ∈ d.fields, g (without ds name) f.ty = g (without ds' name) f.ty) → g ds t = g ds' t

/-- Only the definitions count that a type leads to. -/
theorem Expands.congr {α : Type} {g : List Definition → Ty → α} (hg : Expands g)
    {ds ds' : List Definition} {t : Ty}
    (h : ∀ a b, t = .defined a → ReflTransGen (Leads ds' (· == .struct)) a b →
      byName? ds b = byName? ds' b) : g ds t = g ds' t := by
  refine hg _ _ _ fun a ha => ⟨h a a ha .refl, fun d hd hk f hf => hg.congr fun b c hb hpath => ?_⟩
  by_cases hc : c = a
  · rw [hc, byName?_without_self, byName?_without_self]
  · rw [byName?_without_of_ne hc, byName?_without_of_ne hc]
    exact h a c ha ((leads_mono hpath).head ⟨d, hd, by rw [hk]; rfl, mem_direct_iff.2 ⟨f, hf, hb⟩⟩)
termination_by ds'.length
decreasing_by exact length_without_lt hd

theorem sizeWithin_struct {ds : List Definition} (hd : byName? ds name = some d)
    (hk : d.kind = .struct) : sizeWithin ds (.defined name)
      = (d.fields.map fun f => sizeWithin (Definition.without ds name) f.ty).sum := by
  rw [sizeWithin_defined, hd, List.sum_eq_foldr, List.foldr_map]
  simp only [hk]

theorem sizeWithin_expands : Expands sizeWithin := by
  intro ds ds' t h
  cases t with
  | defined name =>
    obtain ⟨hfind, hfields⟩ := h name rfl
    rcases hd : byName? ds' name with _ | d
    · rw [sizeWithin_defined, sizeWithin_defined, hfind, hd]
    · cases hk : d.kind with
      | struct =>
        rw [sizeWithin_struct (hfind.trans hd) hk, sizeWithin_struct hd hk]
        exact congrArg List.sum (List.map_congr_left fun f hf => hfields d hd hk f hf)
      | _ =>
        rw [sizeWithin_defined, sizeWithin_defined, hfind, hd]
        simp only [hk]
  | _ => rw [sizeWithin, sizeWithin]

theorem zeroWithin_expands : Expands zeroWithin := by
  intro ds ds' t h
  cases t with
  | defined name =>
    obtain ⟨hfind, hfields⟩ := h name rfl
    rw [zeroWithin_defined, zeroWithin_defined, hfind]
    rcases hd : byName? ds' name with _ | d
    · rfl
    · cases hk : d.kind with
      | struct =>
        simp only [hk]
        exact congrArg Value.struct (List.map_congr_left fun f hf => hfields d hd hk f hf)
      | _ => simp only [hk]
  | _ => rw [zeroWithin, zeroWithin]

/-- The fields of a struct that does not hold itself are found without the struct. -/
theorem Expands.field {α : Type} {g : List Definition → Ty → α} (hg : Expands g)
    (hd : s.get? name = some d) (hself : ∀ f ∈ d.fields, s.nestsByValue f.ty d.name = false)
    {f : Field} (hf : f ∈ d.fields) :
    g (Definition.without s.definitions name) f.ty = g s.definitions f.ty := by
  refine hg.congr fun a b ha hpath => byName?_without_of_ne (fun hb => ?_) _
  have hnests : s.nestsByValue f.ty d.name = true :=
    (leadsTo_iff s _ _ _).2 ⟨a, ha, by rwa [name_of_byName? hd, ← hb]⟩
  rw [hself f hf] at hnests
  cases hnests

theorem minWireSize_missing (hd : s.get? name = none) : s.minWireSize (.defined name) = 0 := by
  rw [minWireSize, sizeWithin_defined, show byName? s.definitions name = none from hd]

theorem minWireSize_enum (hd : s.get? name = some d) (hk : d.kind = .enum) :
    s.minWireSize (.defined name) = lengthSize := by
  rw [minWireSize, sizeWithin_defined, show byName? s.definitions name = some d from hd]
  simp only [hk]

theorem minWireSize_message (hd : s.get? name = some d) (hk : d.kind = .message) :
    s.minWireSize (.defined name) = emptyMessageSize := by
  rw [minWireSize, sizeWithin_defined, show byName? s.definitions name = some d from hd]
  simp only [hk]

/-- A struct takes what its fields take. -/
theorem minWireSize_struct (hd : s.get? name = some d) (hk : d.kind = .struct)
    (hself : ∀ f ∈ d.fields, s.nestsByValue f.ty d.name = false) :
    s.minWireSize (.defined name) = (d.fields.map fun f => s.minWireSize f.ty).sum := by
  rw [minWireSize, sizeWithin_struct hd hk]
  refine congrArg List.sum (List.map_congr_left fun f hf => ?_)
  exact sizeWithin_expands.field hd hself hf

theorem zero_struct (hd : s.get? name = some d) (hk : d.kind = .struct)
    (hself : ∀ f ∈ d.fields, s.nestsByValue f.ty d.name = false) :
    s.zero (.defined name) = .struct (d.fields.map fun f => s.zero f.ty) := by
  rw [zero, zeroWithin_defined, show byName? s.definitions name = some d from hd]
  simp only [hk]
  exact congrArg Value.struct (List.map_congr_left fun f hf => zeroWithin_expands.field hd hself hf)

/-! ## Induction along structs -/

/-- Where no struct holds itself, what holds of all types but structs, and of a struct if it holds of
its fields, holds of every type, for a struct leads to more definitions than its fields do. -/
theorem struct_induction (hself : ∀ name d, s.get? name = some d → d.kind = .struct →
      ∀ f ∈ d.fields, s.nestsByValue f.ty d.name = false) {motive : Ty → Prop}
    (other : ∀ t, (∀ name d, t = .defined name → s.get? name = some d → d.kind ≠ .struct) →
      motive t)
    (struct : ∀ name d, s.get? name = some d → d.kind = .struct →
      (∀ f ∈ d.fields, motive f.ty) → motive (.defined name)) (t : Ty) : motive t := by
  have hdefined : ∀ n name, s.reach name < n → motive (.defined name) := by
    intro n
    induction n with
    | zero => exact fun _ h => absurd h (Nat.not_lt_zero _)
    | succ n ih =>
      intro name hlt
      by_cases hstruct : ∃ d, s.get? name = some d ∧ d.kind = .struct
      · obtain ⟨d, hd, hk⟩ := hstruct
        refine struct name d hd hk fun f hf => ?_
        cases ht : f.ty with
        | defined b =>
          have := reach_lt hd hk (hself name d hd hk) hf ht
          exact ih b (by omega)
        | _ => exact other _ (by simp)
      · refine other _ fun a d ha hd hk => hstruct ⟨d, ?_, hk⟩
        cases ha
        exact hd
  cases t with
  | defined name => exact hdefined _ name (Nat.lt_succ_self _)
  | _ => exact other _ (by simp)

theorem Valid.struct_induction (hs : s.Valid) {motive : Ty → Prop}
    (other : ∀ t, (∀ name d, t = .defined name → s.get? name = some d → d.kind ≠ .struct) →
      motive t)
    (struct : ∀ name d, s.get? name = some d → d.kind = .struct →
      (∀ f ∈ d.fields, motive f.ty) → motive (.defined name)) (t : Ty) : motive t :=
  Schema.struct_induction (fun _ _ hd hk => hs.not_nests hd hk) other struct t

/-! ## The zero of a type -/

/-- A value of the type that takes exactly the smallest size. -/
structure IsSmallest (s : Schema) (v : Value) (t : Ty) : Prop where
  hasTy : s.HasTy v t
  fits : s.Fits v t
  length : (s.wire v t).length = s.minWireSize t

theorem isSmallest_scalar (x : Scalar) : s.IsSmallest (.atom x.zero) (.scalar x) where
  hasTy := .scalar (by cases x <;> rfl)
  fits := by
    rw [Fits]
    cases x with
    | string => exact (by decide +kernel : "".toUTF8.size < 2 ^ 32)
    | _ => trivial
  length := by
    rw [minWireSize, sizeWithin, wire]
    cases x <;> rfl

theorem isSmallest_message (hd : s.get? name = some d) (hk : d.kind = .message) :
    s.IsSmallest (.message (d.fields.map fun _ => none)) (.defined name) := by
  have hwire : ∀ fs : List Field, s.wirePresent (fs.map fun _ => none) fs = [] := by
    intro fs
    induction fs with
    | nil => rfl
    | cons f fs ih => rw [List.map_cons, wirePresent, ih]
  have hfits : ∀ fs : List Field, s.FitPresent (fs.map fun _ => none) fs := by
    intro fs
    induction fs with
    | nil => trivial
    | cons f fs ih => rwa [List.map_cons, FitPresent]
  refine ⟨.message hd hk (by simp) fun v f hm => ?_, ?_, ?_⟩
  · have := (List.of_mem_zip hm).1
    simp at this
  · rw [Fits, fields_of_get? hd, hwire]
    exact ⟨by decide, hfits _⟩
  · rw [minWireSize_message hd hk, wire, fields_of_get? hd, hwire]
    simp [emptyMessageSize, lengthSize]

theorem isSmallest_struct (hd : s.get? name = some d) (hk : d.kind = .struct)
    (hself : ∀ f ∈ d.fields, s.nestsByValue f.ty d.name = false) {g : Field → Value}
    (h : ∀ f ∈ d.fields, s.IsSmallest (g f) f.ty) :
    s.IsSmallest (.struct (d.fields.map g)) (.defined name) := by
  have hzip : (d.fields.map g).zip d.fields = d.fields.map fun f => (g f, f) :=
    List.map_prod_right_eq_zip.symm
  refine ⟨.struct hd hk (by simp) fun v f hm => ?_, ?_, ?_⟩
  · rw [hzip, List.mem_map] at hm
    obtain ⟨f, hf, ⟨⟩⟩ := hm
    exact (h f hf).hasTy
  · rw [Fits, fields_of_get? hd, fitFields_iff]
    rw [hzip, List.forall_mem_map]
    exact fun f hf => (h f hf).fits
  · rw [minWireSize_struct hd hk hself, wire, fields_of_get? hd, length_wireFields,
      List.zipWith_map_left, List.zipWith_self]
    exact congrArg List.sum (List.map_congr_left fun f hf => (h f hf).length)

/-- The zero of a type takes exactly the smallest size. -/
theorem isSmallest_zero (hs : s.Valid) : s.Admits t → s.IsSmallest (s.zero t) t := by
  induction t using hs.struct_induction with
  | struct name d hd hk ih =>
    intro _
    rw [zero_struct hd hk (hs.not_nests hd hk)]
    exact isSmallest_struct hd hk (hs.not_nests hd hk) fun f hf =>
      ih f hf (hs.admits_field hd (by rw [hk]; rfl) hf)
  | other t hother =>
    intro ht
    cases t with
    | scalar x =>
      rw [zero, zeroWithin]
      exact isSmallest_scalar x
    | array t =>
      rw [zero, zeroWithin]
      exact ⟨.array (by simp), by simp [Fits, FitItems], by
        simp [wire, wireItems, minWireSize, sizeWithin, lengthSize]⟩
    | map k t =>
      rw [zero, zeroWithin]
      exact ⟨.map (by simp) (by simp) (by simp), by simp [Fits, FitEntries], by
        simp [wire, wireEntries, minWireSize, sizeWithin, lengthSize]⟩
    | defined name =>
      obtain ⟨d, hd⟩ := ht
      have hfind : byName? s.definitions name = some d := hd
      rw [zero, zeroWithin_defined, hfind]
      cases hk : d.kind with
      | enum =>
        simp only [hk]
        refine ⟨.enum hd hk, trivial, ?_⟩
        rw [minWireSize_enum hd hk, wire]
        simp [Atom.wire, lengthSize]
      | struct => exact absurd hk (hother name d rfl hd)
      | message =>
        simp only [hk]
        exact isSmallest_message hd hk

/-! ## Types of no size -/

/-- Structs all of whose fields are such structs. -/
inductive Hollow (s : Schema) : Ty → Prop
  | struct {name : String} {d : Definition} (hd : s.get? name = some d) (hk : d.kind = .struct)
    (h : ∀ f ∈ d.fields, Hollow s f.ty) : Hollow s (.defined name)

theorem minWireSize_pos (ht : s.Admits t)
    (h : ∀ name d, t = .defined name → s.get? name = some d → d.kind ≠ .struct) :
    0 < s.minWireSize t := by
  cases t with
  | scalar x =>
    rw [minWireSize, sizeWithin]
    cases x <;> decide
  | array t =>
    rw [minWireSize, sizeWithin]
    decide
  | map k t =>
    rw [minWireSize, sizeWithin]
    decide
  | defined name =>
    obtain ⟨d, hd⟩ := ht
    cases hk : d.kind with
    | enum =>
      rw [minWireSize_enum hd hk]
      decide
    | struct => exact absurd hk (h name d rfl hd)
    | message =>
      rw [minWireSize_message hd hk]
      decide

theorem minWireSize_eq_zero_iff (hs : s.Valid) :
    s.Admits t → (s.minWireSize t = 0 ↔ s.Hollow t) := by
  induction t using hs.struct_induction with
  | other t hother =>
    intro ht
    refine iff_of_false (minWireSize_pos ht hother).ne' ?_
    rintro ⟨hd, hk, -⟩
    exact hother _ _ rfl hd hk
  | struct name d hd hk ih =>
    intro _
    rw [minWireSize_struct hd hk (hs.not_nests hd hk), List.sum_eq_zero_iff_forall_eq_nat,
      List.forall_mem_map]
    have hfields : ∀ f ∈ d.fields, (s.minWireSize f.ty = 0 ↔ s.Hollow f.ty) := fun f hf =>
      ih f hf (hs.admits_field hd (by rw [hk]; rfl) hf)
    constructor
    · exact fun h => .struct hd hk fun f hf => (hfields f hf).1 (h f hf)
    · intro h f hf
      cases h with
      | struct hd' _ h =>
        obtain rfl : d = _ := by simpa [hd] using hd'
        exact (hfields f hf).2 (h f hf)

end Schema

/-- No value of a type takes fewer bytes than the smallest size of the type, no input gives a value
for fewer bytes, and the zero of the type takes no more. Only structs of structs that hold nothing
else take no bytes. -/
theorem Program.minWireSize_exact (h : s.Accepted) :
    ∃ p, ofSchema? s = .ok p ∧ ∀ t, s.Admits t → (s.minWireSize t = 0 ↔ s.Hollow t)
      ∧ ∀ runtime operand binding depth depth',
        ∃ e d, Encoding.ofTy? ⟨s, runtime⟩ operand depth t = .ok e
          ∧ Decoding.ofTy? ⟨s, runtime⟩ binding depth' t = .ok d
          ∧ (∀ v, s.HasTy v t → ∃ c, s.minWireSize t ≤ c.length
            ∧ ∀ w : Writer, e.run p.encode? v w = some (w.append c))
          ∧ (∀ r v r', d.run p.decode r = (.ok v, r') → r.Ahead (s.minWireSize t) r')
          ∧ s.HasTy (s.zero t) t ∧ s.Fits (s.zero t) t
          ∧ ∃ c, c.length = s.minWireSize t
            ∧ ∀ w : Writer, e.run p.encode? (s.zero t) w = some (w.append c) := by
  have hs := Schema.accepted_iff_valid.1 h
  obtain ⟨p, hp⟩ := Schema.accepted_iff.1 h
  have himp := implements hp
  refine ⟨p, hp, fun t ht => ⟨Schema.minWireSize_eq_zero_iff hs ht, ?_⟩⟩
  intro runtime operand binding depth depth'
  obtain ⟨e, he⟩ : ∃ e, Encoding.ofTy? ⟨s, runtime⟩ operand depth t = .ok e :=
    ht.exists_encoding operand depth
  obtain ⟨d, hd⟩ : ∃ d, Decoding.ofTy? ⟨s, runtime⟩ binding depth' t = .ok d :=
    ht.exists_decoding binding depth'
  have hwrites : ∀ v, s.HasTy v t →
      ∀ w : Writer, e.run p.encode? v w = some (w.append (s.wire v t)) := fun v hv =>
    Encoding.run_eq himp hv e (Encoding.for_of_ofTy? he)
  have hzero := Schema.isSmallest_zero hs ht
  refine ⟨e, d, he, hd, fun v hv => ?_, (Decoding.for_of_ofTy? hd).moves himp, ?_⟩
  · exact ⟨s.wire v t, hv.covers_wire.minWireSize_le, hwrites v hv⟩
  · exact ⟨hzero.hasTy, hzero.fits, s.wire (s.zero t) t, hzero.length, hwrites _ hzero.hasTy⟩

namespace Survey

/-- A struct that stands twice in another one, beside a struct of no size. -/
def schema : Schema where
  definitions := [
    { name := "Mark", kind := .struct, fields := [] },
    { name := "Point", kind := .struct, fields := [
      { name := "x", ty := .scalar .uint16 }, { name := "y", ty := .scalar .uint16 }] },
    { name := "Leg", kind := .struct, fields := [
      { name := "from", ty := .defined "Point" }, { name := "to", ty := .defined "Point" },
      { name := "mark", ty := .defined "Mark" }] }]

/-- What a field of one of them names is another struct, which names none. -/
theorem not_nestsItself : ∀ d ∈ schema.definitions, ¬ d.NestsItself schema := by
  have hflat : ∀ d ∈ schema.definitions, ∀ f ∈ d.fields, ∀ name ∈ f.ty.direct?,
      name ≠ d.name ∧ ∀ e ∈ schema.get? name, e.direct = [] := by decide
  rintro d hd ⟨f, hf, name, hty, hpath⟩
  obtain ⟨hne, hlast⟩ := hflat d hd f hf name (by rw [hty]; rfl)
  rcases hpath.cases_head with heq | ⟨b, ⟨e, he, -, hb⟩, -⟩
  · exact hne heq
  · rw [hlast e he] at hb
    cases hb

theorem shaped : ∀ d ∈ schema.definitions, d.Shaped schema := by
  have hnames : ∀ d ∈ schema.definitions, ∀ f ∈ d.fields, ∀ name ∈ f.ty.names,
      (schema.get? name).isSome = true := by decide
  have hkeys : ∀ d ∈ schema.definitions, ∀ f ∈ d.fields, f.ty.keys = [] := by decide
  have hnodup : ∀ d ∈ schema.definitions,
      (d.fields.map fun f => Identifier.ofField f.name).Nodup := by decide +kernel
  have hnew : ∀ d ∈ schema.definitions, d.readonly = false := by decide
  intro d hd
  refine ⟨fun f hf name hn => Option.isSome_iff_exists.1 (hnames d hd f hf name hn),
    fun f hf k hk => ?_, hnodup d hd, fun hread => ?_⟩
  · rw [hkeys d hd f hf] at hk
    cases hk
  · rw [hnew d hd] at hread
    cases hread

theorem accepted : schema.Accepted := by
  have hkind : ∀ d ∈ schema.definitions, d.kind = .struct := by decide
  refine Schema.accepted_iff_valid.2 ⟨?_, fun d hd => ?_⟩
  · unfold Schema.Distinct
    decide +kernel
  · rw [Definition.Valid, hkind d hd]
    exact ⟨not_nestsItself d hd, shaped d hd⟩

theorem minWireSize_leg : schema.minWireSize (.defined "Leg") = 8 := by
  decide +kernel

/-- Eight bytes are enough for a leg, and no leg takes fewer. -/
theorem leg_exact : schema.Accepted ∧ ∃ p, Program.ofSchema? schema = .ok p
    ∧ ¬ schema.Hollow (.defined "Leg")
    ∧ (∃ c, c.length = 8
      ∧ ∀ w : Writer, p.encode? "Leg" (schema.zero (.defined "Leg")) w = some (w.append c))
    ∧ ∀ r v r', p.decode "Leg" r = (.ok v, r') → r.Ahead 8 r' := by
  refine ⟨accepted, ?_⟩
  obtain ⟨p, hp, ht⟩ := Program.minWireSize_exact accepted
  obtain ⟨hhollow, hcodec⟩ := ht (.defined "Leg") ⟨_, rfl⟩
  obtain ⟨e, d, he, hd, -, hreads, -, -, c, hc, hwrites⟩ := hcodec "" (.place "x") "y" 0 0
  cases he
  cases hd
  rw [minWireSize_leg] at hhollow hreads hc
  exact ⟨p, hp, fun h => absurd (hhollow.2 h) (by decide), ⟨c, hc, hwrites⟩, hreads⟩

end Survey

end SchemaCodec

import Mathlib.Data.Finset.Basic
import SchemaCodec.Proofs.SmallestValue

/-!
# Measuring with a path guard

`Schema.sizeWithin` is told which definitions are still to be measured. Measuring can also keep a set
of the structs that it is in the middle of, and change it on the way: a struct goes into the set, its
fields are measured one after the other, and it is taken out again. A struct that is in the set
counts nothing (`Schema.guardedSize`).

On every schema this ends, for no call stands within more calls than there are definitions that may
still be measured, and the set is as it was, whatever was measured in between
(`Schema.guardedSize_eq`). Where no struct holds itself, the guard is never met, and the sizes are
those that the fields add up to (`Schema.guardedSize_exact`).
-/

namespace SchemaCodec

open Relation Definition

namespace Schema

/-- Measures a type with at most so many calls within one another. The set holds the structs that
are being measured. -/
def guardedSize (s : Schema) : (calls : Nat) → Ty → StateT (Finset String) Option Nat
  | 0, _ => failure
  | calls + 1, t =>
    match t with
    | .scalar x => return x.wireSize
    | .array _ | .map _ _ => return lengthSize
    | .defined name =>
      match s.get? name with
      | none => return 0
      | some d =>
        match d.kind with
        | .enum => return lengthSize
        | .message => return emptyMessageSize
        | .struct => do
          if d.name ∈ (← get) then return 0
          else do
            modify (insert d.name)
            let sizes ← d.fields.mapM fun f => guardedSize s calls f.ty
            modify (·.erase d.name)
            return sizes.sum

/-- The definitions that may be measured while the structs in the set are. -/
def outside (s : Schema) (visiting : Finset String) : List Definition :=
  s.definitions.filter fun d => d.kind ≠ .struct ∨ d.name ∉ visiting

/-- No path from a struct through structs comes back to it. -/
def Founded (s : Schema) : Prop :=
  ∀ a, ¬ TransGen (Leads s.definitions (· == .struct)) a a

/-- Sizes without a guard: a struct takes what its fields take, each counted as often as it stands
there. -/
structure Sums (s : Schema) (size : Ty → Nat) : Prop where
  scalar : ∀ x, size (.scalar x) = x.wireSize
  array : ∀ t, size (.array t) = lengthSize
  map : ∀ k t, size (.map k t) = lengthSize
  missing : ∀ name, s.get? name = none → size (.defined name) = 0
  enum : ∀ name d, s.get? name = some d → d.kind = .enum → size (.defined name) = lengthSize
  message : ∀ name d, s.get? name = some d → d.kind = .message →
    size (.defined name) = emptyMessageSize
  struct : ∀ name d, s.get? name = some d → d.kind = .struct →
    size (.defined name) = (d.fields.map fun f => size f.ty).sum

variable {s : Schema} {d : Definition} {name : String} {visiting : Finset String} {t : Ty}

/-! ## What the guard leaves -/

@[simp] theorem outside_empty (s : Schema) : s.outside ∅ = s.definitions := by
  simp [outside]

theorem byName?_outside_iff : byName? (s.outside visiting) name = some d
    ↔ s.get? name = some d ∧ (d.kind ≠ .struct ∨ name ∉ visiting) := by
  have hnames : ((s.outside visiting).map (·.name)).Nodup :=
    s.nodup.sublist (List.filter_sublist.map _)
  rw [byName?_eq_some_iff hnames, get?_eq_some_iff, outside, List.mem_filter, decide_eq_true_iff]
  constructor
  · rintro ⟨⟨hd, h⟩, rfl⟩
    exact ⟨⟨hd, rfl⟩, h⟩
  · rintro ⟨⟨hd, rfl⟩, h⟩
    exact ⟨⟨hd, h⟩, rfl⟩

theorem byName?_outside_eq_none_iff : byName? (s.outside visiting) name = none
    ↔ ∀ d, s.get? name = some d → d.kind = .struct ∧ name ∈ visiting := by
  simp only [Option.eq_none_iff_forall_ne_some, ne_eq, byName?_outside_iff]
  grind

/-- While a struct is measured, it is left out. -/
theorem outside_insert (hd : s.get? name = some d) (hk : d.kind = .struct) :
    s.outside (insert name visiting) = without (s.outside visiting) name := by
  rw [outside, outside, without, List.filter_filter]
  refine List.filter_congr fun e he => ?_
  rw [Bool.eq_iff_iff]
  by_cases hname : e.name = name
  · obtain rfl : e = d := by simpa [hd] using (get?_eq_some_iff.2 ⟨he, hname⟩).symm
    simp [hname, hk]
  · simp [hname]

/-! ## The end of measuring -/

theorem mapM_run_of_forall {α β σ : Type} {f : α → StateT σ Option β} {g : α → β} {v : σ} :
    ∀ {l : List α}, (∀ a ∈ l, (f a).run v = some (g a, v)) → (l.mapM f).run v = some (l.map g, v)
  | [], _ => rfl
  | a :: l, h => by
    rw [List.forall_mem_cons] at h
    simp [List.mapM_cons, h.1, mapM_run_of_forall h.2]

/-- Measuring gives what the definitions give that the guard leaves, and brings the set back. The
induction is on the calls, of which there are more than definitions that the guard leaves. -/
theorem guardedSize_eq (s : Schema) : ∀ {calls : Nat} {visiting : Finset String} (t : Ty),
    (s.outside visiting).length < calls →
    (s.guardedSize calls t).run visiting = some (sizeWithin (s.outside visiting) t, visiting)
  | 0, _, _, h => absurd h (Nat.not_lt_zero _)
  | calls + 1, visiting, .scalar x, _ => by
    rw [sizeWithin]
    rfl
  | calls + 1, visiting, .array _, _ => by
    rw [sizeWithin]
    rfl
  | calls + 1, visiting, .map _ _, _ => by
    rw [sizeWithin]
    rfl
  | calls + 1, visiting, .defined name, h => by
    simp only [guardedSize]
    rcases hd : s.get? name with _ | d
    · rw [sizeWithin_defined, byName?_outside_eq_none_iff.2 (by simp [hd])]
      rfl
    cases hk : d.kind with
    | enum =>
      rw [sizeWithin_defined, byName?_outside_iff.2 ⟨hd, .inl (by simp [hk])⟩]
      simp only [hk]
      rfl
    | message =>
      rw [sizeWithin_defined, byName?_outside_iff.2 ⟨hd, .inl (by simp [hk])⟩]
      simp only [hk]
      rfl
    | struct =>
      obtain rfl : d.name = name := name_of_byName? hd
      by_cases hmem : d.name ∈ visiting
      · rw [sizeWithin_defined, byName?_outside_eq_none_iff.2 (by simp [hd, hk, hmem])]
        simp [hmem, hk]
      · have hout : byName? (s.outside visiting) d.name = some d :=
          byName?_outside_iff.2 ⟨hd, .inr hmem⟩
        -- the fields are measured while the struct is left out, so one call fewer is enough
        have hlt := length_without_lt hout
        rw [← outside_insert hd hk] at hlt
        have hfields : (d.fields.mapM fun f => s.guardedSize calls f.ty).run (insert d.name visiting)
            = some (d.fields.map fun f => sizeWithin (s.outside (insert d.name visiting)) f.ty,
              insert d.name visiting) :=
          mapM_run_of_forall fun f _ => guardedSize_eq s f.ty (by omega)
        rw [sizeWithin_struct hout hk, ← outside_insert hd hk]
        simp [hmem, hk, hfields, Finset.erase_insert hmem]

/-! ## Schemas in which no struct holds itself -/

/-- A guard that is not met changes nothing. -/
theorem sizeWithin_outside (h : ∀ name ∈ visiting, s.nestsByValue t name = false) :
    sizeWithin (s.outside visiting) t = s.minWireSize t := by
  refine sizeWithin_expands.congr fun a b ha hpath => ?_
  have hb : b ∉ visiting := fun hb => by
    have hnests : s.nestsByValue t b = true := (leadsTo_iff s _ _ _).2 ⟨a, ha, hpath⟩
    rw [h b hb] at hnests
    cases hnests
  rw [Option.ext_iff]
  intro d
  exact byName?_outside_iff.trans (and_iff_left (.inr hb))

theorem founded_iff : s.Founded ↔ ∀ name d, s.get? name = some d → d.kind = .struct →
    ∀ f ∈ d.fields, s.nestsByValue f.ty d.name = false := by
  constructor
  · intro hs name d hd hk f hf
    rw [Bool.eq_false_iff, Ne, nestsByValue, leadsTo_iff]
    rintro ⟨a, ha, hpath⟩
    rw [name_of_byName? hd] at hpath
    exact hs name (.head' ⟨d, hd, by rw [hk]; rfl, mem_direct_iff.2 ⟨f, hf, ha⟩⟩ hpath)
  · intro hself a hpath
    obtain ⟨b, ⟨d, hd, hk, hb⟩, hpath⟩ := TransGen.head'_iff.1 hpath
    obtain ⟨f, hf, hty⟩ := mem_direct_iff.1 hb
    have hnests : s.nestsByValue f.ty d.name = true :=
      (leadsTo_iff s _ _ _).2 ⟨b, hty, by rwa [name_of_byName? hd]⟩
    rw [hself a d hd (by simpa using hk) f hf] at hnests
    cases hnests

theorem Valid.founded (hs : s.Valid) : s.Founded :=
  founded_iff.2 fun _ _ hd hk => hs.not_nests hd hk

theorem Founded.sums_minWireSize (hs : s.Founded) : s.Sums s.minWireSize where
  scalar x := by rw [minWireSize, sizeWithin]
  array t := by rw [minWireSize, sizeWithin]
  map k t := by rw [minWireSize, sizeWithin]
  missing _ hd := minWireSize_missing hd
  enum _ _ hd hk := minWireSize_enum hd hk
  message _ _ hd hk := minWireSize_message hd hk
  struct _ _ hd hk := minWireSize_struct hd hk (founded_iff.1 hs _ _ hd hk)

/-- The fields of a struct say what it takes, so there is one way to add up. -/
theorem Sums.unique (hs : s.Founded) {size size' : Ty → Nat} (h : s.Sums size)
    (h' : s.Sums size') : size = size' := by
  funext t
  induction t using struct_induction (founded_iff.1 hs) with
  | struct name d hd hk ih =>
    rw [h.struct name d hd hk, h'.struct name d hd hk]
    exact congrArg List.sum (List.map_congr_left ih)
  | other t hother =>
    cases t with
    | scalar x => rw [h.scalar, h'.scalar]
    | array t => rw [h.array, h'.array]
    | map k t => rw [h.map, h'.map]
    | defined name =>
      rcases hd : s.get? name with _ | d
      · rw [h.missing name hd, h'.missing name hd]
      · cases hk : d.kind with
        | enum => rw [h.enum name d hd hk, h'.enum name d hd hk]
        | message => rw [h.message name d hd hk, h'.message name d hd hk]
        | struct => exact absurd hk (hother name d rfl hd)

theorem length_outside_le (s : Schema) (visiting : Finset String) :
    (s.outside visiting).length ≤ s.definitions.length :=
  List.length_filter_le _ _

/-- Measuring a type ends on every schema, whichever structs are being measured, and leaves the set
of them as it is. Where no struct holds itself, there is one way to add up sizes without a guard,
and measuring a type gives its size, unless it leads to one of those structs. -/
theorem guardedSize_exact (s : Schema) :
    (∀ t visiting calls, s.definitions.length < calls →
      (s.guardedSize calls t).run visiting = some (sizeWithin (s.outside visiting) t, visiting))
    ∧ (∀ t calls, s.definitions.length < calls →
      (s.guardedSize calls t).run ∅ = some (s.minWireSize t, ∅))
    ∧ (s.Founded → ∃ size, (∀ size', s.Sums size' ↔ size' = size)
      ∧ ∀ t visiting calls, (∀ name ∈ visiting, s.nestsByValue t name = false) →
        s.definitions.length < calls →
        (s.guardedSize calls t).run visiting = some (size t, visiting)) := by
  have hends : ∀ t visiting calls, s.definitions.length < calls →
      (s.guardedSize calls t).run visiting = some (sizeWithin (s.outside visiting) t, visiting) :=
    fun t visiting _ h => guardedSize_eq s t (Nat.lt_of_le_of_lt (s.length_outside_le visiting) h)
  refine ⟨hends, fun t calls h => ?_, fun hs => ⟨s.minWireSize, fun size => ?_, ?_⟩⟩
  · rw [hends t ∅ calls h, outside_empty, minWireSize]
  · constructor
    · exact fun hsize => hsize.unique hs hs.sums_minWireSize
    · rintro rfl
      exact hs.sums_minWireSize
  · intro t visiting calls hclear h
    rw [hends t visiting calls h, sizeWithin_outside hclear]

end Schema

/-- Both points of a leg are counted: the first one is no longer being measured when the second one
is. -/
theorem Survey.leg_guarded : schema.Founded ∧ ∃ size, schema.Sums size
    ∧ (schema.guardedSize 4 (.defined "Leg")).run ∅ = some (size (.defined "Leg"), ∅)
    ∧ (schema.guardedSize 4 (.defined "Leg")).run ∅ = some (8, ∅) := by
  have hs := (Schema.accepted_iff_valid.1 accepted).founded
  obtain ⟨-, hsize, hsums⟩ := Schema.guardedSize_exact schema
  obtain ⟨size, hunique, hrun⟩ := hsums hs
  refine ⟨hs, size, (hunique size).2 rfl, hrun _ ∅ 4 (by simp) (by decide), ?_⟩
  rw [hsize _ 4 (by decide), minWireSize_leg]

end SchemaCodec

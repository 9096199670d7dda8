import SchemaCodec.Proofs.MinimalSize

/-!
# The wire format

`Schema.HasTy` says which values a type has. `Schema.wire` is the format, by recursion on the
value: what a message takes is known before it is written, so no length is filled in later.
`Schema.Fits` asks that each length in it fits four bytes, and `Schema.prune` is what is left of a
value on the wire, which holds no deprecated fields of messages.

A value of a type takes at least the smallest size of the type (`Schema.HasTy.covers_wire`).
-/

namespace SchemaCodec

open Wire
open List (Forall₂)

namespace Atom

/-- Numbers have their lowest byte first, and a text its length in bytes in front. -/
def wire : Atom → List UInt8
  | bool x => [if x then 1 else 0]
  | byte x => [x]
  | uint16 x => littleEndian 2 x.toNat
  | int16 x => littleEndian 2 x.toUInt16.toNat
  | uint32 x => littleEndian 4 x.toNat
  | int32 x => littleEndian 4 x.toUInt32.toNat
  | uint64 x => littleEndian 8 x.toNat
  | int64 x => littleEndian 8 x.toUInt64.toNat
  | float32 bits => littleEndian 4 bits.toNat
  | float64 bits => littleEndian 8 bits.toNat
  | string x => littleEndian 4 x.toUTF8.size ++ x.toUTF8.data.toList
  | guid x => x.toWire
  | date x => littleEndian 8 x.wire.toNat
  | enum number => littleEndian 4 number.toNat

/-- The length of a text fits four bytes. -/
def Fits : Atom → Prop
  | string x => x.toUTF8.size < 2 ^ 32
  | _ => True

end Atom

/-- Fewest bytes an atom takes. -/
def AtomTy.wireSize : AtomTy → Nat
  | .scalar s => s.wireSize
  | .enum _ => lengthSize

theorem Atom.wireSize_le {a : Atom} {ty : AtomTy} (h : a.hasTy ty = true) :
    ty.wireSize ≤ a.wire.length := by
  unfold hasTy at h
  split at h
  case h_15 => cases h
  all_goals simp [wire, AtomTy.wireSize, Scalar.wireSize, lengthSize]

namespace Schema

/-- The fields of a definition; none if it is missing. -/
def fields (s : Schema) (name : String) : List Field :=
  ((s.get? name).map (·.fields)).getD []

theorem fields_of_get? {s : Schema} {name : String} {d : Definition} (h : s.get? name = some d) :
    s.fields name = d.fields := by
  simp [fields, h]

/-- The values of a type. Any number is a value of an enum, and any field of a message may be
absent. -/
inductive HasTy (s : Schema) : Value → Ty → Prop
  | scalar {a : Atom} {x : Scalar} (h : a.hasTy (.scalar x) = true) : HasTy s (.atom a) (.scalar x)
  | enum {n : UInt32} {name : String} {d : Definition} (hd : s.get? name = some d)
    (hk : d.kind = .enum) : HasTy s (.atom (.enum n)) (.defined name)
  | array {vs : List Value} {t : Ty} (h : ∀ v ∈ vs, HasTy s v t) : HasTy s (.array vs) (.array t)
  | map {es : List (Atom × Value)} {k t : Ty} (hn : (es.map (·.1)).Nodup)
    (hk : ∀ e ∈ es, HasTy s (.atom e.1) k) (h : ∀ e ∈ es, HasTy s e.2 t) :
    HasTy s (.map es) (.map k t)
  | struct {vs : List Value} {name : String} {d : Definition} (hd : s.get? name = some d)
    (hk : d.kind = .struct) (hl : vs.length = d.fields.length)
    (h : ∀ v f, (v, f) ∈ vs.zip d.fields → HasTy s v f.ty) : HasTy s (.struct vs) (.defined name)
  | message {vs : List (Option Value)} {name : String} {d : Definition}
    (hd : s.get? name = some d) (hk : d.kind = .message) (hl : vs.length = d.fields.length)
    (h : ∀ v f, (some v, f) ∈ vs.zip d.fields → HasTy s v f.ty) :
    HasTy s (.message vs) (.defined name)

mutual

/-- The bytes of a value of a type. -/
def wire (s : Schema) : Value → Ty → List UInt8
  | .atom a, _ => a.wire
  | .array vs, .array t => littleEndian 4 vs.length ++ wireItems s vs t
  | .map es, .map _ t => littleEndian 4 es.length ++ wireEntries s es t
  | .struct vs, .defined name => wireFields s vs (s.fields name)
  | .message vs, .defined name =>
    let body := wirePresent s vs (s.fields name) ++ [0]
    littleEndian 4 body.length ++ body
  | _, _ => []

def wireItems (s : Schema) : List Value → Ty → List UInt8
  | [], _ => []
  | v :: vs, t => wire s v t ++ wireItems s vs t

def wireEntries (s : Schema) : List (Atom × Value) → Ty → List UInt8
  | [], _ => []
  | (k, v) :: es, t => k.wire ++ wire s v t ++ wireEntries s es t

def wireFields (s : Schema) : List Value → List Field → List UInt8
  | v :: vs, f :: fs => wire s v f.ty ++ wireFields s vs fs
  | _, _ => []

/-- The fields of a message that are present and not deprecated, each behind its tag. -/
def wirePresent (s : Schema) : List (Option Value) → List Field → List UInt8
  | some v :: vs, f :: fs =>
    if f.isDeprecated then wirePresent s vs fs
    else f.value.toUInt8 :: wire s v f.ty ++ wirePresent s vs fs
  | none :: vs, _ :: fs => wirePresent s vs fs
  | _, _ => []

end

mutual

/-- The lengths of texts, containers and messages that are written fit four bytes. -/
def Fits (s : Schema) : Value → Ty → Prop
  | .atom a, _ => a.Fits
  | .array vs, .array t => vs.length < 2 ^ 32 ∧ FitItems s vs t
  | .map es, .map _ t => es.length < 2 ^ 32 ∧ FitEntries s es t
  | .struct vs, .defined name => FitFields s vs (s.fields name)
  | .message vs, .defined name =>
    (wirePresent s vs (s.fields name)).length + 1 < 2 ^ 32 ∧ FitPresent s vs (s.fields name)
  | _, _ => True

def FitItems (s : Schema) : List Value → Ty → Prop
  | [], _ => True
  | v :: vs, t => Fits s v t ∧ FitItems s vs t

def FitEntries (s : Schema) : List (Atom × Value) → Ty → Prop
  | [], _ => True
  | (k, v) :: es, t => k.Fits ∧ Fits s v t ∧ FitEntries s es t

def FitFields (s : Schema) : List Value → List Field → Prop
  | v :: vs, f :: fs => Fits s v f.ty ∧ FitFields s vs fs
  | _, _ => True

def FitPresent (s : Schema) : List (Option Value) → List Field → Prop
  | some v :: vs, f :: fs => (f.isDeprecated = false → Fits s v f.ty) ∧ FitPresent s vs fs
  | none :: vs, _ :: fs => FitPresent s vs fs
  | _, _ => True

end

mutual

/-- The value without the deprecated fields of the messages in it. -/
def prune (s : Schema) : Value → Ty → Value
  | .atom a, _ => .atom a
  | .array vs, .array t => .array (pruneItems s vs t)
  | .map es, .map _ t => .map (pruneEntries s es t)
  | .struct vs, .defined name => .struct (pruneFields s vs (s.fields name))
  | .message vs, .defined name => .message (prunePresent s vs (s.fields name))
  | v, _ => v

def pruneItems (s : Schema) : List Value → Ty → List Value
  | [], _ => []
  | v :: vs, t => prune s v t :: pruneItems s vs t

def pruneEntries (s : Schema) : List (Atom × Value) → Ty → List (Atom × Value)
  | [], _ => []
  | (k, v) :: es, t => (k, prune s v t) :: pruneEntries s es t

def pruneFields (s : Schema) : List Value → List Field → List Value
  | v :: vs, f :: fs => prune s v f.ty :: pruneFields s vs fs
  | _, _ => []

def prunePresent (s : Schema) : List (Option Value) → List Field → List (Option Value)
  | some v :: vs, f :: fs =>
    (if f.isDeprecated then none else some (prune s v f.ty)) :: prunePresent s vs fs
  | none :: vs, _ :: fs => none :: prunePresent s vs fs
  | _, _ => []

end

variable {s : Schema}

/-- A key of a map is an atom of the type of its keys. -/
theorem HasTy.atom {a : Atom} {k : AtomTy} {t : Ty} (h : s.HasTy (.atom a) t) (hk : k.For s t) :
    a.hasTy k = true := by
  cases hk with
  | scalar =>
    cases h with
    | scalar h => exact h
  | enum hd hk =>
    cases h with
    | enum => rfl

/-! ## The parts of a value, one by one -/

theorem wireItems_eq (t : Ty) : ∀ vs : List Value,
    s.wireItems vs t = vs.flatMap fun v => s.wire v t
  | [] => rfl
  | v :: vs => by rw [wireItems, wireItems_eq t vs, List.flatMap_cons]

theorem wireItems_map {α : Type} {g : α → Value} {t : Ty} (l : List α) :
    s.wireItems (l.map g) t = l.flatMap fun a => s.wire (g a) t := by
  rw [wireItems_eq, List.flatMap_map]

theorem wireEntries_eq (t : Ty) : ∀ es : List (Atom × Value),
    s.wireEntries es t = es.flatMap fun e => e.1.wire ++ s.wire e.2 t
  | [] => rfl
  | (k, v) :: es => by rw [wireEntries, wireEntries_eq t es, List.flatMap_cons]

theorem pruneItems_eq (t : Ty) : ∀ vs : List Value,
    s.pruneItems vs t = vs.map fun v => s.prune v t
  | [] => rfl
  | v :: vs => by rw [pruneItems, pruneItems_eq t vs, List.map_cons]

theorem pruneEntries_eq (t : Ty) : ∀ es : List (Atom × Value),
    s.pruneEntries es t = es.map fun e => (e.1, s.prune e.2 t)
  | [] => rfl
  | (k, v) :: es => by rw [pruneEntries, pruneEntries_eq t es, List.map_cons]

theorem fitItems_iff (t : Ty) : ∀ {vs : List Value}, s.FitItems vs t ↔ ∀ v ∈ vs, s.Fits v t
  | [] => by simp [FitItems]
  | v :: vs => by rw [FitItems, fitItems_iff t, List.forall_mem_cons]

theorem fitEntries_iff (t : Ty) : ∀ {es : List (Atom × Value)},
    s.FitEntries es t ↔ ∀ e ∈ es, e.1.Fits ∧ s.Fits e.2 t
  | [] => by simp [FitEntries]
  | (k, v) :: es => by rw [FitEntries, fitEntries_iff t, List.forall_mem_cons, and_assoc]

theorem wireFields_eq : ∀ (vs : List Value) (fs : List Field),
    s.wireFields vs fs = (vs.zip fs).flatMap fun x => s.wire x.1 x.2.ty
  | [], _ => by simp [wireFields]
  | _ :: _, [] => by simp [wireFields]
  | v :: vs, f :: fs => by
    rw [wireFields, wireFields_eq vs fs, List.zip_cons_cons, List.flatMap_cons]

theorem pruneFields_eq : ∀ (vs : List Value) (fs : List Field),
    s.pruneFields vs fs = (vs.zip fs).map fun x => s.prune x.1 x.2.ty
  | [], _ => by simp [pruneFields]
  | _ :: _, [] => by simp [pruneFields]
  | v :: vs, f :: fs => by
    rw [pruneFields, pruneFields_eq vs fs, List.zip_cons_cons, List.map_cons]

theorem fitFields_iff : ∀ {vs : List Value} {fs : List Field},
    s.FitFields vs fs ↔ ∀ x ∈ vs.zip fs, s.Fits x.1 x.2.ty
  | [], _ => by simp [FitFields]
  | _ :: _, [] => by simp [FitFields]
  | v :: vs, f :: fs => by
    rw [FitFields, fitFields_iff, List.zip_cons_cons, List.forall_mem_cons]

/-- Fields of a message, each behind its tag. -/
def wireTagged (s : Schema) (items : List (Field × Value)) : List UInt8 :=
  items.flatMap fun x => x.1.value.toUInt8 :: s.wire x.2 x.1.ty

theorem wireTagged_cons (f : Field) (v : Value) (items : List (Field × Value)) :
    s.wireTagged ((f, v) :: items) = f.value.toUInt8 :: s.wire v f.ty ++ s.wireTagged items :=
  rfl

theorem length_le_wireTagged : ∀ items : List (Field × Value),
    items.length ≤ (s.wireTagged items).length
  | [] => le_rfl
  | (f, v) :: items => by
    have := length_le_wireTagged items
    simp only [wireTagged_cons, List.length_cons, List.length_append]
    omega

/-- The fields of a message that are written: those that are present and not deprecated. -/
def written : List (Option Value) → List Field → List (Field × Value)
  | some v :: vs, f :: fs => if f.isDeprecated then written vs fs else (f, v) :: written vs fs
  | none :: vs, _ :: fs => written vs fs
  | _, _ => []

theorem wirePresent_eq : ∀ (vs : List (Option Value)) (fs : List Field),
    s.wirePresent vs fs = s.wireTagged (written vs fs)
  | [], _ => by simp [wirePresent, written, wireTagged]
  | _ :: _, [] => by simp [wirePresent, written, wireTagged]
  | none :: vs, f :: fs => by rw [wirePresent, written, wirePresent_eq vs fs]
  | some v :: vs, f :: fs => by
    rw [wirePresent, written]
    split_ifs
    · exact wirePresent_eq vs fs
    · rw [wireTagged_cons, wirePresent_eq vs fs]

theorem prunePresent_eq_map : ∀ (vs : List (Option Value)) (fs : List Field),
    s.prunePresent vs fs = (vs.zip fs).map fun x =>
      if x.2.isDeprecated then none else x.1.map (s.prune · x.2.ty)
  | [], _ => by simp [prunePresent]
  | _ :: _, [] => by simp [prunePresent]
  | none :: vs, f :: fs => by
    simp [prunePresent, prunePresent_eq_map vs fs]
  | some v :: vs, f :: fs => by
    simp [prunePresent, prunePresent_eq_map vs fs]

theorem fitPresent_iff : ∀ {vs : List (Option Value)} {fs : List Field},
    s.FitPresent vs fs ↔ ∀ x ∈ written vs fs, s.Fits x.2 x.1.ty
  | [], _ => by simp [FitPresent, written]
  | _ :: _, [] => by simp [FitPresent, written]
  | none :: vs, f :: fs => by rw [FitPresent, written, fitPresent_iff]
  | some v :: vs, f :: fs => by
    rw [FitPresent, written, fitPresent_iff]
    split_ifs with hd
    · simp [hd]
    · rw [List.forall_mem_cons]
      simp [hd]

theorem written_sublist : ∀ (vs : List (Option Value)) (fs : List Field),
    ((written vs fs).map (·.1)).Sublist fs
  | [], _ => by simp [written]
  | _ :: _, [] => by simp [written]
  | none :: vs, f :: fs => (written_sublist vs fs).cons f
  | some v :: vs, f :: fs => by
    rw [written]
    split_ifs
    · exact (written_sublist vs fs).cons f
    · exact (written_sublist vs fs).cons_cons f

theorem mem_written {f : Field} {v : Value} : ∀ {vs : List (Option Value)} {fs : List Field},
    (f, v) ∈ written vs fs → (some v, f) ∈ vs.zip fs ∧ f.isDeprecated = false
  | [], _, h => by simp [written] at h
  | _ :: _, [], h => by simp [written] at h
  | none :: vs, g :: fs, h => by
    rw [written] at h
    exact ⟨List.mem_cons_of_mem _ (mem_written h).1, (mem_written h).2⟩
  | some u :: vs, g :: fs, h => by
    rw [written] at h
    split_ifs at h with hd
    · exact ⟨List.mem_cons_of_mem _ (mem_written h).1, (mem_written h).2⟩
    · rcases List.mem_cons.1 h with h | h
      · cases h
        exact ⟨List.mem_cons_self, by simpa using hd⟩
      · exact ⟨List.mem_cons_of_mem _ (mem_written h).1, (mem_written h).2⟩

theorem written_nodup {fs : List Field} (hn : (fs.map (·.value)).Nodup)
    (vs : List (Option Value)) : ((written vs fs).map (·.1.value)).Nodup := by
  have := ((written_sublist vs fs).map (·.value)).nodup hn
  rwa [List.map_map] at this

theorem length_wireFields : ∀ (vs : List Value) (fs : List Field),
    (s.wireFields vs fs).length = (List.zipWith (fun v f => (s.wire v f.ty).length) vs fs).sum
  | v :: vs, f :: fs => by
    rw [wireFields, List.length_append, List.zipWith_cons_cons, List.sum_cons,
      length_wireFields vs fs]
  | [], _ => by simp [wireFields]
  | _ :: _, [] => by simp [wireFields]

/-- A value of a type takes at least the smallest size of the type. -/
theorem HasTy.covers_wire {v : Value} {t : Ty} (h : s.HasTy v t) :
    s.Covers (s.wire v t).length t := by
  induction h with
  | scalar h =>
    refine .scalar ?_
    rw [wire]
    exact Atom.wireSize_le h
  | enum hd hk => exact .enum hd hk (by simp [wire, Atom.wire, lengthSize])
  | array => exact .array (by simp [wire, lengthSize])
  | map => exact .map (by simp [wire, lengthSize])
  | struct hd hk hl _ ih =>
    rw [wire, fields_of_get? hd, length_wireFields]
    refine .struct hd hk (List.forall₂_iff_zip.2 ⟨by simp [hl], fun {n f} hm => ?_⟩)
    obtain ⟨i, hi, hnf⟩ := List.getElem_of_mem hm
    rw [List.getElem_zip, List.getElem_zipWith, Prod.mk.injEq] at hnf
    obtain ⟨rfl, rfl⟩ := hnf
    exact ih _ _ (List.mem_iff_getElem.2 ⟨i, by simpa using hi, by simp⟩)
  | message hd hk =>
    refine .message hd hk ?_
    simp only [wire, List.length_append, length_littleEndian, emptyMessageSize, lengthSize,
      List.length_singleton]
    omega

end Schema

end SchemaCodec

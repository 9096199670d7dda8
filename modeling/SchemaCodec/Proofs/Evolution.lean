import SchemaCodec.Proofs.RoundTrip

/-!
# Other versions of a message

The writer and the reader may have different versions of a message. As long as the fields with a
shared tag have one type, and both schemas have the same definitions for whatever such a type
reaches (`Schema.Evolves`), the reader gets the fields that come before the first one it does not
know (`Program.decodes_evolved`), and goes on behind the message.
-/

namespace SchemaCodec

open Wire
open List (Forall₂)

namespace Schema

/-- The definitions that a type mentions, and those that these mention in turn. -/
inductive Reaches (s : Schema) (t : Ty) : String → Prop
  | named {name : String} (h : name ∈ t.names) : Reaches s t name
  | through {a b : String} {d : Definition} {f : Field} (h : Reaches s t a)
    (hd : s.get? a = some d) (hf : f ∈ d.fields) (hb : b ∈ f.ty.names) : Reaches s t b

/-- Whatever a type reaches has the same definition in both schemas. -/
def Agree (s s' : Schema) (t : Ty) : Prop :=
  ∀ name, s.Reaches t name → s.get? name = s'.get? name

variable {s s' : Schema}

theorem Reaches.mono {t t' : Ty} (h : ∀ name ∈ t.names, s.Reaches t' name) {name : String}
    (hr : s.Reaches t name) : s.Reaches t' name := by
  induction hr with
  | named hm => exact h _ hm
  | through _ hd hf hb ih => exact ih.through hd hf hb

theorem Reaches.not_scalar {x : Scalar} {name : String} : ¬ s.Reaches (.scalar x) name := by
  intro h
  induction h with
  | named h => simp [Ty.names] at h
  | through _ _ _ _ ih => exact ih

namespace Agree

theorem of_names {t t' : Ty} (h : s.Agree s' t') (hn : ∀ name ∈ t.names, s.Reaches t' name) :
    s.Agree s' t :=
  fun name hr => h name (hr.mono hn)

theorem scalar {x : Scalar} : s.Agree s' (.scalar x) := by
  intro name hr
  exact absurd hr Reaches.not_scalar

theorem array {t : Ty} (h : s.Agree s' (.array t)) : s.Agree s' t :=
  h.of_names fun _ hm => .named hm

theorem key {k t : Ty} (h : s.Agree s' (.map k t)) : s.Agree s' k :=
  h.of_names fun _ hm => .named (List.mem_append_left _ hm)

theorem value {k t : Ty} (h : s.Agree s' (.map k t)) : s.Agree s' t :=
  h.of_names fun _ hm => .named (List.mem_append_right _ hm)

theorem get? {name : String} {d : Definition} (h : s.Agree s' (.defined name))
    (hd : s.get? name = some d) : s'.get? name = some d := by
  rw [← h name (.named List.mem_cons_self), hd]

theorem field {name : String} {d : Definition} {f : Field} (h : s.Agree s' (.defined name))
    (hd : s.get? name = some d) (hf : f ∈ d.fields) : s.Agree s' f.ty :=
  h.of_names fun _ hm => .through (.named List.mem_cons_self) hd hf hm

end Agree

/-- A value of a type is to the other schema what it is to the first. -/
structure Same (s s' : Schema) (v : Value) (t : Ty) : Prop where
  hasTy : s'.HasTy v t
  wire : s'.wire v t = s.wire v t
  prune : s'.prune v t = s.prune v t
  fits : s.Fits v t → s'.Fits v t

namespace Same

theorem atom {a : Atom} {t : Ty} (h : s'.HasTy (.atom a) t) : s.Same s' (.atom a) t where
  hasTy := h
  wire := by rw [Schema.wire, Schema.wire]
  prune := by rw [Schema.prune, Schema.prune]
  fits := by
    rw [Schema.Fits, Schema.Fits]
    exact id

theorem array {vs : List Value} {t : Ty} (h : ∀ v ∈ vs, s.Same s' v t) :
    s.Same s' (.array vs) (.array t) := by
  refine ⟨.array fun v hv => (h v hv).hasTy, ?_, ?_, ?_⟩
  · rw [Schema.wire, Schema.wire, wireItems_eq, wireItems_eq,
      List.flatMap_congr fun v hv => (h v hv).wire]
  · rw [Schema.prune, Schema.prune, pruneItems_eq, pruneItems_eq,
      List.map_congr_left fun v hv => (h v hv).prune]
  · rw [Schema.Fits, Schema.Fits, fitItems_iff, fitItems_iff]
    exact fun hf => ⟨hf.1, fun v hv => (h v hv).fits (hf.2 v hv)⟩

theorem map {es : List (Atom × Value)} {k t : Ty} (hn : (es.map (·.1)).Nodup)
    (hk : ∀ e ∈ es, s.Same s' (.atom e.1) k) (h : ∀ e ∈ es, s.Same s' e.2 t) :
    s.Same s' (.map es) (.map k t) := by
  refine ⟨.map hn (fun e he => (hk e he).hasTy) fun e he => (h e he).hasTy, ?_, ?_, ?_⟩
  · rw [Schema.wire, Schema.wire, wireEntries_eq, wireEntries_eq,
      List.flatMap_congr fun e he => by rw [(h e he).wire]]
  · rw [Schema.prune, Schema.prune, pruneEntries_eq, pruneEntries_eq,
      List.map_congr_left fun e he => by rw [(h e he).prune]]
  · rw [Schema.Fits, Schema.Fits, fitEntries_iff, fitEntries_iff]
    exact fun hf => ⟨hf.1, fun e he => ⟨(hf.2 e he).1, (h e he).fits (hf.2 e he).2⟩⟩

variable {name : String} {d : Definition}

theorem struct {vs : List Value} (hd : s.get? name = some d) (hd' : s'.get? name = some d)
    (hk : d.kind = .struct) (hl : vs.length = d.fields.length)
    (h : ∀ x ∈ vs.zip d.fields, s.Same s' x.1 x.2.ty) :
    s.Same s' (.struct vs) (.defined name) := by
  refine ⟨.struct hd' hk hl fun v f hx => (h (v, f) hx).hasTy, ?_, ?_, ?_⟩
  · rw [Schema.wire, Schema.wire, fields_of_get? hd, fields_of_get? hd', wireFields_eq,
      wireFields_eq, List.flatMap_congr fun x hx => (h x hx).wire]
  · rw [Schema.prune, Schema.prune, fields_of_get? hd, fields_of_get? hd', pruneFields_eq,
      pruneFields_eq, List.map_congr_left fun x hx => (h x hx).prune]
  · rw [Schema.Fits, Schema.Fits, fields_of_get? hd, fields_of_get? hd', fitFields_iff,
      fitFields_iff]
    exact fun hf x hx => (h x hx).fits (hf x hx)

theorem wireTagged_eq {items : List (Field × Value)} (h : ∀ x ∈ items, s.Same s' x.2 x.1.ty) :
    s'.wireTagged items = s.wireTagged items :=
  List.flatMap_congr fun x hx => by rw [(h x hx).wire]

theorem message {vs : List (Option Value)} (hd : s.get? name = some d)
    (hd' : s'.get? name = some d) (hk : d.kind = .message) (hl : vs.length = d.fields.length)
    (h : ∀ v f, (some v, f) ∈ vs.zip d.fields → s.Same s' v f.ty) :
    s.Same s' (.message vs) (.defined name) := by
  have hw : ∀ x ∈ written vs d.fields, s.Same s' x.2 x.1.ty := fun x hx =>
    h x.2 x.1 (mem_written hx).1
  have hwire : s'.wirePresent vs d.fields = s.wirePresent vs d.fields := by
    rw [wirePresent_eq, wirePresent_eq, wireTagged_eq hw]
  refine ⟨.message hd' hk hl fun v f hx => (h v f hx).hasTy, ?_, ?_, ?_⟩
  · rw [Schema.wire, Schema.wire, fields_of_get? hd, fields_of_get? hd', hwire]
  · rw [Schema.prune, Schema.prune, fields_of_get? hd, fields_of_get? hd', prunePresent_eq_map,
      prunePresent_eq_map]
    refine congrArg _ (List.map_congr_left fun x hx => ?_)
    obtain ⟨_ | v, f⟩ := x
    · rfl
    · rw [Option.map_some, Option.map_some, (h v f hx).prune]
  · rw [Schema.Fits, Schema.Fits, fields_of_get? hd, fields_of_get? hd', hwire, fitPresent_iff,
      fitPresent_iff]
    exact fun hf => ⟨hf.1, fun x hx => (hw x hx).fits (hf.2 x hx)⟩

end Same

theorem HasTy.same {v : Value} {t : Ty} (h : s.HasTy v t) (ha : s.Agree s' t) :
    s.Same s' v t := by
  induction h with
  | scalar h => exact .atom (.scalar h)
  | enum hd hk => exact .atom (.enum (ha.get? hd) hk)
  | array _ ih => exact .array fun v hv => ih v hv ha.array
  | map hn _ _ ihk ih => exact .map hn (fun e he => ihk e he ha.key) fun e he => ih e he ha.value
  | struct hd hk hl _ ih =>
    exact .struct hd (ha.get? hd) hk hl fun x hx =>
      ih x.1 x.2 hx (ha.field hd (List.of_mem_zip hx).2)
  | message hd hk hl _ ih =>
    exact .message hd (ha.get? hd) hk hl fun v f hx =>
      ih v f hx (ha.field hd (List.of_mem_zip hx).2)

/-- The value of the field is written, and no field that is written before it is one that is not
known. -/
def Arrives (known : Field → Prop) (vs : List (Option Value)) (fs : List Field) (f : Field)
    (v : Value) : Prop :=
  ∃ i : Nat, fs[i]? = some f ∧ vs[i]? = some (some v) ∧ f.isDeprecated = false
    ∧ ∀ k < i, ∀ g u, fs[k]? = some g → vs[k]? = some (some u) → g.isDeprecated = false → known g

theorem arrives_cons {known : Field → Prop} {o : Option Value} {vs : List (Option Value)}
    {g : Field} {fs : List Field} {f : Field} {v : Value} :
    Arrives known (o :: vs) (g :: fs) f v ↔ (g = f ∧ o = some v ∧ f.isDeprecated = false)
      ∨ (∀ u, o = some u → g.isDeprecated = false → known g) ∧ Arrives known vs fs f v := by
  unfold Arrives
  rw [← Nat.or_exists_add_one]
  simp only [Nat.forall_lt_succ_left, Nat.not_lt_zero, List.getElem?_cons_zero,
    List.getElem?_cons_succ, Option.some.injEq, false_implies, implies_true, and_true]
  constructor
  · rintro (h | ⟨i, hf, hv, hd, h0, h⟩)
    · exact .inl h
    · exact .inr ⟨fun u hu => h0 g u rfl hu, i, hf, hv, hd, h⟩
  · rintro (h | ⟨h0, i, hf, hv, hd, h⟩)
    · exact .inl h
    · exact .inr ⟨i, hf, hv, hd, fun g' u hg hu => hg ▸ h0 u hu, h⟩

theorem mem_takeWhile_written {known : Field → Bool} {f : Field} {v : Value} :
    ∀ {vs : List (Option Value)} {fs : List Field},
    (f, v) ∈ (written vs fs).takeWhile (fun x => known x.1)
      ↔ known f = true ∧ Arrives (known · = true) vs fs f v
  | [], _ => by simp [written, Arrives]
  | _ :: _, [] => by simp [written, Arrives]
  | none :: vs, g :: fs => by
    rw [written, mem_takeWhile_written, arrives_cons]
    simp
  | some u :: vs, g :: fs => by
    rw [written, arrives_cons]
    by_cases hd : g.isDeprecated = true
    · have hne : ¬ (g = f ∧ some u = some v ∧ f.isDeprecated = false) := by
        rintro ⟨rfl, -, hd'⟩
        simp [hd] at hd'
      have hall : ∀ u', some u = some u' → g.isDeprecated = false → known g = true :=
        fun _ _ h => absurd hd (by simp [h])
      rw [if_pos hd, mem_takeWhile_written, or_iff_right hne, and_iff_right hall]
    · rw [if_neg hd, List.takeWhile_cons]
      by_cases hk : known g = true
      · rw [if_pos hk, List.mem_cons, mem_takeWhile_written, Prod.mk.injEq]
        simp only [hk]
        constructor
        · rintro (⟨rfl, rfl⟩ | ⟨hf, h⟩)
          · exact ⟨hk, .inl ⟨rfl, rfl, by simpa using hd⟩⟩
          · exact ⟨hf, .inr ⟨fun _ _ _ => trivial, h⟩⟩
        · rintro ⟨hf, ⟨rfl, hu, -⟩ | ⟨-, h⟩⟩
          · exact .inl ⟨rfl, (Option.some.inj hu).symm⟩
          · exact .inr ⟨hf, h⟩
      · rw [if_neg hk]
        simp only [List.not_mem_nil, false_iff, not_and]
        rintro hf (⟨rfl, -⟩ | ⟨h, -⟩)
        · exact hk hf
        · exact hk (h u rfl (by simpa using hd))

/-- Fields with one tag have one type in both versions, and the schemas agree on it. -/
def Evolves (s s' : Schema) (d d' : Definition) : Prop :=
  ∀ f ∈ d.fields, ∀ g ∈ d'.fields, f.value = g.value → f.ty = g.ty ∧ s.Agree s' f.ty

end Schema

def Definition.HasTag (d : Definition) (f : Field) : Prop :=
  ∃ g ∈ d.fields, g.value = f.value

variable {s s' : Schema} {p' : Program} {d d' : Definition}

/-- The fields that are not known begin with a tag that is not known, if there are any. -/
theorem Definition.Tagged.ends_dropWhile (ht : d.Tagged) (ht' : d'.Tagged)
    {items : List (Field × Value)} (hi : ∀ x ∈ items, x.1 ∈ d.fields) {known : Field → Bool}
    (hk : ∀ f, known f = true ↔ d'.HasTag f) :
    d'.Ends (s.wireTagged (items.dropWhile fun x => known x.1) ++ [0]) := by
  have hhead := List.head?_dropWhile_not (fun x : Field × Value => known x.1) items
  have hsub := List.dropWhile_sublist (fun x : Field × Value => known x.1) (l := items)
  generalize items.dropWhile (fun x => known x.1) = rest at hhead hsub
  cases rest with
  | nil => exact .terminator
  | cons x rest =>
    have hx := hi x (hsub.subset List.mem_cons_self)
    refine .unknown (ht.toUInt8_ne_zero hx) (fun g hg hgx => ?_) _
    have hknown : known x.1 = true := (hk x.1).2 ⟨g, hg, ht'.value_eq ht hg hx hgx⟩
    simp [hknown] at hhead

namespace Schema.Evolves

variable {name : String} {vs : List (Option Value)} {known : Field → Bool}

theorem same (he : s.Evolves s' d d') (hd : s.get? name = some d)
    (hv : s.HasTy (.message vs) (.defined name)) (hk : ∀ f, known f = true ↔ d'.HasTag f)
    {x : Field × Value} (hx : x ∈ (written vs d.fields).takeWhile fun x => known x.1) :
    d'.Knows x.1 ∧ s.Same s' x.2 x.1.ty := by
  have hz := (mem_written ((List.takeWhile_sublist _).subset hx)).1
  obtain ⟨g, hg, hgx⟩ := (hk x.1).1 (mem_takeWhile_written.1 hx).1
  obtain ⟨hty, ha⟩ := he x.1 (List.of_mem_zip hz).2 g hg hgx.symm
  cases hv with
  | message hdv _ _ h =>
    obtain rfl : d = _ := by simpa [hd] using hdv
    exact ⟨⟨g, hg, hgx, hty.symm⟩, (h x.2 x.1 hz).same ha⟩

/-- What the reader finds for a field in what is taken is what arrives for it. -/
theorem lastOf_eq_some_iff (he : s.Evolves s' d d') (hd : s.get? name = some d)
    (hv : s.HasTy (.message vs) (.defined name)) (hk : ∀ f, known f = true ↔ d'.HasTag f)
    (ht : d.Tagged) {g : Field} (hg : g ∈ d'.fields) {u : Value} :
    s'.lastOf ((written vs d.fields).takeWhile fun x => known x.1) g.value = some u
      ↔ ∃ f v, Arrives d'.HasTag vs d.fields f v ∧ f.value = g.value ∧ u = s.prune v f.ty := by
  have hnodup := (((List.takeWhile_sublist fun x : Field × Value => known x.1).map
    (·.1.value)).nodup (written_nodup ht.nodup vs))
  have hkeq : (known · = true) = d'.HasTag := funext fun f => propext (hk f)
  rw [Schema.lastOf_eq_some_iff hnodup]
  constructor
  · rintro ⟨x, hx, hxg, rfl⟩
    have harr := (mem_takeWhile_written.1 hx).2
    rw [hkeq] at harr
    exact ⟨x.1, x.2, harr, hxg, (he.same hd hv hk hx).2.prune⟩
  · rintro ⟨f, v, harr, hfg, rfl⟩
    have hx : (f, v) ∈ (written vs d.fields).takeWhile fun x => known x.1 := by
      rw [mem_takeWhile_written, hkeq]
      exact ⟨(hk f).2 ⟨g, hg, hfg.symm⟩, harr⟩
    exact ⟨(f, v), hx, hfg, (he.same hd hv hk hx).2.prune⟩

end Schema.Evolves

/-- The reader of another version gets what arrives of a message and stands at its end. -/
theorem Program.reads_evolved (hp' : p'.Implements s') {name : String} (ht : d.Tagged)
    (hd : s.get? name = some d) (hd' : s'.get? name = some d') (hk' : d'.kind = .message)
    (he : s.Evolves s' d d') {vs : List (Option Value)}
    (hv : s.HasTy (.message vs) (.defined name)) (hf : s.Fits (.message vs) (.defined name)) :
    ∃ rs : List (Option Value),
      Reads (p'.decode name) (s.wire (.message vs) (.defined name)) (.message rs)
        ∧ rs.length = d'.fields.length
        ∧ ∀ (j : Nat) (g : Field), d'.fields[j]? = some g → ∀ u, rs[j]? = some (some u)
          ↔ ∃ f v, Schema.Arrives d'.HasTag vs d.fields f v ∧ f.value = g.value
            ∧ u = s.prune v f.ty := by
  obtain ⟨es, hes, ht', hdec⟩ := decode_message hp' hd' hk'
  obtain ⟨known, hk⟩ : ∃ known : Field → Bool, ∀ f, known f = true ↔ d'.HasTag f :=
    ⟨fun f => d'.fields.any (·.value == f.value), fun f => by simp [Definition.HasTag]⟩
  -- the reader takes what comes before the first tag it does not know, and skips the rest
  have hsame := fun x => he.same (x := x) hd hv hk
  have hlast := fun g => he.lastOf_eq_some_iff (g := g) hd hv hk ht
  have hmem : ∀ x ∈ Schema.written vs d.fields, x.1 ∈ d.fields :=
    fun x hx => (List.of_mem_zip (Schema.mem_written hx).1).2
  have htail := ht.ends_dropWhile (s := s) ht' hmem hk
  have hitems := List.takeWhile_append_dropWhile (p := fun x : Field × Value => known x.1)
    (l := Schema.written vs d.fields)
  rw [Schema.Fits, Schema.fields_of_get? hd, Schema.fitPresent_iff] at hf
  rw [Schema.wire, Schema.fields_of_get? hd]
  generalize (Schema.written vs d.fields).takeWhile (fun x => known x.1) = taken at *
  generalize (Schema.written vs d.fields).dropWhile (fun x => known x.1) = rest at *
  have hbody : s.wirePresent vs d.fields ++ [0]
      = s'.wireTagged taken ++ (s.wireTagged rest ++ [0]) := by
    rw [Schema.wirePresent_eq, ← hitems, Schema.Same.wireTagged_eq fun x hx => (hsame x hx).2,
      Schema.wireTagged, List.flatMap_append, List.append_assoc]
    rfl
  refine ⟨d'.fields.map fun g => s'.lastOf taken g.value, ?_, List.length_map _, ?_⟩
  · rw [hdec, hbody]
    refine RecordDecoding.run_frame ht' hes (fun x hx => ?_) htail (by simpa [← hbody] using hf.1)
    obtain ⟨hknows, hs⟩ := hsame x hx
    have hfits := hf.2 x (hitems ▸ List.mem_append_left _ hx)
    exact ⟨hknows, Decoding.reads_wire hp' hs.hasTy (hs.fits hfits)⟩
  · intro j g hg u
    rw [List.getElem?_map, hg, Option.map_some, Option.some.injEq]
    exact hlast g (List.mem_of_getElem? hg)

/-- A message that is written in one version and read in another gives the fields that arrive, each
with its value, and no others, and the reader goes to the end of the message. -/
theorem Program.decodes_evolved (h : s.Accepted) (h' : s'.Accepted) {name : String}
    (hd : s.get? name = some d) (hd' : s'.get? name = some d') (hk : d.kind = .message)
    (hk' : d'.kind = .message) (he : s.Evolves s' d d') :
    ∃ p p', ofSchema? s = .ok p ∧ ofSchema? s' = .ok p' ∧ ∀ vs,
      s.HasTy (.message vs) (.defined name) → s.Fits (.message vs) (.defined name) →
        ∃ (c : List UInt8) (rs : List (Option Value)),
          (∀ w : Writer, p.encode? name (.message vs) w = some (w.append c)
            ∧ ∀ x, p'.decode name ⟨(w.append (c ++ x)).bytes, w.size⟩
              = (.ok (.message rs), ⟨(w.append (c ++ x)).bytes, w.size + c.length⟩))
          ∧ rs.length = d'.fields.length
          ∧ ∀ (j : Nat) (g : Field), d'.fields[j]? = some g → ∀ u, rs[j]? = some (some u)
            ↔ ∃ f v, Schema.Arrives d'.HasTag vs d.fields f v ∧ f.value = g.value
              ∧ u = s.prune v f.ty := by
  obtain ⟨p, hp⟩ := Schema.accepted_iff.1 h
  obtain ⟨p', hp'⟩ := Schema.accepted_iff.1 h'
  obtain ⟨-, -, ht, -⟩ := decode_message (implements hp) hd hk
  refine ⟨p, p', hp, hp', fun vs hv hf => ?_⟩
  obtain ⟨rs, hread, hrs⟩ := reads_evolved (implements hp') ht hd hd' hk' he hv hf
  refine ⟨s.wire (.message vs) (.defined name), rs, fun w => ⟨?_, fun x => ?_⟩, hrs⟩
  · have hrec : (Encoding.record (.binding "value") name).For s (.defined name) :=
      .record hd (by simp [hk, Kind.isAggregate])
    exact Encoding.run_eq (implements hp) hv _ hrec w
  · exact hread _ (w.prefix_rest _ x)

namespace Parcel

/-- Parcels hold no parcels yet, and there was a note on them. -/
def older : Schema where
  definitions := [{
    name := "Parcel"
    kind := .message
    fields := [
      { name := "label", ty := .scalar .string, value := 1 },
      { name := "note", ty := .scalar .string, value := 4 }] }]

theorem older_accepted : older.Accepted :=
  Schema.accepted_of_isOk (by decide +kernel)

theorem evolves {d d' : Definition} (hd : schema.get? "Parcel" = some d)
    (hd' : older.get? "Parcel" = some d') : schema.Evolves older d d' := by
  obtain rfl := Option.some.inj hd
  obtain rfl := Option.some.inj hd'
  intro f hf g hg hfg
  simp only [List.mem_cons, List.not_mem_nil, or_false] at hf hg
  rcases hf with rfl | rfl | rfl <;> rcases hg with rfl | rfl <;> try exact absurd hfg (by decide)
  exact ⟨rfl, .scalar⟩

/-- An older reader gets the label of a parcel, and stops before the parcels inside. -/
theorem arrives_older : schema.Accepted ∧ older.Accepted
    ∧ schema.HasTy value (.defined "Parcel") ∧ schema.Fits value (.defined "Parcel")
    ∧ ∃ d d', schema.get? "Parcel" = some d ∧ older.get? "Parcel" = some d'
      ∧ d.kind = .message ∧ d'.kind = .message ∧ schema.Evolves older d d'
      ∧ ∃ p p', Program.ofSchema? schema = .ok p ∧ Program.ofSchema? older = .ok p'
        ∧ ∃ (c : List UInt8) (rs : List (Option Value)), (∀ w : Writer,
          p.encode? "Parcel" value w = some (w.append c)
            ∧ ∀ x, p'.decode "Parcel" ⟨(w.append (c ++ x)).bytes, w.size⟩
              = (.ok (.message rs), ⟨(w.append (c ++ x)).bytes, w.size + c.length⟩))
          ∧ rs.length = 2 ∧ rs[0]? = some (some (.atom (.string "a")))
          ∧ ∀ u, rs[1]? ≠ some (some u) := by
  refine ⟨accepted, older_accepted, hasTy, fits, _, _, rfl, rfl, rfl, rfl, evolves rfl rfl, ?_⟩
  obtain ⟨p, p', hp, hp', hv⟩ := Program.decodes_evolved accepted older_accepted
    (show schema.get? "Parcel" = some _ from rfl) (show older.get? "Parcel" = some _ from rfl)
    rfl rfl (evolves rfl rfl)
  obtain ⟨c, rs, hw, hl, hrs⟩ := hv _ hasTy fits
  refine ⟨p, p', hp, hp', c, rs, hw, hl, ?_, fun u hu => ?_⟩
  · refine (hrs 0 _ rfl _).2 ⟨_, _, ⟨0, rfl, rfl, rfl, ?_⟩, rfl, rfl⟩
    exact fun k hk => absurd hk (Nat.not_lt_zero k)
  · obtain ⟨f, v, ⟨i, hf, -⟩, hfg, -⟩ := (hrs 1 _ rfl u).1 hu
    have hmem := List.mem_of_getElem? hf
    simp only [List.mem_cons, List.not_mem_nil, or_false] at hmem
    rcases hmem with rfl | rfl | rfl <;> exact absurd hfg (by decide)

end Parcel

end SchemaCodec

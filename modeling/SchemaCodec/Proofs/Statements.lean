import Mathlib.Data.List.Forall2
import Mathlib.Data.Nat.Basic
import Mathlib.Order.Basic
import Mathlib.Tactic.Common
import SchemaCodec.Proofs.Containment
import SchemaCodec.Codec.Program

/-!
# Which statements a type gets

The statements of a codec differ in the names their source uses. What they do depends on the type
alone: `Encoding.For` and `Decoding.For` relate a statement to the type it is made for, and
`RecordEncoding.For` and `RecordDecoding.For` the codec of a record to its definition. What is said
of statements with their names is an induction over `Encoding.Emitted` or `Decoding.Emitted`, which
have one case for each way in which a statement comes about.

A type of the schema (`Schema.Admits`) gets both statements, whatever the names are
(`Schema.Admits.exists_encoding`, `Schema.Admits.exists_decoding`). The program of a schema holds
the codecs of its structs and messages and no others (`Program.implements`).
-/

namespace SchemaCodec

open List (Forall₂)

section Except

variable {ε α β γ : Type}

theorem bind_eq_ok {x : Except ε α} {f : α → Except ε β} {b : β} :
    (x >>= f) = .ok b ↔ ∃ a, x = .ok a ∧ f a = .ok b := by
  cases x <;> simp [bind, Except.bind]

theorem pure_eq_ok {a b : α} : (pure a : Except ε α) = .ok b ↔ a = b := by
  simp [pure, Except.pure]

theorem map_eq_ok {x : Except ε α} {f : α → β} {b : β} :
    x.map f = .ok b ↔ ∃ a, x = .ok a ∧ f a = b := by
  cases x <;> simp [Except.map]

theorem mapM_eq_ok {f : α → Except GenerateError β} :
    ∀ {l : List α} {bs : List β}, l.mapM f = .ok bs ↔ Forall₂ (fun b a => f a = .ok b) bs l
  | [], bs => by
    rw [List.mapM_nil, pure_eq_ok, List.forall₂_nil_right_iff, eq_comm]
  | a :: l, bs => by
    simp only [List.mapM_cons, bind_eq_ok, pure_eq_ok, mapM_eq_ok (l := l),
      List.forall₂_cons_right_iff]
    constructor
    · rintro ⟨b, hb, bs', hbs, rfl⟩
      exact ⟨b, bs', hb, hbs, rfl⟩
    · rintro ⟨b, bs', hb, hbs, rfl⟩
      exact ⟨b, hb, bs', hbs, rfl⟩

end Except

theorem exists_getElem?_of_forall₂ {α β : Type} {R : α → β → Prop} {l : List α} {m : List β}
    (h : Forall₂ R l m) {i : Nat} {a : α} (ha : l[i]? = some a) : ∃ b, m[i]? = some b ∧ R a b := by
  induction h generalizing i with
  | nil => simp at ha
  | cons hab _ ih =>
    cases i with
    | zero =>
      simp only [List.getElem?_cons_zero, Option.some.injEq] at ha
      subst ha
      exact ⟨_, rfl, hab⟩
    | succ i => exact ih ha

/-- Scalars other than floats, and enums. -/
def Schema.AdmitsKey (s : Schema) : Ty → Prop
  | .scalar x => x.isFloat = false
  | .defined name => ∃ d, s.get? name = some d ∧ d.kind = .enum
  | .array _ | .map _ _ => False

/-- The types of a schema: each definition they mention exists, and maps have keys that can be
compared. -/
def Schema.Admits (s : Schema) : Ty → Prop
  | .scalar _ => True
  | .array t => s.Admits t
  | .map k t => s.AdmitsKey k ∧ s.Admits t
  | .defined name => ∃ d, s.get? name = some d

variable {s : Schema} {runtime : String}

theorem Target.resolve?_eq_ok {name : String} {d : Definition} :
    (Target.mk s runtime).resolve? name = .ok d ↔ s.get? name = some d := by
  unfold resolve?
  cases h : s.get? name <;> simp

/-- The atoms that the keys of maps are, by the type of the keys. -/
inductive AtomTy.For (s : Schema) : AtomTy → Ty → Prop
  | scalar {x : Scalar} : AtomTy.For s (.scalar x) (.scalar x)
  | enum {name : String} {d : Definition} (hd : s.get? name = some d) (hk : d.kind = .enum) :
    AtomTy.For s (.enum name) (.defined name)

theorem Target.for_of_key? {t : Ty} {k : AtomTy} (h : (Target.mk s runtime).key? t = .ok k) :
    k.For s t := by
  cases t with
  | scalar x =>
    simp only [key?] at h
    split_ifs at h
    simp only [Except.ok.injEq] at h
    subst h
    exact .scalar
  | defined name =>
    simp only [key?, bind_eq_ok, resolve?_eq_ok] at h
    obtain ⟨d, hd, h⟩ := h
    split_ifs at h with hk
    rw [pure_eq_ok] at h
    subst h
    exact .enum hd hk
  | array t => simp [key?] at h
  | map k t => simp [key?] at h

theorem Target.exists_key? (runtime : String) {t : Ty} (h : s.AdmitsKey t) :
    ∃ k, (Target.mk s runtime).key? t = .ok k := by
  cases t with
  | scalar x => exact ⟨_, by simp only [key?]; rw [show x.isFloat = false from h]; rfl⟩
  | defined name =>
    obtain ⟨d, hd, hk⟩ := h
    refine ⟨.enum name, ?_⟩
    simp only [key?, bind_eq_ok, resolve?_eq_ok]
    exact ⟨d, hd, by rw [if_pos hk]; rfl⟩
  | array t => exact h.elim
  | map k t => exact h.elim

/-- The statement writes values of the type. -/
inductive Encoding.For (s : Schema) : Encoding → Ty → Prop
  | scalar {o : Operand} {x : Scalar} : Encoding.For s (.atom o (.scalar x)) (.scalar x)
  | enum {o : Operand} {name : String} {d : Definition} (hd : s.get? name = some d)
    (hk : d.kind = .enum) : Encoding.For s (.atom o (.enum name)) (.defined name)
  | record {o : Operand} {name : String} {d : Definition} (hd : s.get? name = some d)
    (hk : d.kind.isAggregate = true) : Encoding.For s (.record o name) (.defined name)
  | bulk {o : Operand} {t : Ty} {b : Bulk} (hb : Bulk.ofTy? t = some b) :
    Encoding.For s (.bulk o b) (.array t)
  | array {o : Operand} {item : String} {t : Ty} {e : Encoding} (hb : Bulk.ofTy? t = none)
    (he : Encoding.For s e t) : Encoding.For s (.array o item e) (.array t)
  | map {o : Operand} {k v : String} {kt t : Ty} {key : AtomTy} {e : Encoding}
    (hk : key.For s kt) (he : Encoding.For s e t) :
    Encoding.For s (.map o k v key e) (.map kt t)

/-- The statement is the one that writes values of the type at a depth of loops: what `ofTy?` gives,
by the shape of the type. -/
inductive Encoding.Emitted (s : Schema) (runtime : String) : Operand → Nat → Ty → Encoding → Prop
  | scalar {o : Operand} {n : Nat} {x : Scalar} :
    Emitted s runtime o n (.scalar x) (.atom o (.scalar x))
  | enum {o : Operand} {n : Nat} {name : String} {d : Definition} (hd : s.get? name = some d)
    (hk : d.kind = .enum) : Emitted s runtime o n (.defined name) (.atom o (.enum name))
  | record {o : Operand} {n : Nat} {name : String} {d : Definition} (hd : s.get? name = some d)
    (hk : d.kind.isAggregate = true) : Emitted s runtime o n (.defined name) (.record o name)
  | bulk {o : Operand} {n : Nat} {t : Ty} {b : Bulk} (hb : Bulk.ofTy? t = some b) :
    Emitted s runtime o n (.array t) (.bulk o b)
  | array {o : Operand} {n : Nat} {t : Ty} {e : Encoding} (hb : Bulk.ofTy? t = none)
    (he : Emitted s runtime (.binding ("e" ++ toString n)) (n + 1) t e) :
    Emitted s runtime o n (.array t) (.array o ("e" ++ toString n) e)
  | map {o : Operand} {n : Nat} {k t : Ty} {key : AtomTy} {e : Encoding}
    (hk : (Target.mk s runtime).key? k = .ok key)
    (he : Emitted s runtime (.binding ("v" ++ toString n)) (n + 1) t e) :
    Emitted s runtime o n (.map k t)
      (.map o ("k" ++ toString n) ("v" ++ toString n) key e)

theorem Encoding.emitted_of_ofTy? : ∀ {t : Ty} {o : Operand} {n : Nat} {e : Encoding},
    ofTy? ⟨s, runtime⟩ o n t = .ok e → Emitted s runtime o n t e
  | .scalar x, o, n, e, h => by
    simp only [ofTy?, Except.ok.injEq] at h
    subst h
    exact .scalar
  | .array t, o, n, e, h => by
    simp only [ofTy?] at h
    split at h
    · rename_i b hb
      simp only [Except.ok.injEq] at h
      subst h
      exact .bulk hb
    · rename_i hb
      simp only [bind_eq_ok, pure_eq_ok] at h
      obtain ⟨e, he, rfl⟩ := h
      exact .array hb (emitted_of_ofTy? he)
  | .map k t, o, n, e, h => by
    simp only [ofTy?, bind_eq_ok, pure_eq_ok] at h
    obtain ⟨key, hk, e, he, rfl⟩ := h
    exact .map hk (emitted_of_ofTy? he)
  | .defined name, o, n, e, h => by
    simp only [ofTy?, bind_eq_ok, Target.resolve?_eq_ok] at h
    obtain ⟨d, hd, h⟩ := h
    split at h
    · rw [pure_eq_ok] at h
      subst h
      exact .enum hd ‹_›
    all_goals
      rw [pure_eq_ok] at h
      subst h
      exact .record hd (by simp [Kind.isAggregate, *])

theorem Encoding.for_of_ofTy? {t : Ty} {o : Operand} {n : Nat} {e : Encoding}
    (h : ofTy? ⟨s, runtime⟩ o n t = .ok e) : e.For s t := by
  replace h := emitted_of_ofTy? h
  induction h with
  | scalar => exact .scalar
  | enum hd hk => exact .enum hd hk
  | record hd hk => exact .record hd hk
  | bulk hb => exact .bulk hb
  | array hb _ ih => exact .array hb ih
  | map hk _ ih => exact .map (Target.for_of_key? hk) ih

theorem Encoding.For.record_of_defined {e : Encoding} {name : String} {d : Definition}
    (h : e.For s (.defined name)) (hd : s.get? name = some d) (hk : d.kind ≠ .enum) :
    ∃ o, e = .record o name := by
  cases h with
  | enum hd' hk' =>
    rw [hd, Option.some.injEq] at hd'
    exact absurd (hd' ▸ hk') hk
  | record => exact ⟨_, rfl⟩

theorem Schema.Admits.exists_encoding : ∀ {t : Ty}, s.Admits t → ∀ (o : Operand) (n : Nat),
    ∃ e, Encoding.ofTy? ⟨s, runtime⟩ o n t = .ok e
  | .scalar x, _, o, n => ⟨_, rfl⟩
  | .array t, h, o, n => by
    simp only [Encoding.ofTy?]
    split
    · exact ⟨_, rfl⟩
    · obtain ⟨e, he⟩ := exists_encoding (t := t) h (.binding ("e" ++ toString n)) (n + 1)
      exact ⟨_, by simp only [bind_eq_ok]; exact ⟨e, he, rfl⟩⟩
  | .map k t, h, o, n => by
    obtain ⟨key, hk⟩ := Target.exists_key? runtime h.1
    obtain ⟨e, he⟩ := exists_encoding (t := t) h.2 (.binding ("v" ++ toString n)) (n + 1)
    exact ⟨_, by simp only [Encoding.ofTy?, bind_eq_ok]; exact ⟨key, hk, e, he, rfl⟩⟩
  | .defined name, ⟨d, hd⟩, o, n => by
    have hr : (Target.mk s runtime).resolve? name = .ok d := Target.resolve?_eq_ok.2 hd
    cases hk : d.kind with
    | enum =>
      exact ⟨.atom o (.enum name), by
        simp only [Encoding.ofTy?, bind_eq_ok]; exact ⟨d, hr, by rw [hk]; rfl⟩⟩
    | _ =>
      exact ⟨.record o name, by
        simp only [Encoding.ofTy?, bind_eq_ok]; exact ⟨d, hr, by rw [hk]; rfl⟩⟩

/-- The statement reads values of the type. -/
inductive Decoding.For (s : Schema) : Decoding → Ty → Prop
  | scalar {b : String} {x : Scalar} : Decoding.For s (.atom b (.scalar x)) (.scalar x)
  | enum {b name : String} {d : Definition} (hd : s.get? name = some d) (hk : d.kind = .enum) :
    Decoding.For s (.atom b (.enum name)) (.defined name)
  | record {b name : String} {d : Definition} (hd : s.get? name = some d)
    (hk : d.kind.isAggregate = true) : Decoding.For s (.record b name) (.defined name)
  | bytes {b : String} : Decoding.For s (.bytes b) (.array (.scalar .byte))
  | array {b length item itemType : String} {t : Ty} {e : Decoding} (ht : t ≠ .scalar .byte)
    (he : Decoding.For s e t) :
    Decoding.For s (.array b length item itemType (s.minWireSize t) e) (.array t)
  | map {b length k v keyType valueType : String} {kt t : Ty} {key : AtomTy} {e : Decoding}
    (hk : key.For s kt) (he : Decoding.For s e t) :
    Decoding.For s (.map b length k v keyType valueType (s.minWireSize kt + s.minWireSize t) key e)
      (.map kt t)

/-- The statement is the one that reads values of the type at a depth of loops. -/
inductive Decoding.Emitted (s : Schema) (runtime : String) : String → Nat → Ty → Decoding → Prop
  | scalar {b : String} {n : Nat} {x : Scalar} :
    Emitted s runtime b n (.scalar x) (.atom b (.scalar x))
  | enum {b : String} {n : Nat} {name : String} {d : Definition} (hd : s.get? name = some d)
    (hk : d.kind = .enum) : Emitted s runtime b n (.defined name) (.atom b (.enum name))
  | record {b : String} {n : Nat} {name : String} {d : Definition} (hd : s.get? name = some d)
    (hk : d.kind.isAggregate = true) : Emitted s runtime b n (.defined name) (.record b name)
  | bytes {b : String} {n : Nat} : Emitted s runtime b n (.array (.scalar .byte)) (.bytes b)
  | array {b : String} {n : Nat} {t : Ty} {itemType : String} {e : Decoding}
    (ht : t ≠ .scalar .byte) (htype : (Target.mk s runtime).typeName? t = .ok itemType)
    (he : Emitted s runtime ("e" ++ toString n) (n + 1) t e) :
    Emitted s runtime b n (.array t)
      (.array b ("length" ++ toString n) ("e" ++ toString n) itemType (s.minWireSize t) e)
  | map {b : String} {n : Nat} {k t : Ty} {key : AtomTy} {valueType : String} {e : Decoding}
    (hk : (Target.mk s runtime).key? k = .ok key)
    (htype : (Target.mk s runtime).typeName? t = .ok valueType)
    (he : Emitted s runtime ("v" ++ toString n) (n + 1) t e) :
    Emitted s runtime b n (.map k t)
      (.map b ("length" ++ toString n) ("k" ++ toString n) ("v" ++ toString n)
        ((Target.mk s runtime).atomName key) valueType (s.minWireSize k + s.minWireSize t) key e)

theorem Decoding.emitted_of_ofTy? : ∀ {t : Ty} {b : String} {n : Nat} {e : Decoding},
    ofTy? ⟨s, runtime⟩ b n t = .ok e → Emitted s runtime b n t e
  | .scalar x, b, n, e, h => by
    simp only [ofTy?, Except.ok.injEq] at h
    subst h
    exact .scalar
  | .array t, b, n, e, h => by
    simp only [ofTy?] at h
    split_ifs at h with ht
    · simp only [Except.ok.injEq] at h
      subst h ht
      exact .bytes
    · simp only [bind_eq_ok, pure_eq_ok] at h
      obtain ⟨itemType, htype, e, he, rfl⟩ := h
      exact .array ht htype (emitted_of_ofTy? he)
  | .map k t, b, n, e, h => by
    simp only [ofTy?, bind_eq_ok, pure_eq_ok] at h
    obtain ⟨key, hk, valueType, htype, e, he, rfl⟩ := h
    exact .map hk htype (emitted_of_ofTy? he)
  | .defined name, b, n, e, h => by
    simp only [ofTy?, bind_eq_ok, Target.resolve?_eq_ok] at h
    obtain ⟨d, hd, h⟩ := h
    split at h
    · rw [pure_eq_ok] at h
      subst h
      exact .enum hd ‹_›
    all_goals
      rw [pure_eq_ok] at h
      subst h
      exact .record hd (by simp [Kind.isAggregate, *])

theorem Decoding.for_of_ofTy? {t : Ty} {b : String} {n : Nat} {e : Decoding}
    (h : ofTy? ⟨s, runtime⟩ b n t = .ok e) : e.For s t := by
  replace h := emitted_of_ofTy? h
  induction h with
  | scalar => exact .scalar
  | enum hd hk => exact .enum hd hk
  | record hd hk => exact .record hd hk
  | bytes => exact .bytes
  | array ht _ _ ih => exact .array ht ih
  | map hk _ _ ih => exact .map (Target.for_of_key? hk) ih

theorem Decoding.For.record_of_defined {e : Decoding} {name : String} {d : Definition}
    (h : e.For s (.defined name)) (hd : s.get? name = some d) (hk : d.kind ≠ .enum) :
    ∃ b, e = .record b name := by
  cases h with
  | enum hd' hk' =>
    rw [hd, Option.some.injEq] at hd'
    exact absurd (hd' ▸ hk') hk
  | record => exact ⟨_, rfl⟩

theorem Schema.AdmitsKey.admits {t : Ty} (h : s.AdmitsKey t) : s.Admits t := by
  cases t with
  | scalar x => trivial
  | defined name =>
    obtain ⟨d, hd, -⟩ := h
    exact ⟨d, hd⟩
  | array t => exact h.elim
  | map k t => exact h.elim

theorem Schema.Admits.exists_typeName (runtime : String) : ∀ {t : Ty}, s.Admits t →
    ∃ name, (Target.mk s runtime).typeName? t = .ok name
  | .scalar x, _ => ⟨_, rfl⟩
  | .array t, h => by
    obtain ⟨n, hn⟩ := exists_typeName runtime (t := t) h
    exact ⟨_, by simp only [Target.typeName?, bind_eq_ok]; exact ⟨n, hn, rfl⟩⟩
  | .map k t, h => by
    obtain ⟨m, hm⟩ := exists_typeName runtime h.1.admits
    obtain ⟨n, hn⟩ := exists_typeName runtime (t := t) h.2
    exact ⟨_, by simp only [Target.typeName?, bind_eq_ok]; exact ⟨m, hm, n, hn, rfl⟩⟩
  | .defined name, ⟨d, hd⟩ => by
    refine ⟨Identifier.ofType d.name, ?_⟩
    simp only [Target.typeName?, bind_eq_ok]
    exact ⟨d, Target.resolve?_eq_ok.2 hd, rfl⟩

theorem Schema.Admits.exists_decoding : ∀ {t : Ty}, s.Admits t → ∀ (b : String) (n : Nat),
    ∃ e, Decoding.ofTy? ⟨s, runtime⟩ b n t = .ok e
  | .scalar x, _, b, n => ⟨_, rfl⟩
  | .array t, h, b, n => by
    simp only [Decoding.ofTy?]
    split_ifs
    · exact ⟨_, rfl⟩
    · obtain ⟨name, hn⟩ := exists_typeName runtime (t := t) h
      obtain ⟨e, he⟩ := exists_decoding (t := t) h ("e" ++ toString n) (n + 1)
      exact ⟨_, by simp only [bind_eq_ok]; exact ⟨name, hn, e, he, rfl⟩⟩
  | .map k t, h, b, n => by
    obtain ⟨key, hk⟩ := Target.exists_key? runtime h.1
    obtain ⟨name, hn⟩ := exists_typeName runtime (t := t) h.2
    obtain ⟨e, he⟩ := exists_decoding (t := t) h.2 ("v" ++ toString n) (n + 1)
    exact ⟨_, by
      simp only [Decoding.ofTy?, bind_eq_ok]; exact ⟨key, hk, name, hn, e, he, rfl⟩⟩
  | .defined name, ⟨d, hd⟩, b, n => by
    have hr : (Target.mk s runtime).resolve? name = .ok d := Target.resolve?_eq_ok.2 hd
    cases hk : d.kind with
    | enum =>
      exact ⟨.atom b (.enum name), by
        simp only [Decoding.ofTy?, bind_eq_ok]; exact ⟨d, hr, by rw [hk]; rfl⟩⟩
    | _ =>
      exact ⟨.record b name, by
        simp only [Decoding.ofTy?, bind_eq_ok]; exact ⟨d, hr, by rw [hk]; rfl⟩⟩

/-- Tags are bytes other than zero, and no two fields share one. -/
structure Definition.Tagged (d : Definition) : Prop where
  range : ∀ f ∈ d.fields, f.value ≠ 0 ∧ f.value ≤ 255
  nodup : (d.fields.map (·.value)).Nodup

/-- The byte of a tag is its number. -/
theorem Definition.Tagged.toNat_toUInt8 {d : Definition} (h : d.Tagged) {f : Field}
    (hf : f ∈ d.fields) : f.value.toUInt8.toNat = f.value.toNat := by
  rw [UInt32.toNat_toUInt8]
  exact Nat.mod_eq_of_lt (Nat.lt_succ_of_le (h.range f hf).2)

theorem Definition.checkTagsFrom_eq_ok : ∀ {fs : List Field} {seen : List UInt32},
    checkTagsFrom seen fs = .ok ()
      ↔ (∀ f ∈ fs, (f.value ≠ 0 ∧ f.value ≤ 255) ∧ f.value ∉ seen) ∧ (fs.map (·.value)).Nodup
  | [], seen => by simp [checkTagsFrom]
  | f :: fs, seen => by
    simp only [checkTagsFrom]
    split_ifs with hr hs
    · simp only [false_iff, not_and]
      intro h
      have := (h f List.mem_cons_self).1
      rcases hr with hr | hr
      · exact absurd hr this.1
      · exact absurd hr (UInt32.not_lt.2 this.2)
    · simp only [false_iff, not_and]
      exact fun h => absurd hs (h f List.mem_cons_self).2
    · rw [checkTagsFrom_eq_ok]
      simp only [not_or, UInt32.not_lt] at hr
      rw [List.forall_mem_cons, List.map_cons, List.nodup_cons]
      simp only [List.mem_cons, not_or, List.mem_map, not_exists, not_and]
      constructor
      · rintro ⟨h, hn⟩
        exact ⟨⟨⟨hr, hs⟩, fun g hg => ⟨(h g hg).1, (h g hg).2.2⟩⟩, fun g hg => (h g hg).2.1, hn⟩
      · rintro ⟨⟨-, h⟩, hf, hn⟩
        exact ⟨fun g hg => ⟨(h g hg).1, hf g hg, (h g hg).2⟩, hn⟩

theorem Definition.tagged_of_checkTags {d : Definition} (h : d.checkTags = .ok ()) : d.Tagged := by
  obtain ⟨h, hn⟩ := checkTagsFrom_eq_ok.1 h
  exact ⟨fun f hf => (h f hf).1, hn⟩

theorem Definition.expect_eq_ok {d : Definition} {k : Kind} : d.expect k = .ok () ↔ d.kind = k := by
  unfold expect
  split_ifs with h <;> simp [h]

theorem Target.checkNesting_eq_ok {d : Definition} :
    (Target.mk s runtime).checkNesting d = .ok ()
      ↔ ∀ f ∈ d.fields, s.nestsByValue f.ty d.name = false := by
  unfold checkNesting
  split
  · rename_i f h
    simp only [reduceCtorEq, false_iff, not_forall]
    exact ⟨f, List.mem_of_find?_eq_some h, by simpa using List.find?_some h⟩
  · rename_i h
    simpa using h

/-- A field of a message that is deprecated has no statement that writes it. -/
def TaggedEncoding.For (s : Schema) : Option TaggedEncoding → Field → Prop
  | none, f => f.isDeprecated = true
  | some e, f => f.isDeprecated = false ∧ e.tag = f.value.toUInt8 ∧ e.encoding.For s f.ty

inductive RecordEncoding.For (s : Schema) (d : Definition) : RecordEncoding → Prop
  | struct {es : List (String × Encoding)} (hk : d.kind = .struct)
    (h : Forall₂ (fun e f => e.2.For s f.ty) es d.fields) : RecordEncoding.For s d (.struct es)
  | message {es : List (Option TaggedEncoding)} (hk : d.kind = .message)
    (h : Forall₂ (TaggedEncoding.For s) es d.fields) : RecordEncoding.For s d (.message es)

def TaggedDecoding.For (s : Schema) (e : TaggedDecoding) (f : Field) : Prop :=
  e.tag = f.value.toUInt8 ∧ e.decoding.For s f.ty

inductive RecordDecoding.For (s : Schema) (d : Definition) : RecordDecoding → Prop
  | struct {es : List (String × Decoding)} (hk : d.kind = .struct)
    (hself : ∀ f ∈ d.fields, s.nestsByValue f.ty d.name = false)
    (h : Forall₂ (fun e f => e.2.For s f.ty) es d.fields) : RecordDecoding.For s d (.struct es)
  | message {es : List TaggedDecoding} (hk : d.kind = .message) (ht : d.Tagged)
    (h : Forall₂ (TaggedDecoding.For s) es d.fields) : RecordDecoding.For s d (.message es)

variable {d : Definition}

theorem RecordEncoding.for_of_ofStruct? {e : RecordEncoding}
    (h : ofStruct? ⟨s, runtime⟩ d = .ok e) : e.For s d := by
  simp only [ofStruct?, bind_eq_ok, pure_eq_ok, mapM_eq_ok] at h
  obtain ⟨_, hk, _, -, es, hes, rfl⟩ := h
  refine .struct (Definition.expect_eq_ok.1 hk) (hes.imp ?_)
  rintro e f ⟨e, he, rfl⟩
  exact Encoding.for_of_ofTy? he

theorem RecordEncoding.for_of_ofMessage? {e : RecordEncoding}
    (h : ofMessage? ⟨s, runtime⟩ d = .ok e) : e.For s d := by
  simp only [ofMessage?, bind_eq_ok, pure_eq_ok, mapM_eq_ok] at h
  obtain ⟨_, hk, _, -, es, hes, rfl⟩ := h
  refine .message (Definition.expect_eq_ok.1 hk) (hes.imp ?_)
  intro e f he
  split_ifs at he with hd
  · rw [pure_eq_ok] at he
    subst he
    exact hd
  · simp only [bind_eq_ok, pure_eq_ok] at he
    obtain ⟨e, he, rfl⟩ := he
    exact ⟨by simpa using hd, rfl, Encoding.for_of_ofTy? he⟩

theorem RecordDecoding.for_of_ofStruct? {e : RecordDecoding}
    (h : ofStruct? ⟨s, runtime⟩ d = .ok e) : e.For s d := by
  simp only [ofStruct?, bind_eq_ok, pure_eq_ok, mapM_eq_ok] at h
  obtain ⟨_, hk, _, hself, es, hes, rfl⟩ := h
  refine .struct (Definition.expect_eq_ok.1 hk) (Target.checkNesting_eq_ok.1 hself) ?_
  rw [← List.zipIdx_map_fst 0 d.fields, List.forall₂_map_right_iff]
  refine hes.imp ?_
  rintro e ⟨f, i⟩ ⟨e, he, rfl⟩
  exact Decoding.for_of_ofTy? he

theorem RecordDecoding.for_of_ofMessage? {e : RecordDecoding}
    (h : ofMessage? ⟨s, runtime⟩ d = .ok e) : e.For s d := by
  simp only [ofMessage?, bind_eq_ok, pure_eq_ok, mapM_eq_ok] at h
  obtain ⟨_, hk, _, ht, es, hes, rfl⟩ := h
  refine .message (Definition.expect_eq_ok.1 hk) (Definition.tagged_of_checkTags ht) (hes.imp ?_)
  rintro e f ⟨e, he, rfl⟩
  exact ⟨rfl, Decoding.for_of_ofTy? he⟩

theorem RecordItem.for_of_ofDefinition? {r : RecordItem}
    (h : ofDefinition? ⟨s, runtime⟩ d = .ok r) :
    r.definition = d ∧ r.encoding.For s d ∧ r.decoding.For s d := by
  simp only [ofDefinition?, bind_eq_ok, pure_eq_ok] at h
  obtain ⟨-, -, fields, -, -, -, ⟨e, e'⟩, hc, rfl⟩ := h
  refine ⟨rfl, ?_⟩
  simp only [codec?] at hc
  split at hc
  all_goals
    simp only [bind_eq_ok, pure_eq_ok, Prod.mk.injEq] at hc
    obtain ⟨_, he, _, he', rfl, rfl⟩ := hc
  · exact ⟨RecordEncoding.for_of_ofMessage? he, RecordDecoding.for_of_ofMessage? he'⟩
  all_goals exact ⟨RecordEncoding.for_of_ofStruct? he, RecordDecoding.for_of_ofStruct? he'⟩

namespace Program

/-- The program holds the codecs of the structs and messages of the schema, and no others. -/
structure Implements (p : Program) (s : Schema) : Prop where
  length : p.items.length = s.definitions.length
  record : ∀ {name d}, s.get? name = some d → d.kind.isAggregate = true →
    ∃ r, p.record? name = some r ∧ r.encoding.For s d ∧ r.decoding.For s d
  defined : ∀ {name r}, p.record? name = some r →
    ∃ d, s.get? name = some d ∧ r.encoding.For s d ∧ r.decoding.For s d

/-- The codec of a struct has one statement for each of its fields. -/
theorem Implements.struct {p : Program} (hp : p.Implements s) {name : String}
    (hd : s.get? name = some d) (hk : d.kind = .struct) : ∃ r es ds, p.record? name = some r
      ∧ r.encoding = .struct es ∧ Forall₂ (fun e f => e.2.For s f.ty) es d.fields
      ∧ r.decoding = .struct ds ∧ Forall₂ (fun e f => e.2.For s f.ty) ds d.fields := by
  obtain ⟨⟨_, _, encoding, decoding⟩, hr, he, hdec⟩ :=
    hp.record hd (by simp [hk, Kind.isAggregate])
  cases he with
  | message hk' => simp [hk] at hk'
  | @struct es _ he =>
    cases hdec with
    | message hk' => simp [hk] at hk'
    | @struct ds _ _ hdec => exact ⟨_, es, ds, hr, rfl, he, rfl, hdec⟩

theorem Implements.message {p : Program} (hp : p.Implements s) {name : String}
    (hd : s.get? name = some d) (hk : d.kind = .message) : ∃ r es ds, p.record? name = some r
      ∧ r.encoding = .message es ∧ Forall₂ (TaggedEncoding.For s) es d.fields
      ∧ r.decoding = .message ds ∧ Forall₂ (TaggedDecoding.For s) ds d.fields ∧ d.Tagged := by
  obtain ⟨⟨_, _, encoding, decoding⟩, hr, he, hdec⟩ :=
    hp.record hd (by simp [hk, Kind.isAggregate])
  cases he with
  | struct hk' => simp [hk] at hk'
  | @message es _ he =>
    cases hdec with
    | struct hk' => simp [hk] at hk'
    | @message ds _ ht hdec => exact ⟨_, es, ds, hr, rfl, he, rfl, hdec, ht⟩

theorem item?_eq_ok {item : Item} :
    (Target.mk s runtime).item? d = .ok item ↔ Item.ofDefinition? ⟨s, runtime⟩ d = .ok item := by
  unfold Target.item?
  cases Item.ofDefinition? ⟨s, runtime⟩ d <;> simp [Except.mapError]

/-- The item of a definition is that of its name and kind. -/
theorem of_item? {item : Item} (h : (Target.mk s runtime).item? d = .ok item) :
    item.definition = d ∧ (d.kind.isAggregate = true →
      ∃ r, item = .record r ∧ r.encoding.For s d ∧ r.decoding.For s d)
    ∧ ∀ r, item = .record r → r.encoding.For s d ∧ r.decoding.For s d := by
  rw [item?_eq_ok] at h
  simp only [Item.ofDefinition?] at h
  split at h
  all_goals
    rename_i hk
    simp only [bind_eq_ok, pure_eq_ok] at h
    obtain ⟨i, hi, rfl⟩ := h
  · simp only [EnumItem.ofDefinition?, bind_eq_ok, pure_eq_ok] at hi
    obtain ⟨-, -, -, -, rfl⟩ := hi
    exact ⟨rfl, by simp [hk, Kind.isAggregate], by simp⟩
  all_goals
    obtain ⟨hd, hc⟩ := RecordItem.for_of_ofDefinition? hi
    refine ⟨hd, fun _ => ⟨i, rfl, hc⟩, ?_⟩
    rintro _ ⟨⟩
    exact hc

/-- Items stand in the order of their definitions, so a name finds the item of its definition. -/
theorem find?_items (name : String) : ∀ {items : List Item} {ds : List Definition},
    Forall₂ (fun item d => (Target.mk s runtime).item? d = .ok item) items ds →
    Option.Rel (fun item d => (Target.mk s runtime).item? d = .ok item)
      (items.find? (·.definition.name == name)) (Definition.byName? ds name)
  | _, _, .nil => .none
  | _, _, @Forall₂.cons _ _ _ item d items ds h hs => by
    have ih := find?_items name hs
    unfold Definition.byName? at ih ⊢
    rw [List.find?_cons, List.find?_cons, (of_item? h).1]
    split
    · exact .some h
    · exact ih

/-- The program of a schema has an item for each definition. -/
theorem exists_item {p : Program} (h : ofSchema? s = .ok p) {name : String}
    (hd : s.get? name = some d) : ∃ item, p.item? name = some item
      ∧ (Target.mk s (Settings.runtime {})).item? d = .ok item := by
  simp only [ofSchema?, Target.items?, bind_eq_ok, pure_eq_ok, mapM_eq_ok] at h
  obtain ⟨items, ⟨-, -, hi⟩, rfl⟩ := h
  have hf := find?_items name hi
  rw [show Definition.byName? s.definitions name = some d from hd] at hf
  generalize hx : items.find? (·.definition.name == name) = x at hf
  cases hf with
  | some hit => exact ⟨_, hx, hit⟩

theorem implements {p : Program} (h : ofSchema? s = .ok p) : p.Implements s := by
  have hrecord : ∀ {name d}, s.get? name = some d → d.kind.isAggregate = true →
      ∃ r, p.record? name = some r ∧ r.encoding.For s d ∧ r.decoding.For s d := by
    intro name d hd hk
    obtain ⟨item, hitem, hit⟩ := exists_item h hd
    obtain ⟨r, rfl, hr⟩ := (of_item? hit).2.1 hk
    exact ⟨r, by rw [record?, hitem], hr⟩
  simp only [ofSchema?, Target.items?, bind_eq_ok, pure_eq_ok, mapM_eq_ok] at h
  obtain ⟨items, ⟨-, -, hi⟩, rfl⟩ := h
  refine ⟨hi.length_eq, hrecord, ?_⟩
  · intro name r hr
    have hf := find?_items name hi
    simp only [record?, item?] at hr
    generalize hx : items.find? (·.definition.name == name) = x at hf hr
    generalize hd : Definition.byName? s.definitions name = o at hf
    cases hf with
    | none => simp at hr
    | @some item d hit =>
      cases item with
      | enum e => simp at hr
      | record r' =>
        simp only [Option.some.injEq] at hr
        subst hr
        exact ⟨d, hd, (of_item? hit).2.2 _ rfl⟩

end Program

end SchemaCodec

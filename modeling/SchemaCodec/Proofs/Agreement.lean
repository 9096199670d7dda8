import SchemaCodec.Proofs.Faults

/-!
# Types that can be written can be read

The statement that writes the values of a type and the one that reads them are made in different
orders: the writer takes arrays of some scalars whole and needs no name of a type, and the reader
asks for the name of each element before it looks into the element. Still there is one of them
exactly if there is the other (`Target.statements_agree`), for both need that the definitions in the
type exist and that the keys of its maps can be compared.

Where the definitions exist, the two also fail with one error: a key that cannot be compared.
-/

namespace SchemaCodec

variable {s : Schema} {runtime : String}

theorem Bulk.admits_of_ofTy? {t : Ty} {b : Bulk} (h : ofTy? t = some b) : s.Admits t := by
  unfold ofTy? at h
  split at h
  case h_4 => cases h
  all_goals trivial

namespace Encoding

theorem admits_of_ofTy? {t : Ty} {o : Operand} {n : Nat} {e : Encoding}
    (h : ofTy? ⟨s, runtime⟩ o n t = .ok e) : s.Admits t := by
  replace h := emitted_of_ofTy? h
  induction h with
  | scalar => trivial
  | enum hd => exact ⟨_, hd⟩
  | record hd => exact ⟨_, hd⟩
  | @bulk _ _ t _ hb => exact (Bulk.admits_of_ofTy? hb : s.Admits t)
  | array _ _ ih => exact ih
  | map hk _ ih => exact ⟨Target.admitsKey_of_key? hk, ih⟩

theorem succeeds_ofTy? {t : Ty} {o : Operand} {n : Nat} :
    Succeeds (ofTy? ⟨s, runtime⟩ o n t) ↔ s.Admits t :=
  ⟨fun ⟨_, h⟩ => admits_of_ofTy? h, fun h => h.exists_encoding o n⟩

end Encoding

/-- A type has a name if the definitions in it exist, whatever the keys of its maps are. -/
theorem Target.succeeds_typeName? : ∀ {t : Ty},
    Succeeds ((Target.mk s runtime).typeName? t) ↔ ∀ name ∈ t.names, ∃ d, s.get? name = some d
  | .scalar x => by simp [typeName?, Succeeds, Ty.names]
  | .array t => by
    simp only [typeName?]
    rw [succeeds_bind_pure, succeeds_typeName?, Ty.names]
  | .map k t => by
    have hpair : (Target.mk s runtime).typeName? (.map k t)
        = (Target.mk s runtime).typeName? k >>= fun a =>
          (Target.mk s runtime).typeName? t >>= fun b => pure (hashMapOf a b) := by
      simp only [typeName?]
    rw [hpair, Ty.names, List.forall_mem_append, ← succeeds_typeName? (t := k),
      ← succeeds_typeName? (t := t)]
    constructor
    · rintro ⟨_, h⟩
      obtain ⟨a, ha, h⟩ := bind_eq_ok.1 h
      exact ⟨⟨a, ha⟩, succeeds_bind_pure.1 ⟨_, h⟩⟩
    · rintro ⟨⟨a, ha⟩, ht⟩
      exact succeeds_bind ha (succeeds_bind_pure.2 ht)
  | .defined name => by
    simp only [typeName?]
    rw [succeeds_bind_pure, Ty.names, List.forall_mem_singleton]
    simp only [Succeeds, resolve?_eq_ok]

/-- What is wrong with a type whose definitions exist is one of its keys. -/
theorem Ty.Unfit.exists_key {t : Ty} {e : GenerateError} (h : t.Unfit s e)
    (hnames : ∀ name ∈ t.names, ∃ d, s.get? name = some d) :
    ∃ k ∈ t.keys, ¬ s.AdmitsKey k ∧ e = .unsupportedMapKey k := by
  cases h with
  | name hn hnone =>
    obtain ⟨d, hd⟩ := hnames _ hn
    rw [hnone] at hd
    cases hd
  | key hk h => exact ⟨_, hk, h, rfl⟩

section Verdicts

variable {α β γ : Type}

theorem verdict_of_succeeds {x : Except GenerateError α} {y : Except GenerateError β}
    (hx : Succeeds x) (hy : Succeeds y) : verdict x = verdict y := by
  obtain ⟨a, rfl⟩ := hx
  obtain ⟨b, rfl⟩ := hy
  rfl

theorem verdict_bind_pure {x : Except GenerateError α} {g : α → γ} :
    verdict (x >>= fun a => pure (g a)) = verdict x := by
  cases x <;> rfl

end Verdicts

/-- Where the definitions in a type exist, writing and reading fail with the same key. -/
theorem verdict_ofTy?_eq : ∀ {t : Ty} (o : Operand) (b : String) (n m : Nat),
    Succeeds ((Target.mk s runtime).typeName? t) →
      verdict (Encoding.ofTy? ⟨s, runtime⟩ o n t) = verdict (Decoding.ofTy? ⟨s, runtime⟩ b m t)
  | .scalar x, o, b, n, m, _ => rfl
  | .array t, o, b, n, m, h => by
    simp only [Target.typeName?] at h
    obtain ⟨name, hname⟩ := succeeds_bind_pure.1 h
    rcases hbulk : Bulk.ofTy? t with _ | elements
    · have ih := verdict_ofTy?_eq (.binding ("e" ++ toString n)) ("e" ++ toString m) (n + 1)
        (m + 1) ⟨name, hname⟩
      have hbyte : t ≠ .scalar .byte := by
        rintro rfl
        cases hbulk
      simp only [Encoding.ofTy?, Decoding.ofTy?, hbulk, if_neg hbyte, hname]
      rw [verdict_bind_pure, ih]
      exact verdict_bind_pure.symm
    · -- what is written whole is a scalar, which is read in any way
      have ht : s.Admits (.array t) := (Bulk.admits_of_ofTy? hbulk : s.Admits t)
      exact verdict_of_succeeds (ht.exists_encoding o n) (ht.exists_decoding b m)
  | .map k t, o, b, n, m, h => by
    have hvalue : Succeeds ((Target.mk s runtime).typeName? t) :=
      Target.succeeds_typeName?.2 fun name hn =>
        Target.succeeds_typeName?.1 h name (List.mem_append_right _ hn)
    have ih := verdict_ofTy?_eq (.binding ("v" ++ toString n)) ("v" ++ toString m) (n + 1) (m + 1)
      hvalue
    obtain ⟨name, hname⟩ := hvalue
    simp only [Encoding.ofTy?, Decoding.ofTy?, hname]
    refine verdict_bind rfl fun key key' hkey hkey' => ?_
    rw [verdict_bind_pure, ih]
    exact verdict_bind_pure.symm
  | .defined name, o, b, n, m, h => by
    have hdefined : s.Admits (.defined name) :=
      Target.succeeds_typeName?.1 h name (List.mem_singleton.2 rfl)
    exact verdict_of_succeeds (hdefined.exists_encoding o n) (hdefined.exists_decoding b m)

/-- The writer and the reader of a type exist together, exactly if the definitions in the type exist
and its keys are scalars other than floats, or enums. The name of the type asks for the definitions
alone; where it exists, the writer and the reader fail alike, with a key in the type. -/
theorem Target.statements_agree (t : Target) (ty : Ty) (o : Operand) (b : String) (n m : Nat) :
    (Succeeds (Encoding.ofTy? t o n ty) ↔ Succeeds (Decoding.ofTy? t b m ty))
      ∧ (Succeeds (Decoding.ofTy? t b m ty)
        ↔ (∀ name ∈ ty.names, ∃ d, t.schema.get? name = some d)
          ∧ ∀ k ∈ ty.keys, t.schema.AdmitsKey k)
      ∧ (Succeeds (t.typeName? ty) ↔ ∀ name ∈ ty.names, ∃ d, t.schema.get? name = some d)
      ∧ (Succeeds (t.typeName? ty) →
        verdict (Encoding.ofTy? t o n ty) = verdict (Decoding.ofTy? t b m ty)
          ∧ ∀ e, Encoding.ofTy? t o n ty = .error e ∨ Decoding.ofTy? t b m ty = .error e →
            ∃ k ∈ ty.keys, ¬ t.schema.AdmitsKey k ∧ e = .unsupportedMapKey k) := by
  obtain ⟨s, runtime⟩ := t
  refine ⟨?_, ?_, succeeds_typeName?, fun h => ⟨verdict_ofTy?_eq o b n m h, fun e he => ?_⟩⟩
  · rw [Encoding.succeeds_ofTy?, Decoding.succeeds_ofTy?]
  · rw [Decoding.succeeds_ofTy?, Schema.admits_iff]
  · have hunfit : ty.Unfit s e := he.elim Encoding.unfit_of_ofTy? Decoding.unfit_of_ofTy?
    exact hunfit.exists_key (succeeds_typeName?.1 h)

end SchemaCodec

import SchemaCodec.Proofs.Statements

/-!
# What decides whether there is a source

The path of the library stands in the text of the source and nowhere else, so whether there is a
source, and the error if there is none, do not depend on it (`Target.verdict_items?`). A schema
that has a source with some settings has a program, and the other way round (`Schema.accepted_iff`).
-/

namespace SchemaCodec

section Verdict

variable {α β γ δ : Type}

/-- Whether there is a result, and the error if there is none. -/
def verdict (x : Except GenerateError α) : Except GenerateError Unit :=
  x.map fun _ => ()

theorem verdict_bind {x : Except GenerateError α} {y : Except GenerateError β}
    {f : α → Except GenerateError γ} {g : β → Except GenerateError δ} (h : verdict x = verdict y)
    (hf : ∀ a b, x = .ok a → y = .ok b → verdict (f a) = verdict (g b)) :
    verdict (x >>= f) = verdict (y >>= g) := by
  cases x with
  | error e =>
    cases y with
    | error e' => simpa [verdict, bind, Except.bind, Except.map] using h
    | ok b => simp [verdict, Except.map] at h
  | ok a =>
    cases y with
    | error e' => simp [verdict, Except.map] at h
    | ok b => exact hf a b rfl rfl

theorem verdict_mapM {f : α → Except GenerateError β} {g : α → Except GenerateError γ} :
    ∀ {l : List α}, (∀ a ∈ l, verdict (f a) = verdict (g a)) →
      verdict (l.mapM f) = verdict (l.mapM g)
  | [], _ => rfl
  | a :: l, h => by
    rw [List.mapM_cons, List.mapM_cons]
    refine verdict_bind (h a List.mem_cons_self) fun _ _ _ _ => ?_
    refine verdict_bind (verdict_mapM fun b hb => h b (List.mem_cons_of_mem _ hb)) ?_
    exact fun _ _ _ _ => rfl

theorem verdict_mapError {x : Except GenerateError α} {y : Except GenerateError β}
    {f : GenerateError → GenerateError} (h : verdict x = verdict y) :
    verdict (x.mapError f) = verdict (y.mapError f) := by
  cases x <;> cases y <;> simp_all [verdict, Except.map, Except.mapError]

theorem exists_of_verdict {x : Except GenerateError α} {y : Except GenerateError β} {a : α}
    (h : verdict x = verdict y) (hx : x = .ok a) : ∃ b, y = .ok b := by
  cases y with
  | error e => simp [hx, verdict, Except.map] at h
  | ok b => exact ⟨b, rfl⟩

end Verdict

variable {s : Schema} (a b : String)

theorem Target.verdict_typeName? : ∀ t : Ty,
    verdict ((Target.mk s a).typeName? t) = verdict ((Target.mk s b).typeName? t)
  | .scalar x => by simp only [typeName?]; rfl
  | .array t => by
    simp only [typeName?]
    exact verdict_bind (verdict_typeName? t) fun _ _ _ _ => rfl
  | .map k t => by
    simp only [typeName?]
    refine verdict_bind (verdict_typeName? k) fun _ _ _ _ => ?_
    exact verdict_bind (verdict_typeName? t) fun _ _ _ _ => rfl
  | .defined name => rfl

theorem Target.key?_runtime (t : Ty) : (Target.mk s a).key? t = (Target.mk s b).key? t := by
  cases t <;> rfl

theorem Encoding.ofTy?_runtime : ∀ (t : Ty) (o : Operand) (n : Nat),
    ofTy? ⟨s, a⟩ o n t = ofTy? ⟨s, b⟩ o n t
  | .scalar x, o, n => rfl
  | .array t, o, n => by
    simp only [ofTy?]
    rw [ofTy?_runtime t]
  | .map k t, o, n => by
    simp only [ofTy?]
    rw [ofTy?_runtime t, Target.key?_runtime a b]
  | .defined name, o, n => rfl

theorem Decoding.verdict_ofTy? : ∀ (t : Ty) (x : String) (n : Nat),
    verdict (ofTy? ⟨s, a⟩ x n t) = verdict (ofTy? ⟨s, b⟩ x n t)
  | .scalar _, x, n => rfl
  | .array t, x, n => by
    simp only [ofTy?]
    split_ifs
    · rfl
    · refine verdict_bind (Target.verdict_typeName? a b t) fun _ _ _ _ => ?_
      exact verdict_bind (verdict_ofTy? t _ _) fun _ _ _ _ => rfl
  | .map k t, x, n => by
    simp only [ofTy?]
    rw [Target.key?_runtime a b]
    refine verdict_bind rfl fun _ _ _ _ => ?_
    refine verdict_bind (Target.verdict_typeName? a b t) fun _ _ _ _ => ?_
    exact verdict_bind (verdict_ofTy? t _ _) fun _ _ _ _ => rfl
  | .defined name, x, n => rfl

namespace RecordItem

theorem verdict_codec? (d : Definition) :
    verdict (codec? ⟨s, a⟩ d) = verdict (codec? ⟨s, b⟩ d) := by
  have hm : RecordEncoding.ofMessage? ⟨s, a⟩ d = RecordEncoding.ofMessage? ⟨s, b⟩ d := by
    simp only [RecordEncoding.ofMessage?, Encoding.ofTy?_runtime a b]
  have hs : RecordEncoding.ofStruct? ⟨s, a⟩ d = RecordEncoding.ofStruct? ⟨s, b⟩ d := by
    simp only [RecordEncoding.ofStruct?, Target.checkNesting, Encoding.ofTy?_runtime a b]
  have hm' : verdict (RecordDecoding.ofMessage? ⟨s, a⟩ d)
      = verdict (RecordDecoding.ofMessage? ⟨s, b⟩ d) := by
    refine verdict_bind rfl fun _ _ _ _ => verdict_bind rfl fun _ _ _ _ => ?_
    refine verdict_bind (verdict_mapM fun f _ => ?_) fun _ _ _ _ => rfl
    exact verdict_bind (Decoding.verdict_ofTy? a b _ _ _) fun _ _ _ _ => rfl
  have hs' : verdict (RecordDecoding.ofStruct? ⟨s, a⟩ d)
      = verdict (RecordDecoding.ofStruct? ⟨s, b⟩ d) := by
    refine verdict_bind rfl fun _ _ _ _ => verdict_bind rfl fun _ _ _ _ => ?_
    refine verdict_bind (verdict_mapM fun f _ => ?_) fun _ _ _ _ => rfl
    exact verdict_bind (Decoding.verdict_ofTy? a b _ _ _) fun _ _ _ _ => rfl
  unfold codec?
  split
  · exact verdict_bind (by rw [hm]) fun _ _ _ _ => verdict_bind hm' fun _ _ _ _ => rfl
  all_goals exact verdict_bind (by rw [hs]) fun _ _ _ _ => verdict_bind hs' fun _ _ _ _ => rfl

/-- Apart from the names of their types, the fields of a shape come from the definition and from
the schema alone. -/
theorem fields_of_shape? {t : Target} {d : Definition} {fields : List ShapeField}
    (h : shape? t d = .ok fields) : (fields.map fun f => (f.field, f.ident, f.isBoxed))
      = d.fields.map fun f => (f, Identifier.ofField f.name, t.schema.boxes d f.ty) := by
  rw [shape?, mapM_eq_ok] at h
  generalize hfs : d.fields = fs at h
  clear hfs
  induction h with
  | nil => rfl
  | cons h _ ih =>
    simp only [bind_eq_ok, pure_eq_ok] at h
    obtain ⟨_, -, rfl⟩ := h
    rw [List.map_cons, List.map_cons, ih]

theorem names_of_shape? {t : Target} {d : Definition} {fields : List ShapeField}
    (h : shape? t d = .ok fields) : (fields.map fun f => (f.field.name, f.ident))
      = d.fields.map fun f => (f.name, Identifier.ofField f.name) := by
  have hfields := congrArg (List.map fun x => (x.1.name, x.2.1)) (fields_of_shape? h)
  rwa [List.map_map, List.map_map] at hfields

theorem verdict_ofDefinition? (d : Definition) :
    verdict (ofDefinition? ⟨s, a⟩ d) = verdict (ofDefinition? ⟨s, b⟩ d) := by
  refine verdict_bind rfl fun _ _ _ _ => verdict_bind ?_ fun fields fields' h h' => ?_
  · exact verdict_mapM fun f _ =>
      verdict_bind (Target.verdict_typeName? a b _) fun _ _ _ _ => rfl
  · refine verdict_bind (by rw [names_of_shape? h, names_of_shape? h']) fun _ _ _ _ => ?_
    exact verdict_bind (verdict_codec? a b d) fun _ _ _ _ => rfl

end RecordItem

/-- The path of the library decides neither whether there are items nor the error. -/
theorem Target.verdict_items? (s : Schema) :
    verdict (Target.items? ⟨s, a⟩) = verdict (Target.items? ⟨s, b⟩) := by
  refine verdict_bind rfl fun _ _ _ _ => verdict_mapM fun d _ => verdict_mapError ?_
  unfold Item.ofDefinition?
  split
  · rfl
  all_goals exact verdict_bind (RecordItem.verdict_ofDefinition? a b d) fun _ _ _ _ => rfl

/-- There is a source of the schema with some settings. -/
def Schema.Accepted (s : Schema) : Prop :=
  ∃ settings source, s.generate settings = .ok source

theorem Schema.accepted_iff : s.Accepted ↔ ∃ p, Program.ofSchema? s = .ok p := by
  constructor
  · rintro ⟨settings, source, h⟩
    simp only [generate, bind_eq_ok] at h
    obtain ⟨items, hi, -⟩ := h
    obtain ⟨items', hi'⟩ := exists_of_verdict (Target.verdict_items? _ (Settings.runtime {}) s) hi
    exact ⟨⟨s, items'⟩, by rw [Program.ofSchema?, hi']; rfl⟩
  · rintro ⟨p, h⟩
    simp only [Program.ofSchema?, bind_eq_ok] at h
    obtain ⟨items, hi, -⟩ := h
    let code := itemsCode {} (Settings.runtime {}) items
    refine ⟨{}, (s.wrap {} (Code.printAll .empty code)).text, ?_⟩
    simp only [generate, bind_eq_ok]
    exact ⟨items, hi, rfl⟩

theorem Schema.accepted_of_isOk (h : (Program.ofSchema? s).isOk = true) : s.Accepted := by
  rcases hp : Program.ofSchema? s with e | p
  · rw [hp] at h
    cases h
  · exact accepted_iff.2 ⟨p, hp⟩

end SchemaCodec

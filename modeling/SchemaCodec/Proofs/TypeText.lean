import SchemaCodec.Proofs.TypeGrammar

/-!
# The text of a type

A type expression can mention a name only if it is an identifier and none of the words for scalars
(`Ty.IsReference`). The text of a type whose names are all like that derives the type
(`Ty.derives_toText`), and the grammar derives no other type (`Ty.Derives.isReference`). So the text
of a type that was read stands for it: it is read as the same type, and as no other
(`Ty.text_canonical`).
-/

namespace SchemaCodec.Ty

variable {w : List Char} {t : Ty} {s : String}

/-- A name that a type expression can mention: an identifier, and none of the words for scalars. -/
def IsReference (name : String) : Prop :=
  IsIdentifier name.toList ∧ ∀ x : Scalar, ¬ x.Spelled name.toList

/-- The canonical text of a type derives it. -/
theorem derives_toText : ∀ {t : Ty}, (∀ name ∈ t.names, IsReference name) →
    Derives t.toText.toList t
  | .scalar x, _ => .scalar (.inl rfl)
  | .defined name, h => by
    obtain ⟨hname, hword⟩ := h name (List.mem_singleton.2 rfl)
    simpa [toText] using Derives.defined hname hword
  | .array t, h => by
    simpa [toText] using (derives_toText (t := t) h).array .nil
  | .map k t, h => by
    rw [names, List.forall_mem_append] at h
    have hspace : Text.Blank " ".toList := by
      intro c hc
      rw [List.mem_singleton.1 hc]
      rfl
    simpa [toText] using
      Derives.map (derives_toText h.1) (derives_toText h.2) .nil .nil hspace .nil

theorem ofText?_toText (h : ∀ name ∈ t.names, IsReference name) : ofText? t.toText = .ok t := by
  have hderives := derives_toText h
  have htrim := hderives.bounded.trim_eq .nil .nil
  rw [List.nil_append, List.append_nil] at htrim
  rw [ofText?_eq_ok_iff, htrim]
  exact hderives

/-- What the grammar derives mentions no other names. -/
theorem Derives.isReference (h : Derives w t) : ∀ name ∈ t.names, IsReference name := by
  induction h with
  | scalar _ => nofun
  | defined hname hword =>
    intro name hmem
    rw [List.mem_singleton.1 hmem, IsReference, String.toList_ofList]
    exact ⟨hname, hword⟩
  | array _ _ ih => exact ih
  | map _ _ _ _ _ _ ihk ihv =>
    rw [names, List.forall_mem_append]
    exact ⟨ihk, ihv⟩

theorem ofExpr?_eq_ok_iff : ofExpr? s = .ok t ↔ ofText? s = .ok t := by
  rcases h : ofText? s with fault | u <;> simp [ofExpr?, h, Except.mapError]

theorem isReference_of_ofExpr? (h : ofExpr? s = .ok t) : ∀ name ∈ t.names, IsReference name := by
  rw [ofExpr?_eq_ok_iff, ofText?_eq_ok_iff] at h
  exact h.isReference

/-- A type is read back from its text exactly if all its names can be mentioned, as those of a type
that was read can; and types that were read have one text exactly if they are one type. -/
theorem text_canonical :
    (∀ t, ofExpr? t.toText = .ok t ↔ ∀ name ∈ t.names, IsReference name)
    ∧ (∀ s t, ofExpr? s = .ok t →
      (∀ name ∈ t.names, IsReference name) ∧ ofExpr? t.toText = .ok t)
    ∧ ∀ s s' t t', ofExpr? s = .ok t → ofExpr? s' = .ok t' → (t.toText = t'.toText ↔ t = t') := by
  have hback : ∀ {s t}, ofExpr? s = .ok t → ofExpr? t.toText = .ok t := fun h =>
    ofExpr?_eq_ok_iff.2 (ofText?_toText (isReference_of_ofExpr? h))
  refine ⟨fun t => ⟨isReference_of_ofExpr?, fun h => ofExpr?_eq_ok_iff.2 (ofText?_toText h)⟩,
    fun s t h => ⟨isReference_of_ofExpr? h, hback h⟩, fun s s' t t' h h' => ⟨fun htext => ?_, ?_⟩⟩
  · have heq := hback h
    rw [htext, hback h'] at heq
    exact (Except.ok.inj heq).symm
  · rintro rfl
    rfl

/-- Brackets inside brackets, beside `map` as a name. -/
theorem nested_text_canonical :
    ∃ t, ofExpr? "map[ map[map ,map[]], a_1 [] [] ]" = .ok t
      ∧ t.toText = "map[map[map, map[]], a_1[][]]" ∧ ofExpr? t.toText = .ok t := by
  have hread : ofExpr? "map[ map[map ,map[]], a_1 [] [] ]"
      = .ok (.map (.map (.defined "map") (.array (.defined "map")))
        (.array (.array (.defined "a_1")))) := by
    decide +kernel
  exact ⟨_, hread, by decide, (text_canonical.2.1 _ _ hread).2⟩

end SchemaCodec.Ty

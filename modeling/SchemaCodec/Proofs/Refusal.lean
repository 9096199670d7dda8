import SchemaCodec.Proofs.Faults

/-!
# Why a schema has no source

Definitions that share an identifier are found first (`Target.items?_of_not_distinct`). Else the
definitions are checked in their order, so the error is that of the first one that is not valid
(`Target.items?_of_not_valid`). It carries the name of this definition once, for what is wrong with
a definition names no definition by itself (`Item.ofDefinition?_failsBare`).
-/

namespace SchemaCodec

variable {s : Schema} {d : Definition} {runtime : String}

/-! ## Errors that name no definition -/

/-- The error is not one that was found in a definition. -/
def GenerateError.Bare : GenerateError → Prop
  | inDefinition _ _ => False
  | _ => True

/-- If it fails, its error names no definition that it was found in. -/
def FailsBare {α : Type} (x : Except GenerateError α) : Prop :=
  ∀ e, x = .error e → e.Bare

theorem Definition.Unfit.bare {e : GenerateError} (h : d.Unfit s e) : e.Bare := by
  cases h with
  | type _ h => cases h <;> trivial
  | _ => trivial

theorem Item.ofDefinition?_failsBare (d : Definition) :
    FailsBare (ofDefinition? ⟨s, runtime⟩ d) :=
  fun _ h => (unfit_of_ofDefinition? h).bare

/-! ## The first definition that fails -/

namespace Target

/-- The error of a definition carries its name. -/
theorem item?_eq_error {e : GenerateError} : (Target.mk s runtime).item? d = .error e
    ↔ ∃ cause, Item.ofDefinition? ⟨s, runtime⟩ d = .error cause
      ∧ .inDefinition d.name cause = e := by
  unfold item?
  cases Item.ofDefinition? ⟨s, runtime⟩ d <;> simp [Except.mapError]

/-- The first definition whose identifier is taken is refused before anything else is. -/
theorem items?_of_not_distinct (runtime : String) (h : ¬ s.Distinct) : ∃ before c d after,
    s.definitions = before ++ d :: after
      ∧ (before.map fun x => Identifier.ofType x.name).Nodup
      ∧ c ∈ before ∧ Identifier.ofType c.name = Identifier.ofType d.name
      ∧ items? ⟨s, runtime⟩
        = .error (.duplicateIdentifier (Identifier.ofType d.name) c.name d.name) := by
  rw [← checkIdentifiers_definitions] at h
  rcases he : Item.checkIdentifiers []
    (s.definitions.map fun d => (d.name, Identifier.ofType d.name)) with e | _
  · obtain ⟨names, name, ident, names', first, hsplit, hok, hfirst, rfl⟩ :=
      Item.exists_of_checkIdentifiers he
    obtain ⟨before, rest, hdefs, rfl, hrest⟩ := List.map_eq_append_iff.1 hsplit
    obtain ⟨d, after, rfl, hd, -⟩ := List.map_eq_cons_iff.1 hrest
    obtain ⟨rfl, rfl⟩ := Prod.mk.inj hd
    rcases hfirst with hfirst | hfirst
    · cases hfirst
    · obtain ⟨c, hc, hcd⟩ := List.mem_map.1 hfirst
      obtain ⟨rfl, hident⟩ := Prod.mk.inj hcd
      have hnodup := (Item.checkIdentifiers_eq_ok.1 hok).1
      rw [List.map_map] at hnodup
      exact ⟨before, c, d, after, hdefs, hnodup, hc, hident, bind_eq_error.2 (.inl he)⟩
  · exact absurd he h

/-- Otherwise the error is that of the first definition that is not valid. -/
theorem items?_of_not_valid (runtime : String) (hd : s.Distinct) (h : ¬ s.Valid) :
    ∃ before d after cause,
    s.definitions = before ++ d :: after ∧ (∀ c ∈ before, c.Valid s) ∧ ¬ d.Valid s
      ∧ items? ⟨s, runtime⟩ = .error (.inDefinition d.name cause) ∧ cause.Bare := by
  rw [← succeeds_items? runtime] at h
  rcases he : items? ⟨s, runtime⟩ with e | items
  · rcases bind_eq_error.1 he with hids | ⟨_, -, hitems⟩
    · have hnone := (checkIdentifiers_definitions (s := s)).2 hd
      cases hids.symm.trans hnone
    · obtain ⟨before, d, after, hdefs, hbefore, hitem⟩ := exists_of_mapM_eq_error hitems
      obtain ⟨cause, hcause, rfl⟩ := item?_eq_error.1 hitem
      have hvalid : ∀ c ∈ before, c.Valid s := fun c hc =>
        (succeeds_item? runtime).1 (hbefore c hc)
      have hbare := Item.ofDefinition?_failsBare d cause hcause
      refine ⟨before, d, after, cause, hdefs, hvalid, ?_, rfl, hbare⟩
      rw [← succeeds_item? runtime, Succeeds, hitem]
      rintro ⟨_, h⟩
      cases h
  · exact absurd ⟨items, he⟩ h

end Target

namespace Schema

theorem generate_eq_error {settings : Settings} {e : GenerateError}
    (h : Target.items? ⟨s, settings.runtime⟩ = .error e) : s.generate settings = .error e := by
  rw [generate_eq, h]
  rfl

theorem verdict_generate (settings : Settings) :
    verdict (s.generate settings) = verdict (Target.items? ⟨s, settings.runtime⟩) := by
  rw [generate_eq]
  cases Target.items? ⟨s, settings.runtime⟩ <;> rfl

/-- A schema has a source exactly if its definitions have different identifiers and are valid.
Whether it has one, and the error if it has none, are the same for all settings. Two definitions
with one identifier are an error of their own, and any other carries the name of the first
definition that is not valid. -/
theorem generate_verdict (s : Schema) (settings : Settings) :
    ((∃ source, s.generate settings = .ok source) ↔ s.Valid)
      ∧ (∀ other, verdict (s.generate settings) = verdict (s.generate other))
      ∧ (¬ s.Distinct → ∃ before c d after, s.definitions = before ++ d :: after
        ∧ (before.map fun x => Identifier.ofType x.name).Nodup
        ∧ c ∈ before ∧ Identifier.ofType c.name = Identifier.ofType d.name
        ∧ s.generate settings
          = .error (.duplicateIdentifier (Identifier.ofType d.name) c.name d.name))
      ∧ (s.Distinct → ¬ s.Valid → ∃ before d after cause, s.definitions = before ++ d :: after
        ∧ (∀ c ∈ before, c.Valid s) ∧ ¬ d.Valid s
        ∧ s.generate settings = .error (.inDefinition d.name cause) ∧ cause.Bare) := by
  refine ⟨succeeds_generate, fun other => ?_, fun h => ?_, fun hd h => ?_⟩
  · rw [verdict_generate, verdict_generate]
    exact Target.verdict_items? _ _ s
  · obtain ⟨before, c, d, after, hdefs, hnodup, hc, hident, he⟩ :=
      Target.items?_of_not_distinct settings.runtime h
    exact ⟨before, c, d, after, hdefs, hnodup, hc, hident, generate_eq_error he⟩
  · obtain ⟨before, d, after, cause, hdefs, hbefore, hnot, he, hcause⟩ :=
      Target.items?_of_not_valid settings.runtime hd h
    exact ⟨before, d, after, cause, hdefs, hbefore, hnot, generate_eq_error he, hcause⟩

/-- The second definition has a field without a tag. -/
example : (Schema.mk none [
      { name := "Color", kind := .enum, fields := [{ name := "Red", value := 1 }] },
      { name := "Leaf", kind := .message, fields := [{ name := "color", ty := .defined "Color" }] }]
      (by decide)).generate {} = .error (.inDefinition "Leaf" (.invalidTag "color" 0)) := by
  decide +kernel

end Schema

end SchemaCodec

import Mathlib.Data.List.Duplicate
import SchemaCodec.Proofs.Validity

/-!
# What is wrong with a definition

An error of a definition tells something that is wrong with it (`Item.unfit_of_ofDefinition?`): a
member, a tag or a field that is not allowed, two names with one identifier, or a field whose type
does not fit. A type fits if the definitions that it mentions exist and the keys in it can be
compared. The checks of a type run in several orders, and some of them more than once; whichever
fails first, its error is one of `Ty.Unfit`.
-/

namespace SchemaCodec

variable {s : Schema} {d : Definition} {runtime : String} {e : GenerateError}

/-! ## The first check that fails -/

section Except

variable {α β : Type}

theorem bind_eq_error {x : Except GenerateError α} {f : α → Except GenerateError β} :
    (x >>= f) = .error e ↔ x = .error e ∨ ∃ a, x = .ok a ∧ f a = .error e := by
  cases x <;> simp [bind, Except.bind]

theorem bind_pure_eq_error {x : Except GenerateError α} {g : α → β} :
    (x >>= fun a => pure (g a)) = .error e ↔ x = .error e := by
  cases x <;> simp [bind, Except.bind, pure, Except.pure]

/-- A run of checks fails with the first of them that does. -/
theorem exists_of_mapM_eq_error {f : α → Except GenerateError β} :
    ∀ {l : List α}, l.mapM f = .error e → ∃ before a after, l = before ++ a :: after
      ∧ (∀ b ∈ before, Succeeds (f b)) ∧ f a = .error e
  | [], h => nomatch h
  | a :: l, h => by
    rw [List.mapM_cons, bind_eq_error] at h
    rcases h with h | ⟨b, hb, h⟩
    · exact ⟨[], a, l, rfl, nofun, h⟩
    · rw [bind_eq_error] at h
      rcases h with h | ⟨bs, -, h⟩
      · obtain ⟨before, c, after, rfl, hbefore, hc⟩ := exists_of_mapM_eq_error h
        refine ⟨a :: before, c, after, rfl, fun x hx => ?_, hc⟩
        rcases List.mem_cons.1 hx with rfl | hx
        · exact ⟨b, hb⟩
        · exact hbefore x hx
      · cases h

theorem exists_mem_of_mapM_eq_error {f : α → Except GenerateError β} {l : List α}
    (h : l.mapM f = .error e) : ∃ a ∈ l, f a = .error e := by
  obtain ⟨before, a, after, rfl, -, ha⟩ := exists_of_mapM_eq_error h
  exact ⟨a, by simp, ha⟩

end Except

/-- The error tells the first name whose identifier was seen, and the name it was seen with. -/
theorem Item.exists_of_checkIdentifiers :
    ∀ {names seen : List (String × String)}, checkIdentifiers seen names = .error e →
      ∃ before name ident after first, names = before ++ (name, ident) :: after
        ∧ checkIdentifiers seen before = .ok () ∧ ((ident, first) ∈ seen ∨ (first, ident) ∈ before)
        ∧ e = .duplicateIdentifier ident first name
  | [], _, h => nomatch h
  | (name, ident) :: names, seen, h => by
    rw [checkIdentifiers] at h
    split at h
    · rename_i first hfirst
      cases h
      refine ⟨[], name, ident, names, first, rfl, rfl, .inl ?_, rfl⟩
      obtain ⟨l, l', rfl, -⟩ := List.lookup_eq_some_iff.1 hfirst
      exact List.mem_append_right _ List.mem_cons_self
    · rename_i hnone
      obtain ⟨before, n, i, after, first, rfl, hbefore, hfirst, rfl⟩ :=
        exists_of_checkIdentifiers h
      refine ⟨(name, ident) :: before, n, i, after, first, rfl, ?_, ?_, rfl⟩
      · rw [checkIdentifiers, hnone]
        exact hbefore
      · rcases hfirst with hfirst | hfirst
        · rcases List.mem_cons.1 hfirst with hfirst | hfirst
          · cases hfirst
            exact .inr List.mem_cons_self
          · exact .inl hfirst
        · exact .inr (List.mem_cons_of_mem _ hfirst)

/-! ## Types -/

/-- The errors that tell what is wrong with a type: a definition that it mentions is missing, or a
map in it has keys that cannot be compared. -/
inductive Ty.Unfit (s : Schema) (t : Ty) : GenerateError → Prop
  | name {name : String} (hn : name ∈ t.names) (h : s.get? name = none) :
    Unfit s t (.unresolvedType name)
  | key {k : Ty} (hk : k ∈ t.keys) (h : ¬ s.AdmitsKey k) : Unfit s t (.unsupportedMapKey k)

/-- What is wrong with a part of a type is wrong with the type. -/
theorem Ty.Unfit.mono {t u : Ty} (h : t.Unfit s e) (hn : t.names ⊆ u.names)
    (hk : t.keys ⊆ u.keys) : u.Unfit s e := by
  cases h with
  | name hname h => exact .name (hn hname) h
  | key hkey h => exact .key (hk hkey) h

namespace Target

theorem resolve?_eq_error {name : String} :
    (Target.mk s runtime).resolve? name = .error e
      ↔ s.get? name = none ∧ .unresolvedType name = e := by
  unfold resolve?
  cases s.get? name <;> simp

theorem typeName?_eq_error : ∀ {t : Ty}, (Target.mk s runtime).typeName? t = .error e →
    ∃ name ∈ t.names, s.get? name = none ∧ e = .unresolvedType name
  | .scalar x, h => by
    simp only [typeName?] at h
    cases h
  | .array t, h => by
    simp only [typeName?, bind_pure_eq_error] at h
    exact typeName?_eq_error (t := t) h
  | .map k t, h => by
    simp only [typeName?, bind_eq_error (x := typeName? _ k), bind_pure_eq_error] at h
    rcases h with h | ⟨_, -, h⟩
    · obtain ⟨name, hn, h⟩ := typeName?_eq_error h
      exact ⟨name, List.mem_append_left _ hn, h⟩
    · obtain ⟨name, hn, h⟩ := typeName?_eq_error h
      exact ⟨name, List.mem_append_right _ hn, h⟩
  | .defined name, h => by
    simp only [typeName?, bind_pure_eq_error, resolve?_eq_error] at h
    exact ⟨name, List.mem_singleton.2 rfl, h.1, h.2.symm⟩

theorem unfit_of_typeName? {t : Ty} (h : (Target.mk s runtime).typeName? t = .error e) :
    t.Unfit s e := by
  obtain ⟨name, hn, hnone, rfl⟩ := typeName?_eq_error h
  exact .name hn hnone

/-- A key is unfit if it mentions a definition that is missing, or else as a key. -/
theorem unfit_of_key? {k t : Ty} (h : (Target.mk s runtime).key? k = .error e) :
    (Ty.map k t).Unfit s e := by
  have hkey : k ∈ (Ty.map k t).keys := List.mem_cons_self
  cases k with
  | scalar x =>
    simp only [key?] at h
    split_ifs at h with hx
    cases h
    exact .key hkey (by simp [Schema.AdmitsKey, hx])
  | defined name =>
    simp only [key?, bind_eq_error, resolve?_eq_error, resolve?_eq_ok] at h
    rcases h with ⟨hnone, rfl⟩ | ⟨d, hd, h⟩
    · exact .name (List.mem_append_left _ (List.mem_singleton.2 rfl)) hnone
    · split_ifs at h with hk
      · cases h
      · cases h
        refine .key hkey ?_
        rintro ⟨c, hc, hck⟩
        exact hk (Option.some.inj (hd.symm.trans hc) ▸ hck)
  | array u =>
    cases h
    exact .key hkey id
  | map u v =>
    cases h
    exact .key hkey id

end Target

theorem Ty.Unfit.element {t : Ty} (h : t.Unfit s e) : (Ty.array t).Unfit s e :=
  h.mono (List.Subset.refl _) (List.Subset.refl _)

theorem Ty.Unfit.value {k t : Ty} (h : t.Unfit s e) : (Ty.map k t).Unfit s e :=
  h.mono (List.subset_append_right _ _) fun _ hu =>
    List.mem_cons_of_mem _ (List.mem_append_right _ hu)

theorem Encoding.unfit_of_ofTy? : ∀ {t : Ty} {o : Operand} {n : Nat},
    ofTy? ⟨s, runtime⟩ o n t = .error e → t.Unfit s e
  | .scalar x, o, n, h => by cases h
  | .array t, o, n, h => by
    simp only [ofTy?] at h
    split at h
    · cases h
    · exact (unfit_of_ofTy? (bind_pure_eq_error.1 h)).element
  | .map k t, o, n, h => by
    rcases bind_eq_error.1 h with h | ⟨key, -, h⟩
    · exact Target.unfit_of_key? h
    · exact (unfit_of_ofTy? (bind_pure_eq_error.1 h)).value
  | .defined name, o, n, h => by
    simp only [ofTy?, bind_eq_error, Target.resolve?_eq_error] at h
    rcases h with ⟨hnone, rfl⟩ | ⟨d, -, h⟩
    · exact .name (List.mem_singleton.2 rfl) hnone
    · split at h <;> cases h

theorem Decoding.unfit_of_ofTy? : ∀ {t : Ty} {b : String} {n : Nat},
    ofTy? ⟨s, runtime⟩ b n t = .error e → t.Unfit s e
  | .scalar x, b, n, h => by cases h
  | .array t, b, n, h => by
    simp only [ofTy?] at h
    split_ifs at h
    rcases bind_eq_error.1 h with h | ⟨_, -, h⟩
    · exact (Target.unfit_of_typeName? h).element
    · exact (unfit_of_ofTy? (bind_pure_eq_error.1 h)).element
  | .map k t, b, n, h => by
    rcases bind_eq_error.1 h with h | ⟨key, -, h⟩
    · exact Target.unfit_of_key? h
    · rcases bind_eq_error.1 h with h | ⟨_, -, h⟩
      · exact (Target.unfit_of_typeName? h).value
      · exact (unfit_of_ofTy? (bind_pure_eq_error.1 h)).value
  | .defined name, b, n, h => by
    simp only [ofTy?, bind_eq_error, Target.resolve?_eq_error] at h
    rcases h with ⟨hnone, rfl⟩ | ⟨d, -, h⟩
    · exact .name (List.mem_singleton.2 rfl) hnone
    · split at h <;> cases h

/-! ## Definitions -/

/-- The errors that tell what is wrong with a definition. -/
inductive Definition.Unfit (s : Schema) (d : Definition) : GenerateError → Prop
  | member {f : Field} (hf : f ∈ d.fields) (h : f.ty ≠ .scalar .uint32) :
    Unfit s d (.invalidEnumMember f.name f.ty)
  | tag {f : Field} (hf : f ∈ d.fields) (h : f.value = 0 ∨ 255 < f.value) :
    Unfit s d (.invalidTag f.name f.value)
  | repeatedTag {f : Field} (hf : f ∈ d.fields)
    (h : (d.fields.map (·.value)).Duplicate f.value) : Unfit s d (.duplicateTag f.name f.value)
  | nesting {f : Field} (hf : f ∈ d.fields) (h : s.nestsByValue f.ty d.name = true) :
    Unfit s d (.selfNestingStruct f.name f.ty)
  | identifier {f : Field} (hf : f ∈ d.fields) (ident first : String) :
    Unfit s d (.duplicateIdentifier ident first f.name)
  | type {f : Field} (hf : f ∈ d.fields) {e : GenerateError} (h : f.ty.Unfit s e) : Unfit s d e

namespace Definition

theorem exists_of_checkTagsFrom : ∀ {fs : List Field} {seen : List UInt32},
    checkTagsFrom seen fs = .error e → ∃ f ∈ fs,
      (f.value = 0 ∨ 255 < f.value) ∧ e = .invalidTag f.name f.value
      ∨ (f.value ∈ seen ∨ (fs.map (·.value)).Duplicate f.value)
        ∧ e = .duplicateTag f.name f.value
  | [], seen, h => nomatch h
  | f :: fs, seen, h => by
    simp only [checkTagsFrom] at h
    split_ifs at h with hr hs
    · cases h
      exact ⟨f, List.mem_cons_self, .inl ⟨hr, rfl⟩⟩
    · cases h
      exact ⟨f, List.mem_cons_self, .inr ⟨.inl hs, rfl⟩⟩
    · obtain ⟨g, hg, hrange | ⟨hseen, he⟩⟩ := exists_of_checkTagsFrom h
      · exact ⟨g, List.mem_cons_of_mem _ hg, .inl hrange⟩
      · refine ⟨g, List.mem_cons_of_mem _ hg, .inr ⟨?_, he⟩⟩
        rcases hseen with hseen | hdup
        · rcases List.mem_cons.1 hseen with heq | hseen
          · have hmem : g.value ∈ fs.map (·.value) := List.mem_map_of_mem hg
            exact .inr (by rw [List.map_cons, ← heq]; exact hmem.duplicate_cons_self)
          · exact .inl hseen
        · exact .inr (hdup.duplicate_cons _)

theorem unfit_of_checkTags (h : d.checkTags = .error e) : d.Unfit s e := by
  obtain ⟨f, hf, ⟨hr, rfl⟩ | ⟨hseen, rfl⟩⟩ := exists_of_checkTagsFrom h
  · exact .tag hf hr
  · exact .repeatedTag hf (hseen.resolve_left List.not_mem_nil)

theorem unfit_of_checkNesting (h : (Target.mk s runtime).checkNesting d = .error e) :
    d.Unfit s e := by
  unfold Target.checkNesting at h
  split at h
  · rename_i f hf
    cases h
    have hnests := List.find?_some hf
    exact .nesting (List.mem_of_find?_eq_some hf) hnests
  · cases h

theorem unfit_of_checkIdentifiers {ident : Field → String} {seen : List (String × String)}
    (h : Item.checkIdentifiers seen (d.fields.map fun f => (f.name, ident f)) = .error e) :
    d.Unfit s e := by
  obtain ⟨before, name, i, after, first, hsplit, -, -, rfl⟩ := Item.exists_of_checkIdentifiers h
  have hmem : (name, i) ∈ d.fields.map fun f => (f.name, ident f) := by rw [hsplit]; simp
  obtain ⟨f, hf, heq⟩ := List.mem_map.1 hmem
  obtain ⟨rfl, -⟩ := Prod.mk.inj heq
  exact .identifier hf i first

/-- The statements for the fields fail with what is wrong with the type of a field. -/
theorem unfit_of_fields {β : Type} {f : Field → Except GenerateError β}
    (hf : ∀ a e, f a = .error e → a.ty.Unfit s e) (h : d.fields.mapM f = .error e) :
    d.Unfit s e := by
  obtain ⟨a, ha, he⟩ := exists_mem_of_mapM_eq_error h
  exact .type ha (hf a e he)

end Definition

theorem EnumItem.unfit_of_ofDefinition? (h : ofDefinition? d = .error e) : d.Unfit s e := by
  rcases bind_eq_error.1 h with h | ⟨_, -, h⟩
  · unfold checkMembers at h
    split at h
    · rename_i f hf
      cases h
      exact .member (List.mem_of_find?_eq_some hf) (by simpa using List.find?_some hf)
    · cases h
  · rw [bind_pure_eq_error, List.map_map] at h
    exact Definition.unfit_of_checkIdentifiers h

/-- A definition of the right kind fails with what its own check or its fields do. -/
theorem Definition.unfit_of_checked {β γ : Type} {kind : Kind} {check : Except GenerateError Unit}
    {x : Except GenerateError β} {g : β → γ} (hk : d.kind = kind)
    (hcheck : check = .error e → d.Unfit s e) (hx : x = .error e → d.Unfit s e)
    (h : (do d.expect kind; check; return g (← x)) = .error e) : d.Unfit s e := by
  rw [expect, if_pos hk] at h
  rcases bind_eq_error.1 h with h | ⟨_, -, h⟩
  · cases h
  rcases bind_eq_error.1 h with h | ⟨_, -, h⟩
  · exact hcheck h
  · exact hx (bind_pure_eq_error.1 h)

open Definition

theorem RecordEncoding.unfit_of_ofMessage? (hk : d.kind = .message)
    (h : ofMessage? ⟨s, runtime⟩ d = .error e) : d.Unfit s e := by
  refine unfit_of_checked hk unfit_of_checkTags (unfit_of_fields fun f e h => ?_) h
  split_ifs at h
  · cases h
  · exact Encoding.unfit_of_ofTy? (bind_pure_eq_error.1 h)

theorem RecordDecoding.unfit_of_ofMessage? (hk : d.kind = .message)
    (h : ofMessage? ⟨s, runtime⟩ d = .error e) : d.Unfit s e := by
  refine unfit_of_checked hk unfit_of_checkTags (unfit_of_fields fun f e h => ?_) h
  exact Decoding.unfit_of_ofTy? (bind_pure_eq_error.1 h)

theorem RecordEncoding.unfit_of_ofStruct? (hk : d.kind = .struct)
    (h : ofStruct? ⟨s, runtime⟩ d = .error e) : d.Unfit s e := by
  refine unfit_of_checked hk unfit_of_checkNesting (unfit_of_fields fun f e h => ?_) h
  exact Encoding.unfit_of_ofTy? (bind_pure_eq_error.1 h)

theorem RecordDecoding.unfit_of_ofStruct? (hk : d.kind = .struct)
    (h : ofStruct? ⟨s, runtime⟩ d = .error e) : d.Unfit s e := by
  refine unfit_of_checked hk unfit_of_checkNesting (fun h => ?_) h
  obtain ⟨⟨f, i⟩, hf, h⟩ := exists_mem_of_mapM_eq_error h
  refine .type (List.fst_mem_of_mem_zipIdx hf) ?_
  exact Decoding.unfit_of_ofTy? (bind_pure_eq_error.1 h)

namespace RecordItem

theorem unfit_of_codec? (hk : d.kind.isAggregate = true)
    (h : codec? ⟨s, runtime⟩ d = .error e) : d.Unfit s e := by
  unfold codec? at h
  cases hd : d.kind with
  | enum =>
    rw [hd] at hk
    cases hk
  | message =>
    rw [hd] at h
    rcases bind_eq_error.1 h with h | ⟨_, -, h⟩
    · exact RecordEncoding.unfit_of_ofMessage? hd h
    · exact RecordDecoding.unfit_of_ofMessage? hd (bind_pure_eq_error.1 h)
  | struct =>
    rw [hd] at h
    rcases bind_eq_error.1 h with h | ⟨_, -, h⟩
    · exact RecordEncoding.unfit_of_ofStruct? hd h
    · exact RecordDecoding.unfit_of_ofStruct? hd (bind_pure_eq_error.1 h)

theorem unfit_of_check (h : check ⟨s, runtime⟩ d = .error e) : d.Unfit s e := by
  unfold check at h
  split at h
  · exact Definition.unfit_of_checkTags h
  · exact Definition.unfit_of_checkNesting h
  · cases h

theorem unfit_of_ofDefinition? (hk : d.kind.isAggregate = true)
    (h : ofDefinition? ⟨s, runtime⟩ d = .error e) : d.Unfit s e := by
  rcases bind_eq_error.1 h with h | ⟨_, -, h⟩
  · exact unfit_of_check h
  rcases bind_eq_error.1 h with h | ⟨fields, hshape, h⟩
  · refine Definition.unfit_of_fields (fun f e h => ?_) h
    exact Target.unfit_of_typeName? (bind_pure_eq_error.1 h)
  rcases bind_eq_error.1 h with h | ⟨_, -, h⟩
  · rw [names_of_shape? hshape] at h
    exact Definition.unfit_of_checkIdentifiers h
  · exact unfit_of_codec? hk (bind_pure_eq_error.1 h)

end RecordItem

/-- The error of a definition tells what is wrong with it. -/
theorem Item.unfit_of_ofDefinition? (h : ofDefinition? ⟨s, runtime⟩ d = .error e) :
    d.Unfit s e := by
  unfold ofDefinition? at h
  cases hk : d.kind with
  | enum =>
    rw [hk] at h
    exact EnumItem.unfit_of_ofDefinition? (bind_pure_eq_error.1 h)
  | struct =>
    rw [hk] at h
    exact RecordItem.unfit_of_ofDefinition? (by rw [hk]; rfl) (bind_pure_eq_error.1 h)
  | message =>
    rw [hk] at h
    exact RecordItem.unfit_of_ofDefinition? (by rw [hk]; rfl) (bind_pure_eq_error.1 h)

end SchemaCodec

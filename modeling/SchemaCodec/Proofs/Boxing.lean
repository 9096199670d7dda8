import SchemaCodec.Proofs.Validity

/-!
# What a shape holds in place

A field of a struct is held in place. A field of a message is too, unless it is stored behind a
pointer because it leads back to the message (`Schema.boxes_iff`). Two searches keep a shape from
holding itself: a struct that leads to itself through structs has no source, and any other cycle
passes a message, whose field on the cycle is then stored behind a pointer. So with a source no
chain of shapes that hold each other comes back to where it began (`Schema.not_holds_itself`).
-/

namespace SchemaCodec

open Relation Definition

variable {s : Schema} {d : Definition} {a b : String}

namespace Schema

/-- A shape has a field that is the other shape and not stored behind a pointer. -/
def Holds (s : Schema) (a b : String) : Prop :=
  ∃ d e f, s.get? a = some d ∧ s.get? b = some e ∧ e.kind.isAggregate = true
    ∧ f ∈ d.fields ∧ f.ty = .defined b
    ∧ (d.kind = .struct ∨ d.kind = .message ∧ s.boxes d f.ty = false)

/-- A field of a message is stored behind a pointer exactly if its type names a definition that
leads back to the message through structs and messages. -/
theorem boxes_iff (hk : d.kind = .message) {t : Ty} : s.boxes d t = true
    ↔ ∃ b, t = .defined b ∧ ReflTransGen (Leads s.definitions Kind.isAggregate) b d.name := by
  rw [boxes, hk, ← leadsTo_iff]
  simp

theorem Holds.leads (h : s.Holds a b) : Leads s.definitions Kind.isAggregate a b := by
  obtain ⟨d, e, f, hd, -, -, hf, hb, hk⟩ := h
  have hagg : d.kind.isAggregate = true := by
    rcases hk with hk | ⟨hk, -⟩ <;> rw [hk] <;> rfl
  exact ⟨d, hd, hagg, mem_direct_iff.2 ⟨f, hf, hb⟩⟩

/-- A message holds nothing that leads back to it, so on a cycle a struct holds the next shape. -/
theorem Holds.leads_of_back (h : s.Holds a b)
    (hback : ReflTransGen (Leads s.definitions Kind.isAggregate) b a) :
    Leads s.definitions (· == .struct) a b := by
  obtain ⟨d, e, f, hd, -, -, hf, hb, hk⟩ := h
  have hname : d.name = a := name_of_byName? hd
  rcases hk with hk | ⟨hk, hbox⟩
  · exact ⟨d, hd, by rw [hk]; rfl, mem_direct_iff.2 ⟨f, hf, hb⟩⟩
  · have hboxed := (boxes_iff hk).2 ⟨b, hb, hname ▸ hback⟩
    rw [hbox] at hboxed
    cases hboxed

/-- A chain that leads back to its beginning goes through structs alone. -/
theorem leads_of_holds (h : TransGen s.Holds a b)
    (hback : ReflTransGen (Leads s.definitions Kind.isAggregate) b a) :
    TransGen (Leads s.definitions (· == .struct)) a b := by
  induction h using TransGen.head_induction_on with
  | single hab => exact .single (hab.leads_of_back hback)
  | @head a c hac hcb ih =>
    -- the end of the chain leads back to `a`, so it leads on to `c`, which the rest begins with
    have hcb' : ReflTransGen (Leads s.definitions Kind.isAggregate) c b :=
      (TransGen.mono (fun _ _ => Holds.leads) _ _ hcb).to_reflTransGen
    exact .head (hac.leads_of_back (hcb'.trans hback)) (ih (hback.tail hac.leads))

theorem not_holds_itself (hs : s.Valid) (a : String) : ¬ TransGen s.Holds a a := by
  intro h
  obtain ⟨b, ⟨d, hd, hk, hb⟩, hback⟩ := TransGen.head'_iff.1 (leads_of_holds h .refl)
  obtain ⟨f, hf, hty⟩ := mem_direct_iff.1 hb
  have hvalid := hs.definitions d (mem_of_byName? hd)
  rw [Definition.Valid, eq_of_beq hk] at hvalid
  have hname : d.name = a := name_of_byName? hd
  exact hvalid.1 ⟨f, hf, b, hty, hname ▸ hback⟩

end Schema

/-! ## The shapes of a program -/

/-- The fields of a shape are those of the definition, each stored as the search says. -/
theorem RecordItem.boxed_of_shape? {t : Target} {fields : List ShapeField}
    (h : shape? t d = .ok fields) : (fields.map fun f => (f.field, f.isBoxed))
      = d.fields.map fun f => (f, t.schema.boxes d f.ty) := by
  have hfields := congrArg (List.map fun x => (x.1, x.2.2)) (fields_of_shape? h)
  rwa [List.map_map, List.map_map] at hfields

theorem Item.boxed_of_ofDefinition? {t : Target} {item : Item} (hk : d.kind.isAggregate = true)
    (h : ofDefinition? t d = .ok item) : ∃ r, item = .record r
      ∧ (r.fields.map fun f => (f.field, f.isBoxed))
        = d.fields.map fun f => (f, t.schema.boxes d f.ty) := by
  have hrecord : ∃ r, RecordItem.ofDefinition? t d = .ok r ∧ item = .record r := by
    unfold ofDefinition? at h
    split at h
    · rename_i henum
      rw [henum] at hk
      cases hk
    all_goals
      obtain ⟨r, hr, h⟩ := bind_eq_ok.1 h
      exact ⟨r, hr, (pure_eq_ok.1 h).symm⟩
  obtain ⟨r, hr, rfl⟩ := hrecord
  simp only [RecordItem.ofDefinition?, bind_eq_ok, pure_eq_ok] at hr
  obtain ⟨_, -, fields, hfields, _, -, _, -, rfl⟩ := hr
  exact ⟨_, rfl, RecordItem.boxed_of_shape? hfields⟩

namespace Program

theorem boxed {p : Program} (hp : ofSchema? s = .ok p) {name : String} (hd : s.get? name = some d)
    (hk : d.kind.isAggregate = true) : ∃ r, p.record? name = some r
      ∧ (r.fields.map fun f => (f.field, f.isBoxed))
        = d.fields.map fun f => (f, s.boxes d f.ty) := by
  obtain ⟨item, hitem, hit⟩ := exists_item hp hd
  obtain ⟨r, rfl, hr⟩ := Item.boxed_of_ofDefinition? hk (item?_eq_ok.1 hit)
  exact ⟨r, by rw [record?, hitem], hr⟩

end Program

/-- With a source, no chain of shapes that hold each other in place comes back to where it began.
A field of a message is stored behind a pointer only where this is needed, and the shapes of the
program are as the search says. -/
theorem Schema.Accepted.holds_acyclic (h : s.Accepted) :
    (∀ a, ¬ TransGen s.Holds a a)
      ∧ (∀ d t, d.kind = .message → (s.boxes d t = true
        ↔ ∃ b, t = .defined b ∧ ReflTransGen (Leads s.definitions Kind.isAggregate) b d.name))
      ∧ ∃ p, Program.ofSchema? s = .ok p
        ∧ ∀ name d, s.get? name = some d → d.kind.isAggregate = true →
          ∃ r, p.record? name = some r ∧ (r.fields.map fun f => (f.field, f.isBoxed))
            = d.fields.map fun f => (f, s.boxes d f.ty) := by
  obtain ⟨p, hp⟩ := accepted_iff.1 h
  refine ⟨not_holds_itself (accepted_iff_valid.1 h), fun d t hk => boxes_iff hk, p, hp, ?_⟩
  exact fun name d hd hk => Program.boxed hp hd hk

namespace Grove

/-- A tree with a tree inside, with two more in a pair, and with any number of others. -/
def tree : Definition where
  name := "Tree"
  kind := .message
  fields := [
    { name := "trunk", ty := .defined "Tree", value := 1 },
    { name := "boughs", ty := .defined "Pair", value := 2 },
    { name := "shoots", ty := .array (.defined "Tree"), value := 3 },
    { name := "height", ty := .scalar .uint16, value := 4 }]

def pair : Definition where
  name := "Pair"
  kind := .struct
  fields := [{ name := "left", ty := .defined "Tree" }, { name := "right", ty := .defined "Tree" }]

def schema : Schema where
  definitions := [tree, pair]
  nodup := by decide

theorem tree_valid : tree.Valid schema := by
  refine ⟨⟨by decide, by decide⟩, ?_, ?_, by decide +kernel, nofun⟩
  · simp [tree, pair, schema, Ty.names, Schema.get?, byName?]
  · simp [tree, Ty.keys]

/-- Both fields of a pair are trees, and a tree is no struct. -/
theorem pair_valid : pair.Valid schema := by
  refine ⟨?_, ?_, ?_, by decide +kernel, nofun⟩
  · rintro ⟨f, hf, name, hty, hback⟩
    have hname : name = "Tree" := by
      have htrees : ∀ g ∈ pair.fields, g.ty = .defined "Tree" := by decide
      exact Ty.defined.inj (hty.symm.trans (htrees f hf))
    subst hname
    rcases hback.cases_head with hself | ⟨b, ⟨d, hd, hk, -⟩, -⟩
    · exact absurd hself (by decide)
    · obtain rfl : tree = d := Option.some.inj hd
      cases hk
  · simp [tree, pair, schema, Ty.names, Schema.get?, byName?]
  · simp [pair, Ty.keys]

theorem accepted : schema.Accepted := by
  refine Schema.accepted_iff_valid.2 ⟨?_, ?_⟩
  · unfold Schema.Distinct
    decide +kernel
  · exact List.forall_mem_cons.2 ⟨tree_valid, List.forall_mem_singleton.2 pair_valid⟩

theorem finite : schema.Accepted ∧ (∀ a, ¬ TransGen schema.Holds a a)
    ∧ ∃ p r, Program.ofSchema? schema = .ok p ∧ p.record? "Tree" = some r
      ∧ (r.fields.map fun f => (f.field, f.isBoxed))
        = tree.fields.zip [true, true, false, false] := by
  obtain ⟨hacyclic, hboxes, p, hp, hshapes⟩ := accepted.holds_acyclic
  obtain ⟨r, hr, hboxed⟩ := hshapes "Tree" tree rfl rfl
  have htrunk : schema.boxes tree (.defined "Tree") = true :=
    (hboxes tree _ rfl).2 ⟨"Tree", rfl, .refl⟩
  have hboughs : schema.boxes tree (.defined "Pair") = true :=
    (hboxes tree _ rfl).2 ⟨"Pair", rfl, .single ⟨pair, rfl, rfl, by decide⟩⟩
  have hother : ∀ t, (∀ b, t ≠ .defined b) → schema.boxes tree t = false := by
    intro t ht
    rw [← Bool.not_eq_true, hboxes tree t rfl]
    exact fun ⟨b, hb, _⟩ => ht b hb
  refine ⟨accepted, hacyclic, p, r, hp, hr, hboxed.trans ?_⟩
  simp only [tree, List.map_cons, List.map_nil, List.zip_cons_cons, List.zip_nil_right]
  rw [← tree, htrunk, hboughs, hother _ (by simp), hother _ (by simp)]

end Grove

end SchemaCodec

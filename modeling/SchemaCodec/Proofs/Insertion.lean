import SchemaCodec.Proofs.Containment
import SchemaCodec.Schema.Load

/-!
# Runs of insertions

Definitions are offered to a schema one after the other, and one whose name is taken is refused. So
a run from the empty schema leaves the first definition that was offered under each name, in the
order in which these were offered (`Schema.definitions_after_empty`).

`Keyed` is a map from names to definitions in the order in which the names came, in which a second
definition takes the place of the first one. As the name is looked for before anything is filed,
no definition is ever replaced, and the map lists what the schema does, each definition under its
own name (`Keyed.after_eq`).
-/

namespace SchemaCodec

namespace Definition

/-- The first definition with each name. -/
def firsts : List Definition → List Definition
  | [] => []
  | d :: ds => d :: without (firsts ds) d.name

theorem byName?_firsts (name : String) : ∀ ds : List Definition,
    byName? (firsts ds) name = byName? ds name
  | [] => rfl
  | d :: ds => by
    have ih := byName?_firsts name ds
    unfold byName? at ih ⊢
    by_cases hd : d.name = name
    · rw [firsts, List.find?_cons_of_pos (by simpa using hd),
        List.find?_cons_of_pos (by simpa using hd)]
    · rw [firsts, List.find?_cons_of_neg (by simpa using hd),
        List.find?_cons_of_neg (by simpa using hd), ← ih]
      exact byName?_without_of_ne (Ne.symm hd) (firsts ds)

end Definition

namespace Schema

variable {s : Schema} {scope : Option String} {ds : List Definition} {d : Definition}
  {name : String}

/-! ## One insertion -/

/-- Inserts a definition, or refuses it and leaves the schema as it is. -/
def offer (s : Schema) (d : Definition) : Except SchemaError Unit × Schema :=
  match s.insert? d with
  | some t => (.ok (), t)
  | none => (.error (.duplicate d.name), s)

theorem insert?_of_mem (h : d.name ∈ s.definitions.map (·.name)) : s.insert? d = none := by
  have hd : s.has d.name = true := by simpa [has] using h
  rw [insert?, dif_pos hd]

theorem exists_insert?_eq (h : d.name ∉ s.definitions.map (·.name)) :
    ∃ t, s.insert? d = some t ∧ t.scope = s.scope ∧ t.definitions = s.definitions ++ [d] := by
  have hd : ¬ s.has d.name = true := by simpa [has] using h
  rw [insert?, dif_neg hd]
  exact ⟨_, rfl, rfl, rfl⟩

theorem offer_of_mem (h : d.name ∈ s.definitions.map (·.name)) :
    s.offer d = (.error (.duplicate d.name), s) := by
  rw [offer, insert?_of_mem h]

theorem exists_offer_eq (h : d.name ∉ s.definitions.map (·.name)) :
    ∃ t, s.offer d = (.ok (), t) ∧ t.scope = s.scope ∧ t.definitions = s.definitions ++ [d] := by
  obtain ⟨t, ht, hscope, hdefs⟩ := exists_insert?_eq h
  exact ⟨t, by rw [offer, ht], hscope, hdefs⟩

/-! ## Runs -/

/-- The schema after definitions were offered to it in order, some of them in vain. -/
def after (s : Schema) (ds : List Definition) : Schema :=
  ds.foldl (fun t d => (t.offer d).2) s

@[simp] theorem after_nil (s : Schema) : s.after [] = s := rfl

@[simp] theorem after_cons (s : Schema) (d : Definition) (ds : List Definition) :
    s.after (d :: ds) = (s.offer d).2.after ds := rfl

/-- Somewhere in a run, a definition with this name was accepted. -/
def Entered (s : Schema) (ds : List Definition) (name : String) : Prop :=
  ∃ before d rest, ds = before ++ d :: rest ∧ d.name = name
    ∧ ((s.after before).offer d).1 = .ok ()

/-- No definition of a run is refused. -/
def TakesAll (s : Schema) (ds : List Definition) : Prop :=
  ∀ before d rest, ds = before ++ d :: rest → ((s.after before).offer d).1 = .ok ()

theorem entered_cons : s.Entered (d :: ds) name
    ↔ (d.name = name ∧ (s.offer d).1 = .ok ()) ∨ (s.offer d).2.Entered ds name := by
  constructor
  · rintro ⟨before, e, rest, hsplit, hname, hok⟩
    rcases before with _ | ⟨c, before⟩
    · obtain ⟨rfl, rfl⟩ := List.cons.inj hsplit
      exact .inl ⟨hname, hok⟩
    · obtain ⟨rfl, rfl⟩ := List.cons.inj hsplit
      exact .inr ⟨before, e, rest, rfl, hname, hok⟩
  · rintro (⟨hname, hok⟩ | ⟨before, e, rest, rfl, hname, hok⟩)
    · exact ⟨[], d, ds, rfl, hname, hok⟩
    · exact ⟨d :: before, e, rest, rfl, hname, hok⟩

theorem takesAll_cons :
    s.TakesAll (d :: ds) ↔ (s.offer d).1 = .ok () ∧ (s.offer d).2.TakesAll ds := by
  constructor
  · intro h
    exact ⟨h [] d ds rfl, fun before e rest hsplit => h (d :: before) e rest (by rw [hsplit]; rfl)⟩
  · rintro ⟨hd, h⟩ before e rest hsplit
    rcases before with _ | ⟨c, before⟩
    · obtain ⟨rfl, rfl⟩ := List.cons.inj hsplit
      exact hd
    · obtain ⟨rfl, rfl⟩ := List.cons.inj hsplit
      exact h before e rest rfl

theorem scope_after (s : Schema) (ds : List Definition) : (s.after ds).scope = s.scope := by
  induction ds generalizing s with
  | nil => rfl
  | cons d ds ih =>
    rw [after_cons, ih]
    by_cases hd : d.name ∈ s.definitions.map (·.name)
    · rw [offer_of_mem hd]
    · obtain ⟨t, ht, hscope, -⟩ := exists_offer_eq hd
      rw [ht, hscope]

/-- A run adds the first definition with each name that was not taken before it. -/
theorem definitions_after (s : Schema) (ds : List Definition) : (s.after ds).definitions
    = s.definitions ++ (Definition.firsts ds).filter (·.name ∉ s.definitions.map (·.name)) := by
  induction ds generalizing s with
  | nil => simp [Definition.firsts]
  | cons d ds ih =>
    rw [after_cons, ih, Definition.firsts, Definition.without]
    by_cases hd : d.name ∈ s.definitions.map (·.name)
    · rw [offer_of_mem hd, List.filter_cons_of_neg (by simpa using hd), List.filter_filter]
      congr 1
      refine List.filter_congr fun c _ => ?_
      by_cases hc : c.name = d.name
      · simpa [hc] using hd
      · simp [hc]
    · obtain ⟨t, ht, -, hdefs⟩ := exists_offer_eq hd
      rw [ht, hdefs, List.filter_cons_of_pos (by simpa using hd), List.filter_filter,
        List.append_assoc, List.singleton_append]
      congr 2
      refine List.filter_congr fun c _ => ?_
      simp [bne, Bool.beq_eq_decide_eq]

theorem definitions_after_empty (scope : Option String) (ds : List Definition) :
    ((empty scope).after ds).definitions = Definition.firsts ds := by
  simp [definitions_after, empty]

/-- The names that are taken after a run were taken before it or accepted in it. -/
theorem mem_names_after (s : Schema) (ds : List Definition) :
    name ∈ (s.after ds).definitions.map (·.name)
      ↔ name ∈ s.definitions.map (·.name) ∨ s.Entered ds name := by
  induction ds generalizing s with
  | nil => simp [Entered]
  | cons d ds ih =>
    rw [after_cons, ih, entered_cons]
    by_cases hd : d.name ∈ s.definitions.map (·.name)
    · simp [offer_of_mem hd]
    · obtain ⟨t, ht, -, hdefs⟩ := exists_offer_eq hd
      simp only [ht, hdefs, List.map_append, List.map_singleton, List.mem_append,
        List.mem_singleton, and_true, or_assoc, eq_comm]

/-- Inserting a list stops at the first definition that is refused. -/
theorem insertAll_eq (ds : List Definition) (s : Schema) :
    (s.TakesAll ds ∧ s.insertAll ds = .ok (s.after ds))
      ∨ ∃ before d rest, ds = before ++ d :: rest ∧ s.TakesAll before
        ∧ ((s.after before).offer d).1 = .error (.duplicate d.name)
        ∧ s.insertAll ds = .error d.name := by
  induction ds generalizing s with
  | nil => exact .inl ⟨by simp [TakesAll], rfl⟩
  | cons d ds ih =>
    by_cases hd : d.name ∈ s.definitions.map (·.name)
    · refine .inr ⟨[], d, ds, rfl, by simp [TakesAll], ?_, ?_⟩
      · rw [after_nil, offer_of_mem hd]
      · rw [insertAll, insert?_of_mem hd]
    · obtain ⟨t, ht, -, -⟩ := exists_insert?_eq hd
      have hoffer : s.offer d = (.ok (), t) := by rw [offer, ht]
      have hinsert : s.insertAll (d :: ds) = t.insertAll ds := by rw [insertAll, ht]
      rw [hinsert]
      rcases ih t with ⟨htakes, hall⟩ | ⟨before, e, rest, rfl, htakes, he, hall⟩
      · exact .inl ⟨takesAll_cons.2 (by rw [hoffer]; exact ⟨rfl, htakes⟩),
          by rw [after_cons, hoffer, hall]⟩
      · refine .inr ⟨d :: before, e, rest, rfl, ?_, ?_, hall⟩
        · exact takesAll_cons.2 (by rw [hoffer]; exact ⟨rfl, htakes⟩)
        · rwa [after_cons, hoffer]

end Schema

/-! ## The map behind a schema -/

/-- Definitions under keys, in the order in which the keys came. -/
abbrev Keyed := List (String × Definition)

namespace Keyed

/-- Files a definition under a key, in the place of the one that was there. -/
def put (key : String) (d : Definition) : Keyed → Keyed
  | [] => [(key, d)]
  | (k, e) :: rest => if k = key then (k, d) :: rest else (k, e) :: put key d rest

/-- Files a definition under a copy of its name, unless there is one. -/
def offer (m : Keyed) (d : Definition) : Except SchemaError Unit × Keyed :=
  if (m.lookup d.name).isSome then (.error (.duplicate d.name), m) else (.ok (), m.put d.name d)

def after (m : Keyed) (ds : List Definition) : Keyed :=
  ds.foldl (fun t d => (t.offer d).2) m

/-- The map that lists what a schema does. -/
def ofSchema (s : Schema) : Keyed :=
  s.definitions.map fun d => (d.name, d)

theorem put_of_lookup {key : String} (d : Definition) : ∀ {m : Keyed}, m.lookup key = none →
    m.put key d = m ++ [(key, d)]
  | [], _ => rfl
  | (k, e) :: rest, h => by
    rw [List.lookup_cons] at h
    by_cases hk : key = k
    · simp [hk] at h
    · have hrest : rest.lookup key = none := by simpa only [beq_false_of_ne hk] using h
      rw [put, if_neg (Ne.symm hk), put_of_lookup d hrest, List.cons_append]

theorem lookup_ofSchema (s : Schema) (name : String) : (ofSchema s).lookup name = s.get? name := by
  unfold ofSchema Schema.get? Definition.byName?
  induction s.definitions with
  | nil => rfl
  | cons d ds ih =>
    rw [List.map_cons, List.lookup_cons]
    by_cases hd : d.name = name
    · simp [hd]
    · rw [beq_false_of_ne (Ne.symm hd), List.find?_cons_of_neg (by simpa using hd)]
      exact ih

/-- An insertion does to the map what it does to the schema. -/
theorem offer_ofSchema (s : Schema) (d : Definition) :
    (ofSchema s).offer d = ((s.offer d).1, ofSchema (s.offer d).2) := by
  unfold offer
  rw [lookup_ofSchema]
  by_cases hd : d.name ∈ s.definitions.map (·.name)
  · obtain ⟨c, hc, hname⟩ := List.mem_map.1 hd
    have hget : s.get? d.name = some c := Schema.get?_eq_some_iff.2 ⟨hc, hname⟩
    rw [hget, Schema.offer_of_mem hd]
    rfl
  · obtain ⟨t, ht, -, hdefs⟩ := Schema.exists_offer_eq hd
    have hget : s.get? d.name = none := by
      refine Option.eq_none_iff_forall_ne_some.2 fun c hc => hd ?_
      obtain ⟨hmem, hname⟩ := Schema.get?_eq_some_iff.1 hc
      exact List.mem_map.2 ⟨c, hmem, hname⟩
    have hput : (ofSchema s).put d.name d = ofSchema t := by
      rw [put_of_lookup d (by rw [lookup_ofSchema, hget]), ofSchema, ofSchema, hdefs,
        List.map_append, List.map_singleton]
    rw [hget, ht, hput]
    rfl

theorem after_eq (s : Schema) (ds : List Definition) :
    (ofSchema s).after ds = ofSchema (s.after ds) := by
  induction ds generalizing s with
  | nil => rfl
  | cons d ds ih =>
    have hstep : (ofSchema s).after (d :: ds) = ((ofSchema s).offer d).2.after ds := rfl
    rw [hstep, offer_ofSchema, ih, Schema.after_cons]

end Keyed

namespace Schema

/-- Whatever is offered to an empty schema in whatever order, it holds the first definition under
each name. A definition is refused if one with its name was accepted before, and this leaves the
schema as it is; otherwise it is added at the end. The schema finds its definitions by their exact
names, a list of definitions is read as if they were offered until the first is refused, and the
map that replaces definitions is never made to replace one. -/
theorem holds_firsts (scope : Option String) (ds : List Definition) :
    let s := (empty scope).after ds
    s.scope = scope ∧ s.definitions = Definition.firsts ds
    ∧ (∀ d, ((empty scope).Entered ds d.name → s.offer d = (.error (.duplicate d.name), s))
      ∧ (¬ (empty scope).Entered ds d.name →
        ∃ t, s.offer d = (.ok (), t) ∧ t.scope = scope ∧ t.definitions = s.definitions ++ [d]))
    ∧ (∀ name d, s.get? name = some d ↔ d ∈ s.definitions ∧ d.name = name)
    ∧ (∀ t d, s.resolve? t = some d ↔ ∃ name, t = .defined name ∧ s.get? name = some d)
    ∧ (((empty scope).TakesAll ds ∧ SchemaFile.toSchema? ⟨scope, ds⟩ = .ok s)
      ∨ ∃ before d rest, ds = before ++ d :: rest ∧ (empty scope).TakesAll before
        ∧ (((empty scope).after before).offer d).1 = .error (.duplicate d.name)
        ∧ SchemaFile.toSchema? ⟨scope, ds⟩ = .error (.duplicate d.name))
    ∧ Keyed.after [] ds = s.definitions.map (fun d => (d.name, d))
    ∧ (∀ d, ((Keyed.after [] ds).offer d).1 = (s.offer d).1)
    ∧ ∀ name, (Keyed.after [] ds).lookup name = s.get? name := by
  intro s
  have htaken : ∀ d : Definition,
      d.name ∈ s.definitions.map (·.name) ↔ (empty scope).Entered ds d.name := by
    intro d
    rw [mem_names_after]
    simp [empty]
  have hkeyed : Keyed.after [] ds = Keyed.ofSchema s := Keyed.after_eq (empty scope) ds
  refine ⟨scope_after _ _, definitions_after_empty _ _, fun d => ⟨fun h => ?_, fun h => ?_⟩,
    fun _ _ => get?_eq_some_iff, fun t d => ?_, ?_, hkeyed, fun d => ?_, fun name => ?_⟩
  · exact offer_of_mem ((htaken d).2 h)
  · obtain ⟨t, ht, hscope, hdefs⟩ := exists_offer_eq (mt (htaken d).1 h)
    exact ⟨t, ht, hscope.trans (scope_after _ _), hdefs⟩
  · cases t <;> simp [resolve?]
  · rcases insertAll_eq ds (empty scope) with
      ⟨htakes, hall⟩ | ⟨before, d, rest, hsplit, htakes, hd, hall⟩
    · exact .inl ⟨htakes, by rw [SchemaFile.toSchema?, ofList?, hall]; rfl⟩
    · exact .inr ⟨before, d, rest, hsplit, htakes, hd,
        by rw [SchemaFile.toSchema?, ofList?, hall]; rfl⟩
  · rw [hkeyed, Keyed.offer_ofSchema]
  · rw [hkeyed, Keyed.lookup_ofSchema]

end Schema

namespace Roster

def vessel : Definition where
  name := "Vessel"
  kind := .struct
  fields := [{ name := "tons", ty := .scalar .uint32 }]

def crew : Definition where
  name := "crew"
  kind := .message
  fields := [{ name := "ship", ty := .defined "Vessel", value := 1 }]

/-- A name in capitals is another name, and a definition of another kind is no other name. -/
theorem first_kept : let s := (Schema.empty none).after [vessel, crew, { crew with name := "Crew" }]
    s.definitions = [vessel, crew, { crew with name := "Crew" }]
      ∧ s.offer { name := "crew", kind := .enum } = (.error (.duplicate "crew"), s)
      ∧ s.get? "crew" = some crew := by
  obtain ⟨-, hdefs, hoffer, hget, -⟩ :=
    Schema.holds_firsts none [vessel, crew, { crew with name := "Crew" }]
  have hfirsts : Definition.firsts [vessel, crew, { crew with name := "Crew" }]
      = [vessel, crew, { crew with name := "Crew" }] := by decide +kernel
  refine ⟨hdefs.trans hfirsts, (hoffer _).1 ?_, (hget _ _).2 ⟨?_, rfl⟩⟩
  · exact ⟨[vessel], crew, [{ crew with name := "Crew" }], rfl, rfl, rfl⟩
  · rw [hdefs, hfirsts]
    decide +kernel

end Roster

end SchemaCodec

import Mathlib.Data.List.Count
import Mathlib.Data.List.Nodup
import Mathlib.Logic.Relation
import Mathlib.Tactic.Set
import Mathlib.Tactic.SplitIfs
import SchemaCodec.Schema.Containment

/-!
# What the search for a definition finds

The search finds the target exactly when a path leads to it (`Schema.leadsTo_iff`). A path that
comes back to a definition can be cut short there, so it is enough to expand each definition once.

Where no struct holds itself, a struct leads to more definitions than any struct it holds
(`Schema.reach_lt`), so `Schema.reach` bounds how deep structs lie in one another.
-/

namespace SchemaCodec

open Relation

namespace Definition

theorem name_of_byName? {ds : List Definition} {name : String} {d : Definition}
    (h : byName? ds name = some d) : d.name = name := by
  simpa using List.find?_some h

theorem mem_of_byName? {ds : List Definition} {name : String} {d : Definition}
    (h : byName? ds name = some d) : d ∈ ds :=
  List.mem_of_find?_eq_some h

/-- Where the names are distinct, a definition is the one that is found under its name. -/
theorem byName?_eq_some_iff {ds : List Definition} (hds : (ds.map (·.name)).Nodup) {name : String}
    {d : Definition} : byName? ds name = some d ↔ d ∈ ds ∧ d.name = name := by
  constructor
  · intro h
    exact ⟨mem_of_byName? h, name_of_byName? h⟩
  · rintro ⟨hd, rfl⟩
    rcases hfind : byName? ds d.name with _ | e
    · simpa using List.find?_eq_none.1 hfind d hd
    · have he := mem_of_byName? hfind
      rw [List.inj_on_of_nodup_map hds he hd (name_of_byName? hfind)]

theorem byName?_without_of_ne {name other : String} (h : other ≠ name) :
    ∀ ds : List Definition, byName? (without ds name) other = byName? ds other
  | [] => rfl
  | d :: ds => by
    have ih := byName?_without_of_ne h ds
    unfold byName? without at ih ⊢
    by_cases hn : d.name = name
    · have hd : (d.name == other) = false := by simpa [hn] using Ne.symm h
      rw [List.filter_cons_of_neg (by simpa using hn), List.find?_cons_of_neg (by simp [hd]), ih]
    · rw [List.filter_cons_of_pos (by simpa using hn), List.find?_cons, List.find?_cons, ih]

theorem byName?_without_self (name : String) (ds : List Definition) :
    byName? (without ds name) name = none := by
  simp [byName?, without]

theorem byName?_of_without {ds : List Definition} {name other : String} {d : Definition}
    (h : byName? (without ds name) other = some d) : byName? ds other = some d := by
  by_cases hn : other = name
  · subst hn
    rw [byName?_without_self] at h
    simp at h
  · rwa [byName?_without_of_ne hn] at h

theorem mem_direct_iff {d : Definition} {name : String} :
    name ∈ d.direct ↔ ∃ f ∈ d.fields, f.ty = .defined name := by
  rw [direct, List.mem_filterMap]
  refine exists_congr fun f => and_congr_right fun _ => ?_
  cases f.ty <;> simp [Ty.direct?]

/-- One step of the search: from a definition that is followed to a name in one of its fields. -/
def Leads (ds : List Definition) (follow : Kind → Bool) (a b : String) : Prop :=
  ∃ d, byName? ds a = some d ∧ follow d.kind = true ∧ b ∈ d.direct

variable {ds : List Definition} {follow : Kind → Bool} {a b name target : String}

theorem Leads.of_without (h : Leads (without ds name) follow a b) : Leads ds follow a b := by
  obtain ⟨d, hd, hf, hb⟩ := h
  exact ⟨d, byName?_of_without hd, hf, hb⟩

theorem Leads.without (h : Leads ds follow a b) (hn : a ≠ name) :
    Leads (without ds name) follow a b := by
  obtain ⟨d, hd, hf, hb⟩ := h
  exact ⟨d, by rw [byName?_without_of_ne hn, hd], hf, hb⟩

/-- A path either never leaves from a name, or goes on from the last time it does. -/
theorem leads_last (name : String) (h : ReflTransGen (Leads ds follow) a target) :
    ReflTransGen (Leads (without ds name) follow) a target
      ∨ ∃ b, Leads ds follow name b
        ∧ ReflTransGen (Leads (without ds name) follow) b target := by
  induction h using ReflTransGen.head_induction_on with
  | refl => exact .inl .refl
  | @head a b hab _ ih =>
    rcases ih with ih | ih
    · by_cases hn : a = name
      · exact .inr ⟨b, hn ▸ hab, ih⟩
      · exact .inl (ih.head (hab.without hn))
    · exact .inr ih

theorem leads_mono (h : ReflTransGen (Leads (without ds name) follow) a target) :
    ReflTransGen (Leads ds follow) a target :=
  ReflTransGen.mono (fun _ _ => Leads.of_without) _ _ h

end Definition

namespace Schema

open Definition

theorem get?_eq_some_iff {s : Schema} {name : String} {d : Definition} :
    s.get? name = some d ↔ d ∈ s.definitions ∧ d.name = name :=
  byName?_eq_some_iff s.nodup

theorem reaches_iff (follow : Kind → Bool) (target : String) (unseen : List Definition)
    (pending : List String) :
    reaches follow target unseen pending = true
      ↔ ∃ name ∈ pending, ReflTransGen (Leads unseen follow) name target := by
  fun_induction reaches follow target unseen pending with
  | case1 => simp
  | case2 unseen pending => simpa using .inl .refl
  | case3 unseen name pending hne hnone ih =>
    rw [ih]
    refine ⟨fun ⟨n, hn, h⟩ => ⟨n, List.mem_cons_of_mem _ hn, h⟩, fun ⟨n, hn, h⟩ => ?_⟩
    rcases List.mem_cons.1 hn with rfl | hn
    · rcases h.cases_head with rfl | ⟨b, ⟨d, hd, -⟩, -⟩
      · exact absurd rfl hne
      · rw [hnone] at hd
        simp at hd
    · exact ⟨n, hn, h⟩
  | case4 unseen name pending hne d hd ih =>
    simp only [dite_eq_ite] at ih
    rw [ih]
    refine ⟨fun ⟨n, hn, h⟩ => ?_, fun ⟨n, hn, h⟩ => ?_⟩
    · split_ifs at hn with hf
      · rcases List.mem_append.1 hn with hn | hn
        · exact ⟨name, List.mem_cons_self, (leads_mono h).head ⟨d, hd, hf, hn⟩⟩
        · exact ⟨n, List.mem_cons_of_mem _ hn, leads_mono h⟩
      · exact ⟨n, List.mem_cons_of_mem _ hn, leads_mono h⟩
    · -- the last time the path leaves from `name`, it goes on to one of the fields
      have hlast : ∀ b, Leads unseen follow name b →
          ReflTransGen (Leads (Definition.without unseen name) follow) b target →
          ∃ m ∈ if follow d.kind = true then d.direct ++ pending else pending,
            ReflTransGen (Leads (Definition.without unseen name) follow) m target := by
        rintro b ⟨d', hd', hf, hb⟩ hp
        obtain rfl : d = d' := by simpa [hd] using hd'
        exact ⟨b, by simp [hf, hb], hp⟩
      rcases leads_last name h with h | ⟨b, hb, hp⟩
      · rcases List.mem_cons.1 hn with rfl | hn
        · rcases h.cases_head with rfl | ⟨b, ⟨d', hd', -⟩, -⟩
          · exact absurd rfl hne
          · rw [byName?_without_self] at hd'
            simp at hd'
        · exact ⟨n, by split_ifs <;> simp [hn], h⟩
      · exact hlast b hb hp

/-- The search from a type is exact: it finds the target when the type names a definition from
which the target is reached. -/
theorem leadsTo_iff (s : Schema) (follow : Kind → Bool) (t : Ty) (target : String) :
    s.leadsTo follow t target = true
      ↔ ∃ name, t = .defined name ∧ ReflTransGen (Leads s.definitions follow) name target := by
  rw [leadsTo, reaches_iff]
  cases t <;> simp [Ty.direct?]

theorem leadsTo_defined_iff (s : Schema) (follow : Kind → Bool) (a target : String) :
    s.leadsTo follow (.defined a) target = true
      ↔ ReflTransGen (Leads s.definitions follow) a target := by
  rw [leadsTo_iff]
  simp

/-- How many definitions a definition holds by value, going through structs, itself included. -/
def reach (s : Schema) (name : String) : Nat :=
  s.definitions.countP fun d => s.leadsTo (· == .struct) (.defined name) d.name

theorem reach_le (s : Schema) (name : String) : s.reach name ≤ s.definitions.length :=
  List.countP_le_length

theorem reach_pos {s : Schema} {name : String} {d : Definition} (h : s.get? name = some d) :
    0 < s.reach name := by
  refine List.countP_pos_iff.2 ⟨d, mem_of_byName? h, ?_⟩
  rw [name_of_byName? h, leadsTo_defined_iff]

/-- A struct that does not hold itself leads to more than a definition in one of its fields. -/
theorem reach_lt {s : Schema} {a b : String} {d : Definition} {f : Field} (hd : s.get? a = some d)
    (hk : d.kind = .struct) (hself : ∀ f ∈ d.fields, s.nestsByValue f.ty d.name = false)
    (hf : f ∈ d.fields) (hb : f.ty = .defined b) : s.reach b < s.reach a := by
  have hstep : Leads s.definitions (· == .struct) a b :=
    ⟨d, hd, by simp [hk], mem_direct_iff.2 ⟨f, hf, hb⟩⟩
  have hsub : ∀ x ∈ s.definitions, s.leadsTo (· == .struct) (.defined b) x.name = true →
      s.leadsTo (· == .struct) (.defined a) x.name = true := by
    intro x _ hx
    rw [leadsTo_defined_iff] at hx ⊢
    exact hx.head hstep
  have hnot : s.leadsTo (· == .struct) (.defined b) d.name = false := by
    have := hself f hf
    rwa [hb] at this
  have ha : s.leadsTo (· == .struct) (.defined a) d.name = true := by
    rw [leadsTo_defined_iff, name_of_byName? hd]
  unfold reach
  set p := fun x : Definition => s.leadsTo (· == .struct) (.defined b) x.name
  set q := fun x : Definition => s.leadsTo (· == .struct) (.defined a) x.name
  have hpq : s.definitions.countP p = (s.definitions.filter q).countP p := by
    rw [List.countP_filter]
    refine List.countP_congr fun x hx => ?_
    have := hsub x hx
    simp only [Bool.and_eq_true]
    exact ⟨fun h => ⟨h, this h⟩, fun h => h.1⟩
  rw [hpq, List.countP_eq_length_filter (p := q), List.countP_lt_length_iff]
  exact ⟨d, List.mem_filter.2 ⟨mem_of_byName? hd, ha⟩, hnot⟩

end Schema

end SchemaCodec

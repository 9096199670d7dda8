import Mathlib.Algebra.GroupWithZero.Nat
import Mathlib.Algebra.Order.BigOperators.Group.List
import Mathlib.Algebra.Order.Group.Nat
import SchemaCodec.Proofs.Containment

/-!
# The search, turn by turn

A search keeps a set of names that it has been to and a stack of names to look at. At each turn it
takes a name from the stack: the target ends the search, a name it has been to is dropped, and any
other one is replaced by the names in its fields, if it is the name of a definition that is followed
(`Search.step`). A name can be on the stack many times, but its fields come onto it once, so there
are only so many turns (`Search.left_lt`).

At every turn, the target is reached exactly if it is reached from a name on the stack
(`Search.Explores.reached_iff`). So the search ends with the answer that `Schema.leadsTo` gives
(`Schema.leadsTo_exact`).
-/

namespace SchemaCodec

open Relation Definition

/-- The definitions that a search goes on from: structs, and messages if it goes through them. -/
def Kind.followed (throughMessages : Bool) : Kind → Bool
  | .struct => true
  | .message => throughMessages
  | .enum => false

theorem Kind.followed_false : followed false = (· == .struct) := by
  funext kind
  cases kind <;> rfl

theorem Kind.followed_true : followed true = isAggregate := by
  funext kind
  cases kind <;> rfl

/-- How many fields of some definitions name a definition. -/
def Definition.mentions (ds : List Definition) : Nat :=
  (ds.map (·.direct.length)).sum

theorem Definition.mentions_without_le (ds : List Definition) (name : String) :
    mentions (without ds name) ≤ mentions ds :=
  (List.filter_sublist.map _).sum_le_sum fun _ _ => Nat.zero_le _

theorem Definition.length_direct_add_mentions_le {ds : List Definition} {name : String}
    {d : Definition} (h : byName? ds name = some d) :
    d.direct.length + mentions (without ds name) ≤ mentions ds := by
  have hname := name_of_byName? h
  obtain ⟨-, before, after, rfl, -⟩ := List.find?_eq_some_iff_append.1 h
  have hsplit : without (before ++ d :: after) name = without before name ++ without after name := by
    rw [without, List.filter_append, List.filter_cons_of_neg (by simp [hname])]
    rfl
  have hbefore := mentions_without_le before name
  have hafter := mentions_without_le after name
  simp only [hsplit, mentions, List.map_append, List.map_cons, List.sum_append,
    List.sum_cons] at hbefore hafter ⊢
  omega

namespace Schema

/-- A link of a path: a struct, or a message if the path may go through messages, has a field whose
type is the name. -/
def Links (s : Schema) (throughMessages : Bool) (a b : String) : Prop :=
  ∃ d, s.get? a = some d ∧ (d.kind = .struct ∨ throughMessages = true ∧ d.kind = .message)
    ∧ ∃ f ∈ d.fields, f.ty = .defined b

theorem links_eq (s : Schema) (throughMessages : Bool) :
    s.Links throughMessages = Leads s.definitions (Kind.followed throughMessages) := by
  funext a b
  refine propext (exists_congr fun d => and_congr_right fun _ => and_congr ?_ ?_)
  · cases d.kind <;> simp [Kind.followed]
  · exact mem_direct_iff.symm

end Schema

/-- Where a search stands. -/
structure Search where
  /-- The names that it has been to. -/
  visited : List String
  /-- The names to look at, the next one first. -/
  pending : List String

namespace Search

section Turns

variable (s : Schema) (follow : Kind → Bool) (target : String)

def start (t : Ty) : Search :=
  ⟨[], t.direct?.toList⟩

/-- The names that come onto the stack for a name, the one of the last field first. -/
def next (name : String) : List String :=
  match s.get? name with
  | none => []
  | some d => if follow d.kind then d.direct.reverse else []

/-- A turn gives the answer, or where the search goes on. -/
def step : Search → Bool ⊕ Search
  | ⟨_, []⟩ => .inl false
  | ⟨visited, name :: pending⟩ =>
    if name = target then .inl true
    else if name ∈ visited then .inr ⟨visited, pending⟩
    else .inr ⟨name :: visited, next s follow name ++ pending⟩

/-- At most so many turns. -/
def run : Nat → Search → Bool ⊕ Search
  | 0, q => .inr q
  | n + 1, q =>
    match step s follow target q with
    | .inl found => .inl found
    | .inr q => run n q

/-- More than the turns that are left: what is on the stack, and what can come onto it. -/
def left (q : Search) : Nat :=
  q.pending.length + mentions (s.definitions.filter (·.name ∉ q.visited))

end Turns

variable {s : Schema} {follow : Kind → Bool} {target : String} {roots : List String}
  {q q' : Search}

theorem mem_next_iff {a b : String} :
    b ∈ next s follow a ↔ Leads s.definitions follow a b := by
  unfold next Leads Schema.get?
  rcases byName? s.definitions a with _ | d
  · simp
  · by_cases hf : follow d.kind = true <;> simp [hf]

theorem length_next_add_mentions_le {visited : List String} {name : String}
    (h : name ∉ visited) :
    (next s follow name).length + mentions (s.definitions.filter (·.name ∉ name :: visited))
      ≤ mentions (s.definitions.filter (·.name ∉ visited)) := by
  have hwithout : s.definitions.filter (·.name ∉ name :: visited)
      = without (s.definitions.filter (·.name ∉ visited)) name := by
    rw [without, List.filter_filter]
    refine List.filter_congr fun d _ => ?_
    rw [Bool.eq_iff_iff]
    simp
  rw [hwithout]
  unfold next
  rcases hd : s.get? name with _ | d
  · have hle := mentions_without_le (s.definitions.filter (·.name ∉ visited)) name
    simpa using hle
  · have hfind : byName? (s.definitions.filter (·.name ∉ visited)) name = some d := by
      rw [byName?, List.find?_filter, ← hd, Schema.get?, byName?]
      congr 1
      funext e
      by_cases he : e.name = name <;> simp [he, h]
    have hle := length_direct_add_mentions_le hfind
    refine le_trans (Nat.add_le_add_right ?_ _) hle
    simp only []
    split_ifs <;> simp

/-- A turn that does not end the search leaves fewer of them. -/
theorem left_lt (h : step s follow target q = .inr q') : left s q' < left s q := by
  obtain ⟨visited, _ | ⟨name, pending⟩⟩ := q
  · cases h
  · simp only [step] at h
    split_ifs at h with hname hvisited
    · cases h
      simp [left]
    · cases h
      have hle : (next s follow name).length
          + mentions (s.definitions.filter (·.name ∉ name :: visited))
          ≤ mentions (s.definitions.filter (·.name ∉ visited)) :=
        length_next_add_mentions_le hvisited
      simp only [left, List.length_append, List.length_cons]
      omega

/-- What holds at every turn of a search from some names: the stack is reached from them, and no
way out of the names that the search has been to leads past the stack. -/
structure Explores (s : Schema) (follow : Kind → Bool) (target : String) (roots : List String)
    (q : Search) : Prop where
  sound : ∀ a ∈ q.pending, ∃ r ∈ roots, ReflTransGen (Leads s.definitions follow) r a
  roots : ∀ r ∈ roots, r ∈ q.visited ∨ r ∈ q.pending
  closed : ∀ a ∈ q.visited, ∀ b, Leads s.definitions follow a b → b ∈ q.visited ∨ b ∈ q.pending
  target : target ∉ q.visited

namespace Explores

theorem start (roots : List String) : Explores s follow target roots ⟨[], roots⟩ where
  sound a ha := ⟨a, ha, .refl⟩
  roots _ hr := .inr hr
  closed := nofun
  target := List.not_mem_nil

theorem step (hq : Explores s follow target roots q)
    (h : Search.step s follow target q = .inr q') : Explores s follow target roots q' := by
  obtain ⟨visited, _ | ⟨name, pending⟩⟩ := q
  · cases h
  simp only [Search.step] at h
  split_ifs at h with hname hvisited
  · cases h
    -- the name that is dropped is among the visited ones
    have hdrop : ∀ a, a ∈ visited ∨ a ∈ name :: pending → a ∈ visited ∨ a ∈ pending := by
      rintro a (ha | ha)
      · exact .inl ha
      · rcases List.mem_cons.1 ha with rfl | ha
        · exact .inl hvisited
        · exact .inr ha
    exact ⟨fun a ha => hq.sound a (List.mem_cons_of_mem _ ha), fun r hr => hdrop r (hq.roots r hr),
      fun a ha b hb => hdrop b (hq.closed a ha b hb), hq.target⟩
  · cases h
    have hmove : ∀ a, a ∈ visited ∨ a ∈ name :: pending →
        a ∈ name :: visited ∨ a ∈ next s follow name ++ pending := by
      rintro a (ha | ha)
      · exact .inl (List.mem_cons_of_mem _ ha)
      · rcases List.mem_cons.1 ha with rfl | ha
        · exact .inl List.mem_cons_self
        · exact .inr (List.mem_append_right _ ha)
    refine ⟨fun a ha => ?_, fun r hr => hmove r (hq.roots r hr), fun a ha b hb => ?_, ?_⟩
    · rcases List.mem_append.1 ha with ha | ha
      · obtain ⟨r, hr, hpath⟩ := hq.sound name List.mem_cons_self
        exact ⟨r, hr, hpath.tail (mem_next_iff.1 ha)⟩
      · exact hq.sound a (List.mem_cons_of_mem _ ha)
    · rcases List.mem_cons.1 ha with rfl | ha
      · exact .inr (List.mem_append_left _ (mem_next_iff.2 hb))
      · exact hmove b (hq.closed a ha b hb)
    · rw [List.mem_cons, not_or]
      exact ⟨Ne.symm hname, hq.target⟩

/-- A path to the target comes past the stack. -/
theorem exists_pending (hq : Explores s follow target roots q) {a : String}
    (hpath : ReflTransGen (Leads s.definitions follow) a target)
    (ha : a ∈ q.visited ∨ a ∈ q.pending) :
    ∃ b ∈ q.pending, ReflTransGen (Leads s.definitions follow) b target := by
  induction hpath using ReflTransGen.head_induction_on with
  | refl => exact ⟨target, ha.resolve_left hq.target, .refl⟩
  | head hab hpath ih =>
    rcases ha with ha | ha
    · exact ih (hq.closed _ ha _ hab)
    · exact ⟨_, ha, hpath.head hab⟩

/-- The target is reached exactly if it is reached from a name on the stack. -/
theorem reached_iff (hq : Explores s follow target roots q) :
    (∃ r ∈ roots, ReflTransGen (Leads s.definitions follow) r target)
      ↔ ∃ a ∈ q.pending, ReflTransGen (Leads s.definitions follow) a target := by
  constructor
  · rintro ⟨r, hr, hpath⟩
    exact hq.exists_pending hpath (hq.roots r hr)
  · rintro ⟨a, ha, hpath⟩
    obtain ⟨r, hr, hroot⟩ := hq.sound a ha
    exact ⟨r, hr, hroot.trans hpath⟩

theorem found_iff (hq : Explores s follow target roots q) {found : Bool}
    (h : Search.step s follow target q = .inl found) :
    found = true ↔ ∃ r ∈ roots, ReflTransGen (Leads s.definitions follow) r target := by
  rw [hq.reached_iff]
  obtain ⟨visited, _ | ⟨name, pending⟩⟩ := q
  · cases h
    simp
  · simp only [Search.step] at h
    split_ifs at h with hname
    cases h
    exact iff_of_true rfl ⟨name, List.mem_cons_self, hname ▸ .refl⟩

/-- A search with enough turns ends, and tells whether the target is reached. -/
theorem run (hq : Explores s follow target roots q) {n : Nat} (hn : left s q < n) :
    ∃ found, Search.run s follow target n q = .inl found
      ∧ (found = true ↔ ∃ r ∈ roots, ReflTransGen (Leads s.definitions follow) r target) := by
  induction n generalizing q with
  | zero => exact absurd hn (Nat.not_lt_zero _)
  | succ n ih =>
    rw [Search.run]
    rcases h : Search.step s follow target q with found | q'
    · exact ⟨found, rfl, hq.found_iff h⟩
    · have hlt := left_lt h
      exact ih (hq.step h) (by omega)

end Explores

end Search

/-- From any type, with any definitions, the search ends after as many turns as fields name a
definition, and two more. It finds the target exactly if the type names a definition from which a
path of links leads to the target, or the target itself. What values nest in one another, and which
fields of a message need a pointer, is told by the search through structs and by the one through
messages as well. -/
theorem Schema.leadsTo_exact (s : Schema) (throughMessages : Bool) (t : Ty) (target : String) :
    (∀ n, mentions s.definitions + 2 ≤ n →
        Search.run s (Kind.followed throughMessages) target n (Search.start t)
          = .inl (s.leadsTo (Kind.followed throughMessages) t target))
      ∧ (s.leadsTo (Kind.followed throughMessages) t target = true
        ↔ ∃ name, t = .defined name ∧ ReflTransGen (s.Links throughMessages) name target)
      ∧ s.nestsByValue t target = s.leadsTo (Kind.followed false) t target
      ∧ ∀ owner : Definition, s.boxes owner t
        = (owner.kind == .message && s.leadsTo (Kind.followed true) t owner.name) := by
  have hexact : s.leadsTo (Kind.followed throughMessages) t target = true
      ↔ ∃ name, t = .defined name ∧ ReflTransGen (s.Links throughMessages) name target := by
    rw [leadsTo_iff, links_eq]
  refine ⟨fun n hn => ?_, hexact, ?_, fun owner => ?_⟩
  · have hroots : t.direct?.toList.length ≤ 1 := by
      cases t <;> simp [Ty.direct?]
    have hstart : Search.left s (Search.start t) < n := by
      have hall : s.definitions.filter (·.name ∉ (Search.start t).visited) = s.definitions := by
        simp [Search.start]
      rw [Search.left, hall]
      simp only [Search.start]
      omega
    have hexplores : Search.Explores s (Kind.followed throughMessages) target t.direct?.toList
        (Search.start t) := .start _
    obtain ⟨found, hrun, hfound⟩ := hexplores.run hstart
    rw [hrun]
    congr 1
    rw [Bool.eq_iff_iff, hfound, hexact, links_eq]
    cases t <;> simp [Ty.direct?]
  · rw [nestsByValue, Kind.followed_false]
  · rw [boxes, Kind.followed_true]

end SchemaCodec

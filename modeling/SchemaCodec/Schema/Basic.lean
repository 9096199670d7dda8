import SchemaCodec.Schema.Definition

/-!
# Schemas

A schema holds definitions in the order in which they were added, no two of them with the same
name. `insert?` refuses a name that is taken and then leaves the schema as it is; `ofList?` inserts
one definition after the other and stops at the first refusal.
-/

namespace SchemaCodec

structure Schema where
  scope : Option String := none
  definitions : List Definition := []
  nodup : (definitions.map (·.name)).Nodup := by simp

/-- A field whose type mentions a definition that the schema lacks. -/
structure Dangling where
  definition : String
  field : String
  target : String
  deriving DecidableEq, Repr

namespace Schema

/-- The schema without definitions. -/
def empty (scope : Option String) : Schema where
  scope := scope

def get? (s : Schema) (name : String) : Option Definition :=
  Definition.byName? s.definitions name

def has (s : Schema) (name : String) : Bool :=
  s.definitions.any (·.name == name)

theorem not_mem_names_of_has {s : Schema} {name : String} (h : s.has name = false) :
    name ∉ s.definitions.map (·.name) := by
  simpa [has] using h

/-- Adds a definition at the end, unless its name is taken. -/
def insert? (s : Schema) (d : Definition) : Option Schema :=
  if h : s.has d.name then none
  else
    some {
      scope := s.scope
      definitions := s.definitions ++ [d]
      nodup := by
        have hd := not_mem_names_of_has (by simpa using h)
        have hs := s.nodup
        simp only [List.map_append, List.map_cons, List.map_nil]
        rw [List.nodup_append]
        refine ⟨hs, by simp, fun a ha b hb => ?_⟩
        simp only [List.mem_singleton] at hb
        subst hb
        rintro rfl
        exact hd ha }

/-- Inserts definitions in order; the error is the first name that was taken. -/
def insertAll : Schema → List Definition → Except String Schema
  | s, [] => .ok s
  | s, d :: ds =>
    match s.insert? d with
    | none => .error d.name
    | some s' => s'.insertAll ds

def ofList? (scope : Option String) (ds : List Definition) : Except String Schema :=
  (empty scope).insertAll ds

/-- The definition that a type names directly. -/
def resolve? (s : Schema) : Ty → Option Definition
  | .defined name => s.get? name
  | _ => none

/-- The mentions of missing definitions, in the order of the fields and of the names in them. -/
def dangling (s : Schema) : List Dangling :=
  s.definitions.flatMap fun d =>
    d.fields.flatMap fun f =>
      (f.ty.names.filter (!s.has ·)).map fun target => ⟨d.name, f.name, target⟩

end Schema

end SchemaCodec

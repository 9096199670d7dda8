import SchemaCodec.Schema.Basic

/-!
# Containment

Which definitions a value holds directly. A field whose type names a definition leads to that
definition; an array or a map on the way ends the search, because it stores its elements
elsewhere. A struct that leads to itself through structs has no finite value, and a message that
leads back to itself has to store the field behind a pointer.

The search keeps the definitions it has not been to, so each is expanded once.
-/

namespace SchemaCodec

/-- The definition that a type names directly. -/
def Ty.direct? : Ty → Option String
  | .defined name => some name
  | _ => none

/-- The definitions that the fields name directly. -/
def Definition.direct (d : Definition) : List String :=
  d.fields.filterMap (·.ty.direct?)

namespace Schema

/-- Whether a name among the pending ones is the target, or leads to it. The search goes on from
definitions of the kinds that are followed, each at most once. -/
def reaches (follow : Kind → Bool) (target : String) (unseen : List Definition) :
    (pending : List String) → Bool
  | [] => false
  | name :: pending =>
    if name = target then true
    else
      match _h : Definition.byName? unseen name with
      | none => reaches follow target unseen pending
      | some d =>
        reaches follow target (Definition.without unseen name)
          (if follow d.kind then d.direct ++ pending else pending)
termination_by pending => (unseen.length, pending.length)
decreasing_by
  · exact Prod.Lex.right _ (by simp)
  · exact Prod.Lex.left _ _ (Definition.length_without_lt _h)

/-- Whether a type names the target, or names a definition that leads to it. -/
def leadsTo (s : Schema) (follow : Kind → Bool) (t : Ty) (target : String) : Bool :=
  reaches follow target s.definitions t.direct?.toList

/-- Whether a value of a type holds a value of the target, going through structs alone. -/
def nestsByValue (s : Schema) (t : Ty) (target : String) : Bool :=
  s.leadsTo (· == .struct) t target

/-- Whether a field of a message needs a pointer, for its type leads back to the message. -/
def boxes (s : Schema) (owner : Definition) (t : Ty) : Bool :=
  owner.kind == .message && s.leadsTo Kind.isAggregate t owner.name

end Schema

end SchemaCodec

import Mathlib.Algebra.BigOperators.Group.List.Basic
import Mathlib.Algebra.GroupWithZero.Nat
import SchemaCodec.Proofs.Statements
import SchemaCodec.Schema.WireSize

/-!
# Bounds on the smallest size

A struct inside itself counts nothing in `Schema.minWireSize`, so measuring goes on with fewer
definitions. A number of bytes covers a type if it is enough whichever definitions are left, and
what covers the fields of a struct one by one covers the struct (`Schema.Covers.struct`).
-/

namespace SchemaCodec

open List (Forall₂)

namespace Schema

variable {s : Schema} {closed : List Definition} {name : String} {d : Definition} {t : Ty}
  {m n : Nat}

/-- The names mean what they mean in the schema, unless they are missing. -/
def Within (closed : List Definition) (s : Schema) : Prop :=
  ∀ name d, Definition.byName? closed name = some d → s.get? name = some d

theorem within_self (s : Schema) : Within s.definitions s :=
  fun _ _ h => h

theorem Within.without (h : Within closed s) (name : String) :
    Within (Definition.without closed name) s :=
  fun _ _ hd => h _ _ (Definition.byName?_of_without hd)

/-- So many bytes are at least the size of the type, whichever definitions are left. -/
def Covers (s : Schema) (n : Nat) (t : Ty) : Prop :=
  ∀ closed, Within closed s → sizeWithin closed t ≤ n

namespace Covers

theorem minWireSize_le (h : s.Covers n t) : s.minWireSize t ≤ n :=
  h s.definitions (within_self s)

theorem scalar {x : Scalar} (h : x.wireSize ≤ n) : s.Covers n (.scalar x) := by
  intro closed _
  rwa [sizeWithin]

theorem array (h : lengthSize ≤ n) : s.Covers n (.array t) := by
  intro closed _
  rwa [sizeWithin]

theorem map {k : Ty} (h : lengthSize ≤ n) : s.Covers n (.map k t) := by
  intro closed _
  rwa [sizeWithin]

theorem defined (hd : s.get? name = some d)
    (h : ∀ closed, Within closed s → (match d.kind with
      | .enum => lengthSize
      | .message => emptyMessageSize
      | .struct => d.fields.foldr (fun f size => sizeWithin closed f.ty + size) 0) ≤ n) :
    s.Covers n (.defined name) := by
  intro closed hc
  rw [sizeWithin]
  split
  · exact Nat.zero_le n
  · rename_i d' hd'
    obtain rfl : d = d' := by simpa [hd] using hc _ _ hd'
    exact h _ (hc.without name)

theorem enum (hd : s.get? name = some d) (hk : d.kind = .enum) (h : lengthSize ≤ n) :
    s.Covers n (.defined name) :=
  defined hd fun _ _ => by rwa [hk]

theorem message (hd : s.get? name = some d) (hk : d.kind = .message)
    (h : emptyMessageSize ≤ n) : s.Covers n (.defined name) :=
  defined hd fun _ _ => by rwa [hk]

theorem struct {sizes : List Nat} (hd : s.get? name = some d) (hk : d.kind = .struct)
    (h : Forall₂ (fun n f => s.Covers n f.ty) sizes d.fields) :
    s.Covers sizes.sum (.defined name) := by
  refine defined hd fun closed hc => ?_
  rw [hk]
  show d.fields.foldr (fun f size => sizeWithin closed f.ty + size) 0 ≤ sizes.sum
  generalize d.fields = fs at h
  induction h with
  | nil => exact Nat.le_refl 0
  | cons hn _ ih =>
    rw [List.foldr_cons, List.sum_cons]
    exact Nat.add_le_add (hn closed hc) ih

end Covers

end Schema

end SchemaCodec

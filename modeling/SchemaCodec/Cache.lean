import SchemaCodec.Text.Quoted

/-!
# Recency caches

A cache remembers a bounded number of keys with something made for each, the key that was asked
for last in front. Asking for a key moves it to the front, and makes its entry where there is
none; when there are more entries than the capacity the last one is dropped.
-/

namespace SchemaCodec

structure Cache (κ β : Type) where
  capacity : Nat
  /-- The last key asked for comes first. -/
  entries : List (κ × β) := []
  capacity_pos : 0 < capacity := by decide

namespace Cache

variable {κ β : Type} [DecidableEq κ]

/-- The capacity of the cache that decoding uses. -/
def defaultCapacity : Nat := 16

/-- A cache for at least one entry. -/
def empty (capacity : Nat) : Cache κ β where
  capacity := max capacity 1
  capacity_pos := by omega

def keys (c : Cache κ β) : List κ :=
  c.entries.map (·.1)

def size (c : Cache κ β) : Nat :=
  c.entries.length

def isEmpty (c : Cache κ β) : Bool :=
  c.entries.isEmpty

def contains (c : Cache κ β) (k : κ) : Bool :=
  c.entries.any (·.1 == k)

def clear (c : Cache κ β) : Cache κ β :=
  { c with entries := [] }

/-- What is remembered for a key, or else is made for it now. -/
def construct (c : Cache κ β) (make : κ → β) (k : κ) : β × Cache κ β :=
  match c.entries.find? (·.1 == k) with
  | some e => (e.2, { c with entries := e :: c.entries.eraseP (·.1 == k) })
  | none => (make k, { c with entries := ((k, make k) :: c.entries).take c.capacity })

theorem keys_construct (c : Cache κ β) (make : κ → β) (k : κ) :
    (c.construct make k).2.keys =
      if k ∈ c.keys then k :: c.keys.erase k else (k :: c.keys).take c.capacity := by
  unfold construct keys
  split
  · rename_i e he
    have hk : e.1 = k := by simpa using List.find?_some he
    have hmem : k ∈ c.entries.map (·.1) :=
      List.mem_map.2 ⟨e, List.mem_of_find?_eq_some he, hk⟩
    have herase : (c.entries.map (·.1)).erase k = (c.entries.eraseP (·.1 == k)).map (·.1) := by
      rw [List.erase_eq_eraseP', List.eraseP_map]
      rfl
    rw [if_pos hmem, herase, List.map_cons, hk]
  · rename_i he
    have hmem : k ∉ c.entries.map (·.1) := by
      rw [List.mem_map]
      rintro ⟨e, he', hk⟩
      exact List.find?_eq_none.1 he e he' (by simpa using hk)
    rw [if_neg hmem, List.map_take, List.map_cons]

/-- The text of a cache, with the capacity and the keys. -/
def toText (c : Cache String β) : String :=
  "ConstructorCache \x7b capacity: " ++ toString c.capacity ++ ", types: [" ++
    ", ".intercalate (c.keys.map Text.quoted) ++ "] \x7d"

end Cache

end SchemaCodec

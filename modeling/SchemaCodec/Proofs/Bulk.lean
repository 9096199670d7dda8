import SchemaCodec.Proofs.Cursor
import SchemaCodec.Proofs.RoundTrip

/-!
# Arrays in one call

Arrays of bytes, singles and doubles are written in one call, but only arrays of bytes are read in
one. `Bulk.writeEach` and `Bulk.readEach` go through the elements one by one instead, and for each
of the three it is the same in the end (`bulk_agrees`): the writer holds the same bytes, and the
elements that are read, with where the reader stands behind them, are the same too.

The two ways to read bytes differ only in how they fail. A count of elements is checked before they
are read, and a length only when they are; since a byte takes a byte, the count is let through where
the bytes are there (`Reader.needed_one_le`).
-/

namespace SchemaCodec

open Wire

namespace Bulk

variable {b : Bulk}

def value (b : Bulk) (xs : List b.Item) : Value :=
  .array (xs.map fun x => .atom (b.atom x))

def writeItem : (b : Bulk) → Writer → b.Item → Writer
  | bytes => Writer.byte
  | singles => Writer.uint32
  | doubles => Writer.uint64

def readItem : (b : Bulk) → Read b.Item
  | bytes => Reader.byte
  | singles => Reader.uint32
  | doubles => Reader.uint64

/-- Writes a count, and then one element after the other. -/
def writeEach (b : Bulk) (w : Writer) (xs : List b.Item) : Writer :=
  xs.foldl b.writeItem (w.length xs.length)

/-- Reads a count, and then one element after the other. -/
def readEach (b : Bulk) : Decode (List b.Item) := do
  let n ← .ofRead (Reader.count b.scalar.wireSize)
  Decode.times (.ofRead b.readItem) n

/-! ## Writing -/

theorem writeItem_eq (w : Writer) : ∀ x : b.Item, b.writeItem w x = w.append (b.atom x).wire := by
  cases b with
  | bytes => exact w.byte_eq
  | singles | doubles => exact fun _ => rfl

theorem foldl_writeItem : ∀ (xs : List b.Item) (w : Writer),
    xs.foldl b.writeItem w = w.append (xs.flatMap fun x => (b.atom x).wire)
  | [], w => (Writer.append_nil w).symm
  | x :: xs, w => by
    rw [List.foldl_cons, writeItem_eq, foldl_writeItem xs, Writer.append_append, List.flatMap_cons]

theorem write_eq_writeEach (w : Writer) (xs : List b.Item) : b.write w xs = b.writeEach w xs := by
  rw [writeEach, foldl_writeItem, write_eq, Writer.length_eq, Writer.append_append]

/-! ## Reading -/

theorem readItem_reads : ∀ x : b.Item, Reads b.readItem (b.atom x).wire x := by
  cases b with
  | bytes => exact Reader.byte_reads
  | singles => exact Reader.uint32_reads
  | doubles => exact Reader.uint64_reads

theorem length_wire : ∀ x : b.Item, (b.atom x).wire.length = b.scalar.wireSize := by
  cases b <;> exact fun _ => rfl

theorem times_readItem (xs : List b.Item) : Reads (Decode.times (.ofRead b.readItem) xs.length)
    (xs.flatMap fun x => (b.atom x).wire) xs := by
  have h : Reads (Decode.times (.ofRead b.readItem) xs.length)
      (xs.flatMap fun x => (b.atom x).wire) (xs.map id) :=
    Reads.times fun x _ => (b.readItem_reads x).ofRead
  rwa [List.map_id] at h

theorem readEach_reads {xs : List b.Item} (hn : xs.length < 2 ^ 32) :
    Reads b.readEach (littleEndian 4 xs.length ++ xs.flatMap fun x => (b.atom x).wire) xs :=
  Reads.count hn (length_mul_le_flatMap fun x _ => (length_wire x).ge) (times_readItem xs)

/-- The elements are read one by one from where they were written in one call. -/
theorem readEach_write (w : Writer) {xs : List b.Item} (hn : xs.length < 2 ^ 32)
    (rest : List UInt8) : b.readEach ⟨((b.write w xs).append rest).bytes, w.size⟩
      = (.ok xs, ⟨((b.write w xs).append rest).bytes, (b.write w xs).size⟩) := by
  rw [write_eq, Writer.append_append, Writer.size_append]
  exact readEach_reads hn _ (w.prefix_rest _ rest)

end Bulk

/-! ## Reading bytes -/

namespace Reader

variable {r r' : Reader}

theorem announced_lt (h : 4 ≤ r.remaining) : r.announced < 2 ^ 32 := by
  have hlt := ofLittleEndian_lt (r.rest.take 4)
  rwa [List.length_take, length_rest, Nat.min_eq_left h] at hlt

theorem length_lt {n : Nat} (h : Reader.length r = (.ok n, r')) : n < 2 ^ 32 := by
  obtain ⟨h4, -⟩ := natural_eq_ok h
  rw [length_eq h4] at h
  cases h
  exact announced_lt h4

theorem needed_one_le {n m : Nat} (h : n < 2 ^ 32) : needed n 1 ≤ m ↔ n ≤ m := by
  have hn : needed n 1 = n := by
    rw [needed, saturate, Nat.mul_one]
    omega
  rw [hn]

/-- So many bytes one by one are the bytes that come next. -/
theorem times_byte {n : Nat} (h : n ≤ r.remaining) :
    Decode.times (.ofRead Bulk.bytes.readItem) n r = (.ok (r.rest.take n), r.advance n) := by
  have hlen : (r.rest.take n).length = n := by rw [List.length_take, length_rest, Nat.min_eq_left h]
  have hread := Bulk.times_readItem (b := .bytes) (r.rest.take n) r
  rw [Bulk.flatMap_byte, hlen] at hread
  exact hread (List.take_prefix n _)

/-- Bytes are read in one call where they can be read one by one. -/
theorem byteArray_eq_ok {bs : List UInt8} :
    byteArray r = (.ok bs, r') ↔ Bulk.bytes.readEach r = (.ok bs, r') := by
  rw [byteArray, Bulk.readEach, run_bind_eq_ok, run_bind_eq_ok]
  -- Both read a number first. It is below `2 ^ 32`, so the check of the count does not saturate.
  refine exists_congr fun n => exists_congr fun q => ?_
  rw [run_ofRead_eq_ok, count_eq_ok, and_assoc]
  refine and_congr_right fun hn => ?_
  have hneeded : needed n Bulk.bytes.scalar.wireSize ≤ q.remaining ↔ n ≤ q.remaining :=
    needed_one_le (length_lt hn)
  rw [take_eq_ok, hneeded]
  refine and_congr_right fun hle => ?_
  rw [times_byte hle, Prod.mk.injEq, Except.ok.injEq]
  exact and_congr eq_comm eq_comm

end Reader

/-! ## Statements for an array -/

namespace Decode

variable {α β : Type}

theorem ofRead_bind_pure (x : Read α) (g : α → β) :
    ofRead (x >>= fun a => pure (g a)) = ofRead x >>= fun a => pure (g a) := by
  funext r
  rcases hx : x r with ⟨e | a, r'⟩
  · rw [run_ofRead_of_error (run_bind_of_error hx), run_bind_of_error (run_ofRead_of_error hx)]
  · have hg : (x >>= fun a => pure (g a)) r = (.ok (g a), r') := run_bind_of_ok hx
    rw [run_ofRead_of_ok hg, run_bind_of_ok (run_ofRead_of_ok hx), run_pure]

theorem times_bind_pure (x : Decode α) (g : α → β) : ∀ n : Nat,
    times (x >>= fun a => pure (g a)) n = times x n >>= fun as => pure (as.map g)
  | 0 => rfl
  | n + 1 => by
    simp only [times, times_bind_pure x g n, bind_assoc, pure_bind, List.map_cons]

end Decode

namespace Bulk

variable {b : Bulk}

theorem read_scalar (b : Bulk) :
    Atom.read (.scalar b.scalar) = b.readItem >>= fun x => pure (b.atom x) := by
  cases b <;> rfl

/-- The loop of a decoding reads the elements one after the other. -/
theorem run_array (b : Bulk) (call : DecodeCall) (binding length item itemType : String) :
    (Decoding.array binding length item itemType b.scalar.wireSize
      (.atom item (.scalar b.scalar))).run call = b.readEach >>= fun xs => pure (b.value xs) := by
  have helement : (Decoding.atom item (.scalar b.scalar)).run call
      = .ofRead b.readItem >>= fun x => pure (.atom (b.atom x)) := by
    rw [Decoding.run, read_scalar, Decode.ofRead_bind_pure, bind_assoc]
    simp only [pure_bind]
  rw [Decoding.run, helement]
  simp only [Decode.times_bind_pure, readEach, bind_assoc, pure_bind]
  rfl

theorem exists_decoding (b : Bulk) (t : Target) (binding : String) (depth : Nat) :
    ∃ d, Decoding.ofTy? t binding depth (.array (.scalar b.scalar)) = .ok d
      ∧ ∀ call r v r', d.run call r = (.ok v, r')
        ↔ ∃ xs, b.readEach r = (.ok xs, r') ∧ v = b.value xs := by
  have hsize : t.schema.minWireSize (.scalar b.scalar) = b.scalar.wireSize := by
    rw [Schema.minWireSize, Schema.sizeWithin]
  have hvalue : ∀ r (v : Value) r', (b.readEach >>= fun xs => pure (b.value xs)) r = (.ok v, r')
      ↔ ∃ xs, b.readEach r = (.ok xs, r') ∧ v = b.value xs := by
    intro r v r'
    rw [run_bind_eq_ok]
    constructor
    · rintro ⟨xs, q, hxs, ⟨⟩⟩
      exact ⟨xs, hxs, rfl⟩
    · rintro ⟨xs, hxs, rfl⟩
      exact ⟨xs, r', hxs, rfl⟩
  cases b with
  | bytes =>
    refine ⟨.bytes binding, rfl, fun call r v r' => ?_⟩
    rw [← hvalue, Decoding.run, run_bind_eq_ok, run_bind_eq_ok]
    refine exists_congr fun bs => exists_congr fun q => and_congr_left' ?_
    rw [run_ofRead_eq_ok, Reader.byteArray_eq_ok]
  | singles | doubles =>
    refine ⟨_, by rw [Decoding.ofTy?, hsize]; rfl, fun call r v r' => ?_⟩
    rw [← hvalue, ← run_array]

end Bulk

/-- Writing an array in one call and writing its elements one by one leave the same bytes, and the
elements are read back one by one from where they were written in one call, up to their end. Bytes
are read in one call where they can be read one by one, whatever the input is, and are the same. So
it does not matter which of the two the statements for an array of one of the three types do. -/
theorem bulk_agrees :
    (∀ (b : Bulk) (xs : List b.Item), xs.length < 2 ^ 32 → ∀ w : Writer,
      b.write w xs = b.writeEach w xs
        ∧ ∀ rest, b.readEach ⟨((b.write w xs).append rest).bytes, w.size⟩
          = (.ok xs, ⟨((b.write w xs).append rest).bytes, (b.write w xs).size⟩))
      ∧ (∀ r bs r', Reader.byteArray r = (.ok bs, r') ↔ Bulk.bytes.readEach r = (.ok bs, r'))
      ∧ ∀ (b : Bulk) (t : Target) operand binding depth depth', ∃ e d,
        Encoding.ofTy? t operand depth (.array (.scalar b.scalar)) = .ok e
          ∧ Decoding.ofTy? t binding depth' (.array (.scalar b.scalar)) = .ok d
          ∧ (∀ call xs w, e.run call (b.value xs) w = some (b.writeEach w xs))
          ∧ ∀ call r v r', d.run call r = (.ok v, r')
            ↔ ∃ xs, b.readEach r = (.ok xs, r') ∧ v = b.value xs := by
  refine ⟨fun b xs hn w => ⟨b.write_eq_writeEach w xs, Bulk.readEach_write w hn⟩,
    fun r bs r' => Reader.byteArray_eq_ok, fun b t operand binding depth depth' => ?_⟩
  have he : Encoding.ofTy? t operand depth (.array (.scalar b.scalar)) = .ok (.bulk operand b) := by
    cases b <;> rfl
  obtain ⟨d, hd, hrun⟩ := b.exists_decoding t binding depth'
  refine ⟨_, d, he, hd, fun call xs w => ?_, hrun⟩
  rw [← Bulk.write_eq_writeEach]
  exact Bulk.write?_map w xs

/-- A signalling NaN and a negative zero come back as they are. -/
theorem Bulk.singles_keep_bits :
    singles.writeEach ⟨#[9]⟩ [0x7F800001, 0x80000000]
        = ⟨#[9, 2, 0, 0, 0, 1, 0, 0x80, 0x7F, 0, 0, 0, 0x80]⟩
      ∧ singles.readEach ⟨#[9, 2, 0, 0, 0, 1, 0, 0x80, 0x7F, 0, 0, 0, 0x80, 7], 1⟩
        = (.ok [0x7F800001, 0x80000000],
          ⟨#[9, 2, 0, 0, 0, 1, 0, 0x80, 0x7F, 0, 0, 0, 0x80, 7], 13⟩) := by
  obtain ⟨hwrite, hread⟩ := bulk_agrees.1 .singles [0x7F800001, 0x80000000] (by decide) ⟨#[9]⟩
  have hbytes : singles.write ⟨#[9]⟩ [0x7F800001, 0x80000000]
      = ⟨#[9, 2, 0, 0, 0, 1, 0, 0x80, 0x7F, 0, 0, 0, 0x80]⟩ := rfl
  have hback := hread [7]
  rw [hbytes] at hwrite hback
  exact ⟨hwrite.symm, hback⟩

end SchemaCodec

import SchemaCodec.Proofs.WireFormat

/-!
# Reading what comes next

A reader is known by the bytes it has not read (`Reader.rest`). `Reads x bs a` says that wherever
`bs` comes next, `x` takes exactly those bytes and gives `a`, whatever stands before and behind
them. Such facts compose along a sequence of reads (`Reads.bind`), and an atom is read from its own
bytes (`Atom.reads_wire`).

For the other direction, `TakesNext k x` says that a value which `x` gives comes from the next
bytes alone, at least `k` of them: where the same bytes come next, `x` gives the same.
-/

namespace SchemaCodec

open Wire

namespace Reader

/-- The bytes that are left to read. -/
def rest (r : Reader) : List UInt8 :=
  r.bytes.toList.drop r.pos

def advance (r : Reader) (n : Nat) : Reader :=
  { r with pos := r.pos + n }

@[simp] theorem length_rest (r : Reader) : r.rest.length = r.remaining := by
  simp [rest, remaining, size]

@[simp] theorem rest_advance (r : Reader) (n : Nat) : (r.advance n).rest = r.rest.drop n := by
  simp [rest, advance]

@[simp] theorem remaining_advance (r : Reader) (n : Nat) :
    (r.advance n).remaining = r.remaining - n := by
  rw [← length_rest, rest_advance, List.length_drop, length_rest]

@[simp] theorem pos_advance (r : Reader) (n : Nat) : (r.advance n).pos = r.pos + n :=
  rfl

@[simp] theorem size_advance (r : Reader) (n : Nat) : (r.advance n).size = r.size :=
  rfl

@[simp] theorem advance_advance (r : Reader) (m n : Nat) :
    (r.advance m).advance n = r.advance (m + n) := by
  simp [advance, Nat.add_assoc]

theorem advance_sub {r : Reader} {n : Nat} (h : r.pos ≤ n) :
    r.advance (n - r.pos) = { r with pos := n } := by
  rw [advance, Nat.add_sub_cancel' h]

theorem le_remaining {r : Reader} {bs : List UInt8} (h : bs <+: r.rest) :
    bs.length ≤ r.remaining := by
  simpa using h.length_le

/-- What comes behind a first part comes next once that part is read. -/
theorem prefix_advance {r : Reader} {bs cs : List UInt8} (h : bs ++ cs <+: r.rest) :
    cs <+: (r.advance bs.length).rest := by
  obtain ⟨t, ht⟩ := h
  rw [rest_advance, ← ht, List.append_assoc, List.drop_left]
  exact List.prefix_append cs t

end Reader

/-! ## Sequences of reads -/

section Run

variable {ε α β : Type} {x : ExceptT ε (StateM Reader) α} {f : α → ExceptT ε (StateM Reader) β}
  {r r' r'' : Reader}

theorem run_bind (x : ExceptT ε (StateM Reader) α) (f : α → ExceptT ε (StateM Reader) β)
    (r : Reader) : (x >>= f) r = match x r with
      | (.ok a, r') => f a r'
      | (.error e, r') => (.error e, r') := by
  simp only [bind, ExceptT.bind, ExceptT.mk, StateT.bind]
  rcases x r with ⟨_ | _, _⟩ <;> rfl

theorem run_bind_of_ok {a : α} (h : x r = (.ok a, r')) : (x >>= f) r = f a r' := by
  rw [run_bind, h]

theorem run_bind_of_error {e : ε} (h : x r = (.error e, r')) :
    (x >>= f) r = (.error e, r') := by
  rw [run_bind, h]

theorem run_bind_eq_ok {b : β} :
    (x >>= f) r = (.ok b, r'') ↔ ∃ a r', x r = (.ok a, r') ∧ f a r' = (.ok b, r'') := by
  constructor
  · intro h
    rcases hx : x r with ⟨e | a, r₁⟩
    · rw [run_bind_of_error hx] at h
      cases h
    · exact ⟨a, r₁, rfl, by rwa [run_bind_of_ok hx] at h⟩
  · rintro ⟨a, r₁, hx, hf⟩
    rw [run_bind_of_ok hx, hf]

theorem run_pure (a : α) (r : Reader) : (pure a : ExceptT ε (StateM Reader) α) r = (.ok a, r) :=
  rfl

theorem run_get (f : Reader → ExceptT ε (StateM Reader) β) (r : Reader) :
    (get >>= f) r = f r r :=
  rfl

theorem run_ofRead_of_ok {x : Read α} {a : α} (h : x r = (.ok a, r')) :
    Decode.ofRead x r = (.ok a, r') := by
  rw [Decode.ofRead, h]

theorem run_ofRead_of_error {x : Read α} {e : DecodeError} (h : x r = (.error e, r')) :
    Decode.ofRead x r = (.error (.failed e), r') := by
  rw [Decode.ofRead, h]

theorem run_ofRead_eq_ok {x : Read α} {a : α} :
    Decode.ofRead x r = (.ok a, r') ↔ x r = (.ok a, r') := by
  refine ⟨fun h => ?_, run_ofRead_of_ok⟩
  rcases hx : x r with ⟨e | a, r₁⟩
  · rw [run_ofRead_of_error hx] at h
    cases h
  · rw [run_ofRead_of_ok hx] at h
    cases h
    rfl

end Run

section Reads

variable {ε α β : Type}

/-- Wherever the bytes come next, `x` reads them all and gives the value. -/
def Reads (x : ExceptT ε (StateM Reader) α) (bs : List UInt8) (a : α) : Prop :=
  ∀ r : Reader, bs <+: r.rest → x r = (.ok a, r.advance bs.length)

namespace Reads

variable {x : ExceptT ε (StateM Reader) α} {f : α → ExceptT ε (StateM Reader) β}
  {bs cs : List UInt8} {a : α} {b : β}

theorem bind (hx : Reads x bs a) (hf : Reads (f a) cs b) : Reads (x >>= f) (bs ++ cs) b := by
  intro r h
  rw [run_bind_of_ok (hx r ((List.prefix_append bs cs).trans h)),
    hf _ (Reader.prefix_advance h), Reader.advance_advance, List.length_append]

/-- What follows a read without taking bytes. -/
theorem bind_pure (hx : Reads x bs a) (g : α → β) :
    Reads (x >>= fun a => pure (g a)) bs (g a) := by
  intro r h
  rw [run_bind_of_ok (hx r h), run_pure]

theorem ofRead {x : Read α} (h : Reads x bs a) : Reads (Decode.ofRead x) bs a :=
  fun r hr => run_ofRead_of_ok (h r hr)

end Reads

namespace Reader

theorem take_eq {n : Nat} {r : Reader} (h : n ≤ r.remaining) :
    Reader.take n r = (.ok (r.rest.take n), r.advance n) := by
  rw [Reader.take, run_get, if_neg (by omega)]
  show (Except.ok _, r.advance n) = _
  rw [Array.toList_extract, rest, List.extract_eq_take_drop, Nat.add_sub_cancel_left]

theorem take_of_lt {n : Nat} {r : Reader} (h : r.remaining < n) :
    Reader.take n r = (.error (.unexpectedEnd r.pos n r.remaining), r) := by
  rw [Reader.take, run_get, if_pos h]
  rfl

theorem take_reads (bs : List UInt8) : Reads (Reader.take bs.length) bs bs := by
  intro r h
  rw [take_eq (le_remaining h), ← List.prefix_iff_eq_take.1 h]

theorem natural_eq_ok {width n : Nat} {r r' : Reader} (h : natural width r = (.ok n, r')) :
    width ≤ r.remaining ∧ r' = r.advance width := by
  obtain ⟨bs, r₁, hbs, h⟩ := run_bind_eq_ok.1 h
  cases h
  by_cases hw : width ≤ r.remaining
  · rw [take_eq hw] at hbs
    cases hbs
    exact ⟨hw, rfl⟩
  · rw [take_of_lt (by omega)] at hbs
    cases hbs

theorem byte_eq_ok {t : UInt8} {r r' : Reader} (h : byte r = (.ok t, r')) :
    1 ≤ r.remaining ∧ r' = r.advance 1 := by
  obtain ⟨n, r₁, hn, h⟩ := run_bind_eq_ok.1 h
  cases h
  exact natural_eq_ok hn

/-- A number that is read back in another form. -/
theorem natural_reads {α : Type} {width n : Nat} {f : Nat → α} {a : α} (h : n < limit width)
    (hf : f n = a) : Reads (natural width >>= fun n => pure (f n)) (littleEndian width n) a := by
  have hn := ((take_reads (littleEndian width n)).bind_pure ofLittleEndian).bind_pure f
  rwa [length_littleEndian, ofLittleEndian_littleEndian_of_lt width h, hf] at hn

theorem length_reads {n : Nat} (h : n < 2 ^ 32) : Reads Reader.length (littleEndian 4 n) n := by
  have hn := (take_reads (littleEndian 4 n)).bind_pure ofLittleEndian
  rwa [length_littleEndian, ofLittleEndian_littleEndian_of_lt 4 h] at hn

theorem byte_reads (x : UInt8) : Reads byte [x] x := by
  have hx : x.toNat.toUInt8 = x := UInt8.ofNat_toNat
  have h : Reads (natural 1 >>= fun n => pure n.toUInt8) (littleEndian 1 x.toNat) x :=
    natural_reads x.toNat_lt hx
  rwa [littleEndian, littleEndian, hx] at h

theorem uint16_reads (x : UInt16) : Reads uint16 (littleEndian 2 x.toNat) x :=
  natural_reads x.toNat_lt UInt16.ofNat_toNat

theorem uint32_reads (x : UInt32) : Reads uint32 (littleEndian 4 x.toNat) x :=
  natural_reads x.toNat_lt UInt32.ofNat_toNat

theorem uint64_reads (x : UInt64) : Reads uint64 (littleEndian 8 x.toNat) x :=
  natural_reads x.toNat_lt UInt64.ofNat_toNat

theorem byteArray_reads {bs : List UInt8} (h : bs.length < 2 ^ 32) :
    Reads byteArray (littleEndian 4 bs.length ++ bs) bs :=
  (length_reads h).bind (take_reads bs)

theorem fromUTF8?_toUTF8 (x : String) : String.fromUTF8? ⟨x.toUTF8.data.toList.toArray⟩ = some x :=
  dif_pos x.isValidUTF8

theorem text_reads {x : String} (h : x.toUTF8.size < 2 ^ 32) :
    Reads text (littleEndian 4 x.toUTF8.size ++ x.toUTF8.data.toList) x := by
  refine (length_reads h).bind fun r hr => ?_
  have ht : Reader.take x.toUTF8.size r
      = (.ok x.toUTF8.data.toList, r.advance x.toUTF8.data.toList.length) := take_reads _ r hr
  rw [run_get, run_bind_of_ok ht, fromUTF8?_toUTF8]
  rfl

end Reader

end Reads

open Reader in
/-- An atom is read from its own bytes. -/
theorem Atom.reads_wire {a : Atom} {ty : AtomTy} (h : a.hasTy ty = true) (hf : a.Fits) :
    Reads (Atom.read ty) a.wire a := by
  unfold hasTy at h
  split at h
  case h_15 => cases h
  case h_1 x => 
    have := ((byte_reads (if x then 1 else 0)).bind_pure (· != 0)).bind_pure Atom.bool
    cases x <;> exact this
  case h_2 x => exact (byte_reads x).bind_pure Atom.byte
  case h_3 x => exact (uint16_reads x).bind_pure Atom.uint16
  case h_4 x => exact ((uint16_reads x.toUInt16).bind_pure UInt16.toInt16).bind_pure Atom.int16
  case h_5 x => exact (uint32_reads x).bind_pure Atom.uint32
  case h_6 x => exact ((uint32_reads x.toUInt32).bind_pure UInt32.toInt32).bind_pure Atom.int32
  case h_7 x => exact (uint64_reads x).bind_pure Atom.uint64
  case h_8 x => exact ((uint64_reads x.toUInt64).bind_pure UInt64.toInt64).bind_pure Atom.int64
  case h_9 bits => exact (uint32_reads bits).bind_pure Atom.float32
  case h_10 bits => exact (uint64_reads bits).bind_pure Atom.float64
  case h_11 x => exact (text_reads hf).bind_pure Atom.string
  case h_12 x =>
    have := ((take_reads x.toWire).bind_pure Guid.ofWire).bind_pure Atom.guid
    rwa [Guid.length_toWire, Guid.ofWire_toWire] at this
  case h_13 x => exact ((uint64_reads x.wire).bind_pure Date.mk).bind_pure Atom.date
  case h_14 n name => exact (uint32_reads n).bind_pure Atom.enum

/-! ## Reads that look at the position or at what is left -/

namespace Reader

variable {r r' : Reader}

theorem count_eq_ok {k n : Nat} : count k r = (.ok n, r') ↔
    Reader.length r = (.ok n, r') ∧ needed n k ≤ r'.remaining := by
  rw [count, run_get, run_bind_eq_ok]
  constructor
  · rintro ⟨m, r₁, hm, h⟩
    rw [run_get] at h
    split_ifs at h with hlt
    · cases h
    · cases h
      exact ⟨hm, not_lt.1 hlt⟩
  · rintro ⟨hn, hle⟩
    refine ⟨n, r', hn, ?_⟩
    rw [run_get, if_neg (not_lt.2 hle)]
    rfl

theorem frameEnd_eq_ok {last : Nat} : frameEnd r = (.ok last, r') ↔
    ∃ n, Reader.length r = (.ok n, r') ∧ last = r'.pos + n ∧ last ≤ r'.size := by
  rw [frameEnd, run_bind_eq_ok]
  constructor
  · rintro ⟨n, r₁, hn, h⟩
    rw [run_get] at h
    split_ifs at h with hlt
    · cases h
    · cases h
      exact ⟨n, hn, rfl, not_lt.1 hlt⟩
  · rintro ⟨n, hn, rfl, hle⟩
    refine ⟨n, r', hn, ?_⟩
    rw [run_get, if_neg (not_lt.2 hle)]
    rfl

theorem frameEnd_of_lt {n : Nat} (hn : Reader.length r = (.ok n, r'))
    (h : r'.size < r'.pos + n) :
    frameEnd r = (.error (.frameOutOfBounds (r'.pos + n) r'.size), r') := by
  rw [frameEnd, run_bind_of_ok hn, run_get, if_pos h]
  rfl

theorem tag_eq_ok {last : Nat} {t : UInt8} :
    tag last r = (.ok t, r') ↔ r.pos < last ∧ byte r = (.ok t, r') := by
  rw [tag, run_get]
  split_ifs with h
  · exact ⟨fun h => (nomatch h), fun ⟨hlt, _⟩ => absurd h (not_le.2 hlt)⟩
  · exact ⟨fun ht => ⟨not_le.1 h, ht⟩, fun ht => ht.2⟩

theorem seek_eq_ok {target : Nat} {u : Unit} :
    seek target r = (.ok u, r') ↔ target ≤ r.size ∧ r' = { r with pos := target } := by
  rw [seek, run_get]
  split_ifs with h
  · exact ⟨fun h => (nomatch h), fun ⟨hle, _⟩ => absurd h (not_lt.2 hle)⟩
  · constructor
    · rintro ⟨⟩
      exact ⟨not_lt.1 h, rfl⟩
    · rintro ⟨-, rfl⟩
      rfl

end Reader

/-! ## What a value comes from -/

section TakesNext

variable {ε α β : Type}

/-- A value that `x` gives comes from the next bytes alone, `k` of them or more. -/
def TakesNext (k : Nat) (x : ExceptT ε (StateM Reader) α) : Prop :=
  ∀ r a r', x r = (.ok a, r') → ∃ bs, bs <+: r.rest ∧ k ≤ bs.length ∧ Reads x bs a

namespace TakesNext

variable {x : ExceptT ε (StateM Reader) α} {f : α → ExceptT ε (StateM Reader) β} {j k : Nat}

theorem mono (h : TakesNext k x) (hjk : j ≤ k) : TakesNext j x := by
  intro r a r' hx
  obtain ⟨bs, hbs, hk, hr⟩ := h r a r' hx
  exact ⟨bs, hbs, hjk.trans hk, hr⟩

theorem pure (a : α) : TakesNext 0 (pure a : ExceptT ε (StateM Reader) α) := by
  rintro r _ _ ⟨⟩
  exact ⟨[], List.nil_prefix, le_rfl, fun _ _ => rfl⟩

theorem throw (e : ε) : TakesNext k (throw e : ExceptT ε (StateM Reader) α) := by
  rintro r _ _ ⟨⟩

theorem bind (hx : TakesNext j x) (hf : ∀ a, TakesNext k (f a)) : TakesNext (j + k) (x >>= f) := by
  intro r b r'' h
  obtain ⟨a, r', ha, hb⟩ := run_bind_eq_ok.1 h
  obtain ⟨bs, hbs, hj, hrx⟩ := hx r a r' ha
  obtain ⟨cs, hcs, hk, hrf⟩ := hf a r' b r'' hb
  refine ⟨bs ++ cs, ?_, by rw [List.length_append]; omega, hrx.bind hrf⟩
  rw [hrx r hbs] at ha
  cases ha
  rw [Reader.rest_advance] at hcs
  obtain ⟨t, ht⟩ := hbs
  rw [← ht, List.drop_left] at hcs
  rw [← ht]
  exact (List.prefix_append_right_inj bs).2 hcs

/-- What follows a read without taking bytes. -/
theorem bind_pure (hx : TakesNext k x) (g : α → β) :
    TakesNext k (x >>= fun a => Pure.pure (g a)) :=
  hx.bind fun a => pure (g a)

end TakesNext

theorem Reader.take_takesNext (n : Nat) : TakesNext n (Reader.take n) := by
  intro r bs r' h
  by_cases hn : n ≤ r.remaining
  · rw [take_eq hn] at h
    cases h
    have hl : (r.rest.take n).length = n := by simp [hn]
    refine ⟨_, r.rest.take_prefix n, hl.ge, ?_⟩
    have := take_reads (r.rest.take n)
    rwa [hl] at this
  · rw [take_of_lt (by omega)] at h
    cases h

namespace Reader

theorem natural_takesNext (width : Nat) : TakesNext width (natural width) :=
  (take_takesNext width).bind_pure _

theorem byte_takesNext : TakesNext 1 byte :=
  (natural_takesNext 1).bind_pure _

theorem length_takesNext : TakesNext 4 Reader.length :=
  natural_takesNext 4

theorem byteArray_takesNext : TakesNext 4 byteArray :=
  length_takesNext.bind fun n => (take_takesNext n).mono (Nat.zero_le _)

/-- Where a text starts matters for the error alone. -/
theorem text_takesNext : TakesNext 4 text := by
  refine length_takesNext.bind (k := 0) fun n r x r' h => ?_
  rw [run_get, run_bind_eq_ok] at h
  obtain ⟨bs, r₁, hbs, hx⟩ := h
  obtain ⟨cs, hcs, -, hr⟩ := take_takesNext n r bs r₁ hbs
  refine ⟨cs, hcs, Nat.zero_le _, fun q hq => ?_⟩
  rw [run_get, run_bind_of_ok (hr q hq)]
  cases hs : String.fromUTF8? ⟨bs.toArray⟩ with
  | none =>
    simp only [hs] at hx
    cases hx
  | some y =>
    simp only [hs] at hx ⊢
    cases hx
    rfl

end Reader

open Reader in
theorem Atom.read_takesNext : ∀ ty : AtomTy, TakesNext ty.wireSize (Atom.read ty)
  | .scalar .bool => (byte_takesNext.bind_pure _).bind_pure _
  | .scalar .byte => byte_takesNext.bind_pure _
  | .scalar .uint16 => ((natural_takesNext 2).bind_pure _).bind_pure _
  | .scalar .int16 => (((natural_takesNext 2).bind_pure _).bind_pure _).bind_pure _
  | .scalar .uint32 | .scalar .float32 | .enum _ => ((natural_takesNext 4).bind_pure _).bind_pure _
  | .scalar .int32 => (((natural_takesNext 4).bind_pure _).bind_pure _).bind_pure _
  | .scalar .uint64 | .scalar .float64 => ((natural_takesNext 8).bind_pure _).bind_pure _
  | .scalar .int64 => (((natural_takesNext 8).bind_pure _).bind_pure _).bind_pure _
  | .scalar .string => text_takesNext.bind_pure _
  | .scalar .guid => ((take_takesNext 16).bind_pure _).bind_pure _
  | .scalar .date => (((natural_takesNext 8).bind_pure _).bind_pure _).bind_pure _

end TakesNext

end SchemaCodec

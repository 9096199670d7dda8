import SchemaCodec.Proofs.Steps

/-!
# Where a reader stands

A reader that is used in any way, after failures too, stands in its input or at its end
(`Reader.after_inside`), so there is always a number of bytes left, and the bytes that are taken are
bytes of the input.

A call that fails leaves the reader where it was or goes a known number of bytes on. The calls are
made of few others, so they fail in few ways, and `Reader.Call.Fails` lists them all
(`Reader.Call.read_eq_error`).
-/

namespace SchemaCodec

open Wire

variable {α β : Type}

theorem run_bind_eq_error {x : Read α} {f : α → Read β} {r r'' : Reader} {e : DecodeError} :
    (x >>= f) r = (.error e, r'')
      ↔ x r = (.error e, r'') ∨ ∃ a r', x r = (.ok a, r') ∧ f a r' = (.error e, r'') := by
  rcases hx : x r with ⟨e' | a, r'⟩
  · rw [run_bind_of_error hx]
    refine ⟨fun h => .inl (by cases h; rfl), ?_⟩
    rintro (h | ⟨a, r₁, h, -⟩)
    · cases h
      rfl
    · cases h
  · rw [run_bind_of_ok hx]
    refine ⟨fun h => .inr ⟨a, r', rfl, h⟩, ?_⟩
    rintro (h | ⟨b, r₁, h, hf⟩)
    · cases h
    · cases h
      exact hf

namespace Reader

/-! ## Calls of a reader -/

inductive Call
  | position
  | size
  | isEmpty
  | remaining
  | capacity (n : Nat)
  | seek (target : Nat)
  /-- Goes to the end of a message. -/
  | skip (last : Nat)
  | scalar (s : Scalar)
  | length
  | count (minSize : Nat)
  | bytes
  | frameEnd
  | tag (last : Nat)
  deriving DecidableEq, Repr

namespace Call

def Result : Call → Type
  | position | size | remaining | capacity _ | length | count _ | frameEnd => Nat
  | isEmpty => Bool
  | seek _ | skip _ => Unit
  | scalar _ => Atom
  | bytes => List UInt8
  | tag _ => UInt8

def read : (c : Call) → Read c.Result
  | position => return (← get).pos
  | size => return (← get).size
  | isEmpty => return (← get).isEmpty
  | remaining => return (← get).remaining
  | capacity n => return (← get).boundedCapacity n
  | seek target => Reader.seek target
  | skip last => Reader.seek last
  | scalar s => Atom.read (.scalar s)
  | length => Reader.length
  | count minSize => Reader.count minSize
  | bytes => byteArray
  | frameEnd => Reader.frameEnd
  | tag last => Reader.tag last

/-- How many bytes a call reads before anything else: all of a value whose width is fixed, and the
length in front of any other. -/
def front : Call → Nat
  | scalar s => s.wireSize
  | length | count _ | bytes | frameEnd => lengthSize
  | _ => 0

end Call

/-- The reader after some calls. -/
def after (r : Reader) (calls : List Call) : Reader :=
  calls.foldl (fun r c => (c.read r).2) r

/-- The number that the next four bytes announce. -/
def announced (r : Reader) : Nat :=
  ofLittleEndian (r.rest.take 4)

/-- A call fails where a reader stands, with an error, and the reader goes on so many bytes. -/
inductive Call.Fails (r : Reader) : Call → DecodeError → Nat → Prop
  /-- Too few bytes are left for a value of a fixed width, or for a length. -/
  | short {c : Call} (h : r.remaining < c.front) :
    Fails r c (.unexpectedEnd r.pos c.front r.remaining) 0
  /-- A message is at its end. -/
  | unterminated {last : Nat} (h : last ≤ r.pos) : Fails r (.tag last) (.missingTerminator last) 0
  | noTag {last : Nat} (hlt : r.pos < last) (h : r.remaining < 1) :
    Fails r (.tag last) (.unexpectedEnd r.pos 1 r.remaining) 0
  | seek {target : Nat} (h : r.size < target) :
    Fails r (.seek target) (.seekOutOfBounds target r.size) 0
  | skip {last : Nat} (h : r.size < last) : Fails r (.skip last) (.seekOutOfBounds last r.size) 0
  /-- Fewer bytes are left behind the length than it announces. -/
  | payload {c : Call} (hc : c = .scalar .string ∨ c = .bytes) (h4 : 4 ≤ r.remaining)
    (h : r.remaining - 4 < r.announced) :
    Fails r c (.unexpectedEnd (r.pos + 4) r.announced (r.remaining - 4)) 4
  | count {k : Nat} (h4 : 4 ≤ r.remaining) (h : r.remaining - 4 < needed r.announced k) :
    Fails r (.count k)
      (.countExceedsInput r.pos r.announced (needed r.announced k) (r.remaining - 4)) 4
  | frame {last : Nat} (h4 : 4 ≤ r.remaining) (hl : last = r.pos + 4 + r.announced)
    (h : r.size < last) : Fails r .frameEnd (.frameOutOfBounds last r.size) 4
  /-- The bytes that are announced are there, but they are no text. -/
  | invalid (h4 : 4 ≤ r.remaining) (hle : r.announced ≤ r.remaining - 4)
    (h : String.fromUTF8? ⟨((r.rest.drop 4).take r.announced).toArray⟩ = none) :
    Fails r (.scalar .string) (.invalidText (r.pos + 4)) (4 + r.announced)

/-! ## Reads of a fixed width -/

/-- A read of `width` bytes, which fails only where fewer are left and moves nothing then. -/
def IsFixed (width : Nat) (x : Read α) : Prop :=
  ∀ r e r', x r = (.error e, r')
    ↔ r.remaining < width ∧ e = .unexpectedEnd r.pos width r.remaining ∧ r' = r

theorem take_isFixed (n : Nat) : IsFixed n (Reader.take n) := by
  intro r e r'
  by_cases h : n ≤ r.remaining
  · rw [take_eq h]
    exact ⟨nofun, fun ⟨hlt, _⟩ => absurd h (not_le.2 hlt)⟩
  · have hlt := not_le.1 h
    rw [take_of_lt hlt]
    constructor
    · rintro ⟨⟩
      exact ⟨hlt, rfl, rfl⟩
    · rintro ⟨-, rfl, rfl⟩
      rfl

theorem IsFixed.bind_pure {width : Nat} {x : Read α} (h : IsFixed width x) (g : α → β) :
    IsFixed width (x >>= fun a => Pure.pure (g a)) := by
  intro r e r'
  rw [run_bind_eq_error, ← h r e r']
  exact or_iff_left fun ⟨_, _, _, hg⟩ => nomatch hg

theorem natural_isFixed (width : Nat) : IsFixed width (natural width) :=
  (take_isFixed width).bind_pure _

theorem scalar_isFixed : ∀ {s : Scalar}, s ≠ .string → IsFixed s.wireSize (Atom.read (.scalar s))
  | .bool, _ => ((natural_isFixed 1).bind_pure _ |>.bind_pure _).bind_pure _
  | .byte, _ => ((natural_isFixed 1).bind_pure _).bind_pure _
  | .uint16, _ => ((natural_isFixed 2).bind_pure _).bind_pure _
  | .int16, _ => (((natural_isFixed 2).bind_pure _).bind_pure _).bind_pure _
  | .uint32, _ | .float32, _ => ((natural_isFixed 4).bind_pure _).bind_pure _
  | .int32, _ => (((natural_isFixed 4).bind_pure _).bind_pure _).bind_pure _
  | .uint64, _ | .float64, _ => ((natural_isFixed 8).bind_pure _).bind_pure _
  | .int64, _ => (((natural_isFixed 8).bind_pure _).bind_pure _).bind_pure _
  | .guid, _ => ((take_isFixed 16).bind_pure _).bind_pure _
  | .date, _ => (((natural_isFixed 8).bind_pure _).bind_pure _).bind_pure _
  | .string, h => absurd rfl h

/-! ## Reads behind a length -/

theorem length_eq {r : Reader} (h : 4 ≤ r.remaining) :
    Reader.length r = (.ok r.announced, r.advance 4) :=
  run_bind_of_ok (take_eq h)

/-- What follows a length fails with it, or behind it. -/
theorem length_bind_eq_error {f : Nat → Read α} {r r' : Reader} {e : DecodeError} :
    (Reader.length >>= f) r = (.error e, r')
      ↔ r.remaining < 4 ∧ e = .unexpectedEnd r.pos 4 r.remaining ∧ r' = r
        ∨ 4 ≤ r.remaining ∧ f r.announced (r.advance 4) = (.error e, r') := by
  rw [run_bind_eq_error, Reader.length, natural_isFixed 4 r e r']
  refine or_congr_right ⟨?_, fun ⟨h4, hf⟩ => ⟨_, _, length_eq h4, hf⟩⟩
  rintro ⟨n, r₁, hn, hf⟩
  obtain ⟨h4, -⟩ := natural_eq_ok hn
  rw [← Reader.length, length_eq h4] at hn
  cases hn
  exact ⟨h4, hf⟩

/-! ## How calls fail -/

variable {r r' : Reader} {e : DecodeError}

theorem bind_pure_eq_error {x : Read α} (g : α → β) :
    (x >>= fun a => pure (g a)) r = (.error e, r') ↔ x r = (.error e, r') := by
  rw [run_bind_eq_error]
  exact or_iff_left fun ⟨_, _, _, hg⟩ => nomatch hg

/-- A check that fails leaves the reader where it is. -/
theorem check_eq_error {p : Prop} [Decidable p] {e₀ : DecodeError} {x : Read α} {a : α}
    {r₁ : Reader} (hx : x r = (.ok a, r₁)) :
    (if p then throw e₀ else x : Read α) r = (.error e, r') ↔ p ∧ e = e₀ ∧ r' = r := by
  split_ifs with h
  · constructor
    · rintro ⟨⟩
      exact ⟨h, rfl, rfl⟩
    · rintro ⟨-, rfl, rfl⟩
      rfl
  · rw [hx]
    exact ⟨nofun, fun ⟨hp, _⟩ => absurd hp h⟩

theorem take_eq_ok {n : Nat} {bs : List UInt8} : Reader.take n r = (.ok bs, r')
    ↔ n ≤ r.remaining ∧ bs = r.rest.take n ∧ r' = r.advance n := by
  by_cases h : n ≤ r.remaining
  · rw [take_eq h]
    constructor
    · rintro ⟨⟩
      exact ⟨h, rfl, rfl⟩
    · rintro ⟨-, rfl, rfl⟩
      rfl
  · rw [take_of_lt (not_le.1 h)]
    exact ⟨nofun, fun ⟨hle, _⟩ => absurd hle h⟩

theorem take_behind_eq_error {n : Nat} : Reader.take n (r.advance 4) = (.error e, r')
    ↔ r.remaining - 4 < n ∧ e = .unexpectedEnd (r.pos + 4) n (r.remaining - 4)
      ∧ r' = r.advance 4 := by
  rw [take_isFixed n (r.advance 4) e r', remaining_advance, pos_advance]

theorem byteArray_eq_error : byteArray r = (.error e, r')
    ↔ r.remaining < 4 ∧ e = .unexpectedEnd r.pos 4 r.remaining ∧ r' = r
      ∨ 4 ≤ r.remaining ∧ r.remaining - 4 < r.announced
        ∧ e = .unexpectedEnd (r.pos + 4) r.announced (r.remaining - 4) ∧ r' = r.advance 4 := by
  rw [byteArray, length_bind_eq_error, take_behind_eq_error]

theorem text_eq_error : text r = (.error e, r')
    ↔ r.remaining < 4 ∧ e = .unexpectedEnd r.pos 4 r.remaining ∧ r' = r
      ∨ 4 ≤ r.remaining ∧ (r.remaining - 4 < r.announced
          ∧ e = .unexpectedEnd (r.pos + 4) r.announced (r.remaining - 4) ∧ r' = r.advance 4
        ∨ r.announced ≤ r.remaining - 4
          ∧ String.fromUTF8? ⟨((r.rest.drop 4).take r.announced).toArray⟩ = none
          ∧ e = .invalidText (r.pos + 4) ∧ r' = r.advance (4 + r.announced)) := by
  rw [text, length_bind_eq_error]
  refine or_congr_right (and_congr_right fun _ => ?_)
  rw [run_get, run_bind_eq_error, take_behind_eq_error]
  refine or_congr_right ?_
  simp only [take_eq_ok, remaining_advance, rest_advance, advance_advance, pos_advance]
  constructor
  · rintro ⟨bs, r₁, ⟨hle, rfl, rfl⟩, h⟩
    rcases hs : String.fromUTF8? ⟨((r.rest.drop 4).take r.announced).toArray⟩ with _ | s
    · rw [hs] at h
      cases h
      exact ⟨hle, rfl, rfl, rfl⟩
    · rw [hs] at h
      cases h
  · rintro ⟨hle, hnone, rfl, rfl⟩
    refine ⟨_, _, ⟨hle, rfl, rfl⟩, ?_⟩
    rw [hnone]
    rfl

theorem count_eq_error {k : Nat} : count k r = (.error e, r')
    ↔ r.remaining < 4 ∧ e = .unexpectedEnd r.pos 4 r.remaining ∧ r' = r
      ∨ 4 ≤ r.remaining ∧ r.remaining - 4 < needed r.announced k
        ∧ e = .countExceedsInput r.pos r.announced (needed r.announced k) (r.remaining - 4)
        ∧ r' = r.advance 4 := by
  rw [count, run_get, length_bind_eq_error]
  refine or_congr_right (and_congr_right fun _ => ?_)
  rw [run_get, remaining_advance]
  exact check_eq_error rfl

theorem frameEnd_eq_error : frameEnd r = (.error e, r')
    ↔ r.remaining < 4 ∧ e = .unexpectedEnd r.pos 4 r.remaining ∧ r' = r
      ∨ 4 ≤ r.remaining ∧ r.size < r.pos + 4 + r.announced
        ∧ e = .frameOutOfBounds (r.pos + 4 + r.announced) r.size ∧ r' = r.advance 4 := by
  rw [frameEnd, length_bind_eq_error]
  refine or_congr_right (and_congr_right fun _ => ?_)
  rw [run_get, pos_advance, size_advance]
  exact check_eq_error rfl

theorem tag_eq_error {last : Nat} : Reader.tag last r = (.error e, r')
    ↔ last ≤ r.pos ∧ e = .missingTerminator last ∧ r' = r
      ∨ r.pos < last ∧ r.remaining < 1 ∧ e = .unexpectedEnd r.pos 1 r.remaining ∧ r' = r := by
  rw [Reader.tag, run_get]
  split_ifs with h
  · constructor
    · rintro ⟨⟩
      exact .inl ⟨h, rfl, rfl⟩
    · rintro (⟨-, rfl, rfl⟩ | ⟨hlt, -⟩)
      · rfl
      · exact absurd h (not_le.2 hlt)
  · rw [byte, bind_pure_eq_error, natural_isFixed 1 r e r']
    exact ⟨fun he => .inr ⟨not_le.1 h, he⟩, fun he => (he.resolve_left fun hl => h hl.1).2⟩

theorem seek_eq_error {target : Nat} : Reader.seek target r = (.error e, r')
    ↔ r.size < target ∧ e = .seekOutOfBounds target r.size ∧ r' = r := by
  rw [Reader.seek, run_get]
  exact check_eq_error rfl

theorem string_eq_error : (Call.scalar .string).read r = (.error e, r')
    ↔ text r = (.error e, r') :=
  bind_pure_eq_error Atom.string

namespace Call

theorem read_of_short {c : Call} (h : r.remaining < c.front) :
    c.read r = (.error (.unexpectedEnd r.pos c.front r.remaining), r) := by
  cases c with
  | position | size | isEmpty | remaining | capacity | seek | skip | tag =>
    exact absurd h (Nat.not_lt_zero _)
  | scalar s =>
    by_cases hs : s = .string
    · subst hs
      exact string_eq_error.2 (text_eq_error.2 (.inl ⟨h, rfl, rfl⟩))
    · exact (scalar_isFixed hs _ _ _).2 ⟨h, rfl, rfl⟩
  | length => exact (natural_isFixed 4 _ _ _).2 ⟨h, rfl, rfl⟩
  | count => exact count_eq_error.2 (.inl ⟨h, rfl, rfl⟩)
  | bytes => exact byteArray_eq_error.2 (.inl ⟨h, rfl, rfl⟩)
  | frameEnd => exact frameEnd_eq_error.2 (.inl ⟨h, rfl, rfl⟩)

theorem Fails.read_eq {c : Call} {n : Nat} (h : c.Fails r e n) :
    c.read r = (.error e, r.advance n) := by
  cases h with
  | short h => exact read_of_short h
  | unterminated h => exact tag_eq_error.2 (.inl ⟨h, rfl, rfl⟩)
  | noTag hlt h => exact tag_eq_error.2 (.inr ⟨hlt, h, rfl, rfl⟩)
  | seek h => exact seek_eq_error.2 ⟨h, rfl, rfl⟩
  | skip h => exact seek_eq_error.2 ⟨h, rfl, rfl⟩
  | payload hc h4 h =>
    rcases hc with rfl | rfl
    · exact string_eq_error.2 (text_eq_error.2 (.inr ⟨h4, .inl ⟨h, rfl, rfl⟩⟩))
    · exact byteArray_eq_error.2 (.inr ⟨h4, h, rfl, rfl⟩)
  | count h4 h => exact count_eq_error.2 (.inr ⟨h4, h, rfl, rfl⟩)
  | frame h4 hl h =>
    subst hl
    exact frameEnd_eq_error.2 (.inr ⟨h4, h, rfl, rfl⟩)
  | invalid h4 hle h =>
    exact string_eq_error.2 (text_eq_error.2 (.inr ⟨h4, .inr ⟨hle, h, rfl, rfl⟩⟩))

theorem exists_fails {c : Call} (hrun : c.read r = (.error e, r')) :
    ∃ n, c.Fails r e n ∧ r' = r.advance n := by
  cases c with
  | position | size | isEmpty | remaining | capacity => cases hrun
  | seek target =>
    obtain ⟨h, rfl, rfl⟩ := seek_eq_error.1 hrun
    exact ⟨0, .seek h, rfl⟩
  | skip last =>
    obtain ⟨h, rfl, rfl⟩ := seek_eq_error.1 hrun
    exact ⟨0, .skip h, rfl⟩
  | scalar s =>
    by_cases hs : s = .string
    · subst hs
      obtain ⟨h, rfl, rfl⟩ | ⟨h4, ⟨h, rfl, rfl⟩ | ⟨hle, h, rfl, rfl⟩⟩ :=
        text_eq_error.1 (string_eq_error.1 hrun)
      · exact ⟨0, .short h, rfl⟩
      · exact ⟨4, .payload (.inl rfl) h4 h, rfl⟩
      · exact ⟨_, .invalid h4 hle h, rfl⟩
    · obtain ⟨h, rfl, rfl⟩ := (scalar_isFixed hs _ _ _).1 hrun
      exact ⟨0, .short h, rfl⟩
  | length =>
    obtain ⟨h, rfl, rfl⟩ := (natural_isFixed 4 _ _ _).1 hrun
    exact ⟨0, .short h, rfl⟩
  | count k =>
    obtain ⟨h, rfl, rfl⟩ | ⟨h4, h, rfl, rfl⟩ := count_eq_error.1 hrun
    · exact ⟨0, .short h, rfl⟩
    · exact ⟨4, .count h4 h, rfl⟩
  | bytes =>
    obtain ⟨h, rfl, rfl⟩ | ⟨h4, h, rfl, rfl⟩ := byteArray_eq_error.1 hrun
    · exact ⟨0, .short h, rfl⟩
    · exact ⟨4, .payload (.inr rfl) h4 h, rfl⟩
  | frameEnd =>
    obtain ⟨h, rfl, rfl⟩ | ⟨h4, h, rfl, rfl⟩ := frameEnd_eq_error.1 hrun
    · exact ⟨0, .short h, rfl⟩
    · exact ⟨4, .frame h4 rfl h, rfl⟩
  | tag last =>
    obtain ⟨h, rfl, rfl⟩ | ⟨hlt, h, rfl, rfl⟩ := tag_eq_error.1 hrun
    · exact ⟨0, .unterminated h, rfl⟩
    · exact ⟨0, .noTag hlt h, rfl⟩

/-- A call fails as the list tells, and in no other way. -/
theorem read_eq_error {c : Call} :
    c.read r = (.error e, r') ↔ ∃ n, c.Fails r e n ∧ r' = r.advance n := by
  refine ⟨exists_fails, ?_⟩
  rintro ⟨n, h, rfl⟩
  exact h.read_eq

end Call

/-! ## Any calls -/

/-- A reader of some bytes, which stands in them or at their end. -/
structure Inside (r : Reader) (b : Bytes) : Prop where
  bytes : r.bytes = b
  pos_le : r.pos ≤ b.size

namespace Inside

variable {b : Bytes}

theorem of_ahead (h : r.Inside b) (hr : r.Ahead 0 r') : r'.Inside b := by
  obtain ⟨rfl, hpos⟩ := h
  obtain ⟨n, -, hn, rfl⟩ := hr
  refine ⟨rfl, ?_⟩
  rw [Reader.remaining, Reader.size] at hn
  rw [pos_advance]
  omega

theorem seek (h : r.Inside b) (target : Nat) : (Reader.seek target r).2.Inside b := by
  rcases hseek : Reader.seek target r with ⟨e | u, r'⟩
  · obtain ⟨-, -, rfl⟩ := seek_eq_error.1 hseek
    exact h
  · obtain ⟨rfl, -⟩ := h
    obtain ⟨hle, rfl⟩ := seek_eq_ok.1 hseek
    exact ⟨rfl, hle⟩

/-- No call goes past the end, whether it fails or not. -/
theorem read (h : r.Inside b) (c : Call) : (c.read r).2.Inside b := by
  cases c with
  | position | size | isEmpty | remaining | capacity => exact h
  | seek target => exact h.seek target
  | skip last => exact h.seek last
  | scalar s => exact h.of_ahead (Atom.read_forward (.scalar s) r).1
  | length => exact h.of_ahead (natural_forward 4 r).1
  | count k => exact h.of_ahead (count_forward k r).1
  | bytes => exact h.of_ahead (byteArray_forward r).1
  | frameEnd => exact h.of_ahead (frameEnd_forward r).1
  | tag last => exact h.of_ahead (tag_forward last r).1

theorem after (h : r.Inside b) (calls : List Call) : (r.after calls).Inside b := by
  induction calls generalizing r with
  | nil => exact h
  | cons c calls ih => exact ih (h.read c)

theorem pos_add_remaining (h : r.Inside b) : r.pos + r.remaining = b.size := by
  obtain ⟨rfl, hpos⟩ := h
  rw [Reader.remaining, Reader.size]
  omega

end Inside

/-- After any calls, with any arguments and whether they failed or not, a reader of some bytes
stands in them or at their end: what is left makes up the whole with what lies before, and bytes
that are taken are bytes of the input. A call fails exactly as the list tells, and then the reader
goes on as many bytes as the list tells. What a call takes behind a length, it takes where the call
for the length alone leaves the reader, which is such a reader too. -/
theorem after_inside (b : Bytes) (calls : List Call) :
    let r := (Reader.mk b 0).after calls
    r.bytes = b ∧ r.pos ≤ b.size ∧ r.pos + r.remaining = b.size
      ∧ (∀ n bs r', Reader.take n r = (.ok bs, r') →
        r.pos + n ≤ b.size ∧ bs = (b.toList.drop r.pos).take n ∧ bs.length = n)
      ∧ ∀ (c : Call) e r', c.read r = (.error e, r') ↔ ∃ n, c.Fails r e n ∧ r' = r.advance n := by
  intro r
  have hr : r.Inside b := Inside.after ⟨rfl, Nat.zero_le _⟩ calls
  have hsum := hr.pos_add_remaining
  refine ⟨hr.bytes, hr.pos_le, hsum, fun n bs r' h => ?_, fun c e r' => Call.read_eq_error⟩
  obtain ⟨hn, rfl, -⟩ := take_eq_ok.1 h
  refine ⟨by omega, by rw [rest, hr.bytes], ?_⟩
  rw [List.length_take, length_rest, Nat.min_eq_left hn]

/-- A reader behind a number that is too long, a place that is too far, and a text that is none. -/
def misled : Reader :=
  (Reader.mk #[2, 0, 0, 0, 255, 254, 9] 0).after [.scalar .uint64, .seek 8, .scalar .string]

/-- Only the text moved the reader, and there is one byte left. -/
theorem misled_inside : misled.pos = 6 ∧ misled.pos + misled.remaining = 7
    ∧ Reader.take 1 misled = (.ok [9], misled.advance 1) ∧ misled.pos + 1 ≤ 7
    ∧ (Call.scalar .uint16).read misled = (.error (.unexpectedEnd 6 2 1), misled) := by
  obtain ⟨hbytes, -, hsum, htake, hfails⟩ :=
    after_inside #[2, 0, 0, 0, 255, 254, 9] [.scalar .uint64, .seek 8, .scalar .string]
  have hpos : misled.pos = 6 := by decide +kernel
  have heq : misled = ⟨#[2, 0, 0, 0, 255, 254, 9], 6⟩ := by
    rw [← hpos, ← hbytes]
    rfl
  have hbyte : Reader.take 1 misled = (.ok [9], misled.advance 1) := by
    rw [heq]
    rfl
  have hshort : (Call.scalar .uint16).Fails misled (.unexpectedEnd 6 2 1) 0 := by
    rw [heq]
    exact .short (by decide)
  obtain ⟨hle, -⟩ := htake 1 _ _ hbyte
  exact ⟨hpos, hsum, hbyte, hle, (hfails _ _ _).2 ⟨0, hshort, rfl⟩⟩

end Reader

end SchemaCodec

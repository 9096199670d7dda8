import SchemaCodec.Proofs.Acceptance
import SchemaCodec.Proofs.Encoder
import SchemaCodec.Proofs.Frame
import SchemaCodec.Proofs.Steps

/-!
# Where the decoder of a message ends

A field of a message is read with all of the input before it, so its value may go on past the end
of the message, and a message in it may skip to an end that lies behind. Only the next tag is read
with the end of the message in view. So from the first tag the loop of a message comes through the
fields that it knows (`RecordDecoding.Comes`) to one of four places (`RecordDecoding.Stops`): a
terminator or a tag that is not known, both inside the message, or a value that fails, or the end of
the message, at which or behind which there is no tag to read. The place decides how the decoder
ends and where it leaves the reader (`RecordDecoding.run_message_iff`).
-/

namespace SchemaCodec

open List (Forall₂)

/-- There is a tag to read before the end of a message. -/
theorem Reader.exists_tag {last : Nat} {r : Reader} (hlt : r.pos < last) (hl : last ≤ r.size) :
    ∃ t, Reader.tag last r = (.ok t, r.advance 1) := by
  have h1 : 1 ≤ r.remaining := by
    rw [Reader.remaining]
    omega
  refine ⟨(Wire.ofLittleEndian (r.rest.take 1)).toUInt8, Reader.tag_eq_ok.2 ⟨hlt, ?_⟩⟩
  have hnat : Reader.natural 1 r = (.ok (Wire.ofLittleEndian (r.rest.take 1)), r.advance 1) :=
    run_bind_of_ok (Reader.take_eq h1)
  exact run_bind_of_ok hnat

namespace RecordDecoding

section Loop

variable (call : DecodeCall) (fields : List TaggedDecoding) (last : Nat)

/-- The loop of a message that ends at `last` comes from one reader to the other through fields
that it knows. -/
inductive Comes : Reader → Reader → Prop
  | here {r : Reader} : Comes r r
  | next {t : UInt8} {field : TaggedDecoding} {i : Nat} {v : Value} {r r₁ r₂ r' : Reader}
    (ht : Reader.tag last r = (.ok t, r₁)) (h0 : t ≠ 0)
    (hf : fields.zipIdx.find? (·.1.tag == t) = some (field, i))
    (hv : field.decoding.run call r₁ = (.ok v, r₂)) (h : Comes r₂ r') : Comes r r'

/-- The loop ends where it stands, with or without a record, and leaves the reader elsewhere. -/
inductive Stops (r : Reader) : Except Halt Unit → Reader → Prop
  | overrun (h : last ≤ r.pos) : Stops r (.error (.failed (.missingTerminator last))) r
  | terminator {r₁ : Reader} (ht : Reader.tag last r = (.ok 0, r₁)) : Stops r (.ok ()) r₁
  | unknown {t : UInt8} {r₁ : Reader} (ht : Reader.tag last r = (.ok t, r₁)) (h0 : t ≠ 0)
    (hf : fields.zipIdx.find? (·.1.tag == t) = none) : Stops r (.ok ()) { r with pos := last }
  | value {t : UInt8} {field : TaggedDecoding} {i : Nat} {e : Halt} {r₁ r₂ : Reader}
    (ht : Reader.tag last r = (.ok t, r₁)) (h0 : t ≠ 0)
    (hf : fields.zipIdx.find? (·.1.tag == t) = some (field, i))
    (hv : field.decoding.run call r₁ = (.error e, r₂)) : Stops r (.error e) r₂

end Loop

variable {call : DecodeCall} {fields : List TaggedDecoding} {last : Nat}
  {res : Except Halt Unit} {r q r' : Reader}

/-- How a run ends, without what it gives. -/
def outcome {α : Type} (x : Except Halt α × Reader) : Except Halt Unit × Reader :=
  (x.1.map fun _ => (), x.2)

theorem Comes.ahead (hc : ∀ name, Moves 0 (call name)) (h : Comes call fields last r q) :
    r.Ahead 0 q := by
  induction h with
  | here => exact .refl _
  | next ht _ _ hv _ ih =>
    have h₁ := (Reader.tag_moves last _ _ _ ht).trans (Decoding.moves hc _ _ _ _ hv)
    exact (h₁.trans ih).mono (Nat.zero_le _)

/-- The loop goes on where it comes to, and has room left for the rest of the message. -/
theorem Comes.runTagged_eq (hc : ∀ name, Moves 0 (call name)) (h : Comes call fields last r q)
    {room : Nat} {values : List (Option Value)} (hroom : last - r.pos < room) :
    ∃ room' values', last - q.pos < room'
      ∧ runTagged call fields last room values r = runTagged call fields last room' values' q := by
  induction h generalizing room values with
  | here => exact ⟨room, values, hroom, rfl⟩
  | @next t field i v r r₁ r₂ _ ht h0 hf hv _ ih =>
    obtain ⟨hlt, -, rfl⟩ := Reader.tag_advance ht
    obtain ⟨n, -, -, rfl⟩ := field.decoding.moves hc _ v r₂ hv
    obtain _ | room := room
    · exact absurd hroom (Nat.not_lt_zero _)
    · have hroom' : last - ((r.advance 1).advance n).pos < room := by
        simp only [Reader.pos_advance]
        omega
      obtain ⟨room', values', hlt', hrun⟩ := ih hroom'
      refine ⟨room', values', hlt', ?_⟩
      rw [runTagged_field ht h0 hf, run_bind_of_ok hv]
      exact hrun

theorem Stops.outcome_runTagged (h : Stops call fields last r res r') (hl : last ≤ r.size)
    {room : Nat} {values : List (Option Value)} (hroom : last - r.pos < room) :
    outcome (runTagged call fields last room values r) = (res, r') := by
  obtain _ | room := room
  · exact absurd hroom (Nat.not_lt_zero _)
  cases h with
  | overrun h =>
    have ht : Reader.tag last r = (.error (.missingTerminator last), r) := by
      rw [Reader.tag, run_get, if_pos h]
      rfl
    rw [runTagged, run_bind_of_error (run_ofRead_of_error ht)]
    rfl
  | terminator ht =>
    rw [runTagged_stop ht]
    rfl
  | unknown ht h0 hf =>
    have hlt := (Reader.tag_advance ht).1
    rw [runTagged_skip ht h0 hf hl, Reader.advance_sub hlt.le]
    rfl
  | value ht h0 hf hv =>
    rw [runTagged_field ht h0 hf, run_bind_of_error hv]
    rfl

/-- From anywhere in the input the loop comes to a place where it ends. -/
theorem exists_stops (hc : ∀ name, Moves 0 (call name)) : ∀ (n : Nat) {r : Reader},
    last - r.pos ≤ n → last ≤ r.size →
      ∃ q res r', Comes call fields last r q ∧ Stops call fields last q res r' := by
  intro n
  induction n with
  | zero =>
    intro r hn hl
    exact ⟨r, _, _, .here, .overrun (by omega)⟩
  | succ n ih =>
    intro r hn hl
    by_cases hend : last ≤ r.pos
    · exact ⟨r, _, _, .here, .overrun hend⟩
    obtain ⟨t, ht⟩ := Reader.exists_tag (not_le.1 hend) hl
    by_cases h0 : t = 0
    · subst h0
      exact ⟨r, _, _, .here, .terminator ht⟩
    rcases hf : fields.zipIdx.find? (·.1.tag == t) with _ | ⟨field, i⟩
    · exact ⟨r, _, _, .here, .unknown ht h0 hf⟩
    rcases hv : field.decoding.run call (r.advance 1) with ⟨e | v, r₂⟩
    · exact ⟨r, _, _, .here, .value ht h0 hf hv⟩
    obtain ⟨m, -, -, rfl⟩ := field.decoding.moves hc _ v r₂ hv
    obtain ⟨q, res, r', hcomes, hstops⟩ := ih (r := (r.advance 1).advance m)
      (by simp only [Reader.pos_advance]; omega) hl
    exact ⟨q, res, r', .next ht h0 hf hv hcomes, hstops⟩

/-- The decoder of a message ends as the place tells that its loop comes to. -/
theorem run_message_iff (hc : ∀ name, Moves 0 (call name)) {r₁ : Reader}
    (hl : Reader.frameEnd r = (.ok last, r₁)) :
    outcome ((message fields).run call r) = (res, r')
      ↔ ∃ q, Comes call fields last r₁ q ∧ Stops call fields last q res r' := by
  obtain ⟨n, hn, hlast, hsize⟩ := Reader.frameEnd_eq_ok.1 hl
  have hrun : outcome ((message fields).run call r) = outcome (runTagged call fields last
      (last - r₁.pos + 1) (fields.map fun _ => none) r₁) := by
    show outcome ((Decode.ofRead Reader.frameEnd >>= fun last => get >>= fun q => _) r) = _
    rw [run_bind_of_ok (run_ofRead_of_ok hl), run_get, run_bind]
    rcases runTagged call fields last (last - r₁.pos + 1) (fields.map fun _ => none) r₁ with
      ⟨_ | _, _⟩ <;> rfl
  have hends : ∀ {q res r'}, Comes call fields last r₁ q → Stops call fields last q res r' →
      outcome ((message fields).run call r) = (res, r') := by
    intro q res r' hcomes hstops
    obtain ⟨room, values, hroom, hq⟩ := hcomes.runTagged_eq hc (Nat.lt_succ_self _)
    obtain ⟨_, -, -, rfl⟩ := hcomes.ahead hc
    rw [hrun, hq, hstops.outcome_runTagged hsize hroom]
  constructor
  · intro h
    obtain ⟨q, res₁, r₂, hcomes, hstops⟩ := exists_stops hc _ le_rfl hsize
    have heq := (hends hcomes hstops).symm.trans h
    cases heq
    exact ⟨q, hcomes, hstops⟩
  · rintro ⟨q, hcomes, hstops⟩
    exact hends hcomes hstops

/-- Reads a message without fields. There is no loop, for every tag is the last one. -/
def readEmpty : Decode Value := do
  let last ← .ofRead Reader.frameEnd
  if (← .ofRead (Reader.tag last)) ≠ 0 then .ofRead (Reader.seek last)
  return .message []

theorem run_message_nil (call : DecodeCall) : (message []).run call = readEmpty := by
  refine bind_congr fun last => ?_
  funext r
  rw [run_get]
  simp only [List.map_nil, runTagged, List.zipIdx_nil, List.find?_nil, bind_assoc]
  refine congrFun (bind_congr fun tag => ?_) r
  by_cases h : tag = 0
  · simp [h]
  · simp [h]

/-- A record comes from a terminator, or from a tag that is not known, inside the message. -/
theorem run_message_eq_ok (hc : ∀ name, Moves 0 (call name)) {v : Value}
    (h : (message fields).run call r = (.ok v, r')) : ∃ n q t,
      Reader.length r = (.ok n, r.advance 4) ∧ r.pos + 4 + n ≤ r.size
      ∧ Comes call fields (r.pos + 4 + n) (r.advance 4) q
      ∧ Reader.tag (r.pos + 4 + n) q = (.ok t, q.advance 1)
      ∧ (t = 0 ∧ r' = q.advance 1
        ∨ t ≠ 0 ∧ fields.zipIdx.find? (·.1.tag == t) = none
          ∧ r' = { r with pos := r.pos + 4 + n })
      ∧ r.pos + 5 ≤ r'.pos ∧ r'.pos ≤ r.pos + 4 + n := by
  obtain ⟨last, r₁, hl, -⟩ := run_bind_eq_ok.1 h
  rw [run_ofRead_eq_ok] at hl
  obtain ⟨n, hn, rfl, hsize⟩ := Reader.frameEnd_eq_ok.1 hl
  obtain ⟨-, rfl⟩ := Reader.natural_eq_ok hn
  have hout : outcome ((message fields).run call r) = (.ok (), r') := by rw [h]; rfl
  obtain ⟨q, hcomes, hstops⟩ := (run_message_iff hc hl).1 hout
  obtain ⟨m, -, -, hq⟩ := hcomes.ahead hc
  have hpos : q.pos = r.pos + 4 + m := by rw [hq]; rfl
  cases hstops with
  | terminator ht =>
    obtain ⟨hlt, -, rfl⟩ := Reader.tag_advance ht
    refine ⟨n, q, 0, hn, hsize, hcomes, ht, .inl ⟨rfl, rfl⟩, ?_⟩
    simp only [Reader.pos_advance] at hlt ⊢
    omega
  | @unknown t _ ht h0 hf =>
    obtain ⟨hlt, -, rfl⟩ := Reader.tag_advance ht
    refine ⟨n, q, t, hn, hsize, hcomes, ht, .inr ⟨h0, hf, by rw [hq]; rfl⟩, ?_⟩
    simp only [Reader.pos_advance] at hlt ⊢
    omega

end RecordDecoding

/-- A message that is decoded ends inside the input, and the reader stands in it behind the
terminator, or at its end if there was a tag that is not known. The fields before it all end inside
the message: where one does not, the decoder fails behind it. No decoder goes back on its way, and
none asks for a place outside of the input. -/
theorem Program.frame_discipline {s : Schema} (h : s.Accepted) :
    ∃ p, ofSchema? s = .ok p
      ∧ (∀ name d, s.get? name = some d → d.kind = .message → ∃ i fields,
        p.record? name = some i ∧ i.decoding = .message fields
        ∧ Forall₂ (TaggedDecoding.For s) fields d.fields
        ∧ (d.fields = [] → p.decode name = RecordDecoding.readEmpty) ∧ ∀ r,
          (∀ v r', p.decode name r = (.ok v, r') → ∃ n q t,
            let last := r.pos + 4 + n
            Reader.length r = (.ok n, r.advance 4) ∧ last ≤ r.size
            ∧ RecordDecoding.Comes p.decode fields last (r.advance 4) q
            ∧ Reader.tag last q = (.ok t, q.advance 1)
            ∧ (t = 0 ∧ r' = q.advance 1
              ∨ t ≠ 0 ∧ (∀ f ∈ d.fields, f.value.toUInt8 ≠ t) ∧ r' = { r with pos := last })
            ∧ r.pos + 5 ≤ r'.pos ∧ r'.pos ≤ last)
          ∧ ∀ last, Reader.frameEnd r = (.ok last, r.advance 4) →
            (∀ res r', RecordDecoding.outcome (p.decode name r) = (res, r')
              ↔ ∃ q, RecordDecoding.Comes p.decode fields last (r.advance 4) q
                ∧ RecordDecoding.Stops p.decode fields last q res r')
            ∧ ∀ q, RecordDecoding.Comes p.decode fields last (r.advance 4) q → last ≤ q.pos →
              p.decode name r = (.error (.failed (.missingTerminator last)), q))
      ∧ ∀ name r, (p.trace name r).1 = p.decode name r
        ∧ Path r (p.trace name r).2 (p.decode name r).2
        ∧ ∀ target size, (p.decode name r).1 ≠ .error (.failed (.seekOutOfBounds target size)) := by
  obtain ⟨p, hp⟩ := Schema.accepted_iff.1 h
  have himp := implements hp
  refine ⟨p, hp, fun name d hd hk => ?_, fun name r => ?_⟩
  · obtain ⟨i, -, fields, hi, -, -, hrun, hfields, ht⟩ := himp.message hd hk
    have hdec : p.decode name = (RecordDecoding.message fields).run p.decode := by
      funext r
      rw [decode_eq himp.grounded hi, hrun]
    refine ⟨i, fields, hi, hrun, hfields, fun hnil => ?_,
      fun r => ⟨fun v r' hok => ?_, fun last hl => ?_⟩⟩
    · rw [hnil] at hfields
      cases hfields
      rw [hdec, RecordDecoding.run_message_nil]
    · rw [hdec] at hok
      obtain ⟨n, q, t, hn, hsize, hcomes, htag, hends, hpos⟩ :=
        RecordDecoding.run_message_eq_ok p.decode_moves hok
      refine ⟨n, q, t, hn, hsize, hcomes, htag, hends.imp_right ?_, hpos⟩
      rintro ⟨h0, hf, hr'⟩
      refine ⟨h0, fun f hfm heq => ?_, hr'⟩
      obtain ⟨e, j, hfind, -⟩ := TaggedDecoding.find?_tag ht hfields hfm
      rw [heq, hf] at hfind
      cases hfind
    · rw [hdec]
      refine ⟨fun res r' => RecordDecoding.run_message_iff p.decode_moves hl,
        fun q hcomes hend => ?_⟩
      have hout := (RecordDecoding.run_message_iff p.decode_moves hl).2 ⟨q, hcomes, .overrun hend⟩
      rcases hres : (RecordDecoding.message fields).run p.decode r with ⟨e | v, r'⟩
      · rw [hres] at hout
        cases hout
        rfl
      · rw [hres] at hout
        cases hout
  · have hfollows := p.follows name r
    exact ⟨hfollows.run, hfollows.path, hfollows.inside⟩

namespace Parcel

/-- A parcel whose weight goes on behind the end of its frame. -/
def overrunning : Reader :=
  ⟨#[2, 0, 0, 0, 2, 5, 0, 0], 0⟩

theorem weight_overruns : schema.Accepted ∧ ∃ p, Program.ofSchema? schema = .ok p
    ∧ p.decode "Parcel" overrunning
      = (.error (.failed (.missingTerminator 6)), overrunning.advance 7)
    ∧ Path overrunning (p.trace "Parcel" overrunning).2 (overrunning.advance 7) := by
  obtain ⟨p, hp, hmessage, hsteps⟩ := Program.frame_discipline accepted
  obtain ⟨i, fields, -, -, hfields, -, hall⟩ := hmessage "Parcel" _ rfl rfl
  have hlast : Reader.frameEnd overrunning = (.ok 6, overrunning.advance 4) := rfl
  obtain ⟨-, hoverrun⟩ := (hall overrunning).2 6 hlast
  obtain _ | @⟨label, _, _, _, ⟨hlabel, -⟩, _ | @⟨weight, _, others, _, ⟨hweight, hfor⟩, _⟩⟩ :=
    hfields
  have htag : Reader.tag 6 (overrunning.advance 4) = (.ok 2, overrunning.advance 5) := rfl
  have hfind : (label :: weight :: others).zipIdx.find? (·.1.tag == 2) = some (weight, 1) := by
    simp [hlabel, hweight]
  have hvalue : weight.decoding.run p.decode (overrunning.advance 5)
      = (.ok (.atom (.uint16 5)), overrunning.advance 7) := by
    generalize weight.decoding = e at hfor
    cases hfor
    rfl
  have herror := hoverrun _ (.next htag (by decide) hfind hvalue .here) (by decide)
  obtain ⟨-, hpath, -⟩ := hsteps "Parcel" overrunning
  rw [herror] at hpath
  exact ⟨accepted, p, hp, herror, hpath⟩

end Parcel

end SchemaCodec

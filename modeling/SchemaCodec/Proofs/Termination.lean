import SchemaCodec.Proofs.Acceptance
import SchemaCodec.Proofs.Calls
import SchemaCodec.Proofs.Encoder

/-!
# Decoding comes to an end

A run settles if it ends with a value or with an error of the input, so it neither runs out of
calls nor asks for a record that does not exist. A statement settles if the calls it makes do
(`Decoding.settles`), and so does the decoder of a record (`RecordDecoding.settles`), for each turn
of the loop of a message takes a byte of the frame (`RecordDecoding.turn_eq_ok`). As calls within
one another have a bound, every decoder settles (`Program.decodeWithin_settles`).

A record that is decoded within itself stands further in the input
(`Program.Enters.ahead_of_reentry`): through structs alone it leads to fewer and fewer definitions,
never to itself.
-/

namespace SchemaCodec

open Relation (TransGen)

variable {α β : Type} {s : Schema} {p : Program} {call : DecodeCall}

/-- A run ends with a value or with an error of the input. -/
def Settles (y : Except Halt α × Reader) : Prop :=
  (∃ a r', y = (.ok a, r')) ∨ ∃ e r', y = (.error (.failed e), r')

namespace Settles

variable {x : Decode α} {f : α → Decode β} {r r' : Reader}

theorem ok (a : α) (r : Reader) : Settles (.ok a, r) :=
  .inl ⟨a, r, rfl⟩

theorem ofRead (x : Read α) (r : Reader) : Settles (Decode.ofRead x r) := by
  rcases h : x r with ⟨e | a, r'⟩
  · exact .inr ⟨e, r', run_ofRead_of_error h⟩
  · exact .inl ⟨a, r', run_ofRead_of_ok h⟩

theorem bind (hx : Settles (x r)) (hf : ∀ a r', x r = (.ok a, r') → Settles (f a r')) :
    Settles ((x >>= f) r) := by
  rcases hx with ⟨a, r', h⟩ | ⟨e, r', h⟩
  · rw [run_bind_of_ok h]
    exact hf a r' h
  · rw [run_bind_of_error h]
    exact .inr ⟨e, r', rfl⟩

theorem bind_pure (hx : Settles (x r)) (g : α → β) :
    Settles ((x >>= fun a => pure (g a)) r) :=
  hx.bind fun _ _ _ => ok _ _

end Settles

theorem Decode.times_settles {x : Decode α} : ∀ {n : Nat} {r : Reader},
    (∀ r', Turn x n r r' → Settles (x r')) → Settles (times x n r)
  | 0, r, _ => .ok [] r
  | _ + 1, r, h => (h r .first).bind fun _ _ ha =>
    (times_settles fun r' ht => h r' (.next ha ht)).bind_pure _

/-- A statement settles if the calls it makes do. -/
theorem Decoding.settles : ∀ (d : Decoding) {r : Reader},
    (∀ name r', d.Calls call r name r' → Settles (call name r')) → Settles (d.run call r)
  | .atom _ ty, r, _ => (Settles.ofRead (Atom.read ty) r).bind_pure _
  | .bytes _, r, _ => (Settles.ofRead Reader.byteArray r).bind_pure _
  | .record _ name, r, h => h name r .record
  | .array _ _ _ _ minSize element, r, h => by
    refine (Settles.ofRead (Reader.count minSize) r).bind fun n r₁ hn => Settles.bind_pure ?_ _
    rw [run_ofRead_eq_ok] at hn
    exact Decode.times_settles fun r₂ ht => element.settles fun name r' hcall =>
      h name r' (.array hn ht hcall)
  | .map _ _ _ _ _ _ minSize key value, r, h => by
    refine (Settles.ofRead (Reader.count minSize) r).bind fun n r₁ hn => Settles.bind_pure ?_ _
    rw [run_ofRead_eq_ok] at hn
    refine Decode.times_settles (x := entry call key value) fun r₂ ht => ?_
    refine (Settles.ofRead (Atom.read key) r₂).bind fun k r₃ hk => Settles.bind_pure ?_ _
    rw [run_ofRead_eq_ok] at hk
    exact value.settles fun name r' hcall => h name r' (.map hn ht hk hcall)

namespace RecordDecoding

variable {r : Reader}

theorem runFields_settles : ∀ {ds : List (String × Decoding)} {r : Reader},
    (∀ d r', ReadsField call ds r d r' → Settles (d.run call r')) →
      Settles (runFields call ds r)
  | [], r, _ => .ok [] r
  | (_, d) :: _, r, h => (h d r .first).bind fun _ _ hv =>
    (runFields_settles fun d' r' hd => h d' r' (.next hv hd)).bind_pure _

/-- A turn of the loop of a message, and whether the loop goes on behind it. -/
def turn (call : DecodeCall) (fields : List TaggedDecoding) (last : Nat)
    (values : List (Option Value)) : Decode (Bool × List (Option Value)) := do
  let tag ← .ofRead (Reader.tag last)
  if tag = 0 then return (false, values)
  else
    match fields.zipIdx.find? (·.1.tag == tag) with
    | none => do
      .ofRead (Reader.seek last)
      return (false, values)
    | some (field, i) => do
      let v ← field.decoding.run call
      return (true, values.set i (some v))

/-- The loop of a message takes one turn after the other. -/
theorem runTagged_succ (call : DecodeCall) (fields : List TaggedDecoding) (last room : Nat)
    (values : List (Option Value)) :
    runTagged call fields last (room + 1) values
      = turn call fields last values >>= fun next =>
        if next.1 then runTagged call fields last room next.2 else pure next.2 := by
  rw [runTagged, turn, bind_assoc]
  refine bind_congr fun tag => ?_
  split_ifs
  · rfl
  · rcases hf : fields.zipIdx.find? (·.1.tag == tag) with _ | ⟨field, i⟩
    · simp only [hf, bind_assoc, pure_bind]
      rfl
    · simp only [hf, bind_assoc, pure_bind]
      rfl

theorem turn_settles {fields : List TaggedDecoding} {last : Nat} {values : List (Option Value)}
    {r : Reader} (h : ∀ e r', ReadsTagged call fields last r e r' →
      Settles (e.decoding.run call r')) : Settles (turn call fields last values r) := by
  refine (Settles.ofRead (Reader.tag last) r).bind fun t r₁ ht => ?_
  rw [run_ofRead_eq_ok] at ht
  split_ifs with h0
  · exact .ok _ _
  · rcases hf : fields.zipIdx.find? (·.1.tag == t) with _ | ⟨e, i⟩
    · simp only [hf]
      exact (Settles.ofRead (Reader.seek last) r₁).bind_pure fun _ => _
    · simp only [hf]
      exact (h e r₁ (.first ht h0 hf)).bind_pure _

/-- Each turn that ends takes at least a byte, and one behind which the loop goes on begins
within the message and reads a field behind its tag. -/
theorem turn_eq_ok {fields : List TaggedDecoding} {last : Nat} {values : List (Option Value)}
    {next : Bool × List (Option Value)} {r r' : Reader} (hc : ∀ name, Moves 0 (call name))
    (h : turn call fields last values r = (.ok next, r')) :
    r.pos < last ∧ r.Ahead 1 r' ∧ (next.1 = true → ∃ t e i v,
      Reader.tag last r = (.ok t, r.advance 1) ∧ t ≠ 0
      ∧ fields.zipIdx.find? (·.1.tag == t) = some (e, i)
      ∧ e.decoding.run call (r.advance 1) = (.ok v, r')) := by
  obtain ⟨t, r₁, ht, h⟩ := run_bind_eq_ok.1 h
  rw [run_ofRead_eq_ok] at ht
  obtain ⟨hlt, h1, rfl⟩ := Reader.tag_advance ht
  refine ⟨hlt, ?_⟩
  split_ifs at h with h0
  · cases h
    exact ⟨⟨1, le_rfl, h1, rfl⟩, nofun⟩
  · rcases hf : fields.zipIdx.find? (·.1.tag == t) with _ | ⟨e, i⟩
    · simp only [hf] at h
      obtain ⟨u, r₂, hu, h⟩ := run_bind_eq_ok.1 h
      cases h
      rw [run_ofRead_eq_ok, Reader.seek_eq_ok] at hu
      obtain ⟨hs, rfl⟩ := hu
      refine ⟨⟨last - r.pos, by omega, Nat.sub_le_sub_right hs r.pos, ?_⟩, nofun⟩
      exact (Reader.advance_sub hlt.le).symm
    · simp only [hf] at h
      obtain ⟨v, r₂, hv, h⟩ := run_bind_eq_ok.1 h
      cases h
      have h₁ : r.Ahead 1 (r.advance 1) := ⟨1, le_rfl, h1, rfl⟩
      exact ⟨h₁.trans (e.decoding.moves hc _ v _ hv), fun _ => ⟨t, e, i, v, ht, h0, hf, hv⟩⟩

/-- A message has room for as many turns as its frame has bytes. -/
theorem runTagged_settles (hc : ∀ name, Moves 0 (call name)) {fields : List TaggedDecoding}
    {last : Nat} : ∀ {room : Nat} {values : List (Option Value)} {r : Reader},
      last - r.pos < room →
      (∀ e r', ReadsTagged call fields last r e r' → Settles (e.decoding.run call r')) →
      Settles (runTagged call fields last room values r)
  | 0, _, _, hroom, _ => absurd hroom (Nat.not_lt_zero _)
  | room + 1, values, r, hroom, h => by
    rw [runTagged_succ]
    refine (turn_settles h).bind fun next r' hturn => ?_
    obtain ⟨hlt, ⟨n, hn, -, rfl⟩, hnext⟩ := turn_eq_ok hc hturn
    split_ifs with hgo
    · obtain ⟨t, e, i, v, ht, h0, hf, hv⟩ := hnext hgo
      refine runTagged_settles hc ?_ fun e' r₁ hr₁ => h e' r₁ (.next ht h0 hf hv hr₁)
      rw [Reader.pos_advance]
      omega
    · exact .ok _ _

/-- The decoder of a record settles if the calls it makes do. -/
theorem settles (hc : ∀ name, Moves 0 (call name)) (d : RecordDecoding) {r : Reader}
    (h : ∀ name r', d.Calls call r name r' → Settles (call name r')) :
    Settles (d.run call r) := by
  cases d with
  | struct ds =>
    refine (runFields_settles fun d r' hd => ?_).bind_pure _
    exact d.settles fun name r'' hcall => h name r'' (.struct hd hcall)
  | message es =>
    refine (Settles.ofRead Reader.frameEnd r).bind fun last r₁ hl => ?_
    rw [run_ofRead_eq_ok] at hl
    rw [run_get]
    refine (runTagged_settles hc (Nat.lt_succ_self _) fun e r' he => ?_).bind_pure _
    exact e.decoding.settles fun name r'' hcall => h name r'' (.message hl he hcall)

end RecordDecoding

/-! ## The records that are called -/

/-- The record that a statement calls, if it calls one. -/
def Decoding.callee? : Decoding → Option String
  | .atom _ _ | .bytes _ => none
  | .record _ name => some name
  | .array _ _ _ _ _ element => element.callee?
  | .map _ _ _ _ _ _ _ _ value => value.callee?

theorem Decoding.Calls.callee? {d : Decoding} {name : String} {r r' : Reader}
    (h : d.Calls call r name r') : d.callee? = some name := by
  induction h with
  | record => rfl
  | array _ _ _ ih => exact ih
  | map _ _ _ _ ih => exact ih

theorem Decoding.For.callee? {d : Decoding} {t : Ty} (h : d.For s t) {name : String}
    (hn : d.callee? = some name) : ∃ d, s.get? name = some d ∧ d.kind.isAggregate = true := by
  induction h with
  | record hd hk =>
    cases hn
    exact ⟨_, hd, hk⟩
  | array _ _ ih => exact ih hn
  | map _ _ ih => exact ih hn
  | _ => cases hn

namespace RecordDecoding

def callees : RecordDecoding → List String
  | struct ds => ds.filterMap (·.2.callee?)
  | message es => es.filterMap (·.decoding.callee?)

theorem ReadsTagged.mem {es : List TaggedDecoding} {last : Nat} {e : TaggedDecoding}
    {r r' : Reader} (h : ReadsTagged call es last r e r') : e ∈ es := by
  induction h with
  | first _ _ hf =>
    exact List.mem_of_getElem? (List.mk_mem_zipIdx_iff_getElem?.1 (List.mem_of_find?_eq_some hf))
  | next _ _ _ _ _ ih => exact ih

theorem Calls.mem_callees {d : RecordDecoding} {name : String} {r r' : Reader}
    (h : d.Calls call r name r') : name ∈ d.callees := by
  cases h with
  | struct hf h =>
    obtain ⟨ident, hm⟩ := hf.mem
    exact List.mem_filterMap.2 ⟨_, hm, h.callee?⟩
  | message _ hf h => exact List.mem_filterMap.2 ⟨_, hf.mem, h.callee?⟩

theorem For.callees {d : Definition} {e : RecordDecoding} (h : e.For s d) {name : String}
    (hn : name ∈ e.callees) : ∃ d, s.get? name = some d ∧ d.kind.isAggregate = true := by
  cases h with
  | struct _ _ he =>
    obtain ⟨x, hx, hn⟩ := List.mem_filterMap.1 hn
    obtain ⟨i, hi⟩ := List.getElem?_of_mem hx
    obtain ⟨f, -, hfor⟩ := exists_getElem?_of_forall₂ he hi
    exact hfor.callee? hn
  | message _ _ he =>
    obtain ⟨x, hx, hn⟩ := List.mem_filterMap.1 hn
    obtain ⟨i, hi⟩ := List.getElem?_of_mem hx
    obtain ⟨f, -, -, hfor⟩ := exists_getElem?_of_forall₂ he hi
    exact hfor.callee? hn

end RecordDecoding

namespace Program

/-- Each record that a record of the program calls is one of the program. -/
def Closed (p : Program) : Prop :=
  ∀ {name i}, p.record? name = some i → ∀ b ∈ i.decoding.callees, (p.record? b).isSome = true

theorem Implements.closed (hp : p.Implements s) : p.Closed := by
  intro name i hi b hb
  obtain ⟨d, -, -, he⟩ := hp.defined hi
  obtain ⟨d', hd', hk⟩ := he.callees hb
  obtain ⟨j, hj, -⟩ := hp.record hd' hk
  rw [hj]
  rfl

theorem decodeWithin_settles (hp : p.Grounded s) (hclosed : p.Closed) : ∀ {n : Nat} {name : String}
    {r : Reader}, (p.record? name).isSome = true → bound s name r < n →
      Settles (p.decodeWithin n name r)
  | n + 1, name, r, hname, hn => by
    obtain ⟨i, hi⟩ := Option.isSome_iff_exists.1 hname
    rw [decodeWithin, hi]
    refine i.decoding.settles (p.decodeWithin_moves n) fun b r' hcall => ?_
    have := bound_lt hp (p.decodeWithin_moves n) hi hcall
    exact decodeWithin_settles hp hclosed (hclosed hi b hcall.mem_callees) (by omega)

theorem decode_settles (hp : p.Grounded s) (hclosed : p.Closed) {name : String}
    (hname : (p.record? name).isSome = true) (r : Reader) : Settles (p.decode name r) := by
  rw [decode_eq_decodeWithin hp (Nat.lt_succ_self _)]
  exact decodeWithin_settles hp hclosed hname (Nat.lt_succ_self _)

theorem Enters.below {a b : String × Reader} (hp : p.Grounded s) (h : p.Enters a b) :
    a.2.Ahead 1 b.2 ∨ a.2.Ahead 0 b.2 ∧ s.reach b.1 < s.reach a.1 := by
  obtain ⟨i, hi, hcall⟩ := h
  obtain ⟨d, hd, he⟩ := hp.defined hi
  exact hcall.below p.decode_moves hd he

/-- A record that is decoded within another one stands further, or leads to fewer definitions. -/
theorem Enters.below_of_transGen {a b : String × Reader} (hp : p.Grounded s)
    (h : TransGen p.Enters a b) :
    a.2.Ahead 1 b.2 ∨ a.2.Ahead 0 b.2 ∧ s.reach b.1 < s.reach a.1 := by
  induction h with
  | single h => exact h.below hp
  | tail _ h ih =>
    rcases ih with h₁ | ⟨h₁, hlt₁⟩ <;> rcases h.below hp with h₂ | ⟨h₂, hlt₂⟩
    · exact .inl ((h₁.trans h₂).mono (by omega))
    · exact .inl (h₁.trans h₂)
    · exact .inl ((h₁.trans h₂).mono (by omega))
    · exact .inr ⟨h₁.trans h₂, hlt₂.trans hlt₁⟩

/-- A record that is decoded within itself stands further in the input. -/
theorem Enters.ahead_of_reentry {name : String} {r r' : Reader} (hp : p.Grounded s)
    (h : TransGen p.Enters (name, r) (name, r')) : r.Ahead 1 r' := by
  rcases below_of_transGen hp h with h | ⟨-, hlt⟩
  · exact h
  · exact absurd hlt (lt_irrefl _)

/-- The decoder of each record does what its statements say, and settles wherever it starts, as do
the statements of every type. No chain of calls within one another goes on for ever, for on the way
back to a record the reader goes on, and so does it in each turn of the loop of a message. -/
theorem decode_terminates (h : s.Accepted) : ∃ p, ofSchema? s = .ok p
    ∧ (∀ name d, s.get? name = some d → d.kind.isAggregate = true →
      ∃ i, p.record? name = some i ∧ ∀ r, p.decode name r = i.decoding.run p.decode r
        ∧ Settles (p.decode name r))
    ∧ (∀ t, s.Admits t → ∀ runtime binding depth,
      ∃ d, Decoding.ofTy? ⟨s, runtime⟩ binding depth t = .ok d ∧ ∀ r, Settles (d.run p.decode r))
    ∧ WellFounded (fun a b => p.Enters b a)
    ∧ (∀ name r r', TransGen p.Enters (name, r) (name, r') →
      r'.bytes = r.bytes ∧ r.pos < r'.pos)
    ∧ ∀ fields last values r,
      (∀ room, RecordDecoding.runTagged p.decode fields last (room + 1) values r
        = (RecordDecoding.turn p.decode fields last values >>= fun next =>
          if next.1 then RecordDecoding.runTagged p.decode fields last room next.2
          else pure next.2) r)
      ∧ ∀ next r', RecordDecoding.turn p.decode fields last values r = (.ok next, r') →
        r'.bytes = r.bytes ∧ r.pos < r'.pos := by
  obtain ⟨p, hp⟩ := Schema.accepted_iff.1 h
  have himp := implements hp
  have hsettles : ∀ name d, s.get? name = some d → d.kind.isAggregate = true →
      ∀ r, Settles (p.decode name r) := by
    intro name d hd hk r
    obtain ⟨i, hi, -⟩ := himp.record hd hk
    exact decode_settles himp.grounded himp.closed (by rw [hi]; rfl) r
  refine ⟨p, hp, fun name d hd hk => ?_, fun t ht runtime binding depth => ?_,
    Enters.wellFounded himp.grounded, fun name r r' hr => ?_,
    fun fields last values r => ⟨fun room => ?_, fun next r' hturn => ?_⟩⟩
  · obtain ⟨i, hi, -⟩ := himp.record hd hk
    exact ⟨i, hi, fun r => ⟨decode_eq himp.grounded hi r, hsettles name d hd hk r⟩⟩
  · obtain ⟨d, hd⟩ : ∃ d, Decoding.ofTy? ⟨s, runtime⟩ binding depth t = .ok d :=
      ht.exists_decoding binding depth
    refine ⟨d, hd, fun r => d.settles fun name r' hcall => ?_⟩
    obtain ⟨d', hd', hk⟩ := (Decoding.for_of_ofTy? hd).callee? hcall.callee?
    exact hsettles name d' hd' hk r'
  · exact (Enters.ahead_of_reentry himp.grounded hr).pos_lt
  · rw [RecordDecoding.runTagged_succ]
  · exact (RecordDecoding.turn_eq_ok p.decode_moves hturn).2.1.pos_lt

end Program

namespace Parcel

/-- A parcel with a parcel inside. -/
def nested : Reader :=
  ⟨#[11, 0, 0, 0, 3, 1, 0, 0, 0, 1, 0, 0, 0, 0, 0], 0⟩

/-- The parcel inside is decoded behind a length, a tag and a count. -/
theorem enters_nested {p : Program} (hp : p.Implements schema) :
    p.Enters ("Parcel", nested) ("Parcel", nested.advance 9) := by
  obtain ⟨i, -, es, hi, -, -, hes, he, -⟩ :=
    hp.message (show schema.get? "Parcel" = some _ from rfl) rfl
  refine ⟨i, hi, ?_⟩
  rw [hes]
  obtain _ | @⟨label, _, _, _, ⟨hlabel, -⟩, _ | @⟨weight, _, _, _, ⟨hweight, -⟩,
    _ | @⟨inside, _, _, _, ⟨hinside, hfor⟩, _ | _⟩⟩⟩ := he
  have hlast : Reader.frameEnd nested = (.ok 15, nested.advance 4) := rfl
  have htag : Reader.tag 15 (nested.advance 4) = (.ok 3, nested.advance 5) := rfl
  have hfind : [label, weight, inside].zipIdx.find? (·.1.tag == 3) = some (inside, 2) := by
    simp [hlabel, hweight, hinside]
  refine .message hlast (.first htag (by decide) hfind) ?_
  generalize inside.decoding = e at hfor
  cases hfor with
  | @array binding length item itemType _ element _ helement =>
    obtain ⟨binding, rfl⟩ := helement.record_of_defined rfl nofun
    have hsize : schema.minWireSize (.defined "Parcel") ≤ 5 :=
      (Schema.Covers.message rfl rfl le_rfl).minWireSize_le
    have hcount : Reader.count (schema.minWireSize (.defined "Parcel")) (nested.advance 5)
        = (.ok 1, nested.advance 9) := by
      refine Reader.count_eq_ok.2 ⟨rfl, (Nat.min_le_left _ _).trans ?_⟩
      rw [Nat.one_mul]
      exact hsize.trans (by decide)
    exact .array hcount .first .record

/-- A parcel in a parcel is read from further on, and all of it comes to an end. -/
theorem nested_terminates : schema.Accepted ∧ ∃ p, Program.ofSchema? schema = .ok p
    ∧ Settles (p.decode "Parcel" nested)
    ∧ TransGen p.Enters ("Parcel", nested) ("Parcel", nested.advance 9)
    ∧ nested.pos < (nested.advance 9).pos := by
  obtain ⟨p, hp, hrecord, -, -, hreentry, -⟩ := Program.decode_terminates accepted
  obtain ⟨i, hi, hdecode⟩ := hrecord "Parcel" _ rfl rfl
  have henters := TransGen.single (enters_nested (Program.implements hp))
  exact ⟨accepted, p, hp, (hdecode nested).2, henters, (hreentry _ _ _ henters).2⟩

end Parcel

end SchemaCodec

import SchemaCodec.Proofs.Reading

/-!
# Which records a decoder calls

`Decoding.Calls` and `RecordDecoding.Calls` say which records a run decodes on its way, and where
the reader stands then. What a run does depends on these calls alone (`RecordDecoding.run_congr`).

A field of a struct that is a record itself is decoded where the field before it ended, which may
be where the struct starts, but that record leads to fewer definitions than the struct does. Any
other call stands further in the input. So the calls within one another are fewer than
`Program.decode` allows, and a decoder runs its statements, which call the decoders of records
(`Program.decode_eq`).
-/

namespace SchemaCodec

open List (Forall₂)

/-- At least `k` bytes behind a reader, and not past the end of the input. -/
def Reader.Ahead (k : Nat) (r r' : Reader) : Prop :=
  ∃ n, k ≤ n ∧ n ≤ r.remaining ∧ r' = r.advance n

namespace Reader.Ahead

variable {j k : Nat} {r r' r'' : Reader}

theorem refl (r : Reader) : r.Ahead 0 r :=
  ⟨0, le_rfl, Nat.zero_le _, rfl⟩

theorem mono (h : r.Ahead k r') (hjk : j ≤ k) : r.Ahead j r' := by
  obtain ⟨n, hk, hn, rfl⟩ := h
  exact ⟨n, hjk.trans hk, hn, rfl⟩

theorem trans (h : r.Ahead j r') (h' : r'.Ahead k r'') : r.Ahead (j + k) r'' := by
  obtain ⟨m, hj, hm, rfl⟩ := h
  obtain ⟨n, hk, hn, rfl⟩ := h'
  rw [remaining_advance] at hn
  exact ⟨m + n, by omega, by omega, by rw [advance_advance]⟩

theorem remaining_add_le (h : r.Ahead k r') : r'.remaining + k ≤ r.remaining := by
  obtain ⟨n, hk, hn, rfl⟩ := h
  rw [remaining_advance]
  omega

theorem pos_lt (h : r.Ahead (k + 1) r') : r'.bytes = r.bytes ∧ r.pos < r'.pos := by
  obtain ⟨n, hk, -, rfl⟩ := h
  rw [pos_advance]
  exact ⟨rfl, by omega⟩

end Reader.Ahead

/-! ## Reads that move the reader -/

section Moves

variable {ε α β : Type}

/-- A value costs at least `k` bytes. -/
def Moves (k : Nat) (x : ExceptT ε (StateM Reader) α) : Prop :=
  ∀ r a r', x r = (.ok a, r') → r.Ahead k r'

theorem TakesNext.moves {k : Nat} {x : ExceptT ε (StateM Reader) α} (h : TakesNext k x) :
    Moves k x := by
  intro r a r' hx
  obtain ⟨bs, hbs, hk, hr⟩ := h r a r' hx
  rw [hr r hbs] at hx
  cases hx
  exact ⟨bs.length, hk, Reader.le_remaining hbs, rfl⟩

namespace Moves

variable {j k : Nat} {x : ExceptT ε (StateM Reader) α} {f : α → ExceptT ε (StateM Reader) β}

theorem mono (h : Moves k x) (hjk : j ≤ k) : Moves j x :=
  fun r a r' hx => (h r a r' hx).mono hjk

theorem pure (a : α) : Moves 0 (pure a : ExceptT ε (StateM Reader) α) :=
  (TakesNext.pure a).moves

theorem throw (e : ε) : Moves k (throw e : ExceptT ε (StateM Reader) α) :=
  (TakesNext.throw e).moves

theorem bind (hx : Moves j x) (hf : ∀ a, Moves k (f a)) : Moves (j + k) (x >>= f) := by
  intro r b r'' h
  obtain ⟨a, r', ha, hb⟩ := run_bind_eq_ok.1 h
  exact (hx r a r' ha).trans (hf a r' b r'' hb)

theorem bind_pure (hx : Moves k x) (g : α → β) : Moves k (x >>= fun a => Pure.pure (g a)) :=
  hx.bind fun a => pure (g a)

theorem ofRead {x : Read α} (h : Moves k x) : Moves k (Decode.ofRead x) :=
  fun r a r' hx => h r a r' (run_ofRead_eq_ok.1 hx)

theorem times {x : Decode α} (hx : Moves k x) : ∀ n, Moves (n * k) (Decode.times x n)
  | 0 => (pure []).mono (by omega)
  | n + 1 => (hx.bind fun a => (times hx n).bind_pure (a :: ·)).mono (by rw [Nat.succ_mul]; omega)

end Moves

theorem run_bind_congr {x y : ExceptT ε (StateM Reader) α}
    {f g : α → ExceptT ε (StateM Reader) β} {r : Reader} (hxy : x r = y r)
    (hfg : ∀ a r', x r = (.ok a, r') → f a r' = g a r') : (x >>= f) r = (y >>= g) r := by
  rcases hx : x r with ⟨e | a, r'⟩
  · rw [run_bind_of_error hx, run_bind_of_error (hxy ▸ hx)]
  · rw [run_bind_of_ok hx, run_bind_of_ok (hxy ▸ hx), hfg a r' hx]

end Moves

namespace Reader

theorem count_moves (k : Nat) : Moves 4 (count k) :=
  fun r n r' h => length_takesNext.moves r n r' (count_eq_ok.1 h).1

theorem frameEnd_moves : Moves 4 frameEnd := by
  intro r last r' h
  obtain ⟨n, hn, -⟩ := frameEnd_eq_ok.1 h
  exact length_takesNext.moves r n r' hn

theorem tag_advance {last : Nat} {t : UInt8} {r r' : Reader} (h : tag last r = (.ok t, r')) :
    r.pos < last ∧ 1 ≤ r.remaining ∧ r' = r.advance 1 :=
  ⟨(tag_eq_ok.1 h).1, byte_eq_ok (tag_eq_ok.1 h).2⟩

theorem tag_moves (last : Nat) : Moves 1 (tag last) :=
  fun r t r' h => byte_takesNext.moves r t r' (tag_eq_ok.1 h).2

end Reader

/-! ## The calls of a run -/

/-- One of the next `n` runs of `x` starts at the second reader. -/
inductive Decode.Turn {α : Type} (x : Decode α) : Nat → Reader → Reader → Prop
  | first {n : Nat} {r : Reader} : Turn x (n + 1) r r
  | next {n : Nat} {a : α} {r r' r'' : Reader} (hx : x r = (.ok a, r')) (h : Turn x n r' r'') :
    Turn x (n + 1) r r''

def Decoding.entry (call : DecodeCall) (key : AtomTy) (value : Decoding) :
    Decode (Atom × Value) := do
  let k ← .ofRead (Atom.read key)
  let v ← value.run call
  return (k, v)

/-- The run of a statement calls the decoder of a record at the second reader. -/
inductive Decoding.Calls (call : DecodeCall) : Decoding → Reader → String → Reader → Prop
  | record {binding name : String} {r : Reader} : Calls call (.record binding name) r name r
  | array {binding length item itemType name : String} {minSize n : Nat} {element : Decoding}
    {r r₁ r₂ r' : Reader} (hn : Reader.count minSize r = (.ok n, r₁))
    (ht : Decode.Turn (element.run call) n r₁ r₂) (h : Calls call element r₂ name r') :
    Calls call (.array binding length item itemType minSize element) r name r'
  | map {binding length keyName valueName keyType valueType name : String} {minSize n : Nat}
    {key : AtomTy} {k : Atom} {value : Decoding} {r r₁ r₂ r₃ r' : Reader}
    (hn : Reader.count minSize r = (.ok n, r₁))
    (ht : Decode.Turn (entry call key value) n r₁ r₂) (hk : Atom.read key r₂ = (.ok k, r₃))
    (h : Calls call value r₃ name r') :
    Calls call (.map binding length keyName valueName keyType valueType minSize key value)
      r name r'

namespace RecordDecoding

/-- A field of a struct is read from the second reader on. -/
inductive ReadsField (call : DecodeCall) :
    List (String × Decoding) → Reader → Decoding → Reader → Prop
  | first {ident : String} {d : Decoding} {ds : List (String × Decoding)} {r : Reader} :
    ReadsField call ((ident, d) :: ds) r d r
  | next {ident : String} {d d' : Decoding} {ds : List (String × Decoding)} {v : Value}
    {r r₁ r' : Reader} (hv : d.run call r = (.ok v, r₁)) (h : ReadsField call ds r₁ d' r') :
    ReadsField call ((ident, d) :: ds) r d' r'

/-- The field of a message that ends at `last` is read from the second reader on, behind a tag. -/
inductive ReadsTagged (call : DecodeCall) (fields : List TaggedDecoding) (last : Nat) :
    Reader → TaggedDecoding → Reader → Prop
  | first {t : UInt8} {field : TaggedDecoding} {i : Nat} {r r₁ : Reader}
    (ht : Reader.tag last r = (.ok t, r₁)) (h0 : t ≠ 0)
    (hf : fields.zipIdx.find? (·.1.tag == t) = some (field, i)) :
    ReadsTagged call fields last r field r₁
  | next {t : UInt8} {field field' : TaggedDecoding} {i : Nat} {v : Value} {r r₁ r₂ r' : Reader}
    (ht : Reader.tag last r = (.ok t, r₁)) (h0 : t ≠ 0)
    (hf : fields.zipIdx.find? (·.1.tag == t) = some (field, i))
    (hv : field.decoding.run call r₁ = (.ok v, r₂))
    (h : ReadsTagged call fields last r₂ field' r') :
    ReadsTagged call fields last r field' r'

/-- The decoder of a record calls the decoder of a record at the second reader. -/
inductive Calls (call : DecodeCall) : RecordDecoding → Reader → String → Reader → Prop
  | struct {fields : List (String × Decoding)} {d : Decoding} {name : String}
    {r r₁ r' : Reader} (hf : ReadsField call fields r d r₁) (h : d.Calls call r₁ name r') :
    Calls call (.struct fields) r name r'
  | message {fields : List TaggedDecoding} {field : TaggedDecoding} {name : String} {last : Nat}
    {r r₁ r₂ r' : Reader} (hl : Reader.frameEnd r = (.ok last, r₁))
    (hf : ReadsTagged call fields last r₁ field r₂) (h : field.decoding.Calls call r₂ name r') :
    Calls call (.message fields) r name r'

end RecordDecoding

/-! ## A turn of the loop of a message -/

namespace RecordDecoding

variable {call : DecodeCall} {es : List TaggedDecoding} {e : TaggedDecoding} {last room i : Nat}
  {t : UInt8} {values vs : List (Option Value)} {r r₁ r' : Reader}

theorem runTagged_stop (ht : Reader.tag last r = (.ok 0, r₁)) :
    runTagged call es last (room + 1) values r = (.ok values, r₁) := by
  rw [runTagged, run_bind_of_ok (run_ofRead_of_ok ht), if_pos rfl]
  rfl

/-- Behind a tag that is not known, the decoder goes to the end of the message. -/
theorem runTagged_skip (ht : Reader.tag last r = (.ok t, r₁)) (h0 : t ≠ 0)
    (hf : es.zipIdx.find? (·.1.tag == t) = none) (hs : last ≤ r.size) :
    runTagged call es last (room + 1) values r = (.ok values, r.advance (last - r.pos)) := by
  obtain ⟨hlt, -, rfl⟩ := Reader.tag_advance ht
  have hseek : Reader.seek last (r.advance 1) = (.ok (), r.advance (last - r.pos)) :=
    Reader.seek_eq_ok.2 ⟨hs, Reader.advance_sub hlt.le⟩
  rw [runTagged, run_bind_of_ok (run_ofRead_of_ok ht), if_neg h0]
  simp only [hf]
  rw [run_bind_of_ok (run_ofRead_of_ok hseek), run_pure]

theorem runTagged_field (ht : Reader.tag last r = (.ok t, r₁)) (h0 : t ≠ 0)
    (hf : es.zipIdx.find? (·.1.tag == t) = some (e, i)) :
    runTagged call es last (room + 1) values r
      = (e.decoding.run call >>= fun v =>
        runTagged call es last room (values.set i (some v))) r₁ := by
  rw [runTagged, run_bind_of_ok (run_ofRead_of_ok ht), if_neg h0]
  simp only [hf]

/-- The loop reads a tag. It ends there, goes to the end of the message, or reads a field. -/
theorem runTagged_eq_ok (h : runTagged call es last (room + 1) values r = (.ok vs, r')) :
    ∃ t, Reader.tag last r = (.ok t, r.advance 1)
      ∧ (t = 0 ∧ vs = values ∧ r' = r.advance 1
        ∨ t ≠ 0 ∧ es.zipIdx.find? (·.1.tag == t) = none ∧ last ≤ r.size ∧ vs = values
          ∧ r' = r.advance (last - r.pos)
        ∨ t ≠ 0 ∧ ∃ e i v r₁, es.zipIdx.find? (·.1.tag == t) = some (e, i)
          ∧ e.decoding.run call (r.advance 1) = (.ok v, r₁)
          ∧ runTagged call es last room (values.set i (some v)) r₁ = (.ok vs, r')) := by
  obtain ⟨t, r₁, ht, -⟩ := run_bind_eq_ok.1 h
  rw [run_ofRead_eq_ok] at ht
  obtain ⟨hlt, -, rfl⟩ := Reader.tag_advance ht
  refine ⟨t, ht, ?_⟩
  by_cases h0 : t = 0
  · subst h0
    rw [runTagged_stop ht] at h
    cases h
    exact .inl ⟨rfl, rfl, rfl⟩
  · rcases hf : es.zipIdx.find? (·.1.tag == t) with _ | ⟨e, i⟩
    · rw [runTagged, run_bind_of_ok (run_ofRead_of_ok ht), if_neg h0] at h
      simp only [hf] at h
      obtain ⟨u, r₂, hu, h⟩ := run_bind_eq_ok.1 h
      rw [run_ofRead_eq_ok, Reader.seek_eq_ok] at hu
      obtain ⟨hs, rfl⟩ := hu
      cases h
      exact .inr (.inl ⟨h0, hf, hs, rfl, (Reader.advance_sub hlt.le).symm⟩)
    · rw [runTagged_field ht h0 hf] at h
      obtain ⟨v, r₂, hv, h⟩ := run_bind_eq_ok.1 h
      exact .inr (.inr ⟨h0, e, i, v, r₂, hf, hv, h⟩)

end RecordDecoding

section Congr

variable {call call' : DecodeCall}

theorem Decode.times_congr {α : Type} {x y : Decode α} : ∀ {n : Nat} {r : Reader},
    (∀ r', Turn x n r r' → x r' = y r') → times x n r = times y n r
  | 0, _, _ => rfl
  | _ + 1, r, h => run_bind_congr (h r .first) fun _ _ ha =>
    run_bind_congr (times_congr fun r' hr => h r' (.next ha hr)) fun _ _ _ => rfl

theorem Decoding.run_congr : ∀ (d : Decoding) {r : Reader},
    (∀ name r', d.Calls call r name r' → call name r' = call' name r') →
      d.run call r = d.run call' r
  | .atom _ _, _, _ => rfl
  | .bytes _, _, _ => rfl
  | .record _ name, r, h => h name r .record
  | .array _ _ _ _ _ element, r, h => by
    refine run_bind_congr rfl fun n r₁ hn => run_bind_congr ?_ fun _ _ _ => rfl
    exact Decode.times_congr fun r₂ ht => element.run_congr fun name r' hc =>
      h name r' (.array (run_ofRead_eq_ok.1 hn) ht hc)
  | .map _ _ _ _ _ _ _ key value, r, h => by
    refine run_bind_congr rfl fun n r₁ hn => run_bind_congr ?_ fun _ _ _ => rfl
    refine Decode.times_congr (x := entry call key value) (y := entry call' key value)
      fun r₂ ht => ?_
    refine run_bind_congr rfl fun k r₃ hk => run_bind_congr ?_ fun _ _ _ => rfl
    exact value.run_congr fun name r' hc =>
      h name r' (.map (run_ofRead_eq_ok.1 hn) ht (run_ofRead_eq_ok.1 hk) hc)

namespace RecordDecoding

theorem runFields_congr : ∀ {ds : List (String × Decoding)} {r : Reader},
    (∀ d r', ReadsField call ds r d r' → d.run call r' = d.run call' r') →
      runFields call ds r = runFields call' ds r
  | [], _, _ => rfl
  | (_, d) :: _, r, h => run_bind_congr (h d r .first) fun _ _ hv =>
    run_bind_congr (runFields_congr fun d' r' hd => h d' r' (.next hv hd)) fun _ _ _ => rfl

theorem runTagged_congr {fields : List TaggedDecoding} {last : Nat} :
    ∀ {room : Nat} {values : List (Option Value)} {r : Reader},
    (∀ e r', ReadsTagged call fields last r e r' →
      e.decoding.run call r' = e.decoding.run call' r') →
      runTagged call fields last room values r = runTagged call' fields last room values r
  | 0, _, _, _ => rfl
  | room + 1, values, r, h => by
    refine run_bind_congr rfl fun t r₁ ht => ?_
    rw [run_ofRead_eq_ok] at ht
    split_ifs with h0
    · rfl
    · rcases hf : fields.zipIdx.find? (·.1.tag == t) with _ | ⟨e, i⟩
      · simp only [hf]
      · simp only [hf]
        refine run_bind_congr (h e r₁ (.first ht h0 hf)) fun v r₂ hv => ?_
        exact runTagged_congr fun e' r' he => h e' r' (.next ht h0 hf hv he)

/-- A run depends on the calls it makes and on no others. -/
theorem run_congr (d : RecordDecoding) {r : Reader}
    (h : ∀ name r', d.Calls call r name r' → call name r' = call' name r') :
    d.run call r = d.run call' r := by
  cases d with
  | struct ds =>
    refine run_bind_congr (runFields_congr fun d r' hd => ?_) fun _ _ _ => rfl
    exact d.run_congr fun name r'' hc => h name r'' (.struct hd hc)
  | message es =>
    refine run_bind_congr rfl fun last r₁ hl => ?_
    rw [run_ofRead_eq_ok] at hl
    rw [run_get, run_get]
    refine run_bind_congr (runTagged_congr fun e r' he => ?_) fun _ _ _ => rfl
    exact e.decoding.run_congr fun name r'' hc => h name r'' (.message hl he hc)

end RecordDecoding

end Congr

/-! ## Where calls stand -/

section Ahead

variable {call : DecodeCall} {s : Schema}

theorem Decode.Turn.ahead {α : Type} {x : Decode α} (hx : Moves 0 x) {n : Nat} {r r' : Reader}
    (h : Turn x n r r') : r.Ahead 0 r' := by
  induction h with
  | first => exact .refl _
  | next ha _ ih => exact (hx _ _ _ ha).trans ih

theorem Decoding.entry_moves {key : AtomTy} {value : Decoding} (hv : Moves 0 (value.run call)) :
    Moves 0 (entry call key value) :=
  ((Atom.read_takesNext key).moves.mono (Nat.zero_le _)).ofRead.bind fun k =>
    hv.bind_pure fun v => (k, v)

theorem Decoding.moves (hc : ∀ name, Moves 0 (call name)) : ∀ d : Decoding, Moves 0 (d.run call)
  | .atom _ ty => (((Atom.read_takesNext ty).moves.mono (Nat.zero_le _)).ofRead).bind_pure _
  | .bytes _ => ((Reader.byteArray_takesNext.moves.mono (Nat.zero_le _)).ofRead).bind_pure _
  | .record _ name => hc name
  | .array _ _ _ _ minSize element =>
    ((Reader.count_moves minSize).mono (Nat.zero_le _)).ofRead.bind fun n =>
      (((element.moves hc).times n).mono (Nat.zero_le _)).bind_pure _
  | .map _ _ _ _ _ _ minSize _ value =>
    ((Reader.count_moves minSize).mono (Nat.zero_le _)).ofRead.bind fun n =>
      (((entry_moves (value.moves hc)).times n).mono (Nat.zero_le _)).bind_pure _

/-- A call stands where the statement starts if it is the statement, and else behind a count. -/
theorem Decoding.Calls.ahead (hc : ∀ name, Moves 0 (call name)) {d : Decoding} {name : String}
    {r r' : Reader} (h : d.Calls call r name r') :
    (∃ binding, d = .record binding name ∧ r' = r) ∨ r.Ahead 4 r' := by
  induction h with
  | record => exact .inl ⟨_, rfl, rfl⟩
  | @array _ _ _ _ _ minSize n element r r₁ r₂ r' hn ht _ ih =>
    have h₁ := Reader.count_moves minSize r n r₁ hn
    have h₂ := h₁.trans (ht.ahead (element.moves hc))
    rcases ih with ⟨_, -, rfl⟩ | ih
    · exact .inr h₂
    · exact .inr ((h₂.trans ih).mono (Nat.le_add_right _ _))
  | @map _ _ _ _ _ _ _ minSize n key k value r r₁ r₂ r₃ r' hn ht hk _ ih =>
    have h₁ := Reader.count_moves minSize r n r₁ hn
    have h₂ := h₁.trans (ht.ahead (entry_moves (value.moves hc)))
    have h₃ := h₂.trans ((Atom.read_takesNext key).moves r₂ k r₃ hk)
    rcases ih with ⟨_, -, rfl⟩ | ih
    · exact .inr (h₃.mono (by omega))
    · exact .inr ((h₃.trans ih).mono (by omega))

namespace RecordDecoding

theorem ReadsField.ahead (hc : ∀ name, Moves 0 (call name)) {ds : List (String × Decoding)}
    {d : Decoding} {r r' : Reader} (h : ReadsField call ds r d r') : r.Ahead 0 r' := by
  induction h with
  | first => exact .refl _
  | next hv _ ih => exact (Decoding.moves hc _ _ _ _ hv).trans ih

/-- Each turn of the loop of a message takes a byte. -/
theorem ReadsTagged.ahead (hc : ∀ name, Moves 0 (call name)) {fields : List TaggedDecoding}
    {last : Nat} {e : TaggedDecoding} {r r' : Reader}
    (h : ReadsTagged call fields last r e r') : r.Ahead 1 r' := by
  induction h with
  | first ht => exact Reader.tag_moves last _ _ _ ht
  | next ht _ _ hv _ ih =>
    have h₁ := (Reader.tag_moves last _ _ _ ht).trans (Decoding.moves hc _ _ _ _ hv)
    exact (h₁.trans ih).mono (by omega)

theorem ReadsField.mem {ds : List (String × Decoding)} {d : Decoding} {r r' : Reader}
    (h : ReadsField call ds r d r') : ∃ ident, (ident, d) ∈ ds := by
  induction h with
  | first => exact ⟨_, List.mem_cons_self⟩
  | next _ _ ih =>
    obtain ⟨ident, hm⟩ := ih
    exact ⟨ident, List.mem_cons_of_mem _ hm⟩

/-- No struct holds itself, and its fields that are records name them in their types. -/
inductive Grounded (s : Schema) (d : Definition) : RecordDecoding → Prop
  | struct {ds : List (String × Decoding)} (hk : d.kind = .struct)
    (hself : ∀ f ∈ d.fields, s.nestsByValue f.ty d.name = false)
    (h : ∀ x ∈ ds, ∀ binding name, x.2 = .record binding name →
      ∃ f ∈ d.fields, f.ty = .defined name) : Grounded s d (.struct ds)
  | message {es : List TaggedDecoding} : Grounded s d (.message es)

theorem For.grounded {d : Definition} {e : RecordDecoding} (h : e.For s d) : e.Grounded s d := by
  cases h with
  | message => exact .message
  | struct hk hself he =>
    refine .struct hk hself fun x hx binding name hname => ?_
    obtain ⟨i, hi⟩ := List.getElem?_of_mem hx
    obtain ⟨f, hf, hfor⟩ := exists_getElem?_of_forall₂ he hi
    refine ⟨f, List.mem_of_getElem? hf, ?_⟩
    rw [hname] at hfor
    generalize f.ty = t at hfor
    cases hfor
    rfl

/-- A call stands further in the input, or a struct calls for a record that leads to fewer
definitions than it does itself. -/
theorem Calls.below (hc : ∀ name, Moves 0 (call name)) {a b : String} {d : Definition}
    {e : RecordDecoding} {r r' : Reader} (hd : s.get? a = some d) (he : e.Grounded s d)
    (h : e.Calls call r b r') :
    r.Ahead 1 r' ∨ r.Ahead 0 r' ∧ s.reach b < s.reach a := by
  cases h with
  | @struct ds dec _ _ r₁ _ hf h =>
    cases he with
    | struct hk hself he =>
      have h₁ := hf.ahead hc
      rcases h.ahead hc with ⟨binding, rfl, rfl⟩ | h
      · obtain ⟨ident, hm⟩ := hf.mem
        obtain ⟨f, hmf, hft⟩ := he _ hm binding b rfl
        exact .inr ⟨h₁, Schema.reach_lt hd hk hself hmf hft⟩
      · exact .inl ((h₁.trans h).mono (by omega))
  | message hl hf h =>
    have h₁ := (Reader.frameEnd_moves _ _ _ hl).trans (hf.ahead hc)
    rcases h.ahead hc with ⟨_, -, rfl⟩ | h
    · exact .inl (h₁.mono (by omega))
    · exact .inl ((h₁.trans h).mono (by omega))

end RecordDecoding

namespace RecordDecoding

theorem runFields_moves (hc : ∀ name, Moves 0 (call name)) :
    ∀ ds : List (String × Decoding), Moves 0 (runFields call ds)
  | [] => Moves.pure []
  | (_, d) :: ds => (d.moves hc).bind fun v => (runFields_moves hc ds).bind_pure (v :: ·)

theorem runTagged_moves (hc : ∀ name, Moves 0 (call name)) (fields : List TaggedDecoding)
    (last : Nat) : ∀ (room : Nat) (values : List (Option Value)),
      Moves 0 (runTagged call fields last room values)
  | 0, _ => Moves.throw _
  | room + 1, values => by
    intro r vs r' h
    obtain ⟨t, ht, h⟩ := runTagged_eq_ok h
    have h₁ := Reader.tag_moves last r t _ ht
    rcases h with ⟨-, -, rfl⟩ | ⟨-, -, hs, -, rfl⟩ | ⟨-, e, i, v, r₂, -, hv, h⟩
    · exact h₁.mono (Nat.zero_le _)
    · exact ⟨last - r.pos, Nat.zero_le _, Nat.sub_le_sub_right hs r.pos, rfl⟩
    · have h₂ := e.decoding.moves hc _ v r₂ hv
      exact ((h₁.trans h₂).trans (runTagged_moves hc fields last room _ _ _ _ h)).mono
        (Nat.zero_le _)

theorem moves (hc : ∀ name, Moves 0 (call name)) : ∀ d : RecordDecoding, Moves 0 (d.run call)
  | struct ds => (runFields_moves hc ds).bind_pure _
  | message es => by
    refine (Reader.frameEnd_moves.mono (Nat.zero_le _)).ofRead.bind (k := 0) fun last => ?_
    intro r v r' h
    rw [run_get] at h
    exact ((runTagged_moves hc es last _ _).bind_pure _) r v r' h

end RecordDecoding

end Ahead

namespace Program

theorem decodeWithin_moves (p : Program) : ∀ (n : Nat) (name : String),
    Moves 0 (p.decodeWithin n name)
  | 0, _ => Moves.throw _
  | n + 1, name => by
    rw [decodeWithin]
    rcases p.record? name with _ | r
    · exact Moves.throw _
    · exact r.decoding.moves (p.decodeWithin_moves n)

variable {p : Program} {s : Schema}

/-- Bounds the calls within one another: those in a record that stand no further go on to records
that lead to fewer definitions. -/
def bound (s : Schema) (name : String) (r : Reader) : Nat :=
  s.definitions.length * r.remaining + s.reach name

/-- The decoders of the program are those of the schema's definitions, as far as their calls
go. -/
structure Grounded (p : Program) (s : Schema) : Prop where
  length : p.items.length = s.definitions.length
  defined : ∀ {name i}, p.record? name = some i →
    ∃ d, s.get? name = some d ∧ i.decoding.Grounded s d

theorem Implements.grounded (hp : p.Implements s) : p.Grounded s := by
  refine ⟨hp.length, fun {name i} hi => ?_⟩
  obtain ⟨d, hd, -, he⟩ := hp.defined hi
  exact ⟨d, hd, he.grounded⟩

theorem bound_lt {call : DecodeCall} (hp : p.Grounded s) (hc : ∀ name, Moves 0 (call name))
    {a b : String} {i : RecordItem} {r r' : Reader} (hi : p.record? a = some i)
    (h : i.decoding.Calls call r b r') : bound s b r' < bound s a r := by
  obtain ⟨d, hd, he⟩ := hp.defined hi
  have hpos := Schema.reach_pos hd
  have hle := s.reach_le b
  unfold bound
  rcases h.below hc hd he with h | ⟨h, hlt⟩
  · have := Nat.mul_le_mul_left s.definitions.length h.remaining_add_le
    rw [Nat.mul_add] at this
    omega
  · have := Nat.mul_le_mul_left s.definitions.length h.remaining_add_le
    rw [Nat.mul_add] at this
    omega

theorem decodeWithin_eq (hp : p.Grounded s) : ∀ {m n : Nat} {name : String} {r : Reader},
    bound s name r < m → bound s name r < n → p.decodeWithin m name r = p.decodeWithin n name r
  | m + 1, n + 1, name, r, hm, hn => by
    rw [decodeWithin, decodeWithin]
    rcases hi : p.record? name with _ | i
    · rfl
    · refine i.decoding.run_congr fun b r' hcall => ?_
      have := bound_lt hp (p.decodeWithin_moves m) hi hcall
      exact decodeWithin_eq hp (by omega) (by omega)

theorem bound_lt_calls (hp : p.Grounded s) (name : String) (r : Reader) :
    bound s name r < p.items.length * (r.remaining + 1) + 1 := by
  have := s.reach_le name
  rw [hp.length, bound, Nat.mul_succ]
  omega

theorem decode_eq_decodeWithin (hp : p.Grounded s) {n : Nat} {name : String} {r : Reader}
    (hn : bound s name r < n) : p.decode name r = p.decodeWithin n name r :=
  decodeWithin_eq hp (bound_lt_calls hp name r) hn

/-- The decoder of a record runs its statements, which call the decoders of records. -/
theorem decode_eq (hp : p.Grounded s) {name : String} {i : RecordItem}
    (hi : p.record? name = some i) (r : Reader) : p.decode name r = i.decoding.run p.decode r := by
  rw [decode_eq_decodeWithin hp (Nat.lt_succ_self _), decodeWithin, hi]
  refine i.decoding.run_congr fun b r' hcall => ?_
  have := bound_lt hp (p.decodeWithin_moves _) hi hcall
  exact (decode_eq_decodeWithin hp this).symm

theorem decode_struct (hp : p.Implements s) {name : String} {d : Definition}
    (hd : s.get? name = some d) (hk : d.kind = .struct) :
    ∃ ds, Forall₂ (fun e f => e.2.For s f.ty) ds d.fields
      ∧ p.decode name = (RecordDecoding.struct ds).run p.decode := by
  obtain ⟨r, -, ds, hr, -, -, hrd, hds⟩ := hp.struct hd hk
  exact ⟨ds, hds, funext fun q => by rw [decode_eq hp.grounded hr, hrd]⟩

theorem decode_message (hp : p.Implements s) {name : String} {d : Definition}
    (hd : s.get? name = some d) (hk : d.kind = .message) :
    ∃ es, Forall₂ (TaggedDecoding.For s) es d.fields ∧ d.Tagged
      ∧ p.decode name = (RecordDecoding.message es).run p.decode := by
  obtain ⟨r, -, es, hr, -, -, hrd, hes, ht⟩ := hp.message hd hk
  exact ⟨es, hes, ht, funext fun q => by rw [decode_eq hp.grounded hr, hrd]⟩

theorem decode_moves (p : Program) (name : String) : Moves 0 (p.decode name) := by
  intro r v r' h
  rw [decode, run_get] at h
  exact p.decodeWithin_moves _ name r v r' h

/-- The decoder of the first record calls that of the second, each from where its reader stands. -/
def Enters (p : Program) (a b : String × Reader) : Prop :=
  ∃ i, p.record? a.1 = some i ∧ i.decoding.Calls p.decode a.2 b.1 b.2

/-- Calls within one another come to an end. -/
theorem Enters.wellFounded (hp : p.Grounded s) : WellFounded fun a b => p.Enters b a :=
  Subrelation.wf (fun ⟨_, hi, h⟩ => bound_lt hp p.decode_moves hi h)
    (measure fun a : String × Reader => bound s a.1 a.2).wf

end Program

end SchemaCodec

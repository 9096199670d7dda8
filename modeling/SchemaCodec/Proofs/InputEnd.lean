import SchemaCodec.Proofs.Confinement

/-!
# Where the input ends

More input behind a value changes nothing (`Program.decodes_extended`): a decoder that succeeds
takes its value from the bytes it takes, and the frames that it enters end within the longer input
as they did within the shorter one.

An input that ends within the bytes of a value is refused, and the error says that there is too
little of it (`Program.refuses_cut`). `Starves x bs` says that `x` fails like this wherever the
input ends within `bs`. Of a sequence of reads, those in front of the cut succeed, since their bytes
come next, and the one that meets it fails (`Starves.bind`). A message needs no such argument, for
its end is checked before any field is read.
-/

namespace SchemaCodec

open Wire
open List (Forall₂)

variable {s : Schema} {p : Program} {call : DecodeCall}

/-! ## More input -/

theorem Reader.prefix_rest_append (b x : Bytes) (start : Nat) :
    (Reader.mk b start).rest <+: (Reader.mk (b ++ x) start).rest := by
  rw [rest, rest, Array.toList_append, List.drop_append]
  exact List.prefix_append _ _

/-- The frames of a run end within its input, so they end within any that goes on longer. -/
theorem Confined.run_of_prefix {α : Type} {x : Decode α} {r q : Reader} {a : α} {n : Nat}
    {frames : Nat → Prop} (hx : Confined x r a n frames) (hq : r.rest <+: q.rest) :
    x q = (.ok a, q.advance n) := by
  have hframes : ∀ e, frames e → e ≤ r.pos + r.remaining :=
    (hx.elsewhere r (List.take_prefix _ _)).ok_iff.1 hx.run
  have hle : r.remaining ≤ q.remaining := by simpa using hq.length_le
  refine (hx.elsewhere q ((List.take_prefix _ _).trans hq)).ok_iff.2 fun e he => ?_
  exact (hframes e he).trans (Nat.add_le_add_left hle _)

theorem Confined.run_append {α : Type} {x : Decode α} {b : Bytes} {start n : Nat} {r' : Reader}
    {a : α} {frames : Nat → Prop} (hx : Confined x ⟨b, start⟩ a n frames)
    (h : x ⟨b, start⟩ = (.ok a, r')) (c : Bytes) :
    x ⟨b ++ c, start⟩ = (.ok a, ⟨b ++ c, r'.pos⟩) := by
  have hrun := h.symm.trans hx.run
  cases hrun
  exact hx.run_of_prefix (Reader.prefix_rest_append b c start)

/-- What follows a value in the input decides neither the value nor where the reader goes. This
holds for the statements of every type, and so for the records by themselves. -/
theorem Program.decodes_extended (h : s.Accepted) : ∃ p, ofSchema? s = .ok p
    ∧ (∀ t, s.Admits t → ∀ runtime binding depth,
      ∃ d, Decoding.ofTy? ⟨s, runtime⟩ binding depth t = .ok d
        ∧ ∀ (b x : Bytes) start v r', d.run p.decode ⟨b, start⟩ = (.ok v, r') →
          d.run p.decode ⟨b ++ x, start⟩ = (.ok v, ⟨b ++ x, r'.pos⟩))
    ∧ ∀ name (b x : Bytes) start v r', p.decode name ⟨b, start⟩ = (.ok v, r') →
      p.decode name ⟨b ++ x, start⟩ = (.ok v, ⟨b ++ x, r'.pos⟩) := by
  obtain ⟨p, hp⟩ := Schema.accepted_iff.1 h
  have himp := implements hp
  refine ⟨p, hp, fun t ht runtime binding depth => ?_, fun name b x start v r' hrun => ?_⟩
  · obtain ⟨d, hd⟩ : ∃ d, Decoding.ofTy? ⟨s, runtime⟩ binding depth t = .ok d :=
      ht.exists_decoding binding depth
    refine ⟨d, hd, fun b x start v r' hrun => ?_⟩
    obtain ⟨n, -, hx⟩ := Decoding.confined (Decoding.for_of_ofTy? hd) hrun fun name r₁ _ =>
      confined himp (name, r₁)
    exact hx.run_append hrun x
  · obtain ⟨n, -, hx⟩ := confined himp (name, ⟨b, start⟩) v r' hrun
    exact hx.run_append hrun x

namespace Parcel

/-- A parcel in front of anything else. -/
theorem in_front : schema.Accepted ∧ ∃ p v, Program.ofSchema? schema = .ok p
    ∧ p.decode "Parcel" ⟨bytes.toArray, 0⟩ = (.ok v, ⟨bytes.toArray, 21⟩)
    ∧ ∀ x, p.decode "Parcel" ⟨bytes.toArray ++ x, 0⟩ = (.ok v, ⟨bytes.toArray ++ x, 21⟩) := by
  obtain ⟨p, hp, ht, -⟩ := Program.decodes_extended accepted
  obtain ⟨d, hd, hall⟩ := ht (.defined "Parcel") ⟨_, rfl⟩ "" "x" 0
  have hrest : (Reader.mk bytes.toArray 0).rest = schema.wire value (.defined "Parcel") :=
    wire_eq.symm
  have hrun := Decoding.reads_wire (Program.implements hp) hasTy fits d (Decoding.for_of_ofTy? hd)
    ⟨bytes.toArray, 0⟩ (hrest ▸ List.prefix_rfl)
  rw [wire_eq] at hrun
  cases hd
  exact ⟨accepted, p, _, hp, hrun, fun x => hall _ x 0 _ _ hrun⟩

end Parcel

/-! ## Less input -/

namespace Reader

variable {r : Reader} {bs cs : List UInt8}

/-- The input ends within the bytes. -/
def Cut (r : Reader) (bs : List UInt8) : Prop :=
  r.rest <+: bs ∧ r.rest ≠ bs

theorem Cut.remaining_lt (h : r.Cut bs) : r.remaining < bs.length := by
  obtain ⟨hpre, hne⟩ := h
  have hlt : r.rest.length ≠ bs.length := fun hl => hne (hpre.eq_of_length hl)
  have hle := hpre.length_le
  rw [length_rest] at hlt hle
  omega

/-- The input ends within the first part, or behind it and within the second. -/
theorem Cut.append (h : r.Cut (bs ++ cs)) :
    r.Cut bs ∨ bs <+: r.rest ∧ (r.advance bs.length).Cut cs := by
  obtain ⟨hpre, hne⟩ := h
  by_cases hbs : bs <+: r.rest
  · obtain ⟨t, ht⟩ := hbs
    have hrest : (r.advance bs.length).rest = t := by
      rw [rest_advance, ← ht, List.drop_left]
    rw [← ht] at hpre hne
    refine .inr ⟨⟨t, ht⟩, ?_, ?_⟩
    · rw [hrest]
      exact (List.prefix_append_right_inj bs).1 hpre
    · rw [hrest]
      rintro rfl
      exact hne rfl
  · have hpre' := List.prefix_or_prefix_of_prefix hpre (List.prefix_append bs cs)
    refine .inl ⟨hpre'.resolve_right hbs, ?_⟩
    rintro rfl
    exact hbs List.prefix_rfl

end Reader

/-- The input ends before what is read or announced does. -/
def DecodeError.IsShort : DecodeError → Prop
  | unexpectedEnd _ _ _ | countExceedsInput _ _ _ _ | frameOutOfBounds _ _ => True
  | invalidText _ | missingTerminator _ | seekOutOfBounds _ _ => False

def Halt.IsShort : Halt → Prop
  | failed e => e.IsShort
  | unknownRecord _ | exhausted => False

section Starves

variable {ε α β : Type}

/-- Wherever the input ends within the bytes, `x` fails with one of the errors. -/
def Starves (short : ε → Prop) (x : ExceptT ε (StateM Reader) α) (bs : List UInt8) : Prop :=
  ∀ r : Reader, r.Cut bs → ∃ e r', x r = (.error e, r') ∧ short e

namespace Starves

variable {short : ε → Prop} {x : ExceptT ε (StateM Reader) α}
  {f : α → ExceptT ε (StateM Reader) β} {bs cs : List UInt8} {a : α}

/-- No input ends within no bytes. -/
theorem nil (x : ExceptT ε (StateM Reader) α) : Starves short x [] :=
  fun _ hr => absurd (List.prefix_nil.1 hr.1) hr.2

/-- The first read of a sequence meets the end. -/
theorem first (hx : Starves short x bs) : Starves short (x >>= f) bs := by
  intro r hr
  obtain ⟨e, r', he, hs⟩ := hx r hr
  exact ⟨e, r', run_bind_of_error he, hs⟩

theorem bind (hx : Starves short x bs) (ha : Reads x bs a) (hf : Starves short (f a) cs) :
    Starves short (x >>= f) (bs ++ cs) := by
  intro r hr
  rcases hr.append with hr | ⟨hbs, hr⟩
  · exact hx.first r hr
  · rw [run_bind_of_ok (ha r hbs)]
    exact hf _ hr

theorem ofRead {x : Read α} (hx : Starves DecodeError.IsShort x bs) :
    Starves Halt.IsShort (Decode.ofRead x) bs := by
  intro r hr
  obtain ⟨e, r', he, hs⟩ := hx r hr
  exact ⟨.failed e, r', run_ofRead_of_error he, hs⟩

theorem times {short : Halt → Prop} {x : Decode α} {bytes : β → List UInt8} {value : β → α} :
    ∀ {l : List β}, (∀ b ∈ l, Starves short x (bytes b)) →
      (∀ b ∈ l, Reads x (bytes b) (value b)) →
      Starves short (Decode.times x l.length) (l.flatMap bytes)
  | [], _, _ => nil _
  | b :: l, hx, hr => by
    have hl := times (fun c hc => hx c (List.mem_cons_of_mem _ hc))
      fun c hc => hr c (List.mem_cons_of_mem _ hc)
    exact (hx b List.mem_cons_self).bind (hr b List.mem_cons_self) hl.first

end Starves

namespace Reader

theorem take_starves (bs : List UInt8) : Starves DecodeError.IsShort (take bs.length) bs :=
  fun r hr => ⟨_, r, take_of_lt hr.remaining_lt, trivial⟩

theorem natural_starves (width n : Nat) :
    Starves DecodeError.IsShort (natural width) (littleEndian width n) := by
  have h := take_starves (littleEndian width n)
  rw [length_littleEndian] at h
  exact h.first

theorem byte_starves (x : UInt8) : Starves DecodeError.IsShort byte [x] :=
  (take_starves [x]).first.first

theorem byteArray_starves {bs : List UInt8} (h : bs.length < 2 ^ 32) :
    Starves DecodeError.IsShort byteArray (littleEndian 4 bs.length ++ bs) :=
  (natural_starves 4 bs.length).bind (length_reads h) (take_starves bs)

/-- A cut text is refused before it is decoded, so it is never found to be other than UTF-8. -/
theorem text_starves {x : String} (h : x.toUTF8.size < 2 ^ 32) : Starves DecodeError.IsShort text
    (littleEndian 4 x.toUTF8.size ++ x.toUTF8.data.toList) := by
  refine (natural_starves 4 x.toUTF8.size).bind (length_reads h) fun r hr => ?_
  rw [run_get]
  exact (take_starves x.toUTF8.data.toList).first r hr

theorem count_of_lt {k n : Nat} {r r' : Reader} (hn : Reader.length r = (.ok n, r'))
    (h : r'.remaining < needed n k) :
    count k r = (.error (.countExceedsInput r.pos n (needed n k) r'.remaining), r') := by
  rw [count, run_get, run_bind_of_ok hn, run_get, if_pos h]
  rfl

/-- The length of a frame is there and announces more than comes, or it is cut itself. -/
theorem frameEnd_starves {bs : List UInt8} (h : bs.length < 2 ^ 32) :
    Starves DecodeError.IsShort frameEnd (littleEndian 4 bs.length ++ bs) := by
  intro r hr
  rcases hr.append with hr | ⟨hlen, hr⟩
  · exact (natural_starves 4 bs.length).first r hr
  · have hlt := hr.remaining_lt
    have hn := length_reads h r hlen
    rw [Reader.remaining] at hlt
    exact ⟨_, _, frameEnd_of_lt hn (by omega), trivial⟩

end Reader

/-- A count that is let through announces parts one of which meets the end. -/
theorem Starves.count {n k : Nat} {f : Nat → Decode β} {bs : List UInt8} (hn : n < 2 ^ 32)
    (hf : Starves Halt.IsShort (f n) bs) :
    Starves Halt.IsShort (Decode.ofRead (Reader.count k) >>= f) (littleEndian 4 n ++ bs) := by
  intro r hr
  rcases hr.append with hr | ⟨hlen, hr⟩
  · have hcount : Starves DecodeError.IsShort (Reader.count k) (littleEndian 4 n) :=
      fun r hr => (Reader.natural_starves 4 n).first r hr
    exact hcount.ofRead.first r hr
  · have hlength := Reader.length_reads hn r hlen
    by_cases hle : Reader.needed n k ≤ (r.advance (littleEndian 4 n).length).remaining
    · rw [run_bind_of_ok (run_ofRead_of_ok (Reader.count_eq_ok.2 ⟨hlength, hle⟩))]
      exact hf _ hr
    · have hcount := run_ofRead_of_error (Reader.count_of_lt hlength (not_le.1 hle))
      exact ⟨_, _, run_bind_of_error hcount, trivial⟩

end Starves

open Reader in
theorem Atom.starves_wire {a : Atom} {ty : AtomTy} (h : a.hasTy ty = true) (hf : a.Fits) :
    Starves DecodeError.IsShort (Atom.read ty) a.wire := by
  unfold hasTy at h
  split at h
  case h_15 => cases h
  case h_1 x => exact (byte_starves _).first.first
  case h_2 x => exact (byte_starves x).first
  case h_3 x => exact (natural_starves 2 _).first.first
  case h_4 x => exact (natural_starves 2 _).first.first.first
  case h_5 x => exact (natural_starves 4 _).first.first
  case h_6 x => exact (natural_starves 4 _).first.first.first
  case h_7 x => exact (natural_starves 8 _).first.first
  case h_8 x => exact (natural_starves 8 _).first.first.first
  case h_9 bits => exact (natural_starves 4 _).first.first
  case h_10 bits => exact (natural_starves 8 _).first.first
  case h_11 x => exact (text_starves hf).first
  case h_12 x =>
    have := take_starves x.toWire
    rw [Guid.length_toWire] at this
    exact this.first.first
  case h_13 x => exact (natural_starves 8 _).first.first.first
  case h_14 n name => exact (natural_starves 4 _).first.first

/-- The statements for a type refuse an input that ends within the bytes of a value. -/
def Schema.RefusesCut (s : Schema) (call : DecodeCall) (v : Value) (t : Ty) : Prop :=
  ∀ e : Decoding, e.For s t → Starves Halt.IsShort (e.run call) (s.wire v t)

namespace Decoding

theorem starves_bytes {vs : List Value} (h : ∀ v ∈ vs, s.HasTy v (.scalar .byte))
    (hn : vs.length < 2 ^ 32) (b : String) : Starves Halt.IsShort ((bytes b).run call)
      (s.wire (.array vs) (.array (.scalar .byte))) := by
  obtain ⟨l, hvs, hw⟩ := Schema.exists_bytes h
  rw [hvs, List.length_map] at hn
  rw [Schema.wire, hw, hvs, List.length_map]
  exact (Reader.byteArray_starves hn).ofRead.first

theorem starves_array {vs : List Value} {t : Ty} {e : Decoding} {b length item itemType : String}
    (he : e.For s t) (hn : vs.length < 2 ^ 32) (hr : ∀ v ∈ vs, s.ReadsBack call v t)
    (hs : ∀ v ∈ vs, s.RefusesCut call v t) : Starves Halt.IsShort
      ((array b length item itemType (s.minWireSize t) e).run call)
      (s.wire (.array vs) (.array t)) := by
  rw [Schema.wire, Schema.wireItems_eq]
  refine Starves.count hn (Starves.first ?_)
  exact Starves.times (fun v hv => hs v hv e he) fun v hv => hr v hv e he

theorem starves_map {es : List (Atom × Value)} {kt t : Ty} {key : AtomTy} {e : Decoding}
    {b length k v keyType valueType : String} (hkey : key.For s kt) (he : e.For s t)
    (hk : ∀ x ∈ es, s.HasTy (.atom x.1) kt) (hn : es.length < 2 ^ 32) (hf : ∀ x ∈ es, x.1.Fits)
    (hr : ∀ x ∈ es, s.ReadsBack call x.2 t) (hs : ∀ x ∈ es, s.RefusesCut call x.2 t) :
    Starves Halt.IsShort
      ((map b length k v keyType valueType (s.minWireSize kt + s.minWireSize t) key e).run call)
      (s.wire (.map es) (.map kt t)) := by
  rw [Schema.wire, Schema.wireEntries_eq]
  refine Starves.count hn (Starves.first (x := Decode.times (entry call key e) _) ?_)
  refine Starves.times (fun x hx => ?_) fun x hx =>
    reads_entry ((hk x hx).atom hkey) (hf x hx) he (hr x hx)
  have hatom := (hk x hx).atom hkey
  exact (Atom.starves_wire hatom (hf x hx)).ofRead.bind (Atom.reads_wire hatom (hf x hx)).ofRead
    (hs x hx e he).first

end Decoding

theorem RecordDecoding.runFields_starves {ds : List (String × Decoding)} {fs : List Field}
    {vs : List Value} (he : Forall₂ (fun e f => e.2.For s f.ty) ds fs)
    (hr : Forall₂ (fun v f => s.ReadsBack call v f.ty) vs fs)
    (hs : Forall₂ (fun v f => s.RefusesCut call v f.ty) vs fs) :
    Starves Halt.IsShort (runFields call ds) (s.wireFields vs fs) := by
  induction he generalizing vs with
  | nil =>
    cases hr
    exact .nil _
  | cons he _ ih =>
    cases hr with
    | cons hr hrs =>
      cases hs with
      | cons hs hss => exact (hs _ he).bind (hr _ he) (ih hrs hss).first

/-- An input that ends within the bytes of a value is refused as too short. -/
theorem Decoding.starves_wire (hp : p.Implements s) {v : Value} {t : Ty} (h : s.HasTy v t)
    (hf : s.Fits v t) : s.RefusesCut p.decode v t := by
  induction h with
  | scalar h =>
    rintro e (_ | _)
    exact (Atom.starves_wire h (by simpa [Schema.Fits] using hf)).ofRead.first
  | @enum n name d hd hk =>
    rintro e he
    cases he with
    | enum => exact (Atom.starves_wire (show (Atom.enum n).hasTy (.enum name) = true from rfl)
        trivial).ofRead.first
    | record hd' hk' =>
      obtain rfl : d = _ := by simpa [hd] using hd'
      simp [hk, Kind.isAggregate] at hk'
  | array h ih =>
    rintro e he
    rw [Schema.Fits, Schema.fitItems_iff] at hf
    cases he with
    | bytes => exact starves_bytes h hf.1 _
    | array _ he =>
      exact starves_array he hf.1 (fun v hv => reads_wire hp (h v hv) (hf.2 v hv))
        fun v hv => ih v hv (hf.2 v hv)
  | map hnodup hk h _ ih =>
    rintro e he
    rw [Schema.Fits, Schema.fitEntries_iff] at hf
    cases he with
    | map hkey he =>
      exact starves_map hkey he hk hf.1 (fun x hx => (hf.2 x hx).1)
        (fun x hx => reads_wire hp (h x hx) (hf.2 x hx).2) fun x hx => ih x hx (hf.2 x hx).2
  | @struct vs name d hd hk hl h ih =>
    rintro e he
    obtain ⟨b, rfl⟩ := he.record_of_defined hd (by simp [hk])
    obtain ⟨ds, hds, hdec⟩ := Program.decode_struct hp hd hk
    rw [Schema.Fits, Schema.fields_of_get? hd, Schema.fitFields_iff] at hf
    rw [run, hdec, Schema.wire, Schema.fields_of_get? hd]
    have hread : Forall₂ (fun v f => s.ReadsBack p.decode v f.ty) vs d.fields :=
      List.forall₂_iff_zip.2 ⟨hl, fun {u f} hm => reads_wire hp (h u f hm) (hf _ hm)⟩
    have hcut : Forall₂ (fun v f => s.RefusesCut p.decode v f.ty) vs d.fields :=
      List.forall₂_iff_zip.2 ⟨hl, fun {u f} hm => ih u f hm (hf _ hm)⟩
    exact (RecordDecoding.runFields_starves hds hread hcut).first
  | @message vs name d hd hk hl h ih =>
    rintro e he
    obtain ⟨b, rfl⟩ := he.record_of_defined hd (by simp [hk])
    obtain ⟨es, -, -, hdec⟩ := Program.decode_message hp hd hk
    rw [Schema.Fits] at hf
    rw [run, hdec, Schema.wire]
    exact (Reader.frameEnd_starves (by simpa using hf.1)).ofRead.first

/-- Wherever the bytes of a value are cut, they are refused, and the error says that there are too
few of them. -/
theorem Program.refuses_cut (h : s.Accepted) :
    ∃ p, ofSchema? s = .ok p ∧ ∀ t, s.Admits t → ∀ runtime operand binding depth depth',
      ∃ e d, Encoding.ofTy? ⟨s, runtime⟩ operand depth t = .ok e
        ∧ Decoding.ofTy? ⟨s, runtime⟩ binding depth' t = .ok d
        ∧ ∀ v, s.HasTy v t → s.Fits v t → ∃ c, ∀ w : Writer,
          e.run p.encode? v w = some (w.append c)
            ∧ ∀ k < c.length, ∃ err r',
              d.run p.decode ⟨(w.append (c.take k)).bytes, w.size⟩ = (.error (.failed err), r')
                ∧ err.IsShort := by
  obtain ⟨p, hp⟩ := Schema.accepted_iff.1 h
  have himp := implements hp
  refine ⟨p, hp, fun t ht runtime operand binding depth depth' => ?_⟩
  obtain ⟨e, he⟩ : ∃ e, Encoding.ofTy? ⟨s, runtime⟩ operand depth t = .ok e :=
    ht.exists_encoding operand depth
  obtain ⟨d, hd⟩ : ∃ d, Decoding.ofTy? ⟨s, runtime⟩ binding depth' t = .ok d :=
    ht.exists_decoding binding depth'
  refine ⟨e, d, he, hd, fun v hv hf => ⟨s.wire v t, fun w => ⟨?_, fun k hk => ?_⟩⟩⟩
  · exact Encoding.run_eq himp hv e (Encoding.for_of_ofTy? he) w
  · have hcut : (Reader.mk (w.append ((s.wire v t).take k)).bytes w.size).Cut (s.wire v t) := by
      rw [Reader.Cut, w.rest_append]
      refine ⟨List.take_prefix k _, fun heq => ?_⟩
      have hlength := congrArg List.length heq
      rw [List.length_take] at hlength
      omega
    obtain ⟨err, r', hrun, hshort⟩ :=
      Decoding.starves_wire himp hv hf d (Decoding.for_of_ofTy? hd) _ hcut
    cases err with
    | failed err => exact ⟨err, r', hrun, hshort⟩
    | unknownRecord name => exact hshort.elim
    | exhausted => exact hshort.elim

namespace Parcel

/-- A parcel that ends within its label. -/
theorem refused_cut : schema.Accepted ∧ schema.HasTy value (.defined "Parcel")
    ∧ schema.Fits value (.defined "Parcel")
    ∧ ∃ p, Program.ofSchema? schema = .ok p
      ∧ p.encode? "Parcel" value Writer.empty = some (Writer.empty.append bytes)
      ∧ ∃ err r', p.decode "Parcel" ⟨(Writer.empty.append (bytes.take 9)).bytes, 0⟩
          = (.error (.failed err), r') ∧ err.IsShort := by
  refine ⟨accepted, hasTy, fits, ?_⟩
  obtain ⟨p, hp, ht⟩ := Program.refuses_cut accepted
  obtain ⟨e, d, he, hd, hall⟩ := ht (.defined "Parcel") ⟨_, rfl⟩ "" (.place "x") "y" 0 0
  obtain ⟨c, hc⟩ := hall value hasTy fits
  obtain ⟨henc, hcut⟩ := hc Writer.empty
  have hrun := Encoding.run_eq (Program.implements hp) hasTy e (Encoding.for_of_ofTy? he)
    Writer.empty
  have hbytes : c = bytes := by
    have happend := congrArg (fun w : Writer => w.bytes.toList)
      (Option.some.inj (henc.symm.trans hrun))
    simpa [wire_eq, Writer.empty] using happend
  subst hbytes
  cases he
  cases hd
  exact ⟨p, hp, henc, hcut 9 (by decide)⟩

end Parcel

end SchemaCodec

import SchemaCodec.Proofs.Acceptance
import SchemaCodec.Proofs.Encoder
import SchemaCodec.Proofs.Frame

/-!
# Round trip

A value of a type is read back from its bytes without the deprecated fields of its messages
(`Decoding.reads_wire`). The elements of a container take at least the sizes that the check of its
count adds up, so the count is let through. A message is a frame of the fields that are written,
and it ends at its own terminator.
-/

namespace SchemaCodec

open Wire
open List (Forall₂)

/-! ## Containers -/

namespace Value

theorem insertEntry_of_notMem {k : Atom} {v : Value} : ∀ {es : List (Atom × Value)},
    k ∉ es.map (·.1) → insertEntry k v es = es ++ [(k, v)]
  | [], _ => rfl
  | e :: es, h => by
    rw [List.map_cons, List.mem_cons, not_or] at h
    rw [insertEntry, if_neg (Ne.symm h.1), insertEntry_of_notMem h.2, List.cons_append]

/-- Entries whose keys differ are a map as they are. -/
theorem mapOf_of_nodup {es : List (Atom × Value)} (h : (es.map (·.1)).Nodup) :
    mapOf es = map es := by
  have hfold : ∀ (l acc : List (Atom × Value)), ((acc ++ l).map (·.1)).Nodup →
      l.foldl (fun es e => insertEntry e.1 e.2 es) acc = acc ++ l := by
    intro l
    induction l with
    | nil => simp
    | cons e l ih =>
      intro acc hn
      have hne : e.1 ∉ acc.map (·.1) := by
        rw [List.map_append, List.map_cons, List.nodup_append] at hn
        exact fun hm => hn.2.2 _ hm _ List.mem_cons_self rfl
      rw [List.foldl_cons, insertEntry_of_notMem hne, ih _ (by simpa using hn)]
      simp
  rw [mapOf, hfold es [] (by simpa using h), List.nil_append]

end Value

section Count

variable {α β : Type}

/-- A count is let through when what it announces comes next. -/
theorem Reads.count {n k : Nat} {f : Nat → Decode β} {bs : List UInt8} {b : β}
    (hn : n < 2 ^ 32) (hk : n * k ≤ bs.length) (hf : Reads (f n) bs b) :
    Reads (Decode.ofRead (Reader.count k) >>= f) (littleEndian 4 n ++ bs) b := by
  intro r h
  have hlen := Reader.length_reads hn r ((List.prefix_append _ _).trans h)
  have hbs := Reader.prefix_advance h
  have hneeded : Reader.needed n k ≤ (r.advance (littleEndian 4 n).length).remaining :=
    (Nat.min_le_left _ _).trans (hk.trans (Reader.le_remaining hbs))
  rw [run_bind_of_ok (run_ofRead_of_ok (Reader.count_eq_ok.2 ⟨hlen, hneeded⟩)), hf _ hbs,
    Reader.advance_advance, List.length_append]

theorem Reads.times {x : Decode α} {bytes : β → List UInt8} {value : β → α} :
    ∀ {l : List β}, (∀ b ∈ l, Reads x (bytes b) (value b)) →
      Reads (Decode.times x l.length) (l.flatMap bytes) (l.map value)
  | [], _ => fun _ _ => rfl
  | b :: l, h => by
    have hl := times fun c hc => h c (List.mem_cons_of_mem _ hc)
    exact (h b List.mem_cons_self).bind (hl.bind_pure (value b :: ·))

theorem length_mul_le_flatMap {bytes : β → List UInt8} {k : Nat} : ∀ {l : List β},
    (∀ b ∈ l, k ≤ (bytes b).length) → l.length * k ≤ (l.flatMap bytes).length
  | [], _ => by simp
  | b :: l, h => by
    have hb := h b List.mem_cons_self
    have hl := length_mul_le_flatMap fun c hc => h c (List.mem_cons_of_mem _ hc)
    rw [List.length_cons, Nat.add_mul, Nat.one_mul, List.flatMap_cons, List.length_append]
    omega

end Count

variable {s : Schema} {p : Program} {call : DecodeCall}

namespace Decoding

/-- Bytes in an array are scalars that are read in one call. -/
theorem reads_bytes {vs : List Value} (h : ∀ v ∈ vs, s.HasTy v (.scalar .byte))
    (hn : vs.length < 2 ^ 32) (b : String) :
    Reads ((bytes b).run call) (s.wire (.array vs) (.array (.scalar .byte)))
      (s.prune (.array vs) (.array (.scalar .byte))) := by
  obtain ⟨l, hvs, hw⟩ := Schema.exists_bytes h
  have hp : s.pruneItems vs (.scalar .byte) = vs := by
    rw [Schema.pruneItems_eq, hvs, List.map_map]
    simp [Schema.prune]
  rw [hvs, List.length_map] at hn
  rw [Schema.wire, hw, Schema.prune, hp, hvs, List.length_map]
  exact (Reader.byteArray_reads hn).ofRead.bind_pure fun l =>
    Value.array (l.map fun x => .atom (.byte x))

theorem reads_array {vs : List Value} {t : Ty} {e : Decoding} {b length item itemType : String}
    (he : e.For s t) (h : ∀ v ∈ vs, s.HasTy v t) (hn : vs.length < 2 ^ 32)
    (hr : ∀ v ∈ vs, s.ReadsBack call v t) :
    Reads ((array b length item itemType (s.minWireSize t) e).run call)
      (s.wire (.array vs) (.array t)) (s.prune (.array vs) (.array t)) := by
  rw [Schema.wire, Schema.prune, Schema.wireItems_eq, Schema.pruneItems_eq]
  refine Reads.count hn ?_ ?_
  · exact length_mul_le_flatMap fun v hv => (h v hv).covers_wire.minWireSize_le
  · exact (Reads.times fun v hv => hr v hv e he).bind_pure _

theorem reads_entry {x : Atom × Value} {t : Ty} {key : AtomTy} {e : Decoding}
    (hk : x.1.hasTy key = true) (hf : x.1.Fits) (he : e.For s t) (hr : s.ReadsBack call x.2 t) :
    Reads (entry call key e) (x.1.wire ++ s.wire x.2 t) (x.1, s.prune x.2 t) :=
  (Atom.reads_wire hk hf).ofRead.bind ((hr e he).bind_pure fun v => (x.1, v))

theorem reads_map {es : List (Atom × Value)} {kt t : Ty} {key : AtomTy} {e : Decoding}
    {b length k v keyType valueType : String} (hkey : key.For s kt) (he : e.For s t)
    (hnodup : (es.map (·.1)).Nodup) (hk : ∀ x ∈ es, s.HasTy (.atom x.1) kt)
    (h : ∀ x ∈ es, s.HasTy x.2 t) (hn : es.length < 2 ^ 32) (hf : ∀ x ∈ es, x.1.Fits)
    (hr : ∀ x ∈ es, s.ReadsBack call x.2 t) :
    Reads ((map b length k v keyType valueType (s.minWireSize kt + s.minWireSize t) key e).run call)
      (s.wire (.map es) (.map kt t)) (s.prune (.map es) (.map kt t)) := by
  have hpairs : ∀ x ∈ es, Reads (entry call key e) (x.1.wire ++ s.wire x.2 t)
      (x.1, s.prune x.2 t) :=
    fun x hx => reads_entry ((hk x hx).atom hkey) (hf x hx) he (hr x hx)
  have hmap : Value.mapOf (es.map fun x => (x.1, s.prune x.2 t))
      = .map (es.map fun x => (x.1, s.prune x.2 t)) := by
    refine Value.mapOf_of_nodup ?_
    rwa [List.map_map]
  rw [Schema.wire, Schema.prune, Schema.wireEntries_eq, Schema.pruneEntries_eq, ← hmap]
  refine Reads.count hn (length_mul_le_flatMap fun x hx => ?_) ?_
  · rw [List.length_append]
    have hkey := (hk x hx).covers_wire.minWireSize_le
    rw [Schema.wire] at hkey
    exact Nat.add_le_add hkey (h x hx).covers_wire.minWireSize_le
  · exact (Reads.times hpairs).bind_pure _

end Decoding

theorem RecordDecoding.runFields_reads {ds : List (String × Decoding)} {fs : List Field}
    {vs : List Value} (he : Forall₂ (fun e f => e.2.For s f.ty) ds fs)
    (hv : Forall₂ (fun v f => s.ReadsBack call v f.ty) vs fs) :
    Reads (runFields call ds) (s.wireFields vs fs) (s.pruneFields vs fs) := by
  induction he generalizing vs with
  | nil =>
    cases hv
    exact fun _ _ => rfl
  | cons he _ ih =>
    cases hv with
    | cons hv hvs =>
      rw [Schema.wireFields, Schema.pruneFields]
      exact (hv _ he).bind ((ih hvs).bind_pure _)

/-- A value is read back from its bytes, without the deprecated fields of its messages. -/
theorem Decoding.reads_wire (hp : p.Implements s) {v : Value} {t : Ty} (h : s.HasTy v t)
    (hf : s.Fits v t) : s.ReadsBack p.decode v t := by
  induction h with
  | scalar h =>
    rintro e (_ | _)
    exact (Atom.reads_wire h (by simpa [Schema.Fits] using hf)).ofRead.bind_pure Value.atom
  | @enum n name d hd hk =>
    rintro e he
    cases he with
    | enum => exact (Atom.reads_wire (show (Atom.enum n).hasTy (.enum name) = true from rfl)
        trivial).ofRead.bind_pure Value.atom
    | record hd' hk' =>
      obtain rfl : d = _ := by simpa [hd] using hd'
      simp [hk, Kind.isAggregate] at hk'
  | array h ih =>
    rintro e he
    rw [Schema.Fits, Schema.fitItems_iff] at hf
    cases he with
    | bytes => exact reads_bytes h hf.1 _
    | array _ he => exact reads_array he h hf.1 fun v hv => ih v hv (hf.2 v hv)
  | map hnodup hk h _ ih =>
    rintro e he
    rw [Schema.Fits, Schema.fitEntries_iff] at hf
    cases he with
    | map hkey he =>
      exact reads_map hkey he hnodup hk h hf.1 (fun x hx => (hf.2 x hx).1)
        fun x hx => ih x hx (hf.2 x hx).2
  | @struct vs name d hd hk hl h ih =>
    rintro e he
    obtain ⟨b, rfl⟩ := he.record_of_defined hd (by simp [hk])
    obtain ⟨ds, hds, hdec⟩ := Program.decode_struct hp hd hk
    rw [Schema.Fits, Schema.fields_of_get? hd] at hf
    rw [run, hdec, Schema.wire, Schema.prune, Schema.fields_of_get? hd]
    refine (RecordDecoding.runFields_reads hds (List.forall₂_iff_zip.2 ⟨hl, ?_⟩)).bind_pure
      Value.struct
    exact fun {u f} hm => ih u f hm (Schema.fitFields_iff.1 hf _ hm)
  | @message vs name d hd hk hl h ih =>
    rintro e he
    obtain ⟨b, rfl⟩ := he.record_of_defined hd (by simp [hk])
    obtain ⟨es, hes, ht, hdec⟩ := Program.decode_message hp hd hk
    rw [Schema.Fits, Schema.fields_of_get? hd, Schema.wirePresent_eq] at hf
    rw [run, hdec, Schema.wire, Schema.prune, Schema.fields_of_get? hd, Schema.wirePresent_eq,
      Schema.prunePresent_eq hl ht.nodup]
    refine RecordDecoding.run_frame ht hes ?_ .terminator (by simpa using hf.1)
    rintro ⟨f, u⟩ hm
    have hz := (Schema.mem_written hm).1
    exact ⟨⟨f, (List.of_mem_zip hz).2, rfl, rfl⟩, ih u f hz (Schema.fitPresent_iff.1 hf.2 _ hm)⟩

/-- A reader behind what a writer held finds there what was appended. -/
theorem Writer.rest_append (w : Writer) (c : List UInt8) :
    (Reader.mk (w.append c).bytes w.size).rest = c := by
  rw [Reader.rest, toList_append, List.drop_left' (by simp [size])]

theorem Writer.prefix_rest (w : Writer) (c x : List UInt8) :
    c <+: (Reader.mk (w.append (c ++ x)).bytes w.size).rest := by
  rw [rest_append]
  exact List.prefix_append c x

/-- Whatever stands before and behind it in a stream, a value of any type of the schema is read
back from where it was written, and the reader goes to its end. Only the deprecated fields of
messages are lost. A map stands here for its entries in the order in which they are written. -/
theorem Program.round_trip (h : s.Accepted) :
    ∃ p, ofSchema? s = .ok p ∧ ∀ t, s.Admits t → ∀ runtime operand binding depth depth',
      ∃ e d, Encoding.ofTy? ⟨s, runtime⟩ operand depth t = .ok e
        ∧ Decoding.ofTy? ⟨s, runtime⟩ binding depth' t = .ok d
        ∧ ∀ v, s.HasTy v t → s.Fits v t → ∃ c, ∀ w : Writer,
          e.run p.encode? v w = some (w.append c)
            ∧ ∀ x, d.run p.decode ⟨(w.append (c ++ x)).bytes, w.size⟩
              = (.ok (s.prune v t), ⟨(w.append (c ++ x)).bytes, w.size + c.length⟩) := by
  obtain ⟨p, hp⟩ := Schema.accepted_iff.1 h
  have himp := implements hp
  refine ⟨p, hp, fun t ht runtime operand binding depth depth' => ?_⟩
  obtain ⟨e, he⟩ : ∃ e, Encoding.ofTy? ⟨s, runtime⟩ operand depth t = .ok e :=
    ht.exists_encoding operand depth
  obtain ⟨d, hd⟩ : ∃ d, Decoding.ofTy? ⟨s, runtime⟩ binding depth' t = .ok d :=
    ht.exists_decoding binding depth'
  refine ⟨e, d, he, hd, fun v hv hf => ⟨s.wire v t, fun w => ⟨?_, fun x => ?_⟩⟩⟩
  · exact Encoding.run_eq himp hv e (Encoding.for_of_ofTy? he) w
  · exact Decoding.reads_wire himp hv hf d (Decoding.for_of_ofTy? hd) _ (w.prefix_rest _ x)

namespace Parcel

/-- A parcel comes back without its weight. -/
theorem comes_back : schema.Accepted ∧ schema.HasTy value (.defined "Parcel")
    ∧ schema.Fits value (.defined "Parcel")
    ∧ ∃ p, Program.ofSchema? schema = .ok p ∧ ∃ c, ∀ w : Writer,
      p.encode? "Parcel" value w = some (w.append c)
        ∧ ∀ x, p.decode "Parcel" ⟨(w.append (c ++ x)).bytes, w.size⟩
          = (.ok (.message [some (.atom (.string "a")), none, some (.array [empty])]),
            ⟨(w.append (c ++ x)).bytes, w.size + c.length⟩) := by
  refine ⟨accepted, hasTy, fits, ?_⟩
  obtain ⟨p, hp, ht⟩ := Program.round_trip accepted
  obtain ⟨e, d, he, hd, hv⟩ := ht (.defined "Parcel") ⟨_, rfl⟩ "" (.place "x") "y" 0 0
  cases he
  cases hd
  exact ⟨p, hp, hv value hasTy fits⟩

end Parcel

end SchemaCodec

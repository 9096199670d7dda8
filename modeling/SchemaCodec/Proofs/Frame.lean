import Mathlib.Data.List.Nodup
import SchemaCodec.Proofs.Calls
import SchemaCodec.Proofs.WireFormat

/-!
# Messages in a frame

The decoder of a message goes through the fields that come next, whatever their order is and
however often they come, and each value takes the place of the one before (`runTagged_items`).
It ends at a zero byte, or goes to the end of the frame behind a tag that it does not know. So a
frame gives for each field of the definition the last value behind its tag (`run_frame`), and the
reader is at the end of the frame.
-/

namespace SchemaCodec

open Wire
open List (Forall₂)

namespace Schema

variable {s : Schema}

/-- The last value behind a tag, as it is read. -/
def lastOf (s : Schema) (items : List (Field × Value)) (tag : UInt32) : Option Value :=
  (items.reverse.find? (·.1.value == tag)).map fun x => s.prune x.2 x.1.ty

theorem lastOf_cons (f : Field) (v : Value) (items : List (Field × Value)) (tag : UInt32) :
    s.lastOf ((f, v) :: items) tag
      = (s.lastOf items tag).or (if f.value = tag then some (s.prune v f.ty) else none) := by
  unfold lastOf
  rw [List.reverse_cons, List.find?_append, List.find?_singleton, Option.map_or]
  congr 1
  by_cases h : f.value = tag <;> simp [h]

/-- Where no tag comes twice, what is behind a tag is the last behind it. -/
theorem lastOf_eq_some_iff {items : List (Field × Value)} (hn : (items.map (·.1.value)).Nodup)
    {tag : UInt32} {u : Value} : s.lastOf items tag = some u
      ↔ ∃ x ∈ items, x.1.value = tag ∧ s.prune x.2 x.1.ty = u := by
  rw [lastOf, Option.map_eq_some_iff]
  constructor
  · rintro ⟨x, hx, hu⟩
    exact ⟨x, List.mem_reverse.1 (List.mem_of_find?_eq_some hx), by simpa using List.find?_some hx,
      hu⟩
  · rintro ⟨x, hx, rfl, hu⟩
    refine ⟨x, ?_, hu⟩
    rcases hy : items.reverse.find? (·.1.value == x.1.value) with _ | y
    · exact absurd (beq_self_eq_true _) (List.find?_eq_none.1 hy x (List.mem_reverse.2 hx))
    · have hyx : y.1.value = x.1.value := by simpa using List.find?_some hy
      have hmem := List.mem_reverse.1 (List.mem_of_find?_eq_some hy)
      exact hy.trans (congrArg some (List.inj_on_of_nodup_map hn hmem hx hyx))

/-- The fields that are read back from those of a message are what pruning leaves. -/
theorem prunePresent_eq : ∀ {vs : List (Option Value)} {fs : List Field},
    vs.length = fs.length → (fs.map (·.value)).Nodup →
      s.prunePresent vs fs = fs.map fun f => s.lastOf (written vs fs) f.value
  | [], [], _, _ => by simp [prunePresent]
  | o :: vs, f :: fs, hl, hn => by
    rw [List.length_cons, List.length_cons, Nat.succ_inj] at hl
    rw [List.map_cons, List.nodup_cons] at hn
    have hnone : s.lastOf (written vs fs) f.value = none := by
      rw [lastOf, Option.map_eq_none_iff, List.find?_eq_none]
      intro x hx hxf
      refine hn.1 (List.mem_map.2 ⟨x.1, ?_, by simpa using hxf⟩)
      exact (written_sublist vs fs).subset (List.mem_map_of_mem (List.mem_reverse.1 hx))
    have hne : ∀ g ∈ fs, f.value ≠ g.value := fun g hg h => hn.1 (h ▸ List.mem_map_of_mem hg)
    have ih := prunePresent_eq hl hn.2
    rcases o with _ | v
    · rw [prunePresent, written, List.map_cons, hnone, ih]
    · rw [prunePresent, written, ih]
      split_ifs
      · rw [List.map_cons, hnone]
      · rw [List.map_cons, lastOf_cons, hnone, if_pos rfl, Option.none_or]
        refine congrArg _ (List.map_congr_left fun g hg => ?_)
        rw [lastOf_cons, if_neg (hne g hg), Option.or_none]

/-- The statements for a type read a value back from its bytes, without deprecated fields. -/
def ReadsBack (s : Schema) (call : DecodeCall) (v : Value) (t : Ty) : Prop :=
  ∀ e : Decoding, e.For s t → Reads (e.run call) (s.wire v t) (s.prune v t)

end Schema

namespace Definition

variable {d : Definition}

def Knows (d : Definition) (f : Field) : Prop :=
  ∃ g ∈ d.fields, g.value = f.value ∧ g.ty = f.ty

/-- What stands behind the last field of a message: the terminator, or a tag that is not known and
then anything. -/
inductive Ends (d : Definition) : List UInt8 → Prop
  | terminator : Ends d [0]
  | unknown {t : UInt8} (h0 : t ≠ 0) (hu : ∀ f ∈ d.fields, f.value.toUInt8 ≠ t)
    (bs : List UInt8) : Ends d (t :: bs)

theorem Tagged.toUInt8_ne_zero (h : d.Tagged) {f : Field} (hf : f ∈ d.fields) :
    f.value.toUInt8 ≠ 0 := by
  rw [Ne, ← UInt8.toNat_inj, h.toNat_toUInt8 hf, UInt8.toNat_zero, ← UInt32.toNat_zero,
    UInt32.toNat_inj]
  exact (h.range f hf).1

theorem Tagged.value_eq {d' : Definition} (h : d.Tagged) (h' : d'.Tagged) {f g : Field}
    (hf : f ∈ d.fields) (hg : g ∈ d'.fields) (hfg : f.value.toUInt8 = g.value.toUInt8) :
    f.value = g.value := by
  rwa [← UInt8.toNat_inj, h.toNat_toUInt8 hf, h'.toNat_toUInt8 hg, UInt32.toNat_inj] at hfg

/-- A field is known by the byte of its tag. -/
theorem Tagged.eq_of_toUInt8 (h : d.Tagged) {f g : Field} (hf : f ∈ d.fields) (hg : g ∈ d.fields)
    (hfg : f.value.toUInt8 = g.value.toUInt8) : f = g :=
  List.inj_on_of_nodup_map h.nodup hf hg (h.value_eq h hf hg hfg)

end Definition

section Frame

variable {s : Schema} {call : DecodeCall} {d : Definition} {es : List TaggedDecoding}

theorem TaggedDecoding.find?_tag (ht : d.Tagged) (he : Forall₂ (TaggedDecoding.For s) es d.fields)
    {f : Field} (hf : f ∈ d.fields) :
    ∃ e i, es.zipIdx.find? (·.1.tag == f.value.toUInt8) = some (e, i) ∧ e.decoding.For s f.ty
      ∧ d.fields[i]? = some f := by
  rcases hfind : es.zipIdx.find? (·.1.tag == f.value.toUInt8) with _ | ⟨e, i⟩
  · obtain ⟨i, hi⟩ := List.getElem?_of_mem hf
    obtain ⟨e, hei, htag, -⟩ := exists_getElem?_of_forall₂ he.flip hi
    exact absurd (beq_iff_eq.2 htag)
      (List.find?_eq_none.1 hfind (e, i) (List.mk_mem_zipIdx_iff_getElem?.2 hei))
  · have hei := List.mk_mem_zipIdx_iff_getElem?.1 (List.mem_of_find?_eq_some hfind)
    obtain ⟨g, hgi, htag, hfor⟩ := exists_getElem?_of_forall₂ he hei
    have hfg : g = f := by
      refine ht.eq_of_toUInt8 (List.mem_of_getElem? hgi) hf ?_
      rw [← htag]
      simpa using List.find?_some hfind
    subst hfg
    exact ⟨e, i, hfind, hfor, hgi⟩

theorem TaggedDecoding.find?_eq_none (he : Forall₂ (TaggedDecoding.For s) es d.fields)
    {t : UInt8} (hu : ∀ f ∈ d.fields, f.value.toUInt8 ≠ t) :
    es.zipIdx.find? (·.1.tag == t) = none := by
  rw [List.find?_eq_none]
  rintro ⟨e, i⟩ hm hte
  obtain ⟨g, hgi, htag, -⟩ :=
    exists_getElem?_of_forall₂ he (List.mk_mem_zipIdx_iff_getElem?.1 hm)
  refine hu g (List.mem_of_getElem? hgi) ?_
  rw [← htag]
  simpa using hte

theorem Definition.Tagged.set_map (ht : d.Tagged) {i : Nat} {f : Field}
    (hf : d.fields[i]? = some f) (values : UInt32 → Option Value) (v : Value) :
    (d.fields.map fun g => values g.value).set i (some v)
      = d.fields.map fun g => if f.value = g.value then some v else values g.value := by
  refine List.ext_getElem? fun j => ?_
  have hlt : i < d.fields.length := (List.getElem?_eq_some_iff.1 hf).1
  rw [List.getElem?_set, List.getElem?_map, List.getElem?_map, List.length_map, if_pos hlt]
  split_ifs with hij
  · subst hij
    simp [hf]
  · rcases hg : d.fields[j]? with _ | g
    · rfl
    · have hne : f.value ≠ g.value := by
        refine fun hfg => hij ((List.getElem?_inj (by simpa using hlt) ht.nodup).1 ?_)
        rw [List.getElem?_map, List.getElem?_map, hf, hg, Option.map_some, Option.map_some, hfg]
      simp [hne]

namespace RecordDecoding

/-- The loop reads the fields that come next, each into its place. -/
theorem runTagged_items (ht : d.Tagged) (he : Forall₂ (TaggedDecoding.For s) es d.fields)
    {last room : Nat} : ∀ {items : List (Field × Value)} (values : UInt32 → Option Value)
    {r : Reader}, (∀ x ∈ items, d.Knows x.1 ∧ s.ReadsBack call x.2 x.1.ty) →
    s.wireTagged items <+: r.rest → r.pos + (s.wireTagged items).length ≤ last →
      runTagged call es last (room + items.length) (d.fields.map fun f => values f.value) r
        = runTagged call es last room
          (d.fields.map fun f => (s.lastOf items f.value).or (values f.value))
          (r.advance (s.wireTagged items).length)
  | [], values, r, _, _, _ => rfl
  | (f, v) :: items, values, r, hi, hr, hl => by
    obtain ⟨⟨g, hg, hgf, hty⟩, hv⟩ : d.Knows f ∧ s.ReadsBack call v f.ty :=
      hi (f, v) List.mem_cons_self
    obtain ⟨e, i, hfind, hfor, hgi⟩ := TaggedDecoding.find?_tag ht he hg
    have h0 : f.value.toUInt8 ≠ 0 := hgf ▸ ht.toUInt8_ne_zero hg
    rw [hgf] at hfind
    rw [hty] at hfor
    simp only [Schema.wireTagged_cons, List.length_cons, List.length_append,
      List.cons_append] at hr hl ⊢
    have htag : Reader.tag last r = (.ok f.value.toUInt8, r.advance 1) := by
      refine Reader.tag_eq_ok.2 ⟨by omega, Reader.byte_reads _ r ?_⟩
      exact (List.prefix_append [f.value.toUInt8] _).trans hr
    have hr₁ : s.wire v f.ty ++ s.wireTagged items <+: (r.advance 1).rest :=
      Reader.prefix_advance (show [f.value.toUInt8] ++ _ <+: _ from hr)
    have hval := hv e.decoding hfor _ ((List.prefix_append _ _).trans hr₁)
    rw [← Nat.add_assoc, runTagged_field htag h0 hfind, run_bind_of_ok hval,
      ht.set_map hgi values, hgf]
    have hl' : ((r.advance 1).advance (s.wire v f.ty).length).pos + (s.wireTagged items).length
        ≤ last := by
      simp only [Reader.pos_advance]
      omega
    have hlast : ∀ t, (s.lastOf ((f, v) :: items) t).or (values t)
        = (s.lastOf items t).or (if f.value = t then some (s.prune v f.ty) else values t) := by
      intro t
      rw [Schema.lastOf_cons, Option.or_assoc]
      split_ifs <;> rfl
    rw [runTagged_items ht he (fun t => if f.value = t then some (s.prune v f.ty) else values t)
      (fun x hx => hi x (List.mem_cons_of_mem _ hx)) (Reader.prefix_advance hr₁) hl',
      Reader.advance_advance, Reader.advance_advance, Nat.add_comm 1]
    simp only [hlast]

/-- The loop ends at the end of the message. -/
theorem runTagged_ends (he : Forall₂ (TaggedDecoding.For s) es d.fields) {tail : List UInt8}
    (htail : d.Ends tail) {last room : Nat} {values : List (Option Value)} {r : Reader}
    (hr : tail <+: r.rest) (hl : r.pos + tail.length = last) :
    runTagged call es last (room + 1) values r = (.ok values, r.advance tail.length) := by
  have hle := Reader.le_remaining hr
  cases htail with
  | terminator =>
    refine runTagged_stop (Reader.tag_eq_ok.2 ⟨?_, Reader.byte_reads 0 r hr⟩)
    rw [← hl]
    exact Nat.lt_succ_self _
  | @unknown t h0 hu bs =>
    rw [List.length_cons] at hl hle
    rw [Reader.remaining] at hle
    have ht := Reader.byte_reads t r ((List.prefix_append [t] bs).trans hr)
    rw [runTagged_skip (Reader.tag_eq_ok.2 ⟨by omega, ht⟩) h0 (TaggedDecoding.find?_eq_none he hu)
      (by omega), show last - r.pos = bs.length + 1 by omega, List.length_cons]

/-- A frame gives for each field the last value behind its tag, and is read to its end. -/
theorem run_frame (ht : d.Tagged) (he : Forall₂ (TaggedDecoding.For s) es d.fields)
    {items : List (Field × Value)} {tail : List UInt8}
    (hi : ∀ x ∈ items, d.Knows x.1 ∧ s.ReadsBack call x.2 x.1.ty) (htail : d.Ends tail)
    (hn : (s.wireTagged items ++ tail).length < 2 ^ 32) :
    Reads ((message es).run call)
      (littleEndian 4 (s.wireTagged items ++ tail).length ++ (s.wireTagged items ++ tail))
      (.message (d.fields.map fun f => s.lastOf items f.value)) := by
  intro r hr
  generalize hdef : (s.wireTagged items ++ tail).length = n at hn hr ⊢
  have hsum : (s.wireTagged items).length + tail.length = n := by rw [← List.length_append, hdef]
  have hitems := s.length_le_wireTagged items
  have hle := Reader.le_remaining hr
  rw [List.length_append, length_littleEndian, hdef, Reader.remaining] at hle
  have hlength : Reader.length r = (.ok n, r.advance 4) := by
    have := Reader.length_reads hn r ((List.prefix_append _ _).trans hr)
    rwa [length_littleEndian] at this
  have hend : Reader.frameEnd r = (.ok (r.pos + 4 + n), r.advance 4) :=
    Reader.frameEnd_eq_ok.2 ⟨n, hlength, rfl, by simp only [Reader.size_advance]; omega⟩
  have hbody : s.wireTagged items ++ tail <+: (r.advance 4).rest := by
    have := Reader.prefix_advance hr
    rwa [length_littleEndian] at this
  have hloop : runTagged call es (r.pos + 4 + n) (n - items.length + 1 + items.length)
      (es.map fun _ => none) (r.advance 4)
        = (.ok (d.fields.map fun f => s.lastOf items f.value), r.advance (4 + n)) := by
    have hnone : (es.map fun _ => none) = d.fields.map fun _ => (none : Option Value) := by
      rw [List.map_const', List.map_const', he.length_eq]
    rw [hnone, runTagged_items ht he (fun _ => none) hi ((List.prefix_append _ _).trans hbody)
      (by rw [Reader.pos_advance]; omega), runTagged_ends he htail (Reader.prefix_advance hbody)
      (by simp only [Reader.pos_advance]; omega), Reader.advance_advance, Reader.advance_advance,
      hsum]
    simp only [Option.or_none]
  have hroom : r.pos + 4 + n - (r.advance 4).pos + 1 = n - items.length + 1 + items.length := by
    rw [Reader.pos_advance]
    omega
  show (Decode.ofRead Reader.frameEnd >>= fun last => get >>= fun q => _) r = _
  rw [run_bind_of_ok (run_ofRead_of_ok hend), run_get, hroom, run_bind_of_ok hloop, run_pure,
    List.length_append, length_littleEndian, hdef]

end RecordDecoding

end Frame

end SchemaCodec

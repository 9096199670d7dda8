import SchemaCodec.Proofs.RoundTrip
import SchemaCodec.Proofs.Validity

/-!
# Fields in any order

The encoder writes the fields of a message in the order of the definition, each at most once, and
no deprecated one. The decoder asks for none of that: a frame of fields in any order gives for each
field the last value behind its tag (`Program.decode_last_wins`). So the order does not matter
where no tag comes twice (`Schema.lastOf_perm`), and what comes behind a tag that is not known does
not matter at all.
-/

namespace SchemaCodec

open Wire

variable {s : Schema}

namespace Schema

/-- A message on the wire: the length of what follows, fields behind their tags, and an end. -/
def frame (s : Schema) (items : List (Field × Value)) (tail : List UInt8) : List UInt8 :=
  littleEndian 4 (s.wireTagged items ++ tail).length ++ (s.wireTagged items ++ tail)

/-- Where no tag comes twice, the order of the fields does not matter. -/
theorem lastOf_perm {items items' : List (Field × Value)}
    (hn : (items.map (·.1.value)).Nodup) (h : items'.Perm items) (tag : UInt32) :
    s.lastOf items' tag = s.lastOf items tag := by
  have hn' : (items'.map (·.1.value)).Nodup := (h.map _).nodup_iff.2 hn
  refine Option.ext fun u => ?_
  rw [lastOf_eq_some_iff hn, lastOf_eq_some_iff hn']
  simp only [h.mem_iff]

theorem length_wireTagged_perm {items items' : List (Field × Value)} (h : items'.Perm items) :
    (s.wireTagged items').length = (s.wireTagged items).length :=
  (h.flatMap_right _).length_eq

end Schema

/-- Fields of a message, each with a value of its type whose lengths fit four bytes. -/
def Definition.Carries (s : Schema) (d : Definition) (items : List (Field × Value)) : Prop :=
  ∀ x ∈ items, x.1 ∈ d.fields ∧ s.HasTy x.2 x.1.ty ∧ s.Fits x.2 x.1.ty

/-- A frame of fields in any order gives the last value behind each tag. -/
theorem Program.decode_frame {p : Program} (hp : p.Implements s) {name : String} {d : Definition}
    (hd : s.get? name = some d) (hk : d.kind = .message) {items : List (Field × Value)}
    {tail : List UInt8} (hi : d.Carries s items) (htail : d.Ends tail)
    (hn : (s.wireTagged items ++ tail).length < 2 ^ 32) :
    Reads (p.decode name) (s.frame items tail)
      (.message (d.fields.map fun f => s.lastOf items f.value)) := by
  obtain ⟨es, hes, ht, hdec⟩ := decode_message hp hd hk
  rw [hdec]
  refine RecordDecoding.run_frame ht hes (fun x hx => ?_) htail hn
  obtain ⟨hf, hv, hfits⟩ := hi x hx
  exact ⟨⟨x.1, hf, rfl, rfl⟩, Decoding.reads_wire hp hv hfits⟩

/-- Whatever stands before and behind it in a stream, a frame of fields of a message, in any order
and any number of times, deprecated ones included, is read to its end, and gives for each field
the last value behind its tag. The fields end at a zero byte, or at a tag that is not known with
anything behind it. -/
theorem Program.decode_last_wins (h : s.Accepted) :
    ∃ p, ofSchema? s = .ok p ∧ ∀ name d, s.get? name = some d → d.kind = .message →
      (∀ f ∈ d.fields, ∀ runtime operand depth, ∃ e,
        Encoding.ofTy? ⟨s, runtime⟩ operand depth f.ty = .ok e ∧ ∀ v, s.HasTy v f.ty →
          ∀ w : Writer, e.run p.encode? v w = some (w.append (s.wire v f.ty)))
      ∧ ∀ items tail, d.Carries s items → d.Ends tail →
        (s.wireTagged items ++ tail).length < 2 ^ 32 →
          Reads (p.decode name) (s.frame items tail)
            (.message (d.fields.map fun f => s.lastOf items f.value))
          ∧ ((items.map (·.1.value)).Nodup → ∀ items', items'.Perm items →
            Reads (p.decode name) (s.frame items' tail)
              (.message (d.fields.map fun f => s.lastOf items f.value))) := by
  obtain ⟨p, hp⟩ := Schema.accepted_iff.1 h
  have himp := implements hp
  refine ⟨p, hp, fun name d hd hk => ⟨fun f hf runtime operand depth => ?_, ?_⟩⟩
  · have ht := (Schema.accepted_iff_valid.1 h).admits_field hd (by rw [hk]; rfl) hf
    obtain ⟨e, he⟩ : ∃ e, Encoding.ofTy? ⟨s, runtime⟩ operand depth f.ty = .ok e :=
      ht.exists_encoding operand depth
    exact ⟨e, he, fun v hv => Encoding.run_eq himp hv e (Encoding.for_of_ofTy? he)⟩
  · intro items tail hi htail hn
    refine ⟨decode_frame himp hd hk hi htail hn, fun hnodup items' hperm => ?_⟩
    have hlast : ∀ tag, s.lastOf items' tag = s.lastOf items tag := Schema.lastOf_perm hnodup hperm
    have hi' : d.Carries s items' := fun x hx => hi x (hperm.subset hx)
    have hn' : (s.wireTagged items' ++ tail).length < 2 ^ 32 := by
      rwa [List.length_append, Schema.length_wireTagged_perm hperm, ← List.length_append]
    simpa only [hlast] using decode_frame himp hd hk hi' htail hn'

namespace Parcel

def label : Field where
  name := "label"
  ty := .scalar .string
  value := 1

def weight : Field where
  name := "weight"
  ty := .scalar .uint16
  value := 2
  deprecated := some {}

def inside : Field where
  name := "inside"
  ty := .array (.defined "Parcel")
  value := 3

def definition : Definition where
  name := "Parcel"
  kind := .message
  fields := [label, weight, inside]

/-- The fields of a parcel backwards, with a weight. -/
def backwards : List (Field × Value) :=
  [(inside, .array [empty]), (weight, .atom (.uint16 7)), (label, .atom (.string "a"))]

/-- The fields of a parcel with two labels. -/
def relabelled : List (Field × Value) :=
  backwards ++ [(label, .atom (.string "b"))]

def record (name : String) : Value :=
  .message [some (.atom (.string name)), some (.atom (.uint16 7)), some (.array [empty])]

theorem carries_relabelled : definition.Carries schema relabelled := by
  have hlabel : ∀ x : String, x.toUTF8.size < 2 ^ 32 → label ∈ definition.fields
      ∧ schema.HasTy (.atom (.string x)) label.ty ∧ schema.Fits (.atom (.string x)) label.ty :=
    fun x hx => ⟨by simp [definition], .scalar rfl, hx⟩
  have hinside : schema.HasTy (.array [empty]) inside.ty := by
    refine .array fun v hv => ?_
    obtain rfl := List.mem_singleton.1 hv
    exact hasTy_empty
  intro x hx
  simp only [relabelled, backwards, List.cons_append, List.nil_append, List.mem_cons,
    List.not_mem_nil, or_false] at hx
  rcases hx with rfl | rfl | rfl | rfl
  · refine ⟨by simp [definition], hinside, ?_⟩
    exact ⟨by decide, ⟨by decide +kernel, trivial⟩, trivial⟩
  · exact ⟨by simp [definition], .scalar rfl, trivial⟩
  · exact hlabel "a" (by decide +kernel)
  · exact hlabel "b" (by decide +kernel)

/-- A parcel is read from its fields in any order. The second label takes the place of the first,
and the weight is read although no encoder writes it. -/
theorem read_in_any_order : schema.Accepted ∧ definition.Carries schema relabelled
    ∧ ∃ p, Program.ofSchema? schema = .ok p
      ∧ Reads (p.decode "Parcel") (schema.frame relabelled [9, 1, 255]) (record "b")
      ∧ Reads (p.decode "Parcel") (schema.frame backwards.reverse [0]) (record "a") := by
  refine ⟨accepted, carries_relabelled, ?_⟩
  obtain ⟨p, hp, hm⟩ := Program.decode_last_wins accepted
  obtain ⟨-, hreads⟩ := hm "Parcel" definition rfl rfl
  have hends : definition.Ends [9, 1, 255] := .unknown (by decide) (by decide) _
  have hcarries : definition.Carries schema backwards := fun x hx =>
    carries_relabelled x (List.mem_append_left _ hx)
  obtain ⟨hb, -⟩ := hreads relabelled _ carries_relabelled hends (by decide +kernel)
  obtain ⟨-, ha⟩ := hreads backwards _ hcarries .terminator (by decide +kernel)
  exact ⟨p, hp, hb, ha (by decide) _ backwards.reverse_perm⟩

end Parcel

end SchemaCodec

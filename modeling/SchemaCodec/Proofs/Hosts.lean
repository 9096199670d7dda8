import SchemaCodec.Proofs.Encoder
import SchemaCodec.Proofs.Recency
import SchemaCodec.Proofs.RoundTrip

/-!
# Decoding into a host

A record can be decoded into a type that holds it beside parts of its own. A fresh value of the
type comes from a cache that all such types share, but the cache gives for a key what would be made
for it at any time (`Cache.Remembers.construct_fst`), so the decoder is the plain one with the
record put into a fresh value (`Program.decodeInto_of_ok`). The cache is asked only when there is a
record to put.
-/

namespace SchemaCodec

namespace Program

variable {κ τ : Type} [DecidableEq κ]

/-- The record can be taken out of the fresh value, and nothing else of it changes when another
record is put in. -/
structure Host.Embeds (h : Host τ) (record : τ → Value) : Prop where
  record_withRecord : ∀ v, record (h.withRecord h.fresh v) = v
  withRecord_record : h.withRecord h.fresh (record h.fresh) = h.fresh
  withRecord_withRecord : ∀ u v,
    h.withRecord (h.withRecord h.fresh u) v = h.withRecord h.fresh v

variable {p : Program} {name : String} {host : κ → Host τ} {key : κ} {cache : Cache κ (Host τ)}
  {r r' : Reader}

theorem decodeInto_of_error {e : Halt} (h : p.decode name r = (.error e, r')) :
    p.decodeInto name host key cache r = (.error e, r', cache) := by
  rw [decodeInto, h]

theorem decodeInto_of_ok {ks : List κ} {v : Value} (hc : cache.Remembers host ks)
    (h : p.decode name r = (.ok v, r')) : p.decodeInto name host key cache r
      = (.ok ((host key).withRecord (host key).fresh v), r', (cache.construct host key).2) := by
  have hhost := hc.construct_fst key
  rw [decodeInto, h]
  show (Except.ok ((cache.construct host key).1.withRecord (cache.construct host key).1.fresh v),
    r', (cache.construct host key).2) = _
  rw [hhost]

theorem decodeBytesInto_fst {ks : List κ} (hc : cache.Remembers host ks) (bytes : Bytes) :
    (p.decodeBytesInto name host key cache bytes).1
      = (p.decodeBytes name bytes).map ((host key).withRecord (host key).fresh) := by
  rw [decodeBytesInto, decodeBytes]
  rcases h : p.decode name ⟨bytes, 0⟩ with ⟨e | v, r'⟩
  · rw [decodeInto_of_error h]
    rfl
  · rw [decodeInto_of_ok hc h]
    rfl

/-- Whatever the cache was used for before, a record is decoded into a host exactly when it is
decoded, with the same error if it is not, and the reader goes to the same place. What comes out is
the fresh value of that host with the record in it and nothing else changed; it is the record where
the host is nothing but the record. Without a record the cache is left alone, otherwise the key of
the host comes to its front. The beginning of some bytes is decoded in the same way. -/
theorem decodeInto_after (p : Program) (name : String) (host : κ → Host τ) (key : κ)
    (capacity : Nat) (calls : List (Cache.Call κ)) (r : Reader) (bytes : Bytes) :
    let cache := (Cache.empty capacity).after host Host.fresh calls
    let x := p.decodeInto name host key cache r
    (∀ e r', p.decode name r = (.error e, r') → x = (.error e, r', cache))
    ∧ (∀ v r', p.decode name r = (.ok v, r') → ∃ t cache', x = (.ok t, r', cache')
      ∧ t = (host key).withRecord (host key).fresh v
      ∧ (∀ record, (host key).Embeds record →
        record t = v ∧ (host key).withRecord t (record (host key).fresh) = (host key).fresh)
      ∧ (∀ own : Value → τ, (∀ u w, (host key).withRecord u w = own w) → t = own v)
      ∧ cache' = (Cache.empty capacity).after host Host.fresh (calls ++ [.construct key])
      ∧ cache'.capacity = cache.capacity
      ∧ cache'.keys = if key ∈ cache.keys then key :: cache.keys.erase key
        else if cache.size < cache.capacity then key :: cache.keys
        else key :: cache.keys.dropLast)
    ∧ (p.decodeBytesInto name host key cache bytes).1
      = (p.decodeBytes name bytes).map ((host key).withRecord (host key).fresh)
    ∧ (p.decodeBytesInto name host key cache bytes).2
      = (p.decodeInto name host key cache ⟨bytes, 0⟩).2.2 := by
  intro cache x
  obtain ⟨-, hcache⟩ := Cache.remembers_after host Host.fresh capacity calls
  refine ⟨fun e r' h => decodeInto_of_error h, fun v r' h => ?_, decodeBytesInto_fst hcache bytes,
    rfl⟩
  refine ⟨_, _, decodeInto_of_ok hcache h, rfl, fun record hrecord => ⟨?_, ?_⟩,
    fun own hown => hown _ v, ?_, Cache.capacity_construct cache host key,
    Cache.keys_construct_cases hcache.size_le host key⟩
  · exact hrecord.record_withRecord v
  · rw [hrecord.withRecord_withRecord, hrecord.withRecord_record]
  · rw [Cache.after_concat]
    rfl

end Program

namespace Parcel

/-- A parcel with a note on it. -/
def noted (note : String) : Program.Host (Value × String) where
  fresh := (empty, note)
  withRecord n v := (v, n.2)

theorem noted_embeds (note : String) : (noted note).Embeds Prod.fst :=
  ⟨fun _ => rfl, rfl, fun _ _ => rfl⟩

/-- A parcel and nothing else. -/
def alone : Program.Host Value where
  fresh := empty
  withRecord _ v := v

/-- A parcel is read behind a new note, which takes the place of the older of two, and as itself
where there is no note. There is no parcel in no bytes. -/
theorem read_behind_note : ∃ p v, Program.ofSchema? schema = .ok p
    ∧ p.decode "Parcel" ⟨bytes.toArray, 0⟩ = (.ok v, ⟨bytes.toArray, 21⟩)
    ∧ (p.decodeInto "Parcel" (fun () => alone) () (Cache.empty 16) ⟨bytes.toArray, 0⟩).1 = .ok v
    ∧ let cache := (Cache.empty 2).after noted Program.Host.fresh
        [.construct "old", .construct "new", .contains "old"]
      (∃ cache', p.decodeInto "Parcel" noted "now" cache ⟨bytes.toArray, 0⟩
          = (.ok (v, "now"), ⟨bytes.toArray, 21⟩, cache')
        ∧ cache'.keys = ["now", "new"])
      ∧ p.decodeInto "Parcel" noted "now" cache ⟨#[], 0⟩
        = (.error (.failed (.unexpectedEnd 0 4 0)), ⟨#[], 0⟩, cache) := by
  obtain ⟨p, hp⟩ := Schema.accepted_iff.1 accepted
  have himp := Program.implements hp
  have hrest : (Reader.mk bytes.toArray 0).rest = schema.wire value (.defined "Parcel") :=
    wire_eq.symm
  have hfor : (Decoding.record "x" "Parcel").For schema (.defined "Parcel") := .record rfl rfl
  have hrun := Decoding.reads_wire himp hasTy fits _ hfor ⟨bytes.toArray, 0⟩
    (hrest ▸ List.prefix_rfl)
  rw [wire_eq] at hrun
  refine ⟨p, _, hp, hrun, ?_, ?_⟩
  · obtain ⟨-, hok, -⟩ := Program.decodeInto_after p "Parcel" (fun () => alone) () 16 []
      ⟨bytes.toArray, 0⟩ #[]
    obtain ⟨v, _, hx, -, -, hown, -⟩ := hok _ _ hrun
    exact (congrArg Prod.fst hx).trans (congrArg Except.ok (hown id fun _ _ => rfl))
  intro cache
  obtain ⟨-, hok, -⟩ := Program.decodeInto_after p "Parcel" noted "now" 2
    [.construct "old", .construct "new", .contains "old"] ⟨bytes.toArray, 0⟩ #[]
  obtain ⟨herror, -⟩ := Program.decodeInto_after p "Parcel" noted "now" 2
    [.construct "old", .construct "new", .contains "old"] ⟨#[], 0⟩ #[]
  constructor
  · obtain ⟨⟨v, note⟩, cache', hx, -, hembeds, -, -, -, hkeys⟩ := hok _ _ hrun
    obtain ⟨hrecord, hnote⟩ := hembeds Prod.fst (noted_embeds "now")
    cases hrecord
    cases hnote
    exact ⟨cache', hx, hkeys⟩
  · obtain ⟨es, -, -, hdecode⟩ :=
      Program.decode_message himp (show schema.get? "Parcel" = some _ from rfl) rfl
    refine herror _ _ ?_
    rw [hdecode]
    rfl

end Parcel

end SchemaCodec

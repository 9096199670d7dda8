import SchemaCodec.Proofs.Confinement
import SchemaCodec.Proofs.Termination

/-!
# The check of a count

An array and a map begin with a count, which is checked against what is left of the input before
any element is read. `Program.unchecked` is the program that reads the counts and checks none of
them: a check against elements of no size lets every count through (`Reader.count_zero`).

The check decides nothing but the error. What passes it is read as it is without it
(`Decoding.gives_unchecked`). Conversely, the elements that are read without it take at least the
smallest size each (`Decoding.For.moves`), so there was room for all of them, and the check passes
(`Decoding.gives_checked`).
-/

namespace SchemaCodec

open List (Forall₂)

/-! ## Statements that do not check -/

namespace Decoding

/-- The statement without the checks of its counts. -/
def unchecked : Decoding → Decoding
  | .array binding length item itemType _ element =>
    .array binding length item itemType 0 element.unchecked
  | .map binding length keyName valueName keyType valueType _ key value =>
    .map binding length keyName valueName keyType valueType 0 key value.unchecked
  | d => d

theorem eq_record_of_unchecked {d : Decoding} {binding name : String}
    (h : d.unchecked = .record binding name) : d = .record binding name := by
  cases d <;> simp_all [unchecked]

theorem callee?_unchecked : ∀ d : Decoding, d.unchecked.callee? = d.callee?
  | .atom _ _ | .bytes _ | .record _ _ => rfl
  | .array _ _ _ _ _ element => element.callee?_unchecked
  | .map _ _ _ _ _ _ _ _ value => value.callee?_unchecked

end Decoding

def TaggedDecoding.unchecked (e : TaggedDecoding) : TaggedDecoding :=
  { e with decoding := e.decoding.unchecked }

namespace RecordDecoding

def unchecked : RecordDecoding → RecordDecoding
  | struct ds => .struct (ds.map fun x => (x.1, x.2.unchecked))
  | message es => .message (es.map TaggedDecoding.unchecked)

theorem callees_unchecked (e : RecordDecoding) : e.unchecked.callees = e.callees := by
  cases e <;> simp only [unchecked, callees, List.filterMap_map] <;>
    exact List.filterMap_congr fun x _ => Decoding.callee?_unchecked _

theorem Grounded.unchecked {s : Schema} {d : Definition} {e : RecordDecoding}
    (h : e.Grounded s d) : e.unchecked.Grounded s d := by
  cases h with
  | message => exact .message
  | struct hk hself h =>
    refine .struct hk hself fun x hx binding name hname => ?_
    obtain ⟨y, hy, rfl⟩ := List.mem_map.1 hx
    exact h y hy binding name (Decoding.eq_record_of_unchecked hname)

end RecordDecoding

def RecordItem.unchecked (i : RecordItem) : RecordItem :=
  { i with decoding := i.decoding.unchecked }

def Item.unchecked : Item → Item
  | .enum e => .enum e
  | .record i => .record i.unchecked

namespace Program

/-- The program whose decoders read the counts of arrays and maps and do not check them. -/
def unchecked (p : Program) : Program :=
  { p with items := p.items.map Item.unchecked }

variable {p : Program} {s : Schema}

theorem record?_unchecked (p : Program) (name : String) :
    p.unchecked.record? name = (p.record? name).map RecordItem.unchecked := by
  have hname : ∀ i : Item, i.unchecked.definition = i.definition := by
    rintro (_ | _) <;> rfl
  simp only [record?, item?, unchecked, List.find?_map, Function.comp_def, hname]
  generalize p.items.find? (·.definition.name == name) = item
  rcases item with _ | _ | _ <;> rfl

theorem exists_of_record?_unchecked {name : String} {j : RecordItem}
    (h : p.unchecked.record? name = some j) :
    ∃ i, p.record? name = some i ∧ j.decoding = i.decoding.unchecked := by
  rw [record?_unchecked, Option.map_eq_some_iff] at h
  obtain ⟨i, hi, rfl⟩ := h
  exact ⟨i, hi, rfl⟩

theorem Grounded.unchecked (hp : p.Grounded s) : p.unchecked.Grounded s := by
  refine ⟨by rw [Program.unchecked, List.length_map, hp.length], fun {name j} hj => ?_⟩
  obtain ⟨i, hi, hij⟩ := exists_of_record?_unchecked hj
  obtain ⟨d, hd, he⟩ := hp.defined hi
  exact ⟨d, hd, hij ▸ he.unchecked⟩

theorem Closed.unchecked (hp : p.Closed) : p.unchecked.Closed := by
  intro name j hj b hb
  obtain ⟨i, hi, hij⟩ := exists_of_record?_unchecked hj
  rw [hij, RecordDecoding.callees_unchecked] at hb
  rw [record?_unchecked, Option.isSome_map]
  exact hp hi b hb

end Program

/-! ## Runs that give what others give -/

section Gives

variable {α β : Type}

/-- Where the first run gives a value, so does the second, and goes as far. -/
def Gives (x y : Decode α) : Prop :=
  ∀ r a r', x r = (.ok a, r') → y r = (.ok a, r')

namespace Gives

variable {x y : Decode α} {f g : α → Decode β}

theorem refl (x : Decode α) : Gives x x :=
  fun _ _ _ h => h

theorem bind (hx : Gives x y) (hf : ∀ a, Gives (f a) (g a)) : Gives (x >>= f) (y >>= g) := by
  intro r b r'' h
  obtain ⟨a, r', ha, hb⟩ := run_bind_eq_ok.1 h
  rw [run_bind_of_ok (hx r a r' ha)]
  exact hf a r' b r'' hb

theorem bind_pure (hx : Gives x y) (g : α → β) :
    Gives (x >>= fun a => pure (g a)) (y >>= fun a => pure (g a)) :=
  hx.bind fun _ => refl _

theorem times (hx : Gives x y) : ∀ n, Gives (Decode.times x n) (Decode.times y n)
  | 0 => refl _
  | n + 1 => hx.bind fun a => (times hx n).bind_pure (a :: ·)

/-- A count that passes a check is read where there is none. -/
theorem drop_check {f g : Nat → Decode β} (k : Nat) (hf : ∀ n, Gives (f n) (g n)) :
    Gives (Decode.ofRead (Reader.count k) >>= f) (Decode.ofRead (Reader.count 0) >>= g) := by
  refine bind (fun r n r' h => ?_) hf
  rw [run_ofRead_eq_ok, Reader.count_eq_ok] at h ⊢
  exact ⟨h.1, by simp [Reader.needed, Wire.saturate]⟩

/-- A count passes the check if as many elements of the size are read behind it. -/
theorem add_check {x y : Decode α} {g : List α → β} {k : Nat} (hx : Gives x y) (hy : Moves k y) :
    Gives (Decode.ofRead (Reader.count 0) >>= fun n => Decode.times x n >>= fun as => pure (g as))
      (Decode.ofRead (Reader.count k) >>= fun n => Decode.times y n >>= fun as => pure (g as)) := by
  intro r b r'' h
  obtain ⟨n, r', hn, h⟩ := run_bind_eq_ok.1 h
  obtain ⟨as, r₁, has, h⟩ := run_bind_eq_ok.1 h
  have hys := hx.times n r' as r₁ has
  have hroom : n * k ≤ r'.remaining := by
    have := (hy.times n r' as r₁ hys).remaining_add_le
    omega
  rw [run_ofRead_eq_ok, Reader.count_eq_ok] at hn
  have hcount := Reader.count_eq_ok.2 ⟨hn.1, (Nat.min_le_left _ _).trans hroom⟩
  rw [run_bind_of_ok (run_ofRead_of_ok hcount), run_bind_of_ok hys]
  exact h

end Gives

end Gives

theorem Reader.count_zero : Reader.count 0 = Reader.length := by
  funext r
  rcases h : Reader.length r with ⟨e | n, r'⟩
  · rw [Reader.count, run_get, run_bind_of_error h]
  · exact count_eq_ok.2 ⟨h, by simp [needed, Wire.saturate]⟩

/-- A product that stops at the largest number of 64 bits is too large exactly when the product
itself is: no input has as many bytes as that number. -/
theorem Reader.lt_needed_iff {r : Reader} (h : r.size < 2 ^ 64 - 1) (n k : Nat) :
    r.remaining < needed n k ↔ r.remaining < n * k := by
  unfold Reader.remaining needed Wire.saturate
  omega

/-! ## Decoders with and without the checks -/

variable {s : Schema} {p : Program} {call call' : DecodeCall}

namespace Decoding

theorem gives_unchecked (h : ∀ name, Gives (call name) (call' name)) :
    ∀ d : Decoding, Gives (d.run call) (d.unchecked.run call')
  | .atom _ _ | .bytes _ => .refl _
  | .record _ name => h name
  | .array _ _ _ _ minSize element =>
    .drop_check minSize fun n => ((gives_unchecked h element).times n).bind_pure _
  | .map _ _ _ _ _ _ minSize key value =>
    .drop_check minSize fun n => Gives.bind_pure (Gives.times (x := entry call key value)
      (y := entry call' key value.unchecked)
      (.bind (.refl _) fun k => (gives_unchecked h value).bind_pure fun v => (k, v)) n) _

/-- A value that is read takes at least the smallest size of its type. -/
theorem For.moves (hp : p.Implements s) {d : Decoding} {t : Ty} (hd : d.For s t) :
    Moves (s.minWireSize t) (d.run p.decode) := by
  intro r v r' h
  obtain ⟨n, hn, hx⟩ := Decoding.confined hd h fun name r₁ _ => Program.confined hp (name, r₁)
  have hrun := h.symm.trans hx.run
  cases hrun
  exact ⟨n, hn.minWireSize_le, hx.le, rfl⟩

theorem gives_checked (hp : p.Implements s) (h : ∀ name, Gives (call name) (p.decode name))
    {d : Decoding} {t : Ty} (hd : d.For s t) :
    Gives (d.unchecked.run call) (d.run p.decode) := by
  induction hd with
  | scalar => exact .refl _
  | enum => exact .refl _
  | bytes => exact .refl _
  | record => exact h _
  | array ht he ih => exact .add_check ih (he.moves hp)
  | @map b length k v keyType valueType kt t key e hk he ih =>
    refine .add_check (x := entry call key e.unchecked) (y := entry p.decode key e)
      (g := Value.mapOf) (.bind (.refl _) fun k => ih.bind_pure fun v => (k, v)) ?_
    exact hk.moves.bind fun k => (he.moves hp).bind_pure fun v => (k, v)

end Decoding

namespace RecordDecoding

/-- Two decoders of a record read the same fields behind the same tags. -/
inductive Alike (R : Decoding → Decoding → Prop) : RecordDecoding → RecordDecoding → Prop
  | struct {ds ds' : List (String × Decoding)} (h : Forall₂ (fun x y => R x.2 y.2) ds ds') :
    Alike R (.struct ds) (.struct ds')
  | message {es es' : List TaggedDecoding}
    (h : Forall₂ (fun x y => x.tag = y.tag ∧ R x.decoding y.decoding) es es') :
    Alike R (.message es) (.message es')

theorem alike_unchecked {R : Decoding → Decoding → Prop} (h : ∀ d, R d d.unchecked)
    (e : RecordDecoding) : Alike R e e.unchecked := by
  cases e with
  | struct ds =>
    refine .struct ?_
    rw [List.forall₂_map_right_iff, List.forall₂_same]
    exact fun x _ => h x.2
  | message es =>
    refine .message ?_
    rw [List.forall₂_map_right_iff, List.forall₂_same]
    exact fun x _ => ⟨rfl, h x.decoding⟩

theorem For.unchecked_alike {R : Decoding → Decoding → Prop} {d : Definition} {e : RecordDecoding}
    (he : e.For s d) (h : ∀ d t, d.For s t → R d.unchecked d) : Alike R e.unchecked e := by
  cases he with
  | struct _ _ he =>
    refine .struct ?_
    rw [List.forall₂_map_left_iff, List.forall₂_same]
    intro x hx
    obtain ⟨i, hi⟩ := List.getElem?_of_mem hx
    obtain ⟨f, -, hfor⟩ := exists_getElem?_of_forall₂ he hi
    exact h x.2 f.ty hfor
  | message _ _ he =>
    refine .message ?_
    rw [List.forall₂_map_left_iff, List.forall₂_same]
    intro x hx
    obtain ⟨i, hi⟩ := List.getElem?_of_mem hx
    obtain ⟨f, -, -, hfor⟩ := exists_getElem?_of_forall₂ he hi
    exact ⟨rfl, h x.decoding f.ty hfor⟩

theorem runFields_gives {ds ds' : List (String × Decoding)}
    (h : Forall₂ (fun x y => Gives (x.2.run call) (y.2.run call')) ds ds') :
    Gives (runFields call ds) (runFields call' ds') := by
  induction h with
  | nil => exact .refl _
  | cons hx _ ih => exact hx.bind fun v => ih.bind_pure (v :: ·)

theorem find?_tag_rel {R : Decoding → Decoding → Prop} {es es' : List TaggedDecoding}
    (h : Forall₂ (fun x y => x.tag = y.tag ∧ R x.decoding y.decoding) es es') (t : UInt8)
    (k : Nat) : Option.Rel (fun x y => x.2 = y.2 ∧ R x.1.decoding y.1.decoding)
      ((es.zipIdx k).find? (·.1.tag == t)) ((es'.zipIdx k).find? (·.1.tag == t)) := by
  induction h generalizing k with
  | nil => exact .none
  | @cons x y _ _ hxy _ ih =>
    rw [List.zipIdx_cons, List.zipIdx_cons, List.find?_cons, List.find?_cons]
    simp only [hxy.1]
    cases y.tag == t with
    | true => exact .some ⟨rfl, hxy.2⟩
    | false => exact ih (k + 1)

theorem runTagged_gives {es es' : List TaggedDecoding} {last : Nat}
    (h : Forall₂ (fun x y => x.tag = y.tag
      ∧ Gives (x.decoding.run call) (y.decoding.run call')) es es') :
    ∀ (room : Nat) (values : List (Option Value)),
      Gives (runTagged call es last room values) (runTagged call' es' last room values)
  | 0, _ => .refl _
  | room + 1, values => by
    refine .bind (.refl _) fun t => ?_
    split_ifs
    · exact .refl _
    · have hfind := find?_tag_rel
        (R := fun d d' => Gives (d.run call) (d'.run call')) h t 0
      generalize es.zipIdx.find? (·.1.tag == t) = found at hfind ⊢
      generalize es'.zipIdx.find? (·.1.tag == t) = found' at hfind ⊢
      cases hfind with
      | none => exact .refl _
      | some hxy =>
        obtain ⟨hij, hxy⟩ := hxy
        simp only [hij]
        exact hxy.bind fun v => runTagged_gives h room _

theorem run_gives {e e' : RecordDecoding}
    (h : Alike (fun d d' => Gives (d.run call) (d'.run call')) e e') :
    Gives (e.run call) (e'.run call') := by
  cases h with
  | struct h => exact (runFields_gives h).bind_pure _
  | @message es es' h =>
    refine .bind (.refl _) fun last r v r' hrun => ?_
    have hvalues : (es'.map fun _ => (none : Option Value)) = es.map fun _ => none := by
      rw [List.map_const', List.map_const', h.length_eq]
    rw [run_get] at hrun ⊢
    rw [hvalues]
    exact ((runTagged_gives h _ _).bind_pure _) r v r' hrun

end RecordDecoding

namespace Program

theorem decodeWithin_gives_unchecked (p : Program) : ∀ (n : Nat) (name : String),
    Gives (p.decodeWithin n name) (p.unchecked.decodeWithin n name)
  | 0, _ => .refl _
  | n + 1, name => by
    rw [decodeWithin, decodeWithin, record?_unchecked]
    rcases p.record? name with _ | i
    · exact .refl _
    · exact RecordDecoding.run_gives (RecordDecoding.alike_unchecked
        (Decoding.gives_unchecked (p.decodeWithin_gives_unchecked n)) i.decoding)

theorem unchecked_gives_decode (hp : p.Implements s) : ∀ (n : Nat) (name : String),
    Gives (p.unchecked.decodeWithin n name) (p.decode name)
  | 0, _ => fun _ _ _ h => nomatch h
  | n + 1, name => by
    intro r v r' h
    rw [decodeWithin, record?_unchecked] at h
    rcases hi : p.record? name with _ | i
    · rw [hi] at h
      cases h
    · rw [hi] at h
      obtain ⟨d, -, -, he⟩ := hp.defined hi
      rw [decode_eq hp.grounded hi]
      exact RecordDecoding.run_gives (he.unchecked_alike fun d t hd =>
        Decoding.gives_checked hp (unchecked_gives_decode hp n) hd) r v r' h

/-- Records are read to the same values, from the same bytes, with and without the checks. -/
theorem decode_unchecked_iff (hp : p.Implements s) (name : String) (r : Reader) (v : Value)
    (r' : Reader) : p.unchecked.decode name r = (.ok v, r') ↔ p.decode name r = (.ok v, r') := by
  constructor
  · intro h
    rw [decode, run_get] at h
    exact unchecked_gives_decode hp _ name r v r' h
  · intro h
    rw [decode, run_get] at h ⊢
    rw [unchecked, List.length_map]
    exact p.decodeWithin_gives_unchecked _ name r v r' h

/-- The checks of the counts decide nothing but the error: whatever is read, with them or without
them, is the same value from the same bytes, for the statements of every type and for the records
by themselves. Without them, decoding still comes to an end. A check compares with what the
elements need, although the product stops at the largest number of 64 bits. -/
theorem counts_need_no_check (h : s.Accepted) : ∃ p, ofSchema? s = .ok p
    ∧ Reader.count 0 = Reader.length
    ∧ (∀ name i, p.record? name = some i → ∀ r,
      p.unchecked.decode name r = i.decoding.unchecked.run p.unchecked.decode r
        ∧ Settles (p.unchecked.decode name r)
        ∧ ∀ v r', p.decode name r = (.ok v, r') ↔ p.unchecked.decode name r = (.ok v, r'))
    ∧ (∀ t, s.Admits t → ∀ runtime binding depth,
      ∃ d, Decoding.ofTy? ⟨s, runtime⟩ binding depth t = .ok d ∧ ∀ r,
        Settles (d.unchecked.run p.unchecked.decode r)
        ∧ ∀ v r', d.run p.decode r = (.ok v, r')
          ↔ d.unchecked.run p.unchecked.decode r = (.ok v, r'))
    ∧ ∀ r : Reader, r.size < 2 ^ 64 - 1 → ∀ n k,
      r.remaining < Reader.needed n k ↔ r.remaining < n * k := by
  obtain ⟨p, hp⟩ := Schema.accepted_iff.1 h
  have himp := implements hp
  have hsettles : ∀ name i, p.record? name = some i → ∀ r,
      Settles (p.unchecked.decode name r) := by
    intro name i hi r
    refine decode_settles himp.grounded.unchecked (Closed.unchecked himp.closed) ?_ r
    rw [record?_unchecked, hi]
    rfl
  refine ⟨p, hp, Reader.count_zero, fun name i hi r => ⟨?_, hsettles name i hi r, fun v r' =>
    (decode_unchecked_iff himp name r v r').symm⟩, fun t ht runtime binding depth => ?_,
    fun r hr n k => Reader.lt_needed_iff hr n k⟩
  · have hi' : p.unchecked.record? name = some i.unchecked := by
      rw [record?_unchecked, hi]
      rfl
    exact decode_eq himp.grounded.unchecked hi' r
  · obtain ⟨d, hd⟩ : ∃ d, Decoding.ofTy? ⟨s, runtime⟩ binding depth t = .ok d :=
      ht.exists_decoding binding depth
    have hfor := Decoding.for_of_ofTy? hd
    refine ⟨d, hd, fun r => ⟨d.unchecked.settles fun name r' hcall => ?_, fun v r' => ⟨?_, ?_⟩⟩⟩
    · have hcallee := hcall.callee?
      rw [Decoding.callee?_unchecked] at hcallee
      obtain ⟨d', hd', hk⟩ := hfor.callee? hcallee
      obtain ⟨i, hi, -⟩ := himp.record hd' hk
      exact hsettles name i hi r'
    · exact Decoding.gives_unchecked (fun name r v r' =>
        (decode_unchecked_iff himp name r v r').2) d r v r'
    · exact Decoding.gives_checked himp (fun name r v r' =>
        (decode_unchecked_iff himp name r v r').1) hfor r v r'

end Program

namespace Parcel

/-- A parcel that is read without a check of the count of the parcels in it. -/
theorem read_unchecked : schema.Accepted ∧ ∃ p v, Program.ofSchema? schema = .ok p
    ∧ p.decode "Parcel" ⟨bytes.toArray, 0⟩ = (.ok v, ⟨bytes.toArray, 21⟩)
    ∧ p.unchecked.decode "Parcel" ⟨bytes.toArray, 0⟩ = (.ok v, ⟨bytes.toArray, 21⟩)
    ∧ (nested.remaining < Reader.needed 4 4 ↔ nested.remaining < 4 * 4) := by
  obtain ⟨p, hp, -, hrecord, -, hneeded⟩ := Program.counts_need_no_check accepted
  have himp := Program.implements hp
  obtain ⟨i, hi, -⟩ := himp.record (show schema.get? "Parcel" = some _ from rfl) rfl
  have hrest : (Reader.mk bytes.toArray 0).rest = schema.wire value (.defined "Parcel") :=
    wire_eq.symm
  have hrun := Decoding.reads_wire himp hasTy fits (.record "x" "Parcel") (.record rfl rfl)
    ⟨bytes.toArray, 0⟩ (hrest ▸ List.prefix_rfl)
  rw [wire_eq] at hrun
  have hdecode := ((hrecord "Parcel" i hi ⟨bytes.toArray, 0⟩).2.2 _ _).1 hrun
  exact ⟨accepted, p, _, hp, hrun, hdecode, hneeded nested (by decide) 4 4⟩

end Parcel

end SchemaCodec

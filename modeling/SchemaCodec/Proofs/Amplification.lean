import SchemaCodec.Proofs.RoundTrip
import SchemaCodec.Proofs.SmallestValue
import SchemaCodec.Proofs.Steps

/-!
# Bytes bound elements

The counts of arrays and maps come from the input, but an input cannot claim more elements than it
has bytes for. `Schema.elements` counts the elements and entries in a value at any depth, except
those that take no bytes. Each of them pays for itself with a byte that no element inside it is
charged for: a value that is decoded costs a byte for each element in it, besides the smallest size
of its type (`Decoding.For.costs`). What is read and then replaced, by the same tag or the same key,
has been paid for as well.
-/

namespace SchemaCodec

open List (Forall₂)

variable {s : Schema} {p : Program}

namespace Schema

/-- How many elements count if each takes at least `size` bytes: all of them or none. -/
def counted (size n : Nat) : Nat :=
  if size = 0 then 0 else n

mutual

/-- The elements of arrays and the entries of maps in a value of a type, except for arrays and maps
whose elements take no bytes. -/
def elements (s : Schema) : Value → Ty → Nat
  | .array vs, .array t => counted (s.minWireSize t) vs.length + elementsOfItems s vs t
  | .map es, .map k t =>
    counted (s.minWireSize k + s.minWireSize t) es.length + elementsOfEntries s es t
  | .struct vs, .defined name => elementsOfFields s vs (s.fields name)
  | .message vs, .defined name => elementsOfPresent s vs (s.fields name)
  | _, _ => 0

def elementsOfItems (s : Schema) : List Value → Ty → Nat
  | [], _ => 0
  | v :: vs, t => elements s v t + elementsOfItems s vs t

def elementsOfEntries (s : Schema) : List (Atom × Value) → Ty → Nat
  | [], _ => 0
  | (_, v) :: es, t => elements s v t + elementsOfEntries s es t

def elementsOfFields (s : Schema) : List Value → List Field → Nat
  | v :: vs, f :: fs => elements s v f.ty + elementsOfFields s vs fs
  | _, _ => 0

def elementsOfPresent (s : Schema) : List (Option Value) → List Field → Nat
  | some v :: vs, f :: fs => elements s v f.ty + elementsOfPresent s vs fs
  | none :: vs, _ :: fs => elementsOfPresent s vs fs
  | _, _ => 0

end

theorem elements_atom (a : Atom) (t : Ty) : s.elements (.atom a) t = 0 := by
  cases t <;> simp [elements]

theorem elementsOfItems_eq (t : Ty) : ∀ vs : List Value,
    s.elementsOfItems vs t = (vs.map fun v => s.elements v t).sum
  | [] => rfl
  | v :: vs => by rw [elementsOfItems, elementsOfItems_eq t vs, List.map_cons, List.sum_cons]

theorem elementsOfEntries_eq (t : Ty) : ∀ es : List (Atom × Value),
    s.elementsOfEntries es t = (es.map fun e => s.elements e.2 t).sum
  | [] => rfl
  | (k, v) :: es => by
    rw [elementsOfEntries, elementsOfEntries_eq t es, List.map_cons, List.sum_cons]

theorem elementsOfPresent_none (s : Schema) : ∀ fs : List Field,
    s.elementsOfPresent (fs.map fun _ => none) fs = 0
  | [] => rfl
  | f :: fs => by rw [List.map_cons, elementsOfPresent, elementsOfPresent_none s fs]

/-- A value that takes the place of another one adds its own elements at most. -/
theorem elementsOfPresent_set (v : Value) : ∀ {vs : List (Option Value)} {fs : List Field} {i : Nat}
    {f : Field}, fs[i]? = some f →
      s.elementsOfPresent (vs.set i (some v)) fs ≤ s.elementsOfPresent vs fs + s.elements v f.ty
  | [], fs, i, f, _ => by rw [List.set_nil]; exact Nat.le_add_right _ _
  | _ :: _, [], _, _, h => by simp at h
  | o :: vs, g :: fs, 0, f, h => by
    obtain rfl : g = f := by simpa using h
    rw [List.set_cons_zero, elementsOfPresent]
    rcases o with _ | u <;> rw [elementsOfPresent] <;> omega
  | o :: vs, g :: fs, i + 1, f, h => by
    have ih : s.elementsOfPresent (vs.set i (some v)) fs
        ≤ s.elementsOfPresent vs fs + s.elements v f.ty :=
      elementsOfPresent_set v (by simpa using h)
    rw [List.set_cons_succ]
    rcases o with _ | u <;> rw [elementsOfPresent, elementsOfPresent] <;> omega

/-- Elements of some size pay for themselves. -/
theorem counted_le (size n : Nat) : counted size n ≤ n * size := by
  rw [counted]
  split_ifs with h
  · exact Nat.zero_le _
  · exact Nat.le_mul_of_pos_right n (Nat.pos_of_ne_zero h)

/-- What a value of a type pays for: the smallest size of the type, and the elements in it. -/
def price (s : Schema) (t : Ty) (v : Value) : Nat :=
  s.minWireSize t + s.elements v t

theorem elements_array_le (t : Ty) (vs : List Value) :
    s.elements (.array vs) (.array t) ≤ (vs.map (s.price t)).sum := by
  have hcount := counted_le (s.minWireSize t) vs.length
  have hsum : (vs.map (s.price t)).sum
      = vs.length * s.minWireSize t + (vs.map fun v => s.elements v t).sum := by
    rw [← List.sum_replicate_nat, ← List.map_const', ← List.sum_map_add]
    rfl
  rw [elements, elementsOfItems_eq, hsum]
  omega

end Schema

namespace Value

/-- An entry with the key of another one takes its place. -/
theorem sum_insertEntry_le (weight : Atom × Value → Nat) (k : Atom) (v : Value) :
    ∀ es : List (Atom × Value),
      ((insertEntry k v es).map weight).sum ≤ (es.map weight).sum + weight (k, v)
  | [] => by simp [insertEntry]
  | e :: es => by
    have ih := sum_insertEntry_le weight k v es
    rw [insertEntry]
    split_ifs
    · simp only [List.map_cons, List.sum_cons]
      omega
    · simp only [List.map_cons, List.sum_cons]
      omega

theorem sum_foldl_insertEntry_le (weight : Atom × Value → Nat) :
    ∀ entries es : List (Atom × Value),
      ((entries.foldl (fun es e => insertEntry e.1 e.2 es) es).map weight).sum
        ≤ (es.map weight).sum + (entries.map weight).sum
  | [], es => by simp
  | (k, v) :: entries, es => by
    have hstep := sum_insertEntry_le weight k v es
    have ih := sum_foldl_insertEntry_le weight entries (insertEntry k v es)
    simp only [List.foldl_cons, List.map_cons, List.sum_cons]
    omega

end Value

theorem Schema.elements_map_le (k t : Ty) (es : List (Atom × Value)) :
    s.elements (.map es) (.map k t) ≤ (es.map fun e => s.minWireSize k + s.price t e.2).sum := by
  have hcount := counted_le (s.minWireSize k + s.minWireSize t) es.length
  have hsum : (es.map fun e => s.minWireSize k + s.price t e.2).sum
      = es.length * (s.minWireSize k + s.minWireSize t)
        + (es.map fun e => s.elements e.2 t).sum := by
    rw [← List.sum_replicate_nat, ← List.map_const', ← List.sum_map_add]
    simp only [price, Nat.add_assoc]
  rw [elements, elementsOfEntries_eq, hsum]
  omega

theorem Schema.elements_mapOf_le (k t : Ty) (entries : List (Atom × Value)) :
    s.elements (.mapOf entries) (.map k t)
      ≤ (entries.map fun e => s.minWireSize k + s.price t e.2).sum := by
  have hkept := Value.sum_foldl_insertEntry_le
    (fun e => s.minWireSize k + s.price t e.2) entries []
  rw [List.map_nil, List.sum_nil, Nat.zero_add] at hkept
  exact (elements_map_le k t _).trans hkept

/-! ## What a value costs -/

section Costs

variable {α β γ : Type}

/-- A value costs at least as many bytes as it weighs. Where all weigh the same, this is
`Moves`. -/
def Costs (weight : α → Nat) (x : Decode α) : Prop :=
  ∀ r a r', x r = (.ok a, r') → r.Ahead (weight a) r'

namespace Costs

variable {x : Decode α} {y : Decode β} {f : α → Decode β} {u : α → Nat} {w : β → Nat}

theorem mono {u' : α → Nat} (hx : Costs u x) (h : ∀ a, u' a ≤ u a) : Costs u' x :=
  fun r a r' hr => (hx r a r' hr).mono (h a)

theorem throw (e : Halt) : Costs u (throw e) :=
  fun _ _ _ h => nomatch h

theorem ofRead {x : Read α} (h : ∀ r a r', x r = (.ok a, r') → r.Ahead (u a) r') :
    Costs u (Decode.ofRead x) :=
  fun r a r' hr => h r a r' (run_ofRead_eq_ok.1 hr)

theorem bind_pure (hx : Costs u x) {g : α → β} (h : ∀ a, w (g a) ≤ u a) :
    Costs w (x >>= fun a => pure (g a)) := by
  intro r b r' hr
  obtain ⟨a, r₁, ha, hb⟩ := run_bind_eq_ok.1 hr
  cases hb
  exact (hx r a _ ha).mono (h a)

/-- What is read first costs some bytes, whatever it is. -/
theorem behind {k : Nat} (hx : Moves k x) (hf : ∀ a, Costs w (f a)) :
    Costs (fun b => k + w b) (x >>= f) := by
  intro r b r' hr
  obtain ⟨a, r₁, ha, hb⟩ := run_bind_eq_ok.1 hr
  exact (hx r a r₁ ha).trans (hf a r₁ b r' hb)

/-- Both parts of what is read one after the other are paid for. -/
theorem pair (hx : Costs u x) (hy : Costs w y) {g : α → β → γ} {weight : γ → Nat}
    (h : ∀ a b, weight (g a b) ≤ u a + w b) :
    Costs weight (x >>= fun a => y >>= fun b => pure (g a b)) := by
  intro r c r' hr
  obtain ⟨a, r₁, ha, hr⟩ := run_bind_eq_ok.1 hr
  obtain ⟨b, r₂, hb, hc⟩ := run_bind_eq_ok.1 hr
  cases hc
  exact ((hx r a r₁ ha).trans (hy r₁ b _ hb)).mono (h a b)

theorem times (hx : Costs u x) : ∀ n, Costs (fun as => (as.map u).sum) (Decode.times x n)
  | 0 => by
    rintro r _ _ ⟨⟩
    exact .refl r
  | n + 1 => hx.pair (times hx n) fun a as => by rw [List.map_cons, List.sum_cons]

end Costs

end Costs

theorem Reader.byteArray_costs : Costs (fun bs => 4 + bs.length) (Decode.ofRead byteArray) := by
  refine .ofRead fun r bs r' h => ?_
  obtain ⟨n, r₁, hn, h⟩ := run_bind_eq_ok.1 h
  have h₁ := length_takesNext.moves r n r₁ hn
  by_cases hle : n ≤ r₁.remaining
  · rw [take_eq hle] at h
    cases h
    have hl : (r₁.rest.take n).length = n := by simp [hle]
    rw [hl]
    exact h₁.trans ⟨n, le_rfl, hle, rfl⟩
  · rw [take_of_lt (not_le.1 hle)] at h
    cases h

section Calls

variable {call : DecodeCall}

theorem AtomTy.For.costs {k : AtomTy} {t : Ty} (hk : k.For s t) (binding : String) :
    Costs (s.price t) ((Decoding.atom binding k).run call) := by
  have hread : Costs (fun _ => s.minWireSize t) (Decode.ofRead (Atom.read k)) := hk.moves
  exact hread.bind_pure fun a => by rw [Schema.price, Schema.elements_atom, Nat.add_zero]

theorem Schema.price_bytes_le (bs : List UInt8) : s.price (.array (.scalar .byte))
    (.array (bs.map fun x => .atom (.byte x))) ≤ 4 + bs.length := by
  have hsize : s.minWireSize (.array (.scalar .byte)) ≤ 4 := (Covers.array le_rfl).minWireSize_le
  have hcount : counted (s.minWireSize (.scalar .byte)) bs.length ≤ bs.length := by
    rw [counted]
    split_ifs
    · exact Nat.zero_le _
    · exact le_rfl
  have hitems : (bs.map fun x => s.elements (.atom (.byte x)) (.scalar .byte)).sum = 0 := by
    simp only [elements_atom, List.map_const', List.sum_replicate_nat, Nat.mul_zero]
  rw [price, elements, elementsOfItems_eq, List.length_map, List.map_map]
  simp only [Function.comp_def, hitems]
  omega

/-- A value that a statement reads pays for its elements if those of the calls do. -/
theorem Decoding.For.costs (hc : ∀ name, Costs (s.price (.defined name)) (call name))
    {d : Decoding} {t : Ty} (hd : d.For s t) : Costs (s.price t) (d.run call) := by
  induction hd with
  | @scalar b x => exact AtomTy.For.scalar.costs b
  | @enum b _ _ hd hk => exact (AtomTy.For.enum hd hk).costs b
  | record => exact hc _
  | bytes => exact Reader.byteArray_costs.bind_pure Schema.price_bytes_le
  | @array b length item itemType t e ht he ih =>
    have hsize : s.minWireSize (.array t) ≤ 4 := (Schema.Covers.array le_rfl).minWireSize_le
    refine (Costs.behind (Reader.count_moves _).ofRead fun n => ?_).mono fun v =>
      Nat.add_le_add_right hsize _
    exact (ih.times n).bind_pure (Schema.elements_array_le t)
  | @map b length k v keyType valueType kt t key e hk he ih =>
    have hsize : s.minWireSize (.map kt t) ≤ 4 := (Schema.Covers.map le_rfl).minWireSize_le
    refine (Costs.behind (Reader.count_moves _).ofRead fun n => ?_).mono fun v =>
      Nat.add_le_add_right hsize _
    have hkey : Costs (fun _ => s.minWireSize kt) (Decode.ofRead (Atom.read key)) := hk.moves
    have hentry : Costs (fun x : Atom × Value => s.minWireSize kt + s.price t x.2)
        (Decoding.entry call key e) :=
      hkey.pair ih fun _ _ => le_rfl
    exact (hentry.times n).bind_pure (Schema.elements_mapOf_le kt t)

namespace RecordDecoding

theorem runFields_costs (hc : ∀ name, Costs (s.price (.defined name)) (call name))
    {ds : List (String × Decoding)} {fs : List Field}
    (hd : Forall₂ (fun d f => d.2.For s f.ty) ds fs) :
    Costs (fun vs => (fs.map fun f => s.minWireSize f.ty).sum + s.elementsOfFields vs fs)
      (runFields call ds) := by
  induction hd with
  | nil =>
    rintro r _ _ ⟨⟩
    exact .refl r
  | @cons d f ds fs hd _ ih =>
    refine (hd.costs hc).pair ih fun v vs => ?_
    rw [List.map_cons, List.sum_cons, Schema.elementsOfFields, Schema.price]
    omega

/-- Each turn of the loop pays for the value it reads, also for one that is replaced later. -/
theorem runTagged_costs (hc : ∀ name, Costs (s.price (.defined name)) (call name))
    {es : List TaggedDecoding} {fs : List Field} (he : Forall₂ (TaggedDecoding.For s) es fs)
    {last : Nat} : ∀ (room : Nat) (values : List (Option Value)),
      Costs (fun vs => s.elementsOfPresent vs fs + 1 - s.elementsOfPresent values fs)
        (runTagged call es last room values)
  | 0, _ => .throw _
  | room + 1, values => by
    intro r vs r' h
    show r.Ahead (s.elementsOfPresent vs fs + 1 - s.elementsOfPresent values fs) r'
    obtain ⟨t, ht, h⟩ := runTagged_eq_ok h
    have h₁ := Reader.tag_moves last r t _ ht
    rcases h with ⟨-, rfl, rfl⟩ | ⟨-, -, hs, rfl, rfl⟩ | ⟨-, e, i, v, r₂, hf, hv, h⟩
    · exact h₁.mono (by omega)
    · have hlt := (Reader.tag_advance ht).1
      exact ⟨last - r.pos, by omega, Nat.sub_le_sub_right hs r.pos, rfl⟩
    · have hei := List.mk_mem_zipIdx_iff_getElem?.1 (List.mem_of_find?_eq_some hf)
      obtain ⟨f, hfi, -, hfor⟩ := exists_getElem?_of_forall₂ he hei
      have hset : s.elementsOfPresent (values.set i (some v)) fs
          ≤ s.elementsOfPresent values fs + s.elements v f.ty := Schema.elementsOfPresent_set v hfi
      refine ((h₁.trans (hfor.costs hc _ v r₂ hv)).trans
        (runTagged_costs hc he room _ r₂ vs r' h)).mono ?_
      simp only [Schema.price]
      omega

theorem For.costs (hc : ∀ name, Costs (s.price (.defined name)) (call name)) {name : String}
    {d : Definition} (hd : s.get? name = some d) {e : RecordDecoding} (he : e.For s d) :
    Costs (s.price (.defined name)) (e.run call) := by
  cases he with
  | struct hk hself he =>
    refine (runFields_costs hc he).bind_pure fun vs => ?_
    rw [Schema.price, Schema.minWireSize_struct hd hk hself, Schema.elements,
      Schema.fields_of_get? hd]
  | @message es hk ht he =>
    have hsize : s.minWireSize (.defined name) ≤ 5 :=
      (Schema.Covers.message hd hk le_rfl).minWireSize_le
    intro r v r' h
    obtain ⟨last, r₁, hl, h⟩ := run_bind_eq_ok.1 h
    rw [run_ofRead_eq_ok] at hl
    rw [run_get] at h
    obtain ⟨vs, r₂, hvs, h⟩ := run_bind_eq_ok.1 h
    cases h
    have hnone : s.elementsOfPresent (es.map fun _ => none) d.fields = 0 := by
      rw [List.map_const', he.length_eq, ← List.map_const']
      exact Schema.elementsOfPresent_none s d.fields
    refine ((Reader.frameEnd_moves r last r₁ hl).trans
      (runTagged_costs hc he _ _ r₁ vs r' hvs)).mono ?_
    simp only [Schema.price, Schema.elements, Schema.fields_of_get? hd, hnone]
    omega

end RecordDecoding

end Calls

namespace Program

theorem decodeWithin_costs (hp : p.Implements s) : ∀ (n : Nat) (name : String),
    Costs (s.price (.defined name)) (p.decodeWithin n name)
  | 0, _ => .throw _
  | n + 1, name => by
    rw [decodeWithin]
    rcases hi : p.record? name with _ | i
    · exact .throw _
    · obtain ⟨d, hd, -, he⟩ := hp.defined hi
      exact he.costs (decodeWithin_costs hp n) hd

theorem decode_costs (hp : p.Implements s) (name : String) :
    Costs (s.price (.defined name)) (p.decode name) := by
  intro r v r' h
  rw [decode, run_get] at h
  exact decodeWithin_costs hp _ name r v r' h

/-- A value that is decoded has no more elements, at any depth, than bytes were read for it,
leaving out those that take no bytes. On the way there, and on the way to a failure, no decoder
makes room for more elements than there are bytes left to read. -/
theorem elements_paid_for (h : s.Accepted) : ∃ p, ofSchema? s = .ok p
    ∧ ∀ t, s.Admits t → ∀ runtime binding depth,
      ∃ d, Decoding.ofTy? ⟨s, runtime⟩ binding depth t = .ok d ∧ ∀ r,
        (∀ v r', d.run p.decode r = (.ok v, r') →
          r'.bytes = r.bytes ∧ r.pos + s.elements v t ≤ r'.pos)
        ∧ (d.trace p.trace r).1 = d.run p.decode r
        ∧ Path r (d.trace p.trace r).2 (d.run p.decode r).2
        ∧ ∀ q capacity, .reserve q capacity ∈ (d.trace p.trace r).2 → capacity ≤ q.remaining := by
  obtain ⟨p, hp⟩ := Schema.accepted_iff.1 h
  have himp := implements hp
  refine ⟨p, hp, fun t ht runtime binding depth => ?_⟩
  obtain ⟨d, hd⟩ : ∃ d, Decoding.ofTy? ⟨s, runtime⟩ binding depth t = .ok d :=
    ht.exists_decoding binding depth
  refine ⟨d, hd, fun r => ⟨fun v r' hdec => ?_, ?_⟩⟩
  · obtain ⟨n, hn, -, rfl⟩ :=
      (Decoding.for_of_ofTy? hd).costs (decode_costs himp) r v r' hdec
    rw [Schema.price] at hn
    refine ⟨rfl, ?_⟩
    rw [Reader.pos_advance]
    omega
  · have hfollows := d.follows p.follows r
    exact ⟨hfollows.run, hfollows.path, fun q capacity hm => hfollows.path.capacity_le hm⟩

end Program

namespace Parcel

/-- The bytes of a parcel with one inside. -/
def input : Reader :=
  ⟨bytes.toArray, 0⟩

/-- One parcel inside another is one element, which the bytes of the parcel pay for. -/
theorem inside_paid_for : schema.Accepted ∧ ∃ p v, Program.ofSchema? schema = .ok p
    ∧ p.decode "Parcel" input = (.ok v, input.advance 21)
    ∧ schema.elements v (.defined "Parcel") = 1
    ∧ input.pos + schema.elements v (.defined "Parcel") ≤ (input.advance 21).pos := by
  obtain ⟨p, hp, hall⟩ := Program.elements_paid_for accepted
  obtain ⟨d, hd, hr⟩ := hall (.defined "Parcel") ⟨_, rfl⟩ "" "y" 0
  have hreads := Decoding.reads_wire (Program.implements hp) hasTy fits d
    (Decoding.for_of_ofTy? hd)
  rw [wire_eq] at hreads
  have hdec := hreads input (List.prefix_refl bytes)
  cases hd
  exact ⟨accepted, p, _, hp, hdec, by cbv, ((hr input).1 _ _ hdec).2⟩

end Parcel

end SchemaCodec

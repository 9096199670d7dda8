import SchemaCodec.Proofs.Acceptance
import SchemaCodec.Proofs.WireFormat

/-!
# What the encoder writes

A call of an encoder within an encoder is for a part of the value, so the bound on the calls within
one another never matters and `Program.encode?` satisfies the equation of the source
(`Program.encode?_eq`).

Every statement appends the bytes of the wire format to what was written (`Encoding.run_eq`), even
though a message writes its length last: what stands between the placeholder and the end of the
writer is the body of that message, so filling in the length changes the placeholder and nothing
else (`Writer.fill?_reserve`).
-/

namespace SchemaCodec

open Wire
open List (Forall₂)

namespace Value

theorem height_le_of_mem {v : Value} : ∀ {vs : List Value}, v ∈ vs → v.height ≤ heightOfAll vs
  | u :: us, h => by
    rw [heightOfAll]
    rcases List.mem_cons.1 h with rfl | h
    · exact Nat.le_max_left _ _
    · exact Nat.le_trans (height_le_of_mem h) (Nat.le_max_right _ _)

theorem height_le_of_mem_entries {e : Atom × Value} :
    ∀ {es : List (Atom × Value)}, e ∈ es → e.2.height ≤ heightOfEntries es
  | (k, u) :: us, h => by
    rw [heightOfEntries]
    rcases List.mem_cons.1 h with rfl | h
    · exact Nat.le_max_left _ _
    · exact Nat.le_trans (height_le_of_mem_entries h) (Nat.le_max_right _ _)

end Value

/-! ## Calls within one another -/

section Congr

variable {call call' : EncodeCall}

theorem foldlM_congr {α β : Type} {f g : β → α → Option β} :
    ∀ {l : List α} {b : β}, (∀ a ∈ l, ∀ b, f b a = g b a) → l.foldlM f b = l.foldlM g b
  | [], _, _ => rfl
  | a :: l, b, h => by
    rw [List.foldlM_cons, List.foldlM_cons, h a List.mem_cons_self]
    exact congrArg _ (funext fun b => foldlM_congr fun c hc => h c (List.mem_cons_of_mem _ hc))

theorem Encoding.run_congr : ∀ (e : Encoding) {v : Value} {w : Writer},
    (∀ name u w, u.height ≤ v.height → call name u w = call' name u w) →
      e.run call v w = e.run call' v w
  | .atom _ _, v, w, _ => by cases v <;> rfl
  | .bulk _ _, v, w, _ => by cases v <;> rfl
  | .record _ name, v, w, h => h name v w le_rfl
  | .array _ _ e, v, w, h => by
    cases v with
    | array vs =>
      refine foldlM_congr fun u hu w => run_congr e fun name x w hx => h name x w (hx.trans ?_)
      exact (Value.height_le_of_mem hu).trans (Nat.le_succ _)
    | _ => rfl
  | .map _ _ _ k e, v, w, h => by
    cases v with
    | map es =>
      refine foldlM_congr fun u hu w => congrArg _ (funext fun w => ?_)
      refine run_congr e fun name x w hx => h name x w (hx.trans ?_)
      exact (Value.height_le_of_mem_entries hu).trans (Nat.le_succ _)
    | _ => rfl

namespace RecordEncoding

theorem runFields_congr : ∀ (es : List (String × Encoding)) (vs : List Value) {w : Writer},
    (∀ name u w, u.height ≤ Value.heightOfAll vs → call name u w = call' name u w) →
      runFields call es vs w = runFields call' es vs w
  | [], [], _, _ => rfl
  | [], _ :: _, _, _ => rfl
  | _ :: _, [], _, _ => rfl
  | (_, e) :: es, v :: vs, w, h => by
    rw [runFields, runFields]
    rw [e.run_congr fun name u w hu => h name u w (hu.trans (Nat.le_max_left _ _))]
    refine congrArg _ (funext fun w => runFields_congr es vs fun name u w hu => ?_)
    exact h name u w (hu.trans (Nat.le_max_right _ _))

theorem runTagged_congr : ∀ (es : List (Option TaggedEncoding)) (vs : List (Option Value))
    {w : Writer},
    (∀ name u w, u.height ≤ Value.heightOfPresent vs → call name u w = call' name u w) →
      runTagged call es vs w = runTagged call' es vs w
  | [], [], _, _ => rfl
  | [], _ :: _, _, _ => by simp only [runTagged]
  | _ :: _, [], _, _ => by simp only [runTagged]
  | some e :: es, some v :: vs, w, h => by
    rw [runTagged, runTagged]
    rw [e.encoding.run_congr fun name u w hu => h name u w (hu.trans (Nat.le_max_left _ _))]
    refine congrArg _ (funext fun w => runTagged_congr es vs fun name u w hu => ?_)
    exact h name u w (hu.trans (Nat.le_max_right _ _))
  | none :: es, some v :: vs, w, h => by
    simp only [runTagged]
    exact runTagged_congr es vs fun name u w hu => h name u w (hu.trans (Nat.le_max_right _ _))
  | none :: es, none :: vs, w, h => by
    simp only [runTagged]
    exact runTagged_congr es vs h
  | some _ :: es, none :: vs, w, h => by
    simp only [runTagged]
    exact runTagged_congr es vs h

/-- A record calls only for values that lie below its own. -/
theorem run_congr (e : RecordEncoding) {v : Value} {w : Writer}
    (h : ∀ name u w, u.height < v.height → call name u w = call' name u w) :
    e.run call v w = e.run call' v w := by
  cases e with
  | struct es =>
    cases v with
    | struct vs =>
      exact runFields_congr es vs fun name u w hu => h name u w (Nat.lt_succ_of_le hu)
    | _ => rfl
  | message es =>
    cases v with
    | message vs =>
      simp only [run]
      rw [runTagged_congr es vs fun name u w hu => h name u w (Nat.lt_succ_of_le hu)]
    | _ => rfl

end RecordEncoding

end Congr

namespace Program

theorem encodeWithin_eq (p : Program) : ∀ {m n : Nat} {name : String} {v : Value} {w : Writer},
    v.height < m → v.height < n → p.encodeWithin m name v w = p.encodeWithin n name v w
  | m + 1, n + 1, name, v, w, hm, hn => by
    rw [encodeWithin, encodeWithin]
    refine congrArg _ (funext fun r => r.encoding.run_congr fun name u w hu => ?_)
    exact p.encodeWithin_eq (by omega) (by omega)

/-- The encoder of a record runs its statements, which call the encoders of records. -/
theorem encode?_eq {p : Program} {name : String} {r : RecordItem} (h : p.record? name = some r)
    (v : Value) (w : Writer) : p.encode? name v w = r.encoding.run p.encode? v w := by
  rw [encode?, encodeWithin, h]
  exact r.encoding.run_congr fun name u w hu => p.encodeWithin_eq (by omega) (by omega)

end Program

/-! ## Appending -/

namespace Writer

@[ext] theorem ext {u v : Writer} (h : u.bytes.toList = v.bytes.toList) : u = v := by
  cases u
  cases v
  simpa [Array.toList_inj] using h

@[simp] theorem append_append (w : Writer) (a b : List UInt8) :
    (w.append a).append b = w.append (a ++ b) := by
  ext1
  simp

@[simp] theorem append_nil (w : Writer) : w.append [] = w := by
  ext1
  simp

theorem length_eq (w : Writer) (n : Nat) : w.length n = w.append (littleEndian 4 n) :=
  rfl

theorem byte_eq (w : Writer) (x : UInt8) : w.byte x = w.append [x] := by
  simp [byte, natural, littleEndian]

/-- A length fills the four bytes that were reserved for it, and leaves all others. -/
theorem fill?_reserve (w : Writer) (body : List UInt8) (n : Nat) :
    (w.reserve.2.append body).fill? w.reserve.1 n
      = some (w.append (littleEndian 4 n ++ body)) := by
  have hsize : (w.reserve.2.append body).bytes.size = w.bytes.size + (4 + body.length) := by
    have := size_append w (littleEndian 4 0 ++ body)
    simpa [size, reserve, length_eq] using this
  rw [fill?, if_pos (by simp only [size, reserve]; simp only [reserve] at hsize; omega),
    Option.some.injEq]
  have hsub : w.bytes.size + (4 + body.length) - (w.bytes.size + 4) = body.length := by omega
  have hdrop : w.bytes.toList.drop (w.bytes.size + 4) = [] :=
    List.drop_eq_nil_of_le (by simp)
  ext1
  simp only [size, hsize]
  simp [reserve, length_eq, size, List.drop_append, hsub, hdrop]

end Writer

theorem Atom.write_eq (w : Writer) (a : Atom) : a.write w = w.append a.wire := by
  cases a with
  | bool x => cases x <;> exact w.byte_eq _
  | byte x => exact w.byte_eq x
  | string x => exact w.append_append _ _
  | _ => rfl

variable {s : Schema} {p : Program} {call : EncodeCall}

/-! ## Arrays in one call -/

namespace Bulk

variable {b : Bulk}

def scalar : Bulk → Scalar
  | bytes => .byte
  | singles => .float32
  | doubles => .float64

/-- Floats are their bits. -/
abbrev Item : Bulk → Type
  | bytes => UInt8
  | singles => UInt32
  | doubles => UInt64

def atom : (b : Bulk) → b.Item → Atom
  | bytes => .byte
  | singles => .float32
  | doubles => .float64

def item? : (b : Bulk) → Value → Option b.Item
  | bytes => Value.byte?
  | singles => Value.single?
  | doubles => Value.double?

def write : (b : Bulk) → Writer → List b.Item → Writer
  | bytes => Writer.byteArray
  | singles => Writer.singles
  | doubles => Writer.doubles

theorem eq_of_ofTy? {t : Ty} (h : ofTy? t = some b) : t = .scalar b.scalar := by
  unfold ofTy? at h
  split at h <;> cases h <;> rfl

theorem item?_atom : ∀ x : b.Item, b.item? (.atom (b.atom x)) = some x := by
  cases b <;> exact fun _ => rfl

theorem mapM_map {α β : Type} {f : β → Option α} {g : α → β} (h : ∀ a, f (g a) = some a)
    (xs : List α) : (xs.map g).mapM f = some xs := by
  have hfg : f ∘ g = fun a => pure (id a) := funext h
  rw [List.mapM_map, hfg, List.mapM_pure, List.map_id]
  rfl

theorem write?_map (w : Writer) (xs : List b.Item) :
    b.write? w (xs.map fun x => .atom (b.atom x)) = some (b.write w xs) := by
  have hitems : ∀ vs, b.write? w vs = (vs.mapM b.item?).map (b.write w) := by
    cases b <;> exact fun _ => rfl
  rw [hitems, mapM_map item?_atom, Option.map_some]

theorem flatMap_byte (xs : List UInt8) : xs.flatMap (fun x => (atom bytes x).wire) = xs :=
  List.flatMap_singleton' xs

theorem write_eq (w : Writer) : ∀ xs : List b.Item, b.write w xs
    = w.append (littleEndian 4 xs.length ++ xs.flatMap fun x => (b.atom x).wire) := by
  cases b with
  | bytes =>
    intro xs
    rw [flatMap_byte]
    exact w.append_append _ _
  | singles | doubles => exact fun xs => w.append_append _ _

theorem exists_item {v : Value} (h : s.HasTy v (.scalar b.scalar)) :
    ∃ x, v = .atom (b.atom x) := by
  obtain @⟨a, _, ha⟩ := h
  cases b <;> cases a <;> first | exact ⟨_, rfl⟩ | cases ha

theorem exists_items : ∀ {vs : List Value}, (∀ v ∈ vs, s.HasTy v (.scalar b.scalar)) →
    ∃ xs : List b.Item, vs = xs.map fun x => .atom (b.atom x)
  | [], _ => ⟨[], rfl⟩
  | v :: vs, h => by
    obtain ⟨x, rfl⟩ := exists_item (h v List.mem_cons_self)
    obtain ⟨xs, rfl⟩ := exists_items fun u hu => h u (List.mem_cons_of_mem _ hu)
    exact ⟨x :: xs, rfl⟩

/-- Writing an array in one call leaves what writing its elements one by one does. -/
theorem write?_eq {t : Ty} (hb : ofTy? t = some b) {vs : List Value}
    (h : ∀ v ∈ vs, s.HasTy v t) (w : Writer) :
    b.write? w vs = some (w.append (littleEndian 4 vs.length ++ s.wireItems vs t)) := by
  cases eq_of_ofTy? hb
  obtain ⟨xs, rfl⟩ := exists_items h
  rw [write?_map, write_eq, Schema.wireItems_map, List.length_map]
  simp only [Schema.wire]

end Bulk

/-- An array of bytes is made of bytes, which are what it takes behind its count. -/
theorem Schema.exists_bytes {vs : List Value} (h : ∀ v ∈ vs, s.HasTy v (.scalar .byte)) :
    ∃ l : List UInt8, vs = l.map (fun x => .atom (.byte x))
      ∧ s.wireItems vs (.scalar .byte) = l := by
  obtain ⟨l, rfl⟩ := Bulk.exists_items (b := .bytes) h
  refine ⟨l, rfl, ?_⟩
  rw [wireItems_map]
  simp only [wire]
  exact Bulk.flatMap_byte l

/-- Statements for a type append the bytes of a value of the type. -/
def Schema.Appends (s : Schema) (call : EncodeCall) (v : Value) (t : Ty) : Prop :=
  ∀ e : Encoding, e.For s t → ∀ w, e.run call v w = some (w.append (s.wire v t))

namespace Encoding

theorem foldlM_items {e : Encoding} {t : Ty} (he : e.For s t) : ∀ {vs : List Value},
    (∀ v ∈ vs, s.Appends call v t) → ∀ w : Writer,
      vs.foldlM (fun w v => e.run call v w) w = some (w.append (s.wireItems vs t))
  | [], _, w => by rw [List.foldlM_nil, Schema.wireItems, Writer.append_nil]; rfl
  | v :: vs, h, w => by
    rw [List.foldlM_cons, h v List.mem_cons_self e he, Option.bind_eq_bind, Option.bind_some,
      foldlM_items he fun u hu => h u (List.mem_cons_of_mem _ hu), Schema.wireItems,
      Writer.append_append]

theorem foldlM_entries {e : Encoding} {kt t : Ty} {k : AtomTy} (hk : k.For s kt)
    (he : e.For s t) : ∀ {es : List (Atom × Value)}, (∀ x ∈ es, s.HasTy (.atom x.1) kt) →
    (∀ x ∈ es, s.Appends call x.2 t) → ∀ w : Writer,
      es.foldlM (fun w x => do e.run call x.2 (← x.1.write? w k)) w
        = some (w.append (s.wireEntries es t))
  | [], _, _, w => by rw [List.foldlM_nil, Schema.wireEntries, Writer.append_nil]; rfl
  | (a, v) :: es, hks, hs, w => by
    have ha : a.hasTy k = true := (hks (a, v) List.mem_cons_self).atom hk
    have hstep : (do e.run call v (← a.write? w k)) = some (w.append (a.wire ++ s.wire v t)) := by
      rw [Atom.write?, if_pos ha, Atom.write_eq, Option.bind_eq_bind, Option.bind_some,
        hs (a, v) List.mem_cons_self e he, Writer.append_append]
    rw [List.foldlM_cons]
    refine (congrArg (· >>= es.foldlM _) hstep).trans ?_
    refine (foldlM_entries hk he (fun x hx => hks x (List.mem_cons_of_mem _ hx))
      (fun x hx => hs x (List.mem_cons_of_mem _ hx)) _).trans ?_
    rw [Schema.wireEntries, Writer.append_append]

end Encoding

namespace RecordEncoding

theorem runFields_eq {es : List (String × Encoding)} {fs : List Field} {vs : List Value}
    (he : Forall₂ (fun e f => e.2.For s f.ty) es fs)
    (hv : Forall₂ (fun v f => s.Appends call v f.ty) vs fs) (w : Writer) :
    runFields call es vs w = some (w.append (s.wireFields vs fs)) := by
  induction he generalizing vs w with
  | nil =>
    cases hv
    simp [runFields, Schema.wireFields]
  | cons he _ ih =>
    cases hv with
    | cons hv hvs =>
      rw [runFields, hv _ he, Option.bind_eq_bind, Option.bind_some, ih hvs, Schema.wireFields,
        Writer.append_append]

theorem runTagged_eq {es : List (Option TaggedEncoding)} {fs : List Field}
    {vs : List (Option Value)} (he : Forall₂ (TaggedEncoding.For s) es fs)
    (hv : Forall₂ (fun o f => ∀ v, o = some v → s.Appends call v f.ty) vs fs) (w : Writer) :
    runTagged call es vs w = some (w.append (s.wirePresent vs fs)) := by
  induction he generalizing vs w with
  | nil =>
    cases hv
    simp [runTagged, Schema.wirePresent]
  | @cons e f es fs he _ ih =>
    cases hv with
    | @cons o _ vs _ hv hvs =>
      rcases o with _ | v
      · rcases e with _ | e <;> simp only [runTagged, Schema.wirePresent, ih hvs]
      · rcases e with _ | e
        · rw [runTagged, Schema.wirePresent, if_pos (show f.isDeprecated = true from he), ih hvs]
          simp
        · obtain ⟨hd, htag, he⟩ := he
          rw [runTagged, Schema.wirePresent, hv v rfl _ he, if_neg (by simp [hd]), htag,
            Writer.byte_eq, Option.bind_eq_bind, Option.bind_some, ih hvs]
          simp

theorem size_body (w : Writer) (body : List UInt8) :
    ((w.reserve.2.append body).byte 0).size - w.reserve.2.size = (body ++ [0]).length := by
  rw [Writer.byte_eq, Writer.append_append, Writer.size_append, Nat.add_sub_cancel_left]

theorem fill?_body (w : Writer) (body : List UInt8) :
    ((w.reserve.2.append body).byte 0).fill? w.reserve.1
        (((w.reserve.2.append body).byte 0).size - w.reserve.2.size)
      = some (w.append (littleEndian 4 (body ++ [0]).length ++ (body ++ [0]))) := by
  rw [size_body, Writer.byte_eq, Writer.append_append, Writer.fill?_reserve]

/-- A message leaves its length, its fields and its end behind what was written. -/
theorem run_message {es : List (Option TaggedEncoding)} {fs : List Field}
    {vs : List (Option Value)} (he : Forall₂ (TaggedEncoding.For s) es fs)
    (hv : Forall₂ (fun o f => ∀ v, o = some v → s.Appends call v f.ty) vs fs) (w : Writer) :
    (message es).run call (.message vs) w
      = some (w.append (littleEndian 4 (s.wirePresent vs fs ++ [0]).length
        ++ (s.wirePresent vs fs ++ [0]))) := by
  show (do
    let u ← runTagged call es vs w.reserve.2
    (u.byte 0).fill? w.reserve.1 ((u.byte 0).size - w.reserve.2.size)) = _
  rw [runTagged_eq he hv, Option.bind_eq_bind, Option.bind_some, fill?_body]

end RecordEncoding

/-- Whatever was written before, a value is appended in the wire format. -/
theorem Encoding.run_eq (hp : p.Implements s) {v : Value} {t : Ty} (h : s.HasTy v t) :
    s.Appends p.encode? v t := by
  induction h with
  | @scalar a x h =>
    rintro e (_ | _) w
    rw [run, Atom.write?, if_pos h, Atom.write_eq, Schema.wire]
  | @enum n name d hd hk =>
    rintro e he w
    cases he with
    | enum => rw [run, Atom.write?, Atom.hasTy, if_pos rfl, Atom.write_eq, Schema.wire]
    | record hd' hk' =>
      obtain rfl : d = _ := by simpa [hd] using hd'
      simp [hk, Kind.isAggregate] at hk'
  | array h ih =>
    rintro e he w
    cases he with
    | bulk hb => rw [run, Bulk.write?_eq hb h, Schema.wire]
    | array _ he =>
      rw [run, foldlM_items he ih, Writer.length_eq, Writer.append_append, Schema.wire]
  | map _ hk h _ ih =>
    rintro e he w
    cases he with
    | map hkey he =>
      rw [run, foldlM_entries hkey he hk ih, Writer.length_eq, Writer.append_append, Schema.wire]
  | @struct vs name d hd hk hl h ih =>
    rintro e he w
    obtain ⟨o, rfl⟩ := he.record_of_defined hd (by simp [hk])
    obtain ⟨r, es, -, hr, hre, hes, -⟩ := hp.struct hd hk
    rw [run, Program.encode?_eq hr, hre, Schema.wire, Schema.fields_of_get? hd]
    exact RecordEncoding.runFields_eq hes (List.forall₂_iff_zip.2 ⟨hl, fun hm => ih _ _ hm⟩) w
  | @message vs name d hd hk hl h ih =>
    rintro e he w
    obtain ⟨o, rfl⟩ := he.record_of_defined hd (by simp [hk])
    obtain ⟨r, es, -, hr, hre, hes, -⟩ := hp.message hd hk
    rw [run, Program.encode?_eq hr, hre, Schema.wire, Schema.fields_of_get? hd]
    refine RecordEncoding.run_message hes (List.forall₂_iff_zip.2 ⟨hl, ?_⟩) w
    rintro o f hm v rfl
    exact ih v f hm

/-- Encoding leaves what was written before and behind it the wire format of the value. While a
message is written, its fields come behind the room for its length, and the length, which fits
four bytes, fills that room and nothing else. -/
theorem Program.encodes_wire (h : s.Accepted) :
    ∃ p, ofSchema? s = .ok p
      ∧ (∀ t, s.Admits t → ∀ runtime operand depth, ∃ e,
        Encoding.ofTy? ⟨s, runtime⟩ operand depth t = .ok e
          ∧ ∀ v, s.HasTy v t → s.Fits v t → ∀ w : Writer,
            e.run p.encode? v w = some (w.append (s.wire v t)))
      ∧ ∀ name d vs, s.get? name = some d → d.kind = .message →
        s.HasTy (.message vs) (.defined name) → s.Fits (.message vs) (.defined name) →
        ∃ r es, p.record? name = some r ∧ r.encoding = .message es ∧ ∀ w : Writer,
          let body := s.wirePresent vs d.fields
          let u := w.reserve.2.append body
          RecordEncoding.runTagged p.encode? es vs w.reserve.2 = some u
            ∧ (u.byte 0).size - w.reserve.2.size < 2 ^ 32
            ∧ (u.byte 0).fill? w.reserve.1 ((u.byte 0).size - w.reserve.2.size)
              = some (w.append (littleEndian 4 (body ++ [0]).length ++ (body ++ [0]))) := by
  obtain ⟨p, hp⟩ := Schema.accepted_iff.1 h
  have himp := implements hp
  refine ⟨p, hp, fun t ht runtime operand depth => ?_, fun name d vs hd hk hv hf => ?_⟩
  · obtain ⟨e, he⟩ : ∃ e, Encoding.ofTy? ⟨s, runtime⟩ operand depth t = .ok e :=
      ht.exists_encoding operand depth
    refine ⟨e, he, fun v hv _ w => ?_⟩
    exact Encoding.run_eq himp hv e (Encoding.for_of_ofTy? he) w
  · obtain ⟨r, es, -, hr, hre, hes, -⟩ := himp.message hd hk
    refine ⟨r, es, hr, hre, fun w => ⟨?_, ?_, RecordEncoding.fill?_body w _⟩⟩
    · refine RecordEncoding.runTagged_eq hes ?_ _
      cases hv with
      | message hd' hk' hl h =>
        obtain rfl : d = _ := by simpa [hd] using hd'
        refine List.forall₂_iff_zip.2 ⟨hl, ?_⟩
        rintro o f hm u rfl
        exact Encoding.run_eq himp (h u f hm)
    · rw [Schema.Fits, Schema.fields_of_get? hd] at hf
      rw [RecordEncoding.size_body, List.length_append]
      exact hf.1

namespace Parcel

/-- A message with a deprecated field, and with messages of its own kind inside. -/
def schema : Schema where
  definitions := [{
    name := "Parcel"
    kind := .message
    fields := [
      { name := "label", ty := .scalar .string, value := 1 },
      { name := "weight", ty := .scalar .uint16, value := 2, deprecated := some {} },
      { name := "inside", ty := .array (.defined "Parcel"), value := 3 }] }]

def empty : Value :=
  .message [none, none, none]

def value : Value :=
  .message [some (.atom (.string "a")), some (.atom (.uint16 7)), some (.array [empty])]

theorem accepted : schema.Accepted :=
  Schema.accepted_of_isOk (by decide +kernel)

theorem hasTy_empty : schema.HasTy empty (.defined "Parcel") := by
  refine .message rfl rfl rfl fun v f h => ?_
  simp at h

theorem hasTy : schema.HasTy value (.defined "Parcel") := by
  refine .message rfl rfl rfl fun v f h => ?_
  simp only [List.zip_cons_cons, List.zip_nil_right, List.mem_cons, Prod.mk.injEq,
    Option.some.injEq, List.not_mem_nil, or_false] at h
  rcases h with ⟨rfl, rfl⟩ | ⟨rfl, rfl⟩ | ⟨rfl, rfl⟩
  · exact .scalar rfl
  · exact .scalar rfl
  · refine .array fun v hv => ?_
    obtain rfl := List.mem_singleton.1 hv
    exact hasTy_empty

theorem fits : schema.Fits value (.defined "Parcel") := by
  refine ⟨by decide +kernel, fun _ => ?_, nofun, fun _ => ?_, trivial⟩
  · exact (by decide +kernel : "a".toUTF8.size < 2 ^ 32)
  · exact ⟨by decide, ⟨by decide +kernel, trivial⟩, trivial⟩

/-- The bytes of a parcel, in which the weight has no place. -/
def bytes : List UInt8 :=
  [17, 0, 0, 0, 1, 1, 0, 0, 0, 97, 3, 1, 0, 0, 0, 1, 0, 0, 0, 0, 0]

theorem wire_eq : schema.wire value (.defined "Parcel") = bytes := by
  decide +kernel

theorem encodes_behind : schema.Accepted ∧ schema.HasTy value (.defined "Parcel")
    ∧ schema.Fits value (.defined "Parcel")
    ∧ ∃ p, Program.ofSchema? schema = .ok p
      ∧ (∀ w : Writer, p.encode? "Parcel" value w = some (w.append bytes))
      ∧ ∃ r es, p.record? "Parcel" = some r ∧ r.encoding = .message es := by
  refine ⟨accepted, hasTy, fits, ?_⟩
  obtain ⟨p, hp, ht, hm⟩ := Program.encodes_wire accepted
  obtain ⟨e, he, hw⟩ := ht (.defined "Parcel") ⟨_, rfl⟩ "" (.place "x") 0
  obtain ⟨r, es, hr, hre, -⟩ := hm "Parcel" _ _ rfl rfl hasTy fits
  cases he
  exact ⟨p, hp, fun w => wire_eq ▸ hw value hasTy fits w, r, es, hr, hre⟩

end Parcel

end SchemaCodec

import SchemaCodec.Proofs.Calls

/-!
# The steps of a decoder

What a decoder gives does not tell what it did before. `Program.trace` decodes as `Program.decode`
does and lists the steps: each call of the reader, with where it left the reader, and each time room
is made for the elements of a container. The steps of a run that fails are listed up to the failure.

Each step begins where the one before it ended. None goes back, and none makes room for more
elements than there are bytes left (`Path`). A decoder asks for a place in the input only where a
message ends, which is known to be inside the input by then, so it never asks for one outside.
All of this holds of a sequence of decoders if it holds of each where it starts (`Follows.bind`).
-/

namespace SchemaCodec

variable {α β : Type}

inductive Step
  /-- A call of the reader, and the reader behind it. -/
  | read (r r' : Reader)
  /-- Room for so many elements. -/
  | reserve (r : Reader) (capacity : Nat)

/-- The steps lead from one reader to the other. -/
inductive Path : Reader → List Step → Reader → Prop
  | nil {r : Reader} : Path r [] r
  | read {r q r' : Reader} {steps : List Step} (h : r.Ahead 0 q) (hs : Path q steps r') :
    Path r (.read r q :: steps) r'
  | reserve {r r' : Reader} {capacity : Nat} {steps : List Step} (h : capacity ≤ r.remaining)
    (hs : Path r steps r') : Path r (.reserve r capacity :: steps) r'

namespace Path

variable {r q r' : Reader} {steps more : List Step}

theorem append (h : Path r steps q) (h' : Path q more r') : Path r (steps ++ more) r' := by
  induction h with
  | nil => exact h'
  | read hq _ ih => exact .read hq (ih h')
  | reserve hc _ ih => exact .reserve hc (ih h')

theorem ahead (h : Path r steps r') : r.Ahead 0 r' := by
  induction h with
  | nil => exact .refl _
  | read hq _ ih => exact hq.trans ih
  | reserve _ _ ih => exact ih

theorem capacity_le (h : Path r steps r') {capacity : Nat} (hm : .reserve q capacity ∈ steps) :
    capacity ≤ q.remaining := by
  induction h with
  | nil => cases hm
  | read _ _ ih =>
    rcases List.mem_cons.1 hm with heq | hm
    · cases heq
    · exact ih hm
  | reserve hc _ ih =>
    rcases List.mem_cons.1 hm with heq | hm
    · cases heq
      exact hc
    · exact ih hm

end Path

/-! ## Decoders that list their steps -/

/-- A decoder that lists its steps, also those before a failure. -/
def Traced (α : Type) :=
  Reader → (Except Halt α × Reader) × List Step

namespace Traced

instance : Monad Traced where
  pure a := fun r => ((.ok a, r), [])
  bind x f := fun r =>
    match x r with
    | ((.ok a, r'), steps) => ((f a r').1, steps ++ (f a r').2)
    | ((.error e, r'), steps) => ((.error e, r'), steps)

def throw (e : Halt) : Traced α :=
  fun r => ((.error e, r), [])

/-- The reader as it stands. -/
def reader : Traced Reader :=
  fun r => ((.ok r, r), [])

def ofRead (x : Read α) : Traced α :=
  fun r => (Decode.ofRead x r, [.read r (x r).2])

/-- Room for a number of elements, as far as there are bytes left. -/
def reserve (n : Nat) : Traced Unit :=
  fun r => ((.ok (), r), [.reserve r (r.boundedCapacity n)])

def times (x : Traced α) : Nat → Traced (List α)
  | 0 => return []
  | n + 1 => do
    let a ← x
    let as ← times x n
    return a :: as

end Traced

/-- The decoder of the records, by name, with its steps. -/
abbrev TracedCall := String → Traced Value

def Decoding.trace (call : TracedCall) : Decoding → Traced Value
  | atom _ ty => return .atom (← .ofRead (Atom.read ty))
  | bytes _ => return .array ((← .ofRead Reader.byteArray).map fun x => .atom (.byte x))
  | record _ name => call name
  | array _ _ _ _ minSize element => do
    let n ← .ofRead (Reader.count minSize)
    .reserve n
    return .array (← Traced.times (element.trace call) n)
  | map _ _ _ _ _ _ minSize key value => do
    let n ← .ofRead (Reader.count minSize)
    .reserve n
    let entries ← Traced.times (do
      let k ← .ofRead (Atom.read key)
      let v ← value.trace call
      return (k, v)) n
    return .mapOf entries

namespace RecordDecoding

def traceFields (call : TracedCall) : List (String × Decoding) → Traced (List Value)
  | [] => return []
  | (_, d) :: ds => do
    let v ← d.trace call
    let vs ← traceFields call ds
    return v :: vs

def traceTagged (call : TracedCall) (fields : List TaggedDecoding) (last : Nat) :
    (room : Nat) → List (Option Value) → Traced (List (Option Value))
  | 0, _ => .throw .exhausted
  | room + 1, values => do
    let tag ← .ofRead (Reader.tag last)
    if tag = 0 then return values
    else
      match fields.zipIdx.find? (·.1.tag == tag) with
      | none => do
        .ofRead (Reader.seek last)
        return values
      | some (field, i) => do
        let v ← field.decoding.trace call
        traceTagged call fields last room (values.set i (some v))

def trace (call : TracedCall) : RecordDecoding → Traced Value
  | struct fields => return .struct (← traceFields call fields)
  | message fields => do
    let last ← .ofRead Reader.frameEnd
    let room := last - (← Traced.reader).pos + 1
    return .message (← traceTagged call fields last room (fields.map fun _ => none))

end RecordDecoding

namespace Program

def traceWithin (p : Program) : (calls : Nat) → TracedCall
  | 0, _ => .throw .exhausted
  | calls + 1, name =>
    match p.record? name with
    | none => .throw (.unknownRecord name)
    | some r => r.decoding.trace (p.traceWithin calls)

/-- Reads a record from where the reader stands, and lists the steps. -/
def trace (p : Program) (name : String) : Traced Value := do
  p.traceWithin (p.items.length * ((← Traced.reader).remaining + 1) + 1) name

end Program

/-! ## Reads -/

/-- Wherever a read ends, it does not stand before where it began, and it did not ask for a place
outside of the input. -/
def Forward (x : Read α) : Prop :=
  ∀ r, r.Ahead 0 (x r).2 ∧ ∀ target size, (x r).1 ≠ .error (.seekOutOfBounds target size)

namespace Forward

theorem pure (a : α) : Forward (pure a : Read α) :=
  fun r => ⟨.refl r, fun _ _ h => nomatch h⟩

theorem throw {e : DecodeError} (h : ∀ target size, e ≠ .seekOutOfBounds target size) :
    Forward (throw e : Read α) := by
  refine fun r => ⟨.refl r, fun target size he => ?_⟩
  cases he
  exact h target size rfl

theorem bind {x : Read α} {f : α → Read β} (hx : Forward x) (hf : ∀ a, Forward (f a)) :
    Forward (x >>= f) := by
  intro r
  obtain ⟨hr, he⟩ := hx r
  rw [run_bind]
  rcases h : x r with ⟨e | a, r'⟩
  · rw [h] at hr he
    exact ⟨hr, fun target size heq => he target size (by cases heq; rfl)⟩
  · rw [h] at hr
    exact ⟨hr.trans (hf a r').1, (hf a r').2⟩

theorem bind_pure {x : Read α} (hx : Forward x) (g : α → β) :
    Forward (x >>= fun a => Pure.pure (g a)) :=
  hx.bind fun a => pure (g a)

theorem get {f : Reader → Read β} (hf : ∀ r, Forward (f r)) : Forward (get >>= f) := by
  intro r
  rw [run_get]
  exact hf r r

end Forward

namespace Reader

theorem take_forward (n : Nat) : Forward (Reader.take n) := by
  intro r
  by_cases h : n ≤ r.remaining
  · rw [take_eq h]
    exact ⟨⟨n, Nat.zero_le _, h, rfl⟩, fun _ _ he => nomatch he⟩
  · rw [take_of_lt (not_le.1 h)]
    exact ⟨.refl r, fun _ _ he => nomatch he⟩

theorem natural_forward (width : Nat) : Forward (natural width) :=
  (take_forward width).bind_pure _

theorem byte_forward : Forward byte :=
  (natural_forward 1).bind_pure _

theorem byteArray_forward : Forward byteArray :=
  (natural_forward 4).bind take_forward

theorem count_forward (k : Nat) : Forward (count k) := by
  refine .get fun r => (natural_forward 4).bind fun n => .get fun q => ?_
  show Forward (if q.remaining < needed n k then _ else _)
  split_ifs
  · exact .throw nofun
  · exact .pure n

theorem text_forward : Forward text := by
  refine (natural_forward 4).bind fun n => .get fun r => (take_forward n).bind fun bs => ?_
  rcases String.fromUTF8? ⟨bs.toArray⟩ with _ | x
  · exact .throw nofun
  · exact .pure x

theorem frameEnd_forward : Forward frameEnd := by
  refine (natural_forward 4).bind fun n => .get fun r => ?_
  split_ifs
  · exact .throw nofun
  · exact .pure _

theorem tag_forward (last : Nat) : Forward (tag last) := by
  refine .get fun r => ?_
  split_ifs
  · exact .throw nofun
  · exact byte_forward

end Reader

open Reader in
theorem Atom.read_forward : ∀ ty : AtomTy, Forward (Atom.read ty)
  | .scalar .bool => (byte_forward.bind_pure _).bind_pure _
  | .scalar .byte => byte_forward.bind_pure _
  | .scalar .uint16 => ((natural_forward 2).bind_pure _).bind_pure _
  | .scalar .int16 => (((natural_forward 2).bind_pure _).bind_pure _).bind_pure _
  | .scalar .uint32 | .scalar .float32 | .enum _ => ((natural_forward 4).bind_pure _).bind_pure _
  | .scalar .int32 => (((natural_forward 4).bind_pure _).bind_pure _).bind_pure _
  | .scalar .uint64 | .scalar .float64 => ((natural_forward 8).bind_pure _).bind_pure _
  | .scalar .int64 => (((natural_forward 8).bind_pure _).bind_pure _).bind_pure _
  | .scalar .string => text_forward.bind_pure _
  | .scalar .guid => ((take_forward 16).bind_pure _).bind_pure _
  | .scalar .date => (((natural_forward 8).bind_pure _).bind_pure _).bind_pure _

/-! ## Steps lead to the result -/

/-- From the reader on, the two decoders do the same, the steps of the first lead to where they
end, and they do not ask for a place outside of the input. -/
structure Follows (x : Traced α) (y : Decode α) (r : Reader) : Prop where
  run : (x r).1 = y r
  path : Path r (x r).2 (y r).2
  inside : ∀ target size, (y r).1 ≠ .error (.failed (.seekOutOfBounds target size))

namespace Follows

variable {x : Traced α} {y : Decode α} {f : α → Traced β} {g : α → Decode β} {r : Reader}

theorem pure (a : α) (r : Reader) : Follows (pure a) (pure a) r :=
  ⟨rfl, .nil, fun _ _ h => nomatch h⟩

theorem throw {e : Halt} (h : ∀ target size, e ≠ .failed (.seekOutOfBounds target size)) :
    Follows (Traced.throw e : Traced α) (throw e) r := by
  refine ⟨rfl, .nil, fun target size he => ?_⟩
  cases he
  exact h target size rfl

theorem bind (hx : Follows x y r) (hf : ∀ a r', y r = (.ok a, r') → Follows (f a) (g a) r') :
    Follows (x >>= f) (y >>= g) r := by
  obtain ⟨hrun, hpath, hin⟩ := hx
  have htraced : (x >>= f) r = match x r with
      | ((.ok a, r'), steps) => ((f a r').1, steps ++ (f a r').2)
      | ((.error e, r'), steps) => ((.error e, r'), steps) := rfl
  rcases hxr : x r with ⟨res, steps⟩
  rw [hxr] at hrun hpath htraced
  subst hrun
  rcases hyr : y r with ⟨e | a, r'⟩
  · rw [hyr] at hpath hin htraced
    refine ⟨?_, ?_, ?_⟩
    · rw [htraced, run_bind_of_error hyr]
    · rw [htraced, run_bind_of_error hyr]
      exact hpath
    · rw [run_bind_of_error hyr]
      exact fun target size he => hin target size (by cases he; rfl)
  · rw [hyr] at hpath htraced
    obtain ⟨hrun', hpath', hin'⟩ := hf a r' hyr
    refine ⟨?_, ?_, ?_⟩
    · rw [htraced, run_bind_of_ok hyr]
      exact hrun'
    · rw [htraced, run_bind_of_ok hyr]
      exact hpath.append hpath'
    · rwa [run_bind_of_ok hyr]

theorem bind_pure (hx : Follows x y r) (h : α → β) :
    Follows (x >>= fun a => Pure.pure (h a)) (y >>= fun a => Pure.pure (h a)) r :=
  hx.bind fun a r' _ => pure (h a) r'

theorem ofRead_of_ok {x : Read α} {a : α} {r' : Reader} (hx : x r = (.ok a, r'))
    (h : r.Ahead 0 r') : Follows (Traced.ofRead x) (Decode.ofRead x) r := by
  refine ⟨rfl, ?_, ?_⟩
  · rw [run_ofRead_of_ok hx]
    simp only [Traced.ofRead, hx]
    exact .read h .nil
  · rw [run_ofRead_of_ok hx]
    exact fun _ _ heq => nomatch heq

theorem ofRead {x : Read α} (h : Forward x) (r : Reader) :
    Follows (Traced.ofRead x) (Decode.ofRead x) r := by
  obtain ⟨hr, he⟩ := h r
  rcases hx : x r with ⟨e | a, r'⟩
  · rw [hx] at hr he
    refine ⟨rfl, ?_, ?_⟩
    · rw [run_ofRead_of_error hx]
      simp only [Traced.ofRead, hx]
      exact .read hr .nil
    · rw [run_ofRead_of_error hx]
      exact fun target size heq => he target size (by cases heq; rfl)
  · rw [hx] at hr
    exact ofRead_of_ok hx hr

/-- To look at the reader is no step. -/
theorem reader {f : Reader → Traced β} {g : Reader → Decode β} (h : Follows (f r) (g r) r) :
    Follows (Traced.reader >>= f) (get >>= g) r :=
  ⟨h.run, h.path, h.inside⟩

/-- Making room changes nothing but the steps. -/
theorem reserve (n : Nat) (hx : Follows x y r) : Follows (Traced.reserve n >>= fun _ => x) y r :=
  ⟨hx.run, .reserve (Nat.min_le_right _ _) hx.path, hx.inside⟩

theorem times (hx : ∀ r, Follows x y r) :
    ∀ (n : Nat) (r : Reader), Follows (Traced.times x n) (Decode.times y n) r
  | 0, r => .pure [] r
  | n + 1, r => (hx r).bind fun a r' _ => (times hx n r').bind_pure (a :: ·)

end Follows

section Calls

variable {tcall : TracedCall} {call : DecodeCall}

theorem Decoding.follows (h : ∀ name r, Follows (tcall name) (call name) r) :
    ∀ (d : Decoding) (r : Reader), Follows (d.trace tcall) (d.run call) r
  | .atom _ ty, r => (Follows.ofRead (Atom.read_forward ty) r).bind_pure _
  | .bytes _, r => (Follows.ofRead Reader.byteArray_forward r).bind_pure _
  | .record _ name, r => h name r
  | .array _ _ _ _ minSize element, r => by
    refine (Follows.ofRead (Reader.count_forward minSize) r).bind fun n r' _ => .reserve n ?_
    exact (Follows.times (element.follows h) n r').bind_pure _
  | .map _ _ _ _ _ _ minSize key value, r => by
    refine (Follows.ofRead (Reader.count_forward minSize) r).bind fun n r' _ => .reserve n ?_
    refine (Follows.times (fun q => ?_) n r').bind_pure _
    exact (Follows.ofRead (Atom.read_forward key) q).bind fun k q' _ =>
      (value.follows h q').bind_pure _

/-- Room for one element is made behind the count, before the element is read. -/
example : ((Decoding.array "x" "n" "e" "u16" 2 (.atom "e" (.scalar .uint16))).trace
    (fun _ => .throw .exhausted) ⟨#[1, 0, 0, 0, 7, 0], 0⟩).2
      = [.read ⟨#[1, 0, 0, 0, 7, 0], 0⟩ ⟨#[1, 0, 0, 0, 7, 0], 4⟩,
        .reserve ⟨#[1, 0, 0, 0, 7, 0], 4⟩ 1,
        .read ⟨#[1, 0, 0, 0, 7, 0], 4⟩ ⟨#[1, 0, 0, 0, 7, 0], 6⟩] := rfl

namespace RecordDecoding

theorem follows_fields (h : ∀ name r, Follows (tcall name) (call name) r) :
    ∀ (ds : List (String × Decoding)) (r : Reader),
      Follows (traceFields tcall ds) (runFields call ds) r
  | [], r => .pure [] r
  | (_, d) :: ds, r => (d.follows h r).bind fun _ r' _ => (follows_fields h ds r').bind_pure _

/-- The end of a message lies inside the input, and the loop only goes there from before it. -/
theorem follows_tagged (h : ∀ name r, Follows (tcall name) (call name) r)
    (fields : List TaggedDecoding) {last : Nat} :
    ∀ (room : Nat) (values : List (Option Value)) {r : Reader}, last ≤ r.size →
      Follows (traceTagged tcall fields last room values) (runTagged call fields last room values) r
  | 0, _, _, _ => .throw nofun
  | room + 1, values, r, hl => by
    refine (Follows.ofRead (Reader.tag_forward last) r).bind fun t r₁ ht => ?_
    rw [run_ofRead_eq_ok] at ht
    obtain ⟨hlt, h1, rfl⟩ := Reader.tag_advance ht
    split_ifs with h0
    · exact .pure values _
    · rcases hf : fields.zipIdx.find? (·.1.tag == t) with _ | ⟨e, i⟩
      · have hseek : Reader.seek last (r.advance 1) = (.ok (), { r with pos := last }) :=
          Reader.seek_eq_ok.2 ⟨hl, rfl⟩
        have hahead : (r.advance 1).Ahead 0 { r with pos := last } := by
          refine ⟨last - (r.pos + 1), Nat.zero_le _, Nat.sub_le_sub_right hl _, ?_⟩
          rw [Reader.advance_advance, ← Reader.advance_sub hlt.le]
          congr 1
          omega
        simp only [hf]
        exact (Follows.ofRead_of_ok hseek hahead).bind_pure fun _ => values
      · simp only [hf]
        refine (e.decoding.follows h _).bind fun v r₂ hv => ?_
        have hahead := (e.decoding.follows h (r.advance 1)).path.ahead
        rw [hv] at hahead
        obtain ⟨n, -, -, rfl⟩ := hahead
        exact follows_tagged h fields room _ hl

theorem follows (h : ∀ name r, Follows (tcall name) (call name) r) :
    ∀ (d : RecordDecoding) (r : Reader), Follows (d.trace tcall) (d.run call) r
  | struct ds, r => (follows_fields h ds r).bind_pure _
  | message es, r => by
    refine (Follows.ofRead Reader.frameEnd_forward r).bind fun last r₁ hlast => ?_
    rw [run_ofRead_eq_ok] at hlast
    obtain ⟨n, -, -, hl⟩ := Reader.frameEnd_eq_ok.1 hlast
    exact .reader ((follows_tagged h es _ _ hl).bind_pure _)

end RecordDecoding

end Calls

namespace Program

theorem followsWithin (p : Program) : ∀ (calls : Nat) (name : String) (r : Reader),
    Follows (p.traceWithin calls name) (p.decodeWithin calls name) r
  | 0, _, _ => .throw nofun
  | calls + 1, name, r => by
    rw [traceWithin, decodeWithin]
    rcases p.record? name with _ | i
    · exact .throw (by simp)
    · exact i.decoding.follows (p.followsWithin calls) r

theorem follows (p : Program) (name : String) (r : Reader) :
    Follows (p.trace name) (p.decode name) r :=
  .reader (p.followsWithin _ name r)

end Program

end SchemaCodec

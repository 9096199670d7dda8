import SchemaCodec.Proofs.RoundTrip

/-!
# What a decoder depends on

A decoder that succeeds takes its value from the bytes it takes, apart from one check: the end of
a message is checked against the end of the input (`RecordDecoding.frameEnd_elsewhere`). A count is
checked against it too, but what it announces is read. So where the same bytes come next in another
input, the decoder does the same if no message that it enters claims to end past that input, and it
refuses the input otherwise (`Program.confined`).

A message within a message may claim an end behind the outer one, and is read all the same, as it
ends at its terminator. So a message that is accepted in a stream need not be accepted by itself
(`Program.message_confined` says when it is).
-/

namespace SchemaCodec

open Wire
open List (Forall₂)

variable {α β : Type}

/-- A run gives the value if the frames end within the bound, and fails otherwise. -/
def Elsewhere (bound : Nat) (frames : Nat → Prop) (y : Except Halt α × Reader) (a : α)
    (q : Reader) : Prop :=
  ((∀ e, frames e → e ≤ bound) ∧ y = (.ok a, q))
    ∨ (∃ e, frames e ∧ bound < e)
      ∧ ∃ m n q', y = (.error (.failed (.frameOutOfBounds m n)), q')

namespace Elsewhere

variable {bound : Nat} {F G H : Nat → Prop} {x : Decode α} {f : α → Decode β} {a : α} {b : β}
  {q q₁ q₂ : Reader}

theorem of_ok {y : Except Halt α × Reader} (h : y = (.ok a, q)) (hF : ∀ e, ¬ F e) :
    Elsewhere bound F y a q :=
  .inl ⟨fun e he => absurd he (hF e), h⟩

theorem ok_iff {y : Except Halt α × Reader} (h : Elsewhere bound F y a q) :
    y = (.ok a, q) ↔ ∀ e, F e → e ≤ bound := by
  rcases h with ⟨hF, hy⟩ | ⟨⟨e, he, hlt⟩, m, n, q', hy⟩
  · exact iff_of_true hy hF
  · refine iff_of_false ?_ fun hF => absurd (hF e he) (not_le.2 hlt)
    rw [hy]
    exact fun h => nomatch h

theorem error_of_lt {y : Except Halt α × Reader} (h : Elsewhere bound F y a q)
    (hlt : ∃ e, F e ∧ bound < e) :
    ∃ m n q', y = (.error (.failed (.frameOutOfBounds m n)), q') := by
  rcases h with ⟨hF, -⟩ | ⟨-, hy⟩
  · obtain ⟨e, he, hlt⟩ := hlt
    exact absurd (hF e he) (not_le.2 hlt)
  · exact hy

theorem bind (hx : Elsewhere bound F (x q) a q₁) (hf : Elsewhere bound G (f a q₁) b q₂)
    (hH : ∀ e, H e ↔ F e ∨ G e) : Elsewhere bound H ((x >>= f) q) b q₂ := by
  rcases hx with ⟨hF, hx⟩ | ⟨⟨e, he, hlt⟩, m, n, q', hx⟩
  · rw [run_bind_of_ok hx]
    rcases hf with ⟨hG, hf⟩ | ⟨⟨e, he, hlt⟩, hf⟩
    · exact .inl ⟨fun e he => ((hH e).1 he).elim (hF e) (hG e), hf⟩
    · exact .inr ⟨⟨e, (hH e).2 (.inr he), hlt⟩, hf⟩
  · rw [run_bind_of_error hx]
    exact .inr ⟨⟨e, (hH e).2 (.inl he), hlt⟩, m, n, q', rfl⟩

theorem bind_pure (hx : Elsewhere bound F (x q) a q₁) (g : α → β) :
    Elsewhere bound F ((x >>= fun a => pure (g a)) q) (g a) q₁ :=
  hx.bind (f := fun a => pure (g a)) (G := fun _ => False) (of_ok rfl fun _ => id) fun e => by simp

end Elsewhere

namespace Reader

variable {r q : Reader} {m n : Nat}

theorem take_left (h : r.rest.take (m + n) <+: q.rest) : r.rest.take m <+: q.rest :=
  (List.take_prefix_take_left (Nat.le_add_right m n)).trans h

theorem take_right (hm : m ≤ r.remaining) (h : r.rest.take (m + n) <+: q.rest) :
    (r.advance m).rest.take n <+: (q.advance m).rest := by
  rw [List.take_add] at h
  have := prefix_advance h
  rwa [List.length_take, length_rest, Nat.min_eq_left hm, ← rest_advance] at this

theorem le_remaining_of_take (hn : n ≤ r.remaining) (h : r.rest.take n <+: q.rest) :
    n ≤ q.remaining := by
  have := le_remaining h
  rwa [List.length_take, length_rest, Nat.min_eq_left hn] at this

theorem pos_add_remaining_advance (hm : m ≤ q.remaining) :
    (r.advance m).pos + (q.advance m).remaining = r.pos + q.remaining := by
  rw [pos_advance, remaining_advance]
  omega

end Reader

/-- What a value came from gives the value elsewhere. -/
theorem TakesNext.elsewhere {x : Read α} {k n : Nat} {r q : Reader} {a : α} (hx : TakesNext k x)
    (h : x r = (.ok a, r.advance n)) (hq : r.rest.take n <+: q.rest) :
    x q = (.ok a, q.advance n) := by
  obtain ⟨bs, hbs, -, hread⟩ := hx r a _ h
  have hrun := h.symm.trans (hread r hbs)
  have hn : n = bs.length := Nat.add_left_cancel (congrArg (·.2.pos) hrun)
  subst hn
  rw [← List.prefix_iff_eq_take.1 hbs] at hq
  exact hread q hq

theorem Reader.tag_elsewhere {last last' : Nat} {t : UInt8} {r r' q : Reader}
    (h : tag last r = (.ok t, r')) (hl : r.pos + last' = q.pos + last)
    (hq : r.rest.take 1 <+: q.rest) : tag last' q = (.ok t, q.advance 1) := by
  obtain ⟨hlt, -, rfl⟩ := tag_advance h
  exact tag_eq_ok.2 ⟨by omega, byte_takesNext.elsewhere (tag_eq_ok.1 h).2 hq⟩

/-- From `r`, `x` gives `a` and takes `n` bytes. Where these bytes come next in another input, `x`
goes the same way unless one of the frames ends past that input. -/
structure Confined (x : Decode α) (r : Reader) (a : α) (n : Nat) (frames : Nat → Prop) : Prop where
  run : x r = (.ok a, r.advance n)
  le : n ≤ r.remaining
  elsewhere : ∀ q : Reader, r.rest.take n <+: q.rest →
    Elsewhere (r.pos + q.remaining) frames (x q) a (q.advance n)

namespace Confined

variable {F G H : Nat → Prop} {x : Decode α} {f : α → Decode β} {a : α} {b : β} {r r' : Reader}
  {m n k : Nat}

theorem congr (h : ∀ e, F e ↔ G e) (hx : Confined x r a n F) : Confined x r a n G := by
  obtain rfl : F = G := funext fun e => propext (h e)
  exact hx

theorem pure (a : α) (r : Reader) (hF : ∀ e, ¬ F e) : Confined (pure a) r a 0 F where
  run := rfl
  le := Nat.zero_le _
  elsewhere _ _ := .of_ok rfl hF

theorem bind (hx : Confined x r a m F) (hf : Confined (f a) (r.advance m) b n G)
    (hH : ∀ e, H e ↔ F e ∨ G e) : Confined (x >>= f) r b (m + n) H := by
  have hle := hf.le
  rw [Reader.remaining_advance] at hle
  refine ⟨?_, by have := hx.le; omega, fun q hq => ?_⟩
  · rw [run_bind_of_ok hx.run, hf.run, Reader.advance_advance]
  · have hm := Reader.le_remaining_of_take hx.le (Reader.take_left hq)
    have h := hf.elsewhere _ (Reader.take_right hx.le hq)
    rw [Reader.pos_add_remaining_advance hm, Reader.advance_advance] at h
    exact (hx.elsewhere q (Reader.take_left hq)).bind h hH

theorem bind_pure (hx : Confined x r a n F) (g : α → β) :
    Confined (x >>= fun a => Pure.pure (g a)) r (g a) n F :=
  hx.bind (f := fun a => Pure.pure (g a)) (G := fun _ => False) (pure _ _ fun _ => id) fun e => by
    simp

/-- A read that takes its value from the next bytes enters no frame. -/
theorem of_takesNext {x : Read α} (hx : TakesNext k x) (h : x r = (.ok a, r'))
    (hF : ∀ e, ¬ F e) : ∃ n, k ≤ n ∧ r' = r.advance n ∧ Confined (Decode.ofRead x) r a n F := by
  obtain ⟨bs, hbs, hk, hr⟩ := hx r a r' h
  have hrun := hr r hbs
  have htake : r.rest.take bs.length = bs := (List.prefix_iff_eq_take.1 hbs).symm
  rw [hrun] at h
  cases h
  refine ⟨bs.length, hk, rfl, run_ofRead_of_ok hrun, Reader.le_remaining hbs, fun q hq => ?_⟩
  rw [htake] at hq
  exact .of_ok (run_ofRead_of_ok (hr q hq)) hF

theorem of_read {x : Read α} {g : α → β} (hx : TakesNext k x)
    (h : (Decode.ofRead x >>= fun a => Pure.pure (g a)) r = (.ok b, r')) (hF : ∀ e, ¬ F e) :
    ∃ n, k ≤ n ∧ Confined (Decode.ofRead x >>= fun a => Pure.pure (g a)) r b n F := by
  obtain ⟨a, r₁, ha, h⟩ := run_bind_eq_ok.1 h
  cases h
  obtain ⟨n, hn, -, hc⟩ := of_takesNext hx (run_ofRead_eq_ok.1 ha) hF
  exact ⟨n, hn, hc.bind_pure g⟩

theorem count {f : Nat → Decode β} (hn : Reader.count k r = (.ok n, r'))
    (hf : Confined (f n) r' b m F) (hk : n * k ≤ m) :
    Confined (Decode.ofRead (Reader.count k) >>= f) r b (4 + m) F := by
  obtain ⟨hlen, -⟩ := Reader.count_eq_ok.1 hn
  obtain ⟨h4, rfl⟩ := Reader.natural_eq_ok hlen
  have hle := hf.le
  rw [Reader.remaining_advance] at hle
  refine ⟨?_, by omega, fun q hq => ?_⟩
  · rw [run_bind_of_ok (run_ofRead_of_ok hn), hf.run, Reader.advance_advance]
  · -- the bytes behind the count come next here too, so there are as many as it needs
    have hm := Reader.le_remaining_of_take (by omega) hq
    have hneeded : Reader.needed n k ≤ (q.advance 4).remaining := by
      rw [Reader.remaining_advance]
      exact (Nat.min_le_left _ _).trans (hk.trans (by omega))
    have hlen' := Reader.length_takesNext.elsewhere hlen (Reader.take_left hq)
    have hcount := Reader.count_eq_ok.2 ⟨hlen', hneeded⟩
    have h := hf.elsewhere _ (Reader.take_right h4 hq)
    rw [run_bind_of_ok (run_ofRead_of_ok hcount)]
    rwa [Reader.pos_add_remaining_advance (by omega), Reader.advance_advance] at h

theorem times {x : Decode α} {frames : Reader → Nat → Prop} {size : Nat} :
    ∀ {n : Nat} {r r' : Reader} {as : List α}, Decode.times x n r = (.ok as, r') →
      (∀ r₁, Decode.Turn x n r r₁ → ∀ a r₂, x r₁ = (.ok a, r₂) →
        ∃ k, size ≤ k ∧ Confined x r₁ a k (frames r₁)) →
      ∃ k, n * size ≤ k ∧ Confined (Decode.times x n) r as k fun e =>
        ∃ r₁, Decode.Turn x n r r₁ ∧ frames r₁ e
  | 0, r, r', as, h, _ => by
    cases h
    refine ⟨0, by omega, pure [] r ?_⟩
    rintro e ⟨r₁, ⟨⟩, -⟩
  | n + 1, r, r', as, h, hx => by
    obtain ⟨a, r₁, ha, h⟩ := run_bind_eq_ok.1 h
    obtain ⟨as', r₂, has, h⟩ := run_bind_eq_ok.1 h
    cases h
    obtain ⟨j, hj, hhead⟩ := hx r .first a r₁ ha
    obtain ⟨k, hk, htail⟩ := times has fun r₃ ht => hx r₃ (.next ha ht)
    have hr₁ := ha.symm.trans hhead.run
    cases hr₁
    refine ⟨j + k, ?_, hhead.bind (htail.bind_pure (a :: ·)) fun e => ?_⟩
    · rw [Nat.add_mul, Nat.one_mul]
      omega
    · constructor
      · rintro ⟨r₃, ht, he⟩
        cases ht with
        | first => exact .inl he
        | next ha' ht =>
          rw [ha] at ha'
          cases ha'
          exact .inr ⟨r₃, ht, he⟩
      · rintro (he | ⟨r₃, ht, he⟩)
        · exact ⟨r, .first, he⟩
        · exact ⟨r₃, .next ha ht, he⟩

/-- A container is confined if its parts are. Its count is let through wherever what it announced
comes next. -/
theorem counted {x : Decode α} {g : List α → β} (frames : Reader → Nat → Prop)
    (h : (Decode.ofRead (Reader.count k) >>= fun n =>
      Decode.times x n >>= fun as => Pure.pure (g as)) r = (.ok b, r'))
    (hx : ∀ n r₁, Reader.count k r = (.ok n, r₁) → ∀ r₂, Decode.Turn x n r₁ r₂ →
      ∀ a r₃, x r₂ = (.ok a, r₃) → ∃ j, k ≤ j ∧ Confined x r₂ a j (frames r₂)) :
    ∃ j, Confined (Decode.ofRead (Reader.count k) >>= fun n =>
      Decode.times x n >>= fun as => Pure.pure (g as)) r b (4 + j) fun e =>
        ∃ n r₁ r₂, Reader.count k r = (.ok n, r₁) ∧ Decode.Turn x n r₁ r₂ ∧ frames r₂ e := by
  obtain ⟨n, r₁, hn, h⟩ := run_bind_eq_ok.1 h
  rw [run_ofRead_eq_ok] at hn
  obtain ⟨as, r₂, has, h⟩ := run_bind_eq_ok.1 h
  cases h
  obtain ⟨j, hj, hc⟩ := times has (hx n r₁ hn)
  refine ⟨j, ((hc.bind_pure g).count hn hj).congr fun e => ?_⟩
  constructor
  · rintro ⟨r₃, ht, he⟩
    exact ⟨n, r₁, r₃, hn, ht, he⟩
  · rintro ⟨n', r₁', r₃, hn', ht, he⟩
    rw [hn] at hn'
    cases hn'
    exact ⟨r₃, ht, he⟩

end Confined

section Statements

variable {s : Schema} {call : DecodeCall} {frames : String → Reader → Nat → Prop}

/-- The calls of a record give values that take at least its smallest size, and are confined. -/
def ConfinedCall (s : Schema) (call : DecodeCall) (frames : String → Reader → Nat → Prop)
    (name : String) (r : Reader) : Prop :=
  ∀ v r', call name r = (.ok v, r') →
    ∃ n, s.Covers n (.defined name) ∧ Confined (call name) r v n (frames name r)

theorem AtomTy.For.minWireSize_le {k : AtomTy} {t : Ty} (h : k.For s t) :
    s.minWireSize t ≤ k.wireSize := by
  cases h with
  | scalar => exact (Schema.Covers.scalar le_rfl).minWireSize_le
  | enum hd hk => exact (Schema.Covers.enum hd hk le_rfl).minWireSize_le

theorem AtomTy.For.moves {k : AtomTy} {t : Ty} (h : k.For s t) :
    Moves (s.minWireSize t) (Decode.ofRead (Atom.read k)) :=
  ((Atom.read_takesNext k).moves.mono h.minWireSize_le).ofRead

theorem Decoding.confined_entry {key : AtomTy} {kt t : Ty} {e : Decoding} (hk : key.For s kt)
    {frames : Reader → Nat → Prop} {r r' : Reader} {x : Atom × Value}
    (h : entry call key e r = (.ok x, r'))
    (he : ∀ k r₁, Atom.read key r = (.ok k, r₁) → ∀ v r₂, e.run call r₁ = (.ok v, r₂) →
      ∃ n, s.Covers n t ∧ Confined (e.run call) r₁ v n (frames r₁)) :
    ∃ n, s.minWireSize kt + s.minWireSize t ≤ n ∧ Confined (entry call key e) r x n fun f =>
      ∃ k r₁, Atom.read key r = (.ok k, r₁) ∧ frames r₁ f := by
  obtain ⟨k, r₁, hkey, h⟩ := run_bind_eq_ok.1 h
  rw [run_ofRead_eq_ok] at hkey
  obtain ⟨v, r₂, hv, h⟩ := run_bind_eq_ok.1 h
  cases h
  obtain ⟨m, hm, rfl, hhead⟩ := Confined.of_takesNext (Atom.read_takesNext key) hkey (fun _ => id)
  obtain ⟨n, hn, hval⟩ := he k _ hkey v _ hv
  refine ⟨m + n, Nat.add_le_add (hk.minWireSize_le.trans hm) hn.minWireSize_le,
    hhead.bind (hval.bind_pure fun v => (k, v)) fun f => ?_⟩
  constructor
  · rintro ⟨k', r₁, hkey', hf⟩
    rw [hkey] at hkey'
    cases hkey'
    exact .inr hf
  · rintro (hf | hf)
    · exact hf.elim
    · exact ⟨k, _, hkey, hf⟩

theorem Decoding.confined {t : Ty} {e : Decoding} (he : e.For s t) {r r' : Reader} {v : Value}
    (h : e.run call r = (.ok v, r'))
    (hc : ∀ name r₁, e.Calls call r name r₁ → ConfinedCall s call frames name r₁) :
    ∃ n, s.Covers n t ∧ Confined (e.run call) r v n fun f =>
      ∃ name r₁, e.Calls call r name r₁ ∧ frames name r₁ f := by
  induction he generalizing r r' v with
  | scalar =>
    refine (Confined.of_read (Atom.read_takesNext _) h ?_).imp fun n hn => ⟨.scalar hn.1, hn.2⟩
    rintro f ⟨_, _, ⟨⟩, -⟩
  | enum hd hk =>
    refine (Confined.of_read (Atom.read_takesNext _) h ?_).imp fun n hn =>
      ⟨.enum hd hk hn.1, hn.2⟩
    rintro f ⟨_, _, ⟨⟩, -⟩
  | bytes =>
    refine (Confined.of_read Reader.byteArray_takesNext h ?_).imp fun n hn => ⟨.array hn.1, hn.2⟩
    rintro f ⟨_, _, ⟨⟩, -⟩
  | @record b name d hd hk =>
    obtain ⟨n, hn, hx⟩ := hc name r .record v r' h
    refine ⟨n, hn, hx.congr fun f => ⟨fun hf => ⟨name, r, .record, hf⟩, ?_⟩⟩
    rintro ⟨_, _, ⟨⟩, hf⟩
    exact hf
  | @array b length item itemType t e ht he ih =>
    obtain ⟨n, hx⟩ := Confined.counted (g := Value.array)
      (fun r₂ f => ∃ name r₃, e.Calls call r₂ name r₃ ∧ frames name r₃ f) h
      fun n r₁ hn r₂ ht u r₃ hu => by
        obtain ⟨k, hk, hx⟩ := ih hu fun name r₄ hcall => hc name r₄ (.array hn ht hcall)
        exact ⟨k, hk.minWireSize_le, hx⟩
    refine ⟨4 + n, .array (Nat.le_add_right 4 n), hx.congr fun f => ⟨?_, ?_⟩⟩
    · rintro ⟨n, r₁, r₂, hn, ht, name, r₃, hcall, hf⟩
      exact ⟨name, r₃, .array hn ht hcall, hf⟩
    · rintro ⟨name, r₃, hcall, hf⟩
      cases hcall with
      | array hn ht hcall => exact ⟨_, _, _, hn, ht, name, r₃, hcall, hf⟩
  | @map b length k v keyType valueType kt t key e hkey he ih =>
    obtain ⟨n, hx⟩ := Confined.counted (x := entry call key e) (g := Value.mapOf)
      (fun r₂ f => ∃ k r₃, Atom.read key r₂ = (.ok k, r₃)
        ∧ ∃ name r₄, e.Calls call r₃ name r₄ ∧ frames name r₄ f) h
      fun n r₁ hn r₂ ht x r₃ hx => confined_entry hkey hx fun k r₄ hk u r₅ hu =>
        ih hu fun name r₆ hcall => hc name r₆ (.map hn ht hk hcall)
    refine ⟨4 + n, .map (Nat.le_add_right 4 n), hx.congr fun f => ⟨?_, ?_⟩⟩
    · rintro ⟨n, r₁, r₂, hn, ht, k, r₃, hk, name, r₄, hcall, hf⟩
      exact ⟨name, r₄, .map hn ht hk hcall, hf⟩
    · rintro ⟨name, r₄, hcall, hf⟩
      cases hcall with
      | map hn ht hk hcall => exact ⟨_, _, _, hn, ht, _, _, hk, name, r₄, hcall, hf⟩

namespace RecordDecoding

theorem confined_fields {ds : List (String × Decoding)} {fs : List Field} {r r' : Reader}
    {vs : List Value} (he : Forall₂ (fun e f => e.2.For s f.ty) ds fs)
    (h : runFields call ds r = (.ok vs, r'))
    (hc : ∀ d r₁, ReadsField call ds r d r₁ → ∀ name r₂, d.Calls call r₁ name r₂ →
      ConfinedCall s call frames name r₂) :
    ∃ sizes, Forall₂ (fun n f => s.Covers n f.ty) sizes fs
      ∧ Confined (runFields call ds) r vs sizes.sum fun f => ∃ d r₁, ReadsField call ds r d r₁
        ∧ ∃ name r₂, d.Calls call r₁ name r₂ ∧ frames name r₂ f := by
  induction he generalizing r vs with
  | nil =>
    cases h
    refine ⟨[], .nil, .pure [] _ ?_⟩
    rintro f ⟨_, _, ⟨⟩, -⟩
  | @cons d f ds fs hd _ ih =>
    obtain ⟨ident, d⟩ := d
    obtain ⟨v, r₁, hv, h⟩ := run_bind_eq_ok.1 h
    obtain ⟨us, r₂, hus, h⟩ := run_bind_eq_ok.1 h
    cases h
    obtain ⟨n, hn, hhead⟩ := Decoding.confined hd hv (hc d r .first)
    obtain ⟨sizes, hsizes, htail⟩ := ih hus fun d' r₃ hr₃ => hc d' r₃ (.next hv hr₃)
    have hr₁ := hv.symm.trans hhead.run
    cases hr₁
    refine ⟨n :: sizes, .cons hn hsizes, ?_⟩
    rw [List.sum_cons]
    refine hhead.bind (htail.bind_pure (v :: ·)) fun f => ?_
    constructor
    · rintro ⟨d', r₃, hr₃, hf⟩
      cases hr₃ with
      | first => exact .inl hf
      | next hv' hr₃ =>
        rw [hv] at hv'
        cases hv'
        exact .inr ⟨d', r₃, hr₃, hf⟩
    · rintro (hf | ⟨d', r₃, hr₃, hf⟩)
      · exact ⟨d, r, .first, hf⟩
      · exact ⟨d', r₃, .next hv hr₃, hf⟩

theorem ReadsTagged.exists_find {es : List TaggedDecoding} {last : Nat} {t : UInt8}
    {r r₁ r' : Reader} {e : TaggedDecoding} (h : ReadsTagged call es last r e r')
    (ht : Reader.tag last r = (.ok t, r₁)) :
    t ≠ 0 ∧ ∃ x, es.zipIdx.find? (·.1.tag == t) = some x := by
  cases h with
  | first ht' h0 hf =>
    rw [ht] at ht'
    cases ht'
    exact ⟨h0, _, hf⟩
  | next ht' h0 hf _ _ =>
    rw [ht] at ht'
    cases ht'
    exact ⟨h0, _, hf⟩

/-- Behind a tag that is known, its field is read, and then what is read behind that field. -/
theorem readsTagged_iff {es : List TaggedDecoding} {last i : Nat} {t : UInt8} {v : Value}
    {r r₁ r₂ r' : Reader} {e e' : TaggedDecoding} (ht : Reader.tag last r = (.ok t, r₁))
    (h0 : t ≠ 0) (hf : es.zipIdx.find? (·.1.tag == t) = some (e, i))
    (hv : e.decoding.run call r₁ = (.ok v, r₂)) : ReadsTagged call es last r e' r'
      ↔ e' = e ∧ r' = r₁ ∨ ReadsTagged call es last r₂ e' r' := by
  constructor
  · intro h
    cases h with
    | first ht' _ hf' =>
      rw [ht] at ht'
      cases ht'
      rw [hf] at hf'
      cases hf'
      exact .inl ⟨rfl, rfl⟩
    | next ht' _ hf' hv' h =>
      rw [ht] at ht'
      cases ht'
      rw [hf] at hf'
      cases hf'
      rw [hv] at hv'
      cases hv'
      exact .inr h
  · rintro (⟨rfl, rfl⟩ | h)
    · exact .first ht h0 hf
    · exact .next ht h0 hf hv h

/-- The fields of a message are confined to it, wherever the message ends in the other input. -/
theorem confined_tagged {es : List TaggedDecoding} {fs : List Field}
    (he : Forall₂ (TaggedDecoding.For s) es fs) {last : Nat} :
    ∀ {room : Nat} {values vs : List (Option Value)} {r r' : Reader},
    runTagged call es last room values r = (.ok vs, r') →
    (∀ e r₁, ReadsTagged call es last r e r₁ → ∀ name r₂, e.decoding.Calls call r₁ name r₂ →
      ConfinedCall s call frames name r₂) →
    ∃ n, 1 ≤ n ∧ n ≤ r.remaining ∧ r.pos + n ≤ last ∧ r' = r.advance n
      ∧ ∀ q last', r.pos + last' = q.pos + last → r.rest.take n <+: q.rest →
        Elsewhere (r.pos + q.remaining)
          (fun f => ∃ e r₁, ReadsTagged call es last r e r₁
            ∧ ∃ name r₂, e.decoding.Calls call r₁ name r₂ ∧ frames name r₂ f)
          (runTagged call es last' room values q) vs (q.advance n)
  | 0, _, _, _, _, h, _ => by cases h
  | room + 1, values, vs, r, r', h, hc => by
    obtain ⟨t, ht, h⟩ := runTagged_eq_ok h
    obtain ⟨hlt, h1, -⟩ := Reader.tag_advance ht
    rcases h with ⟨rfl, rfl, rfl⟩ | ⟨h0, hf, hs, rfl, rfl⟩ | ⟨h0, e, i, v, r₂, hf, hv, h⟩
    · refine ⟨1, le_rfl, h1, hlt, rfl, fun q last' hl hq =>
        .of_ok (runTagged_stop (Reader.tag_elsewhere ht hl hq)) ?_⟩
      rintro f ⟨e, r₁, hr₁, -⟩
      exact (hr₁.exists_find ht).1 rfl
    · -- everything up to the end of the message is taken, so the other input reaches that far
      have hle := Nat.sub_le_sub_right hs r.pos
      refine ⟨last - r.pos, by omega, hle, by omega, rfl, fun q last' hl hq => .of_ok ?_ ?_⟩
      · have hqle := Reader.le_remaining_of_take hle hq
        have hq1 := (List.take_prefix_take_left (show 1 ≤ last - r.pos by omega)).trans hq
        rw [Reader.remaining] at hqle
        rw [runTagged_skip (Reader.tag_elsewhere ht hl hq1) h0 hf (by omega),
          show last' - q.pos = last - r.pos by omega]
      · rintro f ⟨e, r₁, hr₁, -⟩
        obtain ⟨-, x, hx⟩ := hr₁.exists_find ht
        rw [hf] at hx
        cases hx
    · -- the field takes `m` bytes behind its tag, and the rest of the loop `n`
      obtain ⟨g, -, -, hfor⟩ := exists_getElem?_of_forall₂ he
        (List.mk_mem_zipIdx_iff_getElem?.1 (List.mem_of_find?_eq_some hf))
      obtain ⟨m, -, hval⟩ := Decoding.confined hfor hv (hc e _ (.first ht h0 hf))
      have hr₂ := hv.symm.trans hval.run
      cases hr₂
      obtain ⟨n, -, hnle, hnlast, rfl, hloop⟩ :=
        confined_tagged he h fun e' r₃ hr₃ => hc e' r₃ (.next ht h0 hf hv hr₃)
      have hmle := hval.le
      simp only [Reader.remaining_advance, Reader.pos_advance] at hmle hnle hnlast
      refine ⟨1 + (m + n), by omega, by omega, by omega, ?_, fun q last' hl hq => ?_⟩
      · rw [Reader.advance_advance, Reader.advance_advance]
      · have hqle := Reader.le_remaining_of_take (by omega) hq
        have hq₁ := Reader.take_right h1 hq
        have hv' := hval.elsewhere _ (Reader.take_left hq₁)
        have hloop' := hloop ((q.advance 1).advance m) last'
          (by simp only [Reader.pos_advance]; omega) (Reader.take_right hval.le hq₁)
        rw [Reader.pos_add_remaining_advance (by rw [Reader.remaining_advance]; omega)] at hloop'
        rw [Reader.pos_add_remaining_advance (by omega)] at hv' hloop'
        rw [runTagged_field (Reader.tag_elsewhere ht hl (Reader.take_left hq)) h0 hf,
          ← Reader.advance_advance, ← Reader.advance_advance]
        refine hv'.bind hloop' fun f => ?_
        constructor
        · rintro ⟨e', r₁, hr₁, hcalls⟩
          rcases (readsTagged_iff ht h0 hf hv).1 hr₁ with ⟨rfl, rfl⟩ | hr₁
          · exact .inl hcalls
          · exact .inr ⟨e', r₁, hr₁, hcalls⟩
        · rintro (hcalls | ⟨e', r₁, hr₁, hcalls⟩)
          · exact ⟨e, _, .first ht h0 hf, hcalls⟩
          · exact ⟨e', r₁, .next ht h0 hf hv hr₁, hcalls⟩

/-- The end of a frame is checked against the input, and against nothing else. -/
theorem frameEnd_elsewhere {last : Nat} {r r₁ q : Reader}
    (h : Reader.frameEnd r = (.ok last, r₁)) (hq : r.rest.take 4 <+: q.rest) :
    Elsewhere (r.pos + q.remaining) (· = last) (Decode.ofRead Reader.frameEnd q)
      (q.pos + (last - r.pos)) (q.advance 4) := by
  obtain ⟨n, hlen, hlast, hle⟩ := Reader.frameEnd_eq_ok.1 h
  obtain ⟨h4, rfl⟩ := Reader.natural_eq_ok hlen
  have hq4 := Reader.le_remaining_of_take h4 hq
  have hlen' := Reader.length_takesNext.elsewhere hlen hq
  rw [Reader.pos_advance] at hlast
  rw [Reader.remaining] at hq4
  by_cases hfit : last ≤ r.pos + q.remaining
  · refine .inl ⟨fun e he => he ▸ hfit, run_ofRead_of_ok (Reader.frameEnd_eq_ok.2
      ⟨n, hlen', ?_, ?_⟩)⟩
    · rw [Reader.pos_advance]
      omega
    · rw [Reader.remaining] at hfit
      rw [Reader.size_advance]
      omega
  · have hlt : (q.advance 4).size < (q.advance 4).pos + n := by
      rw [Reader.size_advance, Reader.pos_advance]
      rw [Reader.remaining] at hfit
      omega
    exact .inr ⟨⟨last, rfl, not_le.1 hfit⟩, _, _, _,
      run_ofRead_of_error (Reader.frameEnd_of_lt hlen' hlt)⟩

theorem confined_message {es : List TaggedDecoding} {fs : List Field}
    (he : Forall₂ (TaggedDecoding.For s) es fs) {r r' : Reader} {v : Value}
    (h : (message es).run call r = (.ok v, r'))
    (hc : ∀ name r₁, (message es).Calls call r name r₁ → ConfinedCall s call frames name r₁) :
    ∃ n last, emptyMessageSize ≤ n ∧ Reader.frameEnd r = (.ok last, r.advance 4)
      ∧ r.pos + n ≤ last ∧ Confined ((message es).run call) r v n fun f => f = last
        ∨ ∃ name r₁, (message es).Calls call r name r₁ ∧ frames name r₁ f := by
  have hrun := h
  obtain ⟨last, r₁, hl, h⟩ := run_bind_eq_ok.1 h
  rw [run_ofRead_eq_ok] at hl
  rw [run_get] at h
  obtain ⟨vs, r₂, hvs, h⟩ := run_bind_eq_ok.1 h
  cases h
  obtain ⟨n, hn, hnle, hnlast, rfl, hloop⟩ := confined_tagged he hvs fun e r₂ hr₂ name r₃ hcall =>
    hc name r₃ (.message hl hr₂ hcall)
  obtain ⟨k, hlen, hlast, -⟩ := Reader.frameEnd_eq_ok.1 hl
  obtain ⟨h4, rfl⟩ := Reader.natural_eq_ok hlen
  rw [Reader.remaining_advance] at hnle
  rw [Reader.pos_advance] at hnlast hlast
  rw [Reader.advance_advance] at hrun
  refine ⟨4 + n, last, ?_, hl, by omega, hrun, by omega, fun q hq => ?_⟩
  · simp only [emptyMessageSize, lengthSize]
    omega
  · have hqle := Reader.le_remaining_of_take (by omega) hq
    have hbody := hloop (q.advance 4) (q.pos + (last - r.pos))
      (by simp only [Reader.pos_advance]; omega) (Reader.take_right h4 hq)
    have hroom : last - (r.advance 4).pos + 1
        = q.pos + (last - r.pos) - (q.advance 4).pos + 1 := by
      rw [Reader.pos_advance, Reader.pos_advance]
      omega
    rw [Reader.pos_add_remaining_advance (by omega), hroom, Reader.advance_advance] at hbody
    refine (frameEnd_elsewhere hl (Reader.take_left hq)).bind (hbody.bind_pure Value.message)
      fun f => or_congr_right ⟨?_, ?_⟩
    · rintro ⟨name, r₁, hcall, hf⟩
      cases hcall with
      | message hl' hr₂ hcall =>
        rw [hl] at hl'
        cases hl'
        exact ⟨_, _, hr₂, name, r₁, hcall, hf⟩
    · rintro ⟨e, r₂, hr₂, name, r₃, hcall, hf⟩
      exact ⟨name, r₃, .message hl hr₂ hcall, hf⟩

end RecordDecoding

end Statements

namespace Program

/-- The decoder of a record is the one of a message whose frame ends there, or it calls such a
decoder on its way. -/
inductive Frames (p : Program) : String × Reader → Nat → Prop
  | own {name : String} {i : RecordItem} {fields : List TaggedDecoding} {last : Nat}
    {r r₁ : Reader} (hi : p.record? name = some i) (hm : i.decoding = .message fields)
    (hl : Reader.frameEnd r = (.ok last, r₁)) : Frames p (name, r) last
  | nested {a b : String × Reader} {last : Nat} (hab : p.Enters a b) (h : Frames p b last) :
    Frames p a last

variable {p : Program} {s : Schema}

theorem frames_iff {name : String} {r : Reader} {i : RecordItem} {last : Nat}
    (hi : p.record? name = some i) : p.Frames (name, r) last
      ↔ (∃ es r₁, i.decoding = .message es ∧ Reader.frameEnd r = (.ok last, r₁))
        ∨ ∃ m r₁, i.decoding.Calls p.decode r m r₁ ∧ p.Frames (m, r₁) last := by
  constructor
  · intro h
    cases h with
    | own hi' hm hl =>
      obtain rfl := Option.some.inj (hi.symm.trans hi')
      exact .inl ⟨_, _, hm, hl⟩
    | @nested _ b _ hab h =>
      obtain ⟨i', hi', hcall⟩ := hab
      obtain rfl := Option.some.inj (hi.symm.trans hi')
      exact .inr ⟨b.1, b.2, hcall, h⟩
  · rintro (⟨es, r₁, hm, hl⟩ | ⟨m, r₁, hcall, h⟩)
    · exact .own hi hm hl
    · exact .nested ⟨i, hi, hcall⟩ h

/-- Every record is confined to the bytes it takes. -/
theorem confined (hp : p.Implements s) (a : String × Reader) :
    ConfinedCall s p.decode (fun name r => p.Frames (name, r)) a.1 a.2 := by
  induction a using (Enters.wellFounded hp.grounded).induction with
  | _ a ih =>
    obtain ⟨name, r⟩ := a
    intro v r' h
    dsimp only at h ⊢
    rcases hi : p.record? name with _ | i
    · rw [decode, run_get, decodeWithin, hi] at h
      cases h
    · obtain ⟨d, hd, -, he⟩ := hp.defined hi
      have hsub : ∀ m r₁, i.decoding.Calls p.decode r m r₁ →
          ConfinedCall s p.decode (fun name r => p.Frames (name, r)) m r₁ :=
        fun m r₁ hcall => ih (m, r₁) ⟨i, hi, hcall⟩
      rw [decode_eq hp.grounded hi] at h
      rw [show p.decode name = i.decoding.run p.decode from funext fun r =>
        decode_eq hp.grounded hi r]
      have hframes : ∀ last, _ ↔ p.Frames (name, r) last := fun _ => (frames_iff hi).symm
      generalize i.decoding = e at he h hsub hframes
      cases he with
      | @struct ds hk _ he =>
        obtain ⟨vs, r₁, hvs, h⟩ := run_bind_eq_ok.1 h
        cases h
        obtain ⟨sizes, hsizes, hx⟩ := RecordDecoding.confined_fields he hvs
          fun d r₁ hr₁ m r₂ hcall => hsub m r₂ (.struct hr₁ hcall)
        refine ⟨sizes.sum, .struct hd hk hsizes, (hx.bind_pure Value.struct).congr fun f => ?_⟩
        rw [← hframes]
        constructor
        · rintro ⟨d, r₁, hr₁, m, r₂, hcall, hf⟩
          exact .inr ⟨m, r₂, .struct hr₁ hcall, hf⟩
        · rintro (⟨es, r₁, ⟨⟩, -⟩ | ⟨m, r₂, ⟨hr₁, hcall⟩, hf⟩)
          exact ⟨_, _, hr₁, m, r₂, hcall, hf⟩
      | @message es hk ht he =>
        obtain ⟨n, last, hn, hl, -, hx⟩ := RecordDecoding.confined_message he h hsub
        refine ⟨n, .message hd hk hn, hx.congr fun f => ?_⟩
        rw [← hframes]
        refine or_congr_left ⟨?_, ?_⟩
        · rintro rfl
          exact ⟨es, _, rfl, hl⟩
        · rintro ⟨_, r₁, -, hl'⟩
          rw [hl] at hl'
          cases hl'
          rfl

end Program

namespace Reader

/-- The input from where the reader stands up to a position, without what is around it. -/
def slice (r : Reader) (last : Nat) : Reader :=
  ⟨r.bytes.extract r.pos last, 0⟩

theorem rest_slice (r : Reader) (last : Nat) :
    (r.slice last).rest = r.rest.take (last - r.pos) := by
  simp [slice, rest, List.extract_eq_take_drop]

theorem remaining_slice {r : Reader} {last : Nat} (h : last ≤ r.size) :
    (r.slice last).remaining = last - r.pos := by
  rw [← length_rest, rest_slice, List.length_take, length_rest]
  exact Nat.min_eq_left (Nat.sub_le_sub_right h r.pos)

end Reader

namespace Program

variable {s : Schema}

/-- What a message is does not depend on what comes behind its frame, but whether it is accepted
does: a frame within it may claim to end behind it, and has to end within the input. So the frame
by itself is read in the same way if no frame within it claims more, and is refused otherwise. -/
theorem message_confined (h : s.Accepted) : ∃ p, ofSchema? s = .ok p
    ∧ ∀ name d, s.get? name = some d → d.kind = .message → ∀ r v r',
      p.decode name r = (.ok v, r') → ∃ last, Reader.frameEnd r = (.ok last, r.advance 4)
        ∧ r'.pos ≤ last
        ∧ (p.decode name (r.slice last) = (.ok v, (r.slice last).advance (r'.pos - r.pos))
          ↔ ∀ e, p.Frames (name, r) e → e ≤ last)
        ∧ (∀ e, p.Frames (name, r) e → e ≤ r.size)
        ∧ ∀ q : Reader, r.rest.take (last - r.pos) <+: q.rest →
          ((∀ e, p.Frames (name, r) e → e ≤ r.pos + q.remaining) →
            p.decode name q = (.ok v, q.advance (r'.pos - r.pos)))
          ∧ ((∃ e, p.Frames (name, r) e ∧ r.pos + q.remaining < e) → ∃ m n q',
            p.decode name q = (.error (.failed (.frameOutOfBounds m n)), q')) := by
  obtain ⟨p, hp⟩ := Schema.accepted_iff.1 h
  have himp := implements hp
  refine ⟨p, hp, fun name d hd hk r v r' hdec => ?_⟩
  obtain ⟨n, -, hx⟩ := confined himp (name, r) v r' hdec
  obtain ⟨es, hes, -, hmsg⟩ := decode_message himp hd hk
  obtain ⟨m, last, -, hl, hlast, hx'⟩ := RecordDecoding.confined_message hes (hmsg ▸ hdec)
    fun name r₁ _ => confined himp (name, r₁)
  have hrun := hdec.symm.trans hx.run
  cases hrun
  have hmn := (hmsg ▸ hx'.run).symm.trans hdec
  obtain rfl : m = n := Nat.add_left_cancel (congrArg (·.2.pos) hmn)
  have hsize : last ≤ r.size := by
    obtain ⟨_, -, -, hle⟩ := Reader.frameEnd_eq_ok.1 hl
    exact hle
  have hall : ∀ q : Reader, r.rest.take (last - r.pos) <+: q.rest →
      Elsewhere (r.pos + q.remaining) (fun e => p.Frames (name, r) e) (p.decode name q) v
        (q.advance m) := fun q hq =>
    hx.elsewhere q ((List.take_prefix_take_left (by omega)).trans hq)
  rw [Reader.pos_advance, Nat.add_sub_cancel_left]
  refine ⟨last, hl, hlast, ?_, ?_, fun q hq => ⟨(hall q hq).ok_iff.2, (hall q hq).error_of_lt⟩⟩
  · have hs := (hall (r.slice last) (Reader.rest_slice r last ▸ List.prefix_rfl)).ok_iff
    rwa [Reader.remaining_slice hsize, Nat.add_sub_cancel' (by omega)] at hs
  · have hs := (hall r (List.take_prefix _ _)).ok_iff.1 hdec
    rwa [Reader.remaining, Nat.add_sub_cancel' (by omega)] at hs

end Program

namespace Parcel

/-- A parcel with a parcel inside, whose frame claims a byte behind the outer frame. -/
def lying : Reader :=
  ⟨#[11, 0, 0, 0, 3, 1, 0, 0, 0, 3, 0, 0, 0, 0, 0, 170], 0⟩

theorem lying_runs : (match Program.ofSchema? schema with
    | .ok p => (p.decode "Parcel" lying).1.isOk
      && (match p.decode "Parcel" (lying.slice 15) with
        | (.error e, _) => e = .failed (.frameOutOfBounds 16 15)
        | (.ok _, _) => false)
    | .error _ => false) = true := by
  decide +kernel

theorem exists_lying {p : Program} (hp : Program.ofSchema? schema = .ok p) :
    ∃ v r' q', p.decode "Parcel" lying = (.ok v, r')
      ∧ p.decode "Parcel" (lying.slice 15) = (.error (.failed (.frameOutOfBounds 16 15)), q') := by
  have hruns := lying_runs
  simp only [hp, Bool.and_eq_true] at hruns
  obtain ⟨hok, herr⟩ := hruns
  rcases hv : p.decode "Parcel" lying with ⟨_ | v, r'⟩
  · rw [hv] at hok
    cases hok
  rcases he : p.decode "Parcel" (lying.slice 15) with ⟨e | _, q'⟩
  · rw [he] at herr
    obtain rfl := of_decide_eq_true herr
    exact ⟨v, r', q', rfl, rfl⟩
  · rw [he] at herr
    cases herr

/-- A byte more behind the input changes nothing. -/
theorem lying_confined : schema.Accepted ∧ ∃ p v r', Program.ofSchema? schema = .ok p
    ∧ p.decode "Parcel" lying = (.ok v, r') ∧ r'.pos ≤ 15
    ∧ p.decode "Parcel" ⟨lying.bytes.push 0, 0⟩
      = (.ok v, (Reader.mk (lying.bytes.push 0) 0).advance r'.pos) := by
  obtain ⟨p, hp, hall⟩ := Program.message_confined accepted
  obtain ⟨v, r', -, hv, -⟩ := exists_lying hp
  obtain ⟨last, hl, hle, -, hsize, hq⟩ := hall "Parcel" _ rfl rfl lying v r' hv
  obtain rfl : 15 = last := Except.ok.inj (Prod.mk.inj hl).1
  refine ⟨accepted, p, v, r', hp, hv, hle, (hq _ ⟨[170, 0], rfl⟩).1 fun e he => ?_⟩
  exact (hsize e he).trans (by decide)

/-- The input decodes, and the frame by itself does not. -/
theorem not_confined : schema.Accepted ∧ ∃ p d v r' q', Program.ofSchema? schema = .ok p
    ∧ schema.get? "Parcel" = some d ∧ d.kind = .message ∧ p.decode "Parcel" lying = (.ok v, r')
    ∧ Reader.frameEnd lying = (.ok 15, lying.advance 4)
    ∧ p.decode "Parcel" (lying.slice 15) = (.error (.failed (.frameOutOfBounds 16 15)), q') := by
  obtain ⟨p, hp⟩ := Schema.accepted_iff.1 accepted
  obtain ⟨v, r', q', hv, he⟩ := exists_lying hp
  exact ⟨accepted, p, _, v, r', q', hp, rfl, rfl, hv, rfl, he⟩

end Parcel

end SchemaCodec

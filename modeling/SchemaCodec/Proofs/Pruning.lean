import SchemaCodec.Proofs.RoundTrip

/-!
# What pruning leaves alone

The bytes of a value are those of the value without the deprecated fields of its messages
(`Schema.wire_prune`): such a field has no bytes of its own, and the length of each message around
it is taken from what is written. So values that differ in deprecated fields alone have the same
bytes, and a value that was read back is written as the value it came from
(`Program.encodes_pruned`).
-/

namespace SchemaCodec

open Wire

namespace Schema

variable {s : Schema}

mutual

/-- Deprecated fields of messages have no bytes, at whatever depth they lie. -/
theorem wire_prune : ∀ (v : Value) (t : Ty), s.wire (s.prune v t) t = s.wire v t
  | .atom a, t => by rw [prune]
  | .array vs, t => by
    cases t with
    | array t =>
      rw [prune, wire, wire, wireItems_prune vs t, pruneItems_eq, List.length_map]
    | _ => simp [prune]
  | .map es, t => by
    cases t with
    | map k t =>
      rw [prune, wire, wire, wireEntries_prune es t, pruneEntries_eq, List.length_map]
    | _ => simp [prune]
  | .struct vs, t => by
    cases t with
    | defined name => rw [prune, wire, wire, wireFields_prune vs (s.fields name)]
    | _ => simp [prune]
  | .message vs, t => by
    cases t with
    | defined name => rw [prune, wire, wire, wirePresent_prune vs (s.fields name)]
    | _ => simp [prune]

theorem wireItems_prune : ∀ (vs : List Value) (t : Ty),
    s.wireItems (s.pruneItems vs t) t = s.wireItems vs t
  | [], t => by rw [pruneItems]
  | v :: vs, t => by rw [pruneItems, wireItems, wireItems, wire_prune v t, wireItems_prune vs t]

theorem wireEntries_prune : ∀ (es : List (Atom × Value)) (t : Ty),
    s.wireEntries (s.pruneEntries es t) t = s.wireEntries es t
  | [], t => by rw [pruneEntries]
  | (k, v) :: es, t => by
    rw [pruneEntries, wireEntries, wireEntries, wire_prune v t, wireEntries_prune es t]

theorem wireFields_prune : ∀ (vs : List Value) (fs : List Field),
    s.wireFields (s.pruneFields vs fs) fs = s.wireFields vs fs
  | [], _ => by simp [pruneFields]
  | _ :: _, [] => by simp [pruneFields, wireFields]
  | v :: vs, f :: fs => by
    rw [pruneFields, wireFields, wireFields, wire_prune v f.ty, wireFields_prune vs fs]

theorem wirePresent_prune : ∀ (vs : List (Option Value)) (fs : List Field),
    s.wirePresent (s.prunePresent vs fs) fs = s.wirePresent vs fs
  | [], _ => by simp [prunePresent]
  | _ :: _, [] => by simp [prunePresent, wirePresent]
  | none :: vs, f :: fs => by
    rw [prunePresent, wirePresent, wirePresent, wirePresent_prune vs fs]
  | some v :: vs, f :: fs => by
    rw [prunePresent]
    by_cases hd : f.isDeprecated = true
    · rw [if_pos hd, wirePresent, wirePresent, if_pos hd, wirePresent_prune vs fs]
    · rw [if_neg hd, wirePresent, wirePresent, if_neg hd, if_neg hd, wire_prune v f.ty,
        wirePresent_prune vs fs]

end

/-- Values that agree up to the deprecated fields of their messages have the same bytes. -/
theorem wire_eq_of_prune_eq {u v : Value} {t : Ty} (h : s.prune u t = s.prune v t) :
    s.wire u t = s.wire v t := by
  rw [← wire_prune u t, h, wire_prune v t]

theorem mem_zip_map_zip {α β γ : Type} {g : α × β → γ} {c : γ} {b : β} :
    ∀ {l : List α} {m : List β}, (c, b) ∈ ((l.zip m).map g).zip m →
      ∃ a, (a, b) ∈ l.zip m ∧ c = g (a, b)
  | [], _, h => by simp at h
  | _ :: _, [], h => by simp at h
  | a :: l, b' :: m, h => by
    simp only [List.zip_cons_cons, List.map_cons, List.mem_cons] at h ⊢
    rcases h with h | h
    · obtain ⟨rfl, rfl⟩ := Prod.mk.inj h
      exact ⟨a, .inl rfl, rfl⟩
    · obtain ⟨a', ha, hc⟩ := mem_zip_map_zip h
      exact ⟨a', .inr ha, hc⟩

/-- What is left of a value of a type is a value of the type. -/
theorem HasTy.prune {v : Value} {t : Ty} (h : s.HasTy v t) : s.HasTy (s.prune v t) t := by
  induction h with
  | scalar h =>
    rw [Schema.prune]
    exact .scalar h
  | enum hd hk =>
    rw [Schema.prune]
    exact .enum hd hk
  | array _ ih =>
    rw [Schema.prune, pruneItems_eq]
    exact .array (List.forall_mem_map.2 ih)
  | map hn hk _ _ ih =>
    rw [Schema.prune, pruneEntries_eq]
    refine .map ?_ (List.forall_mem_map.2 hk) (List.forall_mem_map.2 ih)
    rwa [List.map_map]
  | @struct vs name d hd hk hl _ ih =>
    rw [Schema.prune, fields_of_get? hd, pruneFields_eq]
    refine .struct hd hk (by simp [hl]) fun c f hm => ?_
    obtain ⟨v, hv, rfl⟩ := mem_zip_map_zip hm
    exact ih v f hv
  | @message vs name d hd hk hl _ ih =>
    rw [Schema.prune, fields_of_get? hd, prunePresent_eq_map]
    refine .message hd hk (by simp [hl]) fun c f hm => ?_
    obtain ⟨o, ho, hc⟩ := mem_zip_map_zip hm
    simp only at hc
    split_ifs at hc
    obtain ⟨v, rfl, rfl⟩ := Option.map_eq_some_iff.1 hc.symm
    exact ih v f ho

end Schema

/-- Values of any type that agree up to the deprecated fields of the messages in them are written
alike. So what is read back is written again as the bytes it was read from, behind whatever was
written before. A map stands here for its entries in the order in which they are written. -/
theorem Program.encodes_pruned {s : Schema} (h : s.Accepted) :
    ∃ p, ofSchema? s = .ok p ∧ ∀ t, s.Admits t → ∀ runtime operand binding depth depth',
      ∃ e d, Encoding.ofTy? ⟨s, runtime⟩ operand depth t = .ok e
        ∧ Decoding.ofTy? ⟨s, runtime⟩ binding depth' t = .ok d
        ∧ (∀ u v, s.HasTy u t → s.HasTy v t → s.prune u t = s.prune v t →
          ∃ c, ∀ w : Writer, e.run p.encode? u w = some (w.append c)
            ∧ e.run p.encode? v w = some (w.append c))
        ∧ ∀ v, s.HasTy v t → s.Fits v t → ∃ c, ∀ w : Writer,
          e.run p.encode? v w = some (w.append c)
            ∧ ∀ x, ∃ v', d.run p.decode ⟨(w.append (c ++ x)).bytes, w.size⟩
                = (.ok v', ⟨(w.append (c ++ x)).bytes, w.size + c.length⟩)
              ∧ ∀ w' : Writer, e.run p.encode? v' w' = some (w'.append c) := by
  obtain ⟨p, hp⟩ := Schema.accepted_iff.1 h
  have himp := implements hp
  refine ⟨p, hp, fun t ht runtime operand binding depth depth' => ?_⟩
  obtain ⟨e, he⟩ : ∃ e, Encoding.ofTy? ⟨s, runtime⟩ operand depth t = .ok e :=
    ht.exists_encoding operand depth
  obtain ⟨d, hd⟩ : ∃ d, Decoding.ofTy? ⟨s, runtime⟩ binding depth' t = .ok d :=
    ht.exists_decoding binding depth'
  have hwrite : ∀ v, s.HasTy v t → ∀ w, e.run p.encode? v w = some (w.append (s.wire v t)) :=
    fun v hv => Encoding.run_eq himp hv e (Encoding.for_of_ofTy? he)
  refine ⟨e, d, he, hd, fun u v hu hv huv => ?_, fun v hv hf => ?_⟩
  · refine ⟨s.wire u t, fun w => ⟨hwrite u hu w, ?_⟩⟩
    rw [Schema.wire_eq_of_prune_eq huv]
    exact hwrite v hv w
  · refine ⟨s.wire v t, fun w => ⟨hwrite v hv w, fun x => ⟨s.prune v t, ?_, fun w' => ?_⟩⟩⟩
    · exact Decoding.reads_wire himp hv hf d (Decoding.for_of_ofTy? hd) _ (w.prefix_rest _ x)
    · rw [hwrite _ hv.prune, Schema.wire_prune]

namespace Parcel

/-- The parcel without its weight, and with a weight of the parcel inside. -/
def reweighed : Value :=
  .message [some (.atom (.string "a")), none,
    some (.array [.message [none, some (.atom (.uint16 9)), none]])]

theorem hasTy_reweighed : schema.HasTy reweighed (.defined "Parcel") := by
  refine .message rfl rfl rfl fun v f h => ?_
  simp only [List.zip_cons_cons, List.zip_nil_right, List.mem_cons, Prod.mk.injEq,
    Option.some.injEq, reduceCtorEq, List.not_mem_nil, false_and, false_or, or_false] at h
  rcases h with ⟨rfl, rfl⟩ | ⟨rfl, rfl⟩
  · exact .scalar rfl
  · refine .array fun v hv => ?_
    obtain rfl := List.mem_singleton.1 hv
    refine .message rfl rfl rfl fun v f h => ?_
    simp only [List.zip_cons_cons, List.zip_nil_right, List.mem_cons, Prod.mk.injEq,
      Option.some.injEq, reduceCtorEq, List.not_mem_nil, false_and, false_or, or_false] at h
    obtain ⟨rfl, rfl⟩ := h
    exact .scalar rfl

/-- No weight shows in the bytes of a parcel. -/
theorem weight_unwritten : schema.Accepted ∧ schema.HasTy value (.defined "Parcel")
    ∧ schema.HasTy reweighed (.defined "Parcel") ∧ schema.Fits value (.defined "Parcel")
    ∧ schema.prune value (.defined "Parcel") = schema.prune reweighed (.defined "Parcel")
    ∧ ∃ p, Program.ofSchema? schema = .ok p
      ∧ (∃ c, ∀ w : Writer, p.encode? "Parcel" value w = some (w.append c)
        ∧ p.encode? "Parcel" reweighed w = some (w.append c))
      ∧ ∃ c, ∀ w : Writer, p.encode? "Parcel" value w = some (w.append c)
        ∧ ∀ x, ∃ v', p.decode "Parcel" ⟨(w.append (c ++ x)).bytes, w.size⟩
            = (.ok v', ⟨(w.append (c ++ x)).bytes, w.size + c.length⟩)
          ∧ ∀ w' : Writer, p.encode? "Parcel" v' w' = some (w'.append c) := by
  have hprune : schema.prune value (.defined "Parcel")
      = schema.prune reweighed (.defined "Parcel") := rfl
  refine ⟨accepted, hasTy, hasTy_reweighed, fits, hprune, ?_⟩
  obtain ⟨p, hp, ht⟩ := Program.encodes_pruned accepted
  obtain ⟨e, d, he, hd, halike, hagain⟩ := ht (.defined "Parcel") ⟨_, rfl⟩ "" (.place "x") "y" 0 0
  cases he
  cases hd
  exact ⟨p, hp, halike value reweighed hasTy hasTy_reweighed hprune, hagain value hasTy fits⟩

end Parcel

end SchemaCodec

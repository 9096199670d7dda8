import Mathlib.Data.List.Induction
import Mathlib.Data.List.Nodup
import SchemaCodec.Cache

/-!
# The history of a cache

A cache is decided by how it was used. `Cache.asked` are the keys that were asked for since the
cache was last emptied, the latest first, and the cache holds the first of them, each once, as many
as its capacity allows (`Cache.recent`). So the key that is dropped for a new one is the one that
was asked for the longest time ago, and to look into a cache changes nothing.

What a cache remembers for a key is what would be made for it, so no answer tells whether the key
was cached. One use of a cache keeps both facts (`Cache.Remembers.step`), and so does any number of
them (`Cache.remembers_after`).
-/

namespace SchemaCodec

/-! ## The first of each -/

section FirstOfEach

variable {α : Type} [DecidableEq α]

theorem eraseDups_filter (p : α → Bool) :
    ∀ l : List α, (l.filter p).eraseDups = l.eraseDups.filter p
  | [] => rfl
  | a :: l => by
    have hlt : (l.filter fun b => !b == a).length < l.length + 1 :=
      Nat.lt_succ_of_le (List.length_filter_le _ _)
    have ih := eraseDups_filter p (l.filter fun b => !b == a)
    by_cases ha : p a
    · rw [List.filter_cons_of_pos ha, List.eraseDups_cons, List.eraseDups_cons,
        List.filter_cons_of_pos ha, ← ih, List.filter_comm]
    · have hne : ∀ b ∈ l.filter p, (!b == a) = true := by
        intro b hb
        have hpb := (List.mem_filter.1 hb).2
        simpa using fun hba : b = a => ha (hba ▸ hpb)
      rw [List.filter_cons_of_neg ha, List.eraseDups_cons, List.filter_cons_of_neg ha, ← ih,
        List.filter_comm, List.filter_eq_self.2 hne]
  termination_by l => l.length

theorem eraseDups_cons_eq (a : α) (l : List α) :
    (a :: l).eraseDups = a :: l.eraseDups.filter (fun b => !b == a) := by
  rw [List.eraseDups_cons, eraseDups_filter]

/-- Of two elements, the one that comes first in the list comes first here. -/
theorem pairwise_eraseDups : ∀ l : List α,
    l.eraseDups.Pairwise fun a b => l.idxOf a < l.idxOf b
  | [] => .nil
  | a :: l => by
    rw [eraseDups_cons_eq, List.pairwise_cons]
    have hne : ∀ b ∈ l.eraseDups.filter (fun b => !b == a),
        (a :: l).idxOf b = l.idxOf b + 1 := by
      intro b hb
      have hba : b ≠ a := by simpa using (List.mem_filter.1 hb).2
      rw [List.idxOf_cons_ne _ hba.symm]
    constructor
    · intro b hb
      rw [List.idxOf_cons_self, hne b hb]
      exact Nat.succ_pos _
    · refine ((pairwise_eraseDups l).filter _).imp_of_mem fun {b c} hb hc hlt => ?_
      rw [hne b hb, hne c hc]
      exact Nat.succ_lt_succ hlt

theorem nodup_eraseDups (l : List α) : l.eraseDups.Nodup :=
  (pairwise_eraseDups l).imp fun hlt heq => absurd (heq ▸ hlt) (Nat.lt_irrefl _)

theorem eraseDups_cons_erase (a : α) (l : List α) :
    (a :: l).eraseDups = a :: l.eraseDups.erase a := by
  rw [eraseDups_cons_eq, (nodup_eraseDups l).erase_eq_filter]
  rfl

/-- What stands behind the first elements does not come among them when one of them is erased and
another one is put in front. -/
theorem take_erase_take (a : α) : ∀ (n : Nat) (l : List α),
    ((l.take (n + 1)).erase a).take n = (l.erase a).take n
  | _, [] => by simp
  | n, b :: l => by
    by_cases hb : b = a
    · simp [hb, List.take_take]
    · rw [List.take_succ_cons, List.erase_cons_tail (by simpa using hb),
        List.erase_cons_tail (by simpa using hb)]
      cases n with
      | zero => rfl
      | succ n => rw [List.take_succ_cons, List.take_succ_cons, take_erase_take a n l]

end FirstOfEach

namespace Cache

variable {κ β τ : Type}

/-! ## Uses of a cache -/

inductive Call (κ : Type)
  /-- Asks how the values for a key are made. -/
  | constructor (k : κ)
  /-- Asks for a fresh value for a key. -/
  | construct (k : κ)
  | contains (k : κ)
  | keys
  | clear
  deriving DecidableEq, Repr

inductive Answer (κ β τ : Type)
  | constructor (b : β)
  | value (t : τ)
  | contains (isCached : Bool)
  | keys (ks : List κ)
  | cleared
  deriving DecidableEq, Repr

namespace Call

/-- The key that is asked for. To look for a key is not to ask for it. -/
def key? : Call κ → Option κ
  | constructor k | construct k => some k
  | contains _ | keys | clear => none

def isClear : Call κ → Bool
  | clear => true
  | _ => false

end Call

/-- The keys that were asked for since the cache was last emptied, the latest first. -/
def asked (calls : List (Call κ)) : List κ :=
  (calls.reverse.takeWhile fun call => !call.isClear).filterMap Call.key?

theorem asked_concat (calls : List (Call κ)) (call : Call κ) :
    asked (calls ++ [call]) = if call.isClear then [] else call.key?.toList ++ asked calls := by
  unfold asked
  rw [List.reverse_concat, List.takeWhile_cons]
  cases call <;> rfl

variable [DecidableEq κ]

/-- The first `n` keys that were asked for since the cache was last emptied. -/
def recent (n : Nat) (calls : List (Call κ)) : List κ :=
  (asked calls).eraseDups.take n

/-- What a use gives while the cache holds some keys. -/
def Call.answer (make : κ → β) (fresh : β → τ) (cached : List κ) : Call κ → Answer κ β τ
  | constructor k => .constructor (make k)
  | construct k => .value (fresh (make k))
  | contains k => .contains (cached.contains k)
  | keys => .keys cached
  | clear => .cleared

/-- Values for a key are made in the way that `make` tells, and `fresh` makes one. -/
def step (make : κ → β) (fresh : β → τ) (c : Cache κ β) : Call κ → Answer κ β τ × Cache κ β
  | .constructor k =>
    let (b, c) := c.construct make k
    (.constructor b, c)
  | .construct k =>
    let (b, c) := c.construct make k
    (.value (fresh b), c)
  | .contains k => (.contains (c.contains k), c)
  | .keys => (.keys c.keys, c)
  | .clear => (.cleared, c.clear)

/-- The cache after some uses. -/
def after (make : κ → β) (fresh : β → τ) (c : Cache κ β) (calls : List (Call κ)) : Cache κ β :=
  calls.foldl (fun c call => (c.step make fresh call).2) c

variable {make : κ → β} {fresh : β → τ} {c : Cache κ β} {k : κ}

theorem after_concat (make : κ → β) (fresh : β → τ) (c : Cache κ β) (calls : List (Call κ))
    (call : Call κ) :
    c.after make fresh (calls ++ [call]) = ((c.after make fresh calls).step make fresh call).2 := by
  simp [after]

theorem contains_eq (c : Cache κ β) (k : κ) : c.contains k = c.keys.contains k := by
  rw [Bool.eq_iff_iff, List.contains_iff_mem]
  simp [contains, keys]

/-! ## What a cache remembers -/

/-- The cache holds the first of some keys, and remembers for each what would be made for it. -/
structure Remembers (make : κ → β) (ks : List κ) (c : Cache κ β) : Prop where
  keys : c.keys = ks.eraseDups.take c.capacity
  made : ∀ e ∈ c.entries, e.2 = make e.1

omit [DecidableEq κ] in
theorem exists_capacity (c : Cache κ β) : ∃ m, c.capacity = m + 1 :=
  Nat.exists_eq_succ_of_ne_zero (Nat.ne_of_gt c.capacity_pos)

omit [DecidableEq κ] in
theorem length_keys (c : Cache κ β) : c.keys.length = c.size :=
  List.length_map _

namespace Remembers

variable {ks : List κ}

theorem size_le (h : c.Remembers make ks) : c.size ≤ c.capacity := by
  rw [← length_keys, h.keys]
  exact List.length_take_le _ _

theorem nodup (h : c.Remembers make ks) : c.keys.Nodup := by
  rw [h.keys]
  exact (nodup_eraseDups ks).sublist (List.take_sublist _ _)

theorem of_nil (h : c.entries = []) : c.Remembers make [] := by
  refine ⟨by simp [Cache.keys, h], fun e he => ?_⟩
  rw [h] at he
  cases he

end Remembers

theorem capacity_construct (c : Cache κ β) (make : κ → β) (k : κ) :
    (c.construct make k).2.capacity = c.capacity := by
  unfold construct
  split <;> rfl

/-- Where the cache is not over its capacity, a key that is asked for comes to the front, and what
stands behind the capacity then is dropped. -/
theorem keys_construct_eq (h : c.size ≤ c.capacity) (make : κ → β) (k : κ) :
    (c.construct make k).2.keys = (k :: c.keys.erase k).take c.capacity := by
  rw [← length_keys] at h
  rw [keys_construct]
  split_ifs with hk
  · have hpos := List.length_pos_of_mem hk
    rw [List.take_of_length_le]
    rw [List.length_cons, List.length_erase_of_mem hk]
    omega
  · rw [List.erase_of_not_mem hk]

namespace Remembers

variable {ks : List κ}

/-- Asking for a key gives what would be made for it. -/
theorem construct_fst (h : c.Remembers make ks) (k : κ) : (c.construct make k).1 = make k := by
  unfold construct
  split
  · rename_i e he
    have hk : e.1 = k := by simpa using List.find?_some he
    rw [← hk]
    exact h.made e (List.mem_of_find?_eq_some he)
  · rfl

theorem construct_snd (h : c.Remembers make ks) (k : κ) :
    (c.construct make k).2.Remembers make (k :: ks) := by
  constructor
  · -- The new key takes one place, so the keys before it are cut down once more, to one less.
    obtain ⟨m, hm⟩ := c.exists_capacity
    rw [capacity_construct, keys_construct_eq h.size_le, h.keys, eraseDups_cons_erase, hm,
      List.take_succ_cons, List.take_succ_cons, take_erase_take]
  · intro e he
    unfold construct at he
    split at he
    · rename_i e' he'
      rcases List.mem_cons.1 he with rfl | he
      · exact h.made e (List.mem_of_find?_eq_some he')
      · exact h.made e (List.mem_of_mem_eraseP he)
    · rcases List.mem_cons.1 (List.mem_of_mem_take he) with rfl | he
      · rfl
      · exact h.made e he

/-- A use of a cache gives what its keys decide, and leaves a cache that remembers what was asked
for. -/
theorem step {calls : List (Call κ)} (h : c.Remembers make (asked calls)) (fresh : β → τ)
    (call : Call κ) :
    (c.step make fresh call).1 = call.answer make fresh c.keys
      ∧ (c.step make fresh call).2.capacity = c.capacity
      ∧ (c.step make fresh call).2.Remembers make (asked (calls ++ [call])) := by
  rw [asked_concat]
  cases call with
  | constructor k =>
    exact ⟨congrArg Answer.constructor (h.construct_fst k), capacity_construct c make k,
      h.construct_snd k⟩
  | construct k =>
    exact ⟨congrArg (fun b => Answer.value (fresh b)) (h.construct_fst k),
      capacity_construct c make k, h.construct_snd k⟩
  | contains k => exact ⟨congrArg Answer.contains (c.contains_eq k), rfl, h⟩
  | keys => exact ⟨rfl, rfl, h⟩
  | clear => exact ⟨rfl, rfl, .of_nil rfl⟩

end Remembers

/-- After any uses a cache that was empty holds the keys that were asked for last. -/
theorem remembers_after (make : κ → β) (fresh : β → τ) (capacity : Nat) (calls : List (Call κ)) :
    ((empty capacity).after make fresh calls).capacity = max capacity 1
      ∧ ((empty capacity).after make fresh calls).Remembers make (asked calls) := by
  induction calls using List.reverseRecOn with
  | nil => exact ⟨rfl, .of_nil rfl⟩
  | append_singleton calls call ih =>
    obtain ⟨hcapacity, hremembers⟩ := ih
    obtain ⟨-, hcap, hrem⟩ := hremembers.step fresh call
    rw [after_concat]
    exact ⟨hcap.trans hcapacity, hrem⟩

/-! ## What is dropped -/

/-- A key that is asked for comes to the front. If the cache was full and does not hold it, the
last key goes. -/
theorem keys_construct_cases (h : c.size ≤ c.capacity) (make : κ → β) (k : κ) :
    (c.construct make k).2.keys =
      if k ∈ c.keys then k :: c.keys.erase k
      else if c.size < c.capacity then k :: c.keys else k :: c.keys.dropLast := by
  rw [← length_keys] at h ⊢
  rw [keys_construct]
  refine if_congr Iff.rfl rfl ?_
  split_ifs with hlt
  · rw [List.take_of_length_le hlt]
  · obtain ⟨m, hm⟩ := c.exists_capacity
    have hlength : c.keys.length = m + 1 := by omega
    rw [hm, List.take_succ_cons, List.dropLast_eq_take, hlength, Nat.add_sub_cancel]

/-- A key that is dropped for another one is the last, and the cache was full. -/
theorem dropped_construct (h : c.size ≤ c.capacity) {j : κ} (hj : j ∈ c.keys)
    (hdrop : j ∉ (c.construct make k).2.keys) :
    k ∉ c.keys ∧ c.size = c.capacity ∧ c.keys.getLast? = some j := by
  rw [keys_construct_cases h] at hdrop
  split_ifs at hdrop with hk hlt
  · refine absurd ?_ hdrop
    by_cases hjk : j = k
    · exact hjk ▸ List.mem_cons_self
    · exact List.mem_cons_of_mem _ ((List.mem_erase_of_ne hjk).2 hj)
  · exact absurd (List.mem_cons_of_mem _ hj) hdrop
  · have hne : c.keys ≠ [] := List.ne_nil_of_mem hj
    rw [List.mem_cons, not_or] at hdrop
    rw [← List.dropLast_concat_getLast hne, List.mem_append, List.mem_singleton] at hj
    refine ⟨hk, Nat.le_antisymm h (Nat.le_of_not_lt hlt), ?_⟩
    rw [List.getLast?_eq_some_getLast hne, hj.resolve_left hdrop.2]

/-- The keys of a cache stand in the order in which they were asked for last. -/
theorem Remembers.pairwise {ks : List κ} (h : c.Remembers make ks) :
    c.keys.Pairwise fun i j => ks.idxOf i < ks.idxOf j := by
  rw [h.keys]
  exact (pairwise_eraseDups ks).sublist (List.take_sublist _ _)

theorem step_snd_of_key? {call : Call κ} (h : call.key? = some k) (make : κ → β) (fresh : β → τ)
    (c : Cache κ β) : (c.step make fresh call).2 = (c.construct make k).2 := by
  cases call <;> cases h <;> rfl

theorem step_snd_of_none {call : Call κ} (h : call.key? = none) (hne : call ≠ .clear)
    (make : κ → β) (fresh : β → τ) (c : Cache κ β) : (c.step make fresh call).2 = c := by
  cases call with
  | constructor | construct => cases h
  | contains | keys => rfl
  | clear => exact absurd rfl hne

/-- After any uses, a cache holds the keys that were asked for last since it was emptied, each once
and as many as it has room for. The next use gives what these keys decide: what it tells about a key
is what would be made for that key, whether it was cached or not. A use that asks for no key and
does not empty the cache leaves it as it is. A key is dropped only when the cache is emptied or
when a new key is asked for while the cache is full, and then all other keys were asked for after
the one that is dropped. -/
theorem run_exact (make : κ → β) (fresh : β → τ) (capacity : Nat) (calls : List (Call κ))
    (call : Call κ) :
    let c := (empty capacity).after make fresh calls
    let next := c.step make fresh call
    c.keys = recent (max capacity 1) calls ∧ c.keys.Nodup ∧ c.size ≤ max capacity 1
      ∧ next.1 = call.answer make fresh (recent (max capacity 1) calls)
      ∧ (call.key? = none → call ≠ .clear → next.2 = c)
      ∧ ∀ j ∈ c.keys, j ∉ next.2.keys → call = .clear ∨ ∃ k, call.key? = some k
        ∧ k ∉ c.keys ∧ c.size = max capacity 1 ∧ c.keys.getLast? = some j
        ∧ ∀ i ∈ c.keys, i ≠ j → (asked calls).idxOf i < (asked calls).idxOf j := by
  obtain ⟨hcapacity, hc⟩ := remembers_after make fresh capacity calls
  have hkeys := hc.keys
  have hsize := hc.size_le
  rw [hcapacity] at hkeys hsize
  refine ⟨hkeys, hc.nodup, hsize, ?_, fun hkey hne => step_snd_of_none hkey hne make fresh _,
    fun j hj hdrop => ?_⟩
  · rw [(hc.step fresh call).1, hkeys, recent]
  rcases hkey : call.key? with _ | k
  · refine .inl (by_contra fun hne => hdrop ?_)
    rwa [step_snd_of_none hkey hne]
  · rw [step_snd_of_key? hkey] at hdrop
    obtain ⟨hk, hfull, hlast⟩ := dropped_construct hc.size_le hj hdrop
    refine .inr ⟨k, rfl, hk, hfull.trans hcapacity, hlast, fun i hi hij => ?_⟩
    obtain ⟨front, hfront⟩ := List.getLast?_eq_some_iff.1 hlast
    have hpairwise := hc.pairwise
    rw [hfront, List.pairwise_append] at hpairwise
    rw [hfront, List.mem_append, List.mem_singleton] at hi
    exact hpairwise.2.2 i (hi.resolve_right hij) j List.mem_cons_self

/-- Looking for a key does not save it. -/
theorem drops_longest_unused :
    let calls : List (Call Nat) := [.construct 0, .construct 1, .constructor 0, .contains 1]
    let c := (empty 2).after (· * 10 + 1) id calls
    c.keys = [0, 1] ∧ (c.step (· * 10 + 1) id (.contains 1)).2 = c
      ∧ (c.step (· * 10 + 1) id (.construct 2)).1 = .value 21
      ∧ 1 ∉ (c.step (· * 10 + 1) id (.construct 2)).2.keys
      ∧ c.size = 2 ∧ (asked calls).idxOf 0 < (asked calls).idxOf 1 := by
  intro calls c
  have hdrop : 1 ∉ (c.step (· * 10 + 1) id (.construct 2)).2.keys := by decide
  obtain ⟨-, -, -, -, hsame, -⟩ := run_exact (· * 10 + 1) id 2 calls (.contains 1)
  obtain ⟨hkeys, -, -, hanswer, -, hlast⟩ := run_exact (· * 10 + 1) id 2 calls (.construct 2)
  obtain hclear | ⟨k, -, -, hfull, -, holder⟩ := hlast 1 (by decide) hdrop
  · cases hclear
  · exact ⟨hkeys, hsame rfl nofun, hanswer, hdrop, hfull, holder 0 (by decide) (by decide)⟩

end Cache

end SchemaCodec

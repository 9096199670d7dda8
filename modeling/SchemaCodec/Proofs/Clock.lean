import Mathlib.Tactic.ByContra
import SchemaCodec.Wire.Date

/-!
# Dates and the clock

The ticks of an instant (`Instant.ticks`) are counted from year 1, with the time from 1970 cut down
to whole ticks. That goes towards 1970 and takes less than a tick (`Instant.ticks_near`), and the
ticks never decrease from an instant to a later one (`Instant.ticks_mono`).

The date of an instant holds its ticks, stopped at 0 and at 64 bits and then reduced to 62 bits
(`Date.toNat_ticks_ofInstant`). Since the last step wraps, no earlier instant has a later date
exactly as long as the ticks fit the 62 bits, or if the date is the last one anyway
(`Date.ofInstant_ordered_iff`).

The other way nothing is lost: a date is a whole number of ticks from 1970, which the clock can tell
(`Date.exists_toInstant?_eq`), and that instant has the ticks of the date.
-/

namespace SchemaCodec

open Wire

theorem Wire.saturate_saturate_add (m n : Nat) : saturate (saturate m + n) = saturate (m + n) := by
  unfold saturate
  omega

/-- How many ticks a date can tell apart; the last one is one less. -/
def Date.tickLimit : Nat :=
  0x4000000000000000

namespace Instant

/-! ## The ticks of an instant -/

/-- The ticks from year 1 to an instant, with the time from 1970 cut down to whole ticks. -/
def ticks (t : Instant) : Int :=
  Date.epochTicks + t.nanos.tdiv Date.nanosPerTick

theorem ticks_of_after {t : Instant} {n : Nat} (h : t.nanos = n) :
    t.ticks = (Date.epochTicks + n / Date.nanosPerTick : Nat) := by
  rw [ticks, h, ← Int.ofNat_tdiv, Int.natCast_add]

theorem ticks_of_before {t : Instant} {n : Nat} (h : t.nanos = -n) :
    t.ticks = Date.epochTicks - (n / Date.nanosPerTick : Nat) := by
  rw [ticks, h, Int.neg_tdiv, ← Int.ofNat_tdiv, ← Int.sub_eq_add_neg]

theorem ticks_mono {s t : Instant} (h : s.nanos ≤ t.nanos) : s.ticks ≤ t.ticks := by
  have := Int.tdiv_le_tdiv (c := Date.nanosPerTick) (by decide) h
  unfold ticks
  omega

/-- From 1970 to the ticks of an instant it is as far as to the instant itself, or less than a tick
short of that. -/
theorem ticks_near (t : Instant) :
    (t.nanos - (t.ticks - Date.epochTicks) * Date.nanosPerTick).natAbs < 100
    ∧ (0 ≤ (t.ticks - Date.epochTicks) * Date.nanosPerTick
        ∧ (t.ticks - Date.epochTicks) * Date.nanosPerTick ≤ t.nanos
      ∨ t.nanos ≤ (t.ticks - Date.epochTicks) * Date.nanosPerTick
        ∧ (t.ticks - Date.epochTicks) * Date.nanosPerTick ≤ 0) := by
  obtain ⟨n, hn | hn⟩ := t.nanos.eq_nat_or_neg
  · rw [ticks_of_after hn, hn]
    unfold Date.nanosPerTick
    omega
  · rw [ticks_of_before hn, hn]
    unfold Date.nanosPerTick
    omega

/-- The first instant of the last tick that a date can hold. -/
def last : Instant :=
  ⟨399033005042738790300, by decide⟩

theorem ticks_last : last.ticks + 1 = Date.tickLimit := by
  decide

end Instant

namespace Date

/-! ## Marks and ticks -/

theorem ticks_lt (d : Date) : d.ticks.toNat < tickLimit := by
  have hticks : d.ticks.toNat = d.wire.toNat % 2 ^ 62 := Nat.and_two_pow_sub_one_eq_mod _ 62
  rw [hticks]
  exact Nat.mod_lt _ (by decide)

theorem toNat_ticks_ofTicks (n : UInt64) : (ofTicks n).ticks.toNat = n.toNat % tickLimit := by
  have hmark : (0x4000000000000000 : UInt64) &&& 0x3FFFFFFFFFFFFFFF = 0 := by decide
  have hticks : (ofTicks n).ticks = n &&& 0x3FFFFFFFFFFFFFFF := by
    simp only [ofTicks, ticks, ← UInt64.toNat_inj, UInt64.toNat_and, UInt64.toNat_or,
      Nat.and_or_distrib_right, Nat.and_assoc, Nat.and_self] at hmark ⊢
    rw [hmark]
    simp
  rw [hticks]
  exact Nat.and_two_pow_sub_one_eq_mod _ 62

theorem kind_ofTicks (n : UInt64) : (ofTicks n).kind = 1 := by
  have hmask : (0x3FFFFFFFFFFFFFFF : UInt64) >>> 62 = 0 := by decide
  have hmark : (0x4000000000000000 : UInt64) >>> 62 = 1 := by decide
  rw [kind, ofTicks, UInt64.shiftRight_or, UInt64.shiftRight_and, hmask, hmark, UInt64.and_zero,
    UInt64.zero_or]

/-! ## From instants to dates -/

theorem ticksIn_eq (nanos : Nat) : ticksIn nanos = saturate (nanos / nanosPerTick) := by
  rw [ticksIn, saturate_saturate_add]
  unfold ticksPerSecond nanosPerTick Instant.nanosPerSecond
  congr 1
  omega

/-- The date of an instant holds its ticks, stopped at both ends and then reduced to 62 bits. -/
theorem toNat_ticks_ofInstant (t : Instant) :
    (ofInstant t).ticks.toNat = saturate t.ticks.toNat % tickLimit := by
  have hticks : (if 0 ≤ t.nanos then saturate (epochTicks + ticksIn t.nanos.natAbs)
      else epochTicks - ticksIn t.nanos.natAbs) = saturate t.ticks.toNat := by
    rw [ticksIn_eq]
    by_cases h : 0 ≤ t.nanos
    · have hn : t.nanos = (t.nanos.natAbs : Int) := by omega
      rw [if_pos h, Instant.ticks_of_after hn, Int.toNat_natCast]
      unfold saturate
      omega
    · have hn : t.nanos = -(t.nanos.natAbs : Int) := by omega
      rw [if_neg h, Instant.ticks_of_before hn, Int.toNat_sub]
      generalize t.nanos.natAbs / nanosPerTick = past
      unfold saturate epochTicks
      omega
  have hlt : saturate t.ticks.toNat < 2 ^ 64 := by
    unfold saturate
    omega
  simp only [ofInstant]
  rw [toNat_ticks_ofTicks, hticks, Nat.toUInt64_eq, UInt64.toNat_ofNat', Nat.mod_eq_of_lt hlt]

theorem toNat_ticks_ofInstant_of_lt {t : Instant} (h : t.ticks < tickLimit) :
    (ofInstant t).ticks.toNat = t.ticks.toNat := by
  rw [toNat_ticks_ofInstant]
  unfold saturate tickLimit at *
  omega

theorem toNat_ticks_ofInstant_last : (ofInstant .last).ticks.toNat + 1 = tickLimit := by
  decide

/-- The date of an instant, and when it is in order: no earlier instant has a later date exactly if
the ticks fit their 62 bits, or if the date is the last one anyway. -/
theorem ofInstant_ordered_iff (t : Instant) :
    (ofInstant t).ticks.toNat = saturate t.ticks.toNat % tickLimit
    ∧ ((∀ s : Instant, s.nanos ≤ t.nanos → (ofInstant s).ticks ≤ (ofInstant t).ticks)
      ↔ t.ticks < tickLimit ∨ (ofInstant t).ticks.toNat + 1 = tickLimit) := by
  simp only [UInt64.le_iff_toNat_le]
  refine ⟨toNat_ticks_ofInstant t, fun h => ?_, ?_⟩
  · by_cases ht : t.ticks < tickLimit
    · exact .inl ht
    · -- the instant of the last tick comes before this one
      have hlast : Instant.last.nanos ≤ t.nanos := by
        by_contra hlt
        have := Instant.ticks_mono (s := t) (t := .last) (by omega)
        have := Instant.ticks_last
        omega
      have hle := h .last hlast
      have := toNat_ticks_ofInstant_last
      have := ticks_lt (ofInstant t)
      right
      omega
  · rintro (ht | ht) s hs
    · have := Instant.ticks_mono hs
      rw [toNat_ticks_ofInstant_of_lt ht, toNat_ticks_ofInstant_of_lt (t := s) (by omega)]
      omega
    · have := ticks_lt (ofInstant s)
      omega

/-- One tick past the last date, the date is the first one. -/
theorem ofInstant_not_ordered :
    ¬ ∀ s t : Instant, s.nanos ≤ t.nanos → (ofInstant s).ticks ≤ (ofInstant t).ticks := by
  intro h
  have hle := h .last ⟨Instant.last.nanos + nanosPerTick, by decide⟩ (by decide)
  revert hle
  decide

/-! ## From dates to instants -/

theorem nanosIn_eq (ticks : Nat) : nanosIn ticks = ticks * nanosPerTick := by
  unfold nanosIn ticksPerSecond nanosPerTick Instant.nanosPerSecond
  omega

/-- A date is a whole number of ticks from 1970, and the clock can tell it. -/
theorem exists_toInstant?_eq (d : Date) :
    ∃ t, d.toInstant? = some t
      ∧ t.nanos = ((d.ticks.toNat : Int) - epochTicks) * nanosPerTick := by
  have hnanos : d.toInstant?
      = Instant.ofNanos? (((d.ticks.toNat : Int) - epochTicks) * nanosPerTick) := by
    simp only [toInstant?, nanosIn_eq]
    split <;> congr 1 <;> unfold nanosPerTick <;> omega
  have hrange : Instant.InRange (((d.ticks.toNat : Int) - epochTicks) * nanosPerTick) := by
    have := d.ticks_lt
    rw [Instant.InRange, Int.fdiv_eq_ediv_of_nonneg _ (Int.natCast_nonneg _)]
    unfold tickLimit epochTicks nanosPerTick Instant.nanosPerSecond at *
    omega
  exact ⟨_, hnanos.trans (dif_pos hrange), rfl⟩

/-- Every date has an instant, whose date has the same ticks and is marked as UTC. An instant whose
ticks a date can hold comes back less than a tick nearer to 1970. -/
theorem clock_round_trip :
    (∀ d : Date, ∃ t, d.toInstant? = some t
      ∧ (ofInstant t).ticks = d.ticks ∧ (ofInstant t).kind = 1)
    ∧ ∀ t : Instant, 0 ≤ t.ticks → t.ticks < tickLimit → ∃ u, (ofInstant t).toInstant? = some u
      ∧ (t.nanos - u.nanos).natAbs < 100
      ∧ (0 ≤ u.nanos ∧ u.nanos ≤ t.nanos ∨ t.nanos ≤ u.nanos ∧ u.nanos ≤ 0) := by
  refine ⟨fun d => ?_, fun t hlow hhigh => ?_⟩
  · obtain ⟨t, ht, hnanos⟩ := d.exists_toInstant?_eq
    have hticks : t.ticks = d.ticks.toNat := by
      rw [Instant.ticks, hnanos, Int.mul_tdiv_cancel _ (by decide)]
      omega
    have hlt := d.ticks_lt
    refine ⟨t, ht, ?_, kind_ofTicks _⟩
    rw [← UInt64.toNat_inj, toNat_ticks_ofInstant_of_lt (by omega), hticks, Int.toNat_natCast]
  · obtain ⟨u, hu, hnanos⟩ := (ofInstant t).exists_toInstant?_eq
    have hticks : ((ofInstant t).ticks.toNat : Int) = t.ticks := by
      rw [toNat_ticks_ofInstant_of_lt hhigh, Int.toNat_of_nonneg hlow]
    refine ⟨u, hu, ?_⟩
    rw [hnanos, hticks]
    exact t.ticks_near

/-- An instant a tick and a half before 1970. -/
theorem comes_back_nearer :
    ∃ u, (ofInstant ⟨-150, by decide⟩).toInstant? = some u
      ∧ (-150 - u.nanos).natAbs < 100 ∧ -150 ≤ u.nanos ∧ u.nanos ≤ 0 := by
  obtain ⟨u, hu, hnear, hside⟩ := clock_round_trip.2 ⟨-150, by decide⟩ (by decide) (by decide)
  refine ⟨u, hu, hnear, ?_⟩
  simp only at hside
  omega

end Date

end SchemaCodec

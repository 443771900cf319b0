import Mathlib
import ArmStream.Proofs.CommandRuns
import ArmStream.Proofs.Reciprocals

/-!
# Rates that cannot be run

A rate is usable if it is positive and finite, but the time between two ticks is its reciprocal. Up
to two to the power of -64 that is too long for a duration, and the run breaks off before its first
tick. Up to two to the power of -63 no clock shows a time that is so much later, and the first tick
breaks off the run. With any other rate a tick still breaks off the run if the time of the next is
too late, which a bound on the clock excludes.

## Main statements

- `Pace.period?_eq_none_iff`, `Pace.clockEnd_le_iff`: the rates of the periods that are too long.
- `moment_le`: no tick is set later than its periods after the clock.
- `stream_breaksOff_iff`: when a run breaks off.
-/

namespace ArmStream

namespace Number

/-! ## Durations -/

theorem roundDiv_one (n : Nat) : roundDiv n 1 = n := by
  simp [roundDiv, Nat.mod_one]

theorem roundDiv_le (n d : Nat) : roundDiv n d ≤ n / d + 1 := by
  unfold roundDiv
  dsimp only
  split
  · omega
  · split
    · omega
    · split <;> omega

/-- A number from two to the power of 63 to twice that is whole. -/
theorem magnitude_of_large {p : Pattern} (hlow : 1086 * 2 ^ 52 ≤ p.toNat)
    (hhigh : p.toNat < 1087 * 2 ^ 52) :
    magnitude p = ((p.toNat % 2 ^ 52 + 2 ^ 52) * 2 ^ 11, 1) := by
  have hexponent : p.toNat / 0x10000000000000 % 0x800 = 1086 := by omega
  simp [magnitude, hexponent, Nat.shiftLeft_eq]

/-- A smaller number is whole, or its numerator has 53 places at most. -/
theorem magnitude_of_small {p : Pattern} (h : p.toNat < 1086 * 2 ^ 52) :
    (magnitude p).1 < 2 ^ 63 ∧ (magnitude p).2 = 1 ∨ (magnitude p).1 < 2 ^ 53 := by
  unfold magnitude
  dsimp only
  split
  next => exact .inr (by dsimp only; omega)
  next =>
    split
    next => exact .inr (by dsimp only; omega)
    next hwhole =>
      refine .inl ⟨?_, rfl⟩
      have hshift : 2 ^ (p.toNat / 0x10000000000000 % 0x800 - 1075) ≤ 2 ^ 10 :=
        Nat.pow_le_pow_right (by omega) (by omega)
      dsimp only
      rw [Nat.shiftLeft_eq]
      calc
        _ ≤ (2 ^ 53 - 1) * 2 ^ 10 := Nat.mul_le_mul (by omega) hshift
        _ < 2 ^ 63 := by norm_num

end Number

namespace Command

open Number

namespace Pace

variable {rate : Pattern} {period : Nat}

theorem isUsable_iff : isUsable rate = true ↔ 0 < rate.toNat ∧ rate.toNat < 2047 * 2 ^ 52 := by
  simp [isUsable, UInt64.lt_iff_toNat_lt]

/-- The seconds reach a power of two if the rate does not exceed the opposite power. -/
theorem le_seconds_iff (h : isUsable rate = true) {k : Nat} (hk : k ≤ 1022) :
    (1023 + k) * 2 ^ 52 ≤ (seconds rate).toNat ↔ rate.toNat ≤ (1023 - k) * 2 ^ 52 :=
  le_reciprocal_iff (isUsable_iff.1 h).1 (isUsable_iff.1 h).2 hk

/-- A period cannot be measured if it reaches two to the power of 64 seconds. -/
theorem period?_eq_none_iff (h : isUsable rate = true) :
    period? rate = none ↔ rate ≤ 0x3bf0000000000000 := by
  have hreached : measureLimit ≤ seconds rate ↔ rate ≤ 0x3bf0000000000000 := by
    rw [UInt64.le_iff_toNat_le, UInt64.le_iff_toNat_le]
    exact le_seconds_iff h (k := 64) (by omega)
  unfold period?
  rw [← hreached]
  split
  next hlimit => simp [hlimit]
  next hlimit => simp [hlimit]

/-- The seconds are rounded to nanoseconds. -/
theorem period_eq (hperiod : period? rate = some period) :
    (seconds rate).toNat < 1087 * 2 ^ 52 ∧
      roundDiv (second * (magnitude (seconds rate)).1) (magnitude (seconds rate)).2 = period := by
  unfold period? at hperiod
  split at hperiod
  next => cases hperiod
  next hlimit =>
    rw [UInt64.le_iff_toNat_le] at hlimit
    refine ⟨Nat.lt_of_not_le hlimit, ?_⟩
    generalize magnitude (seconds rate) = fraction at hperiod ⊢
    exact Option.some.inj hperiod

/-- A period that is measured reaches the end of the clock if it reaches two to the power of 63
seconds. -/
theorem clockEnd_le_iff (h : isUsable rate = true) (hperiod : period? rate = some period) :
    clockEnd ≤ period ↔ rate ≤ 0x3c00000000000000 := by
  have hreached : 1086 * 2 ^ 52 ≤ (seconds rate).toNat ↔ rate ≤ 0x3c00000000000000 := by
    rw [UInt64.le_iff_toNat_le]
    exact le_seconds_iff h (k := 63) (by omega)
  obtain ⟨hhigh, hrounded⟩ := period_eq hperiod
  rw [← hreached, ← hrounded]
  by_cases hlow : 1086 * 2 ^ 52 ≤ (seconds rate).toNat
  · rw [magnitude_of_large hlow hhigh, roundDiv_one]
    simp only [clockEnd, second]
    omega
  · have hmeasured := magnitude_of_small (p := seconds rate) (by omega)
    generalize magnitude (seconds rate) = fraction at hmeasured ⊢
    have hbelow : roundDiv (second * fraction.1) fraction.2 < clockEnd := by
      simp only [clockEnd, second]
      rcases hmeasured with ⟨hnum, hden⟩ | hnum
      · rw [hden, roundDiv_one]
        omega
      · have hdiv := Nat.div_le_self (1000000000 * fraction.1) fraction.2
        have hround := roundDiv_le (1000000000 * fraction.1) fraction.2
        omega
    omega

end Pace

/-! ## Breaking off -/

variable {σ : Type} {env : Surroundings σ} {d : Driver σ} {period : Nat}

/-- If the clock stays below a bound, no tick is set later than its periods after that. -/
theorem moment_le {bound n : Nat} (hfirst : clock env.net d ≤ bound)
    (h : ∀ k < n, clock env.net ((afterTicks env d k).tick env.net).1 ≤ bound) :
    moment env period d n ≤ bound + n * period := by
  induction n with
  | zero => simpa [moment] using hfirst
  | succ n ih =>
    have hearlier := ih fun k hk => h k (by omega)
    have hclock := h n (by omega)
    rw [moment, Nat.succ_mul]
    omega

variable {a : RunArguments}

/-- With a period that no clock shows, the first tick breaks off the run. -/
theorem stream_breaksOff_of_clockEnd_le {interruption : Option Nat}
    (hperiod : Pace.period? a.rate = some period) (hlate : Pace.clockEnd ≤ period)
    (hticks : Option.merge min a.ticks interruption ≠ some 0) :
    (stream env a interruption d).1 = .brokeOff := by
  cases hmerge : Option.merge min a.ticks interruption with
  | none =>
    have hshown : ¬clock env.net d + period < Pace.clockEnd := by omega
    rw [stream_of_unbounded hperiod hmerge, Pace.later?, if_neg hshown]
    rfl
  | some n =>
    have hpos : n ≠ 0 := by
      rintro rfl
      exact hticks hmerge
    have hfirst : ¬Passes env period d 0 := by
      rintro ⟨hshown, -⟩
      omega
    exact stream_of_not_passes hperiod hmerge (by omega) hfirst

/-- The usable rates up to two to the power of -64 break off a run, whatever else it is told, and
those up to twice that break off a run of any ticks. Otherwise a run breaks off if one of its ticks
does not pass or a call of the system ends the thread. With a bound on the clock, the times of all
ticks are shown if that of the last is. -/
theorem stream_breaksOff_iff (a : RunArguments) (husable : Pace.isUsable a.rate = true) :
    (Pace.period? a.rate = none ↔ a.rate ≤ 0x3bf0000000000000) ∧
    (∀ period, Pace.period? a.rate = some period →
      (Pace.clockEnd ≤ period ↔ a.rate ≤ 0x3c00000000000000)) ∧
    ∀ (env : Surroundings σ) (interruption : Option Nat) (d : Driver σ),
      (a.rate ≤ 0x3bf0000000000000 → (stream env a interruption d).1 = .brokeOff) ∧
      (a.rate ≤ 0x3c00000000000000 → Option.merge min a.ticks interruption ≠ some 0 →
        (stream env a interruption d).1 = .brokeOff) ∧
      ∀ n, Option.merge min a.ticks interruption = some n →
        ((stream env a interruption d).1 = .brokeOff ↔ Pace.period? a.rate = none ∨
          ∃ period, Pace.period? a.rate = some period ∧ ((∃ k < n, ¬Passes env period d k) ∨
            ((afterTicks env d n).shutdown env.net env.join).died = true)) ∧
        ∀ period bound, clock env.net d ≤ bound →
          (∀ k < n, clock env.net ((afterTicks env d k).tick env.net).1 ≤ bound) →
          bound + n * period < Pace.clockEnd →
          ∀ k < n, moment env period d k + period < Pace.clockEnd := by
  have hunmeasured := Pace.period?_eq_none_iff husable
  refine ⟨hunmeasured, fun _ => Pace.clockEnd_le_iff husable, fun env interruption d =>
    ⟨fun hrate => stream_of_unmeasured (hunmeasured.2 hrate), fun hrate hticks => ?_,
    fun n hmerge =>
      ⟨stream_eq_brokeOff_iff hmerge, fun period bound hfirst hclock hend k hk => ?_⟩⟩⟩
  · cases hperiod : Pace.period? a.rate with
    | none => exact stream_of_unmeasured hperiod
    | some period =>
      exact stream_breaksOff_of_clockEnd_le hperiod ((Pace.clockEnd_le_iff husable hperiod).2 hrate)
        hticks
  -- a tick is due at most one period after the one before, or after the clock
  · have hmoment : moment env period d k ≤ bound + k * period :=
      moment_le hfirst fun j hj => hclock j (by omega)
    calc
      _ ≤ bound + k * period + period := by omega
      _ = bound + (k + 1) * period := by ring
      _ ≤ bound + n * period := by gcongr; omega
      _ < Pace.clockEnd := hend

/-- With the rate of two to the power of -63 a tick breaks off the run; with twice that rate it does
not if the clock is still at zero. -/
theorem stream_breaksOff_iff_of_neighbours :
    ∃ (d : Driver (List (Reply Nat))) (period : Nat),
      Pace.isUsable 0x3c00000000000000 = true ∧
      (stream Surroundings.scripted { rate := 0x3c00000000000000, ticks := some 1 } none d).1 =
        .brokeOff ∧
      Pace.isUsable 0x3c10000000000000 = true ∧ Pace.period? 0x3c10000000000000 = some period ∧
      ∀ k < 1, moment Surroundings.scripted period d k + period < Pace.clockEnd := by
  let d := (({ uplink := .idle [] } : Driver (List (Reply Nat))).launch Net.scripted).1
  have hslow : Pace.isUsable 0x3c00000000000000 = true := by decide
  have hfast : Pace.isUsable 0x3c10000000000000 = true := by decide
  have hperiod : Pace.period? 0x3c10000000000000 = some (2 ^ 62 * 1000000000) := by decide +kernel
  obtain ⟨-, -, hbreaks⟩ :=
    stream_breaksOff_iff { rate := 0x3c00000000000000, ticks := some 1 } hslow
  obtain ⟨-, -, hruns⟩ :=
    stream_breaksOff_iff { rate := 0x3c10000000000000, ticks := some 1 } hfast
  obtain ⟨-, hlate, -⟩ := hbreaks Surroundings.scripted none d
  obtain ⟨-, -, hends⟩ := hruns Surroundings.scripted none d
  exact ⟨d, _, hslow, hlate (by decide) (by decide), hfast, hperiod,
    (hends 1 rfl).2 _ 0 (Nat.le_refl 0) (fun _ _ => Nat.le_refl 0) (by decide)⟩

/-- Rates that are usable break off a run, one without any ticks and one with a single tick. -/
theorem usable_rates_break_off :
    Pace.isUsable 0x00000000000007e8 = true ∧
    (run Surroundings.scripted .default { rate := 0x00000000000007e8, ticks := some 0 } none []).1 =
      .brokeOff ∧
    Pace.isUsable 0x3c00000000000000 = true ∧
    (run Surroundings.scripted .default { rate := 0x3c00000000000000, ticks := some 1 } none []).1 =
      .brokeOff := by
  decide +kernel

end Command

end ArmStream

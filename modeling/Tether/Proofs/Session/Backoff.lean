import Tether.Proofs.Binary64
import Tether.Session.Backoff

namespace Tether.Session.Backoff

open Time (Interval)

variable (initial ceiling : Interval) (multiplier : Binary64) (attempt : Nat)

/-- The first delay times its growth, before the ceiling is looked at. -/
def scaled : Binary64 :=
  (Binary64.ofNat initial.nanos).mul ((multiplier.max .one).pow (min attempt lastGrowth))

theorem nanos_ofNanos {nanos : Nat} (short : nanos ≤ wordLimit) :
    (Interval.ofNanos nanos).nanos = nanos := by
  simp only [Interval.ofNanos, wordLimit, UInt64.size, Time.nanosPerSecond] at *
  omega

theorem delay_cases :
    ((scaled initial multiplier attempt).isFinite = true ∧
        (scaled initial multiplier attempt).lt (Binary64.ofNat ceiling.nanos) = true ∧
        ((exponential initial ceiling multiplier).delay attempt).nanos =
          (scaled initial multiplier attempt).truncate wordLimit) ∨
      ¬((scaled initial multiplier attempt).isFinite = true ∧
          (scaled initial multiplier attempt).lt (Binary64.ofNat ceiling.nanos) = true) ∧
        (exponential initial ceiling multiplier).delay attempt = ceiling := by
  have computed : (exponential initial ceiling multiplier).delay attempt =
      if ((scaled initial multiplier attempt).isFinite &&
          (scaled initial multiplier attempt).lt (Binary64.ofNat ceiling.nanos)) = true then
        .ofNanos ((scaled initial multiplier attempt).truncate wordLimit)
      else ceiling := rfl
  rw [computed]
  split
  · rename_i below
    obtain ⟨finite, less⟩ := (Bool.and_eq_true _ _).mp below
    exact Or.inl ⟨finite, less, nanos_ofNanos (Binary64.truncate_le _ _)⟩
  · rename_i above
    exact Or.inr ⟨fun both => above ((Bool.and_eq_true _ _).mpr both), rfl⟩

/-- A first delay that a double can hold does not shrink. -/
theorem reaches_scaled (positive : 0 < initial.nanos) (small : initial.nanos ≤ 2 ^ 53) :
    Binary64.Reaches (initial.nanos * Binary64.oneUnits) (scaled initial multiplier attempt) := by
  unfold scaled
  rw [Binary64.ofNat_of_le small]
  exact Binary64.Reaches.mul (Nat.mul_pos positive Binary64.oneUnits_pos)
    (Binary64.precise_mul_oneUnits small) (Nat.le_refl (initial.nanos * Binary64.oneUnits))
    ((Binary64.reaches_max_one multiplier).pow _)

theorem nanos_delay_le :
    ((exponential initial ceiling multiplier).delay attempt).nanos ≤ ceiling.nanos := by
  rcases delay_cases initial ceiling multiplier attempt with ⟨finite, less, exactly⟩ | ⟨_, capped⟩
  · rw [exactly]
    exact Binary64.truncate_le_of_lt_ofNat wordLimit
      (fun _ _ product => Binary64.representable_of_mul product) finite less
  · rw [capped]

theorem le_nanos_delay (small : initial.nanos ≤ 2 ^ 53) :
    min initial.nanos ceiling.nanos ≤
      ((exponential initial ceiling multiplier).delay attempt).nanos := by
  rcases delay_cases initial ceiling multiplier attempt with ⟨_, _, exactly⟩ | ⟨_, capped⟩
  · rw [exactly]
    rcases Nat.eq_zero_or_pos initial.nanos with zero | positive
    · rw [zero, Nat.zero_min]
      exact Nat.zero_le _
    · have fits : initial.nanos ≤ wordLimit := small.trans (by decide)
      have reaches := reaches_scaled initial multiplier attempt positive small
      exact (Nat.min_le_left _ _).trans (reaches.le_truncate fits)
  · rw [capped]
    exact Nat.min_le_right _ _

/-- However the multiplier is chosen, be it negative, infinite or not a number, a delay is never
longer than the ceiling, to the nanosecond. Nor is it shorter than both the first delay and the
ceiling, if a double can hold the first delay without rounding. -/
theorem delay_stays_in_bounds :
    let delay := (exponential initial ceiling multiplier).delay attempt
    delay.nanos ≤ ceiling.nanos ∧
      (initial.nanos ≤ 2 ^ 53 → min initial.nanos ceiling.nanos ≤ delay.nanos) :=
  ⟨nanos_delay_le initial ceiling multiplier attempt,
    le_nanos_delay initial ceiling multiplier attempt⟩

/-- A multiplier that is not a number counts as one. -/
theorem delay_stays_in_bounds_nan :
    let delay := (exponential (.ofMillis 300) (.ofSeconds 30) .nan).delay 3
    (Interval.ofMillis 300).nanos ≤ 2 ^ 53 ∧ delay.nanos ≤ 30000000000 ∧
      300000000 ≤ delay.nanos := by
  intro delay
  have small : (Interval.ofMillis 300).nanos ≤ 2 ^ 53 := by decide
  obtain ⟨most, least⟩ := delay_stays_in_bounds (.ofMillis 300) (.ofSeconds 30) .nan 3
  exact ⟨small, most, least small⟩

end Tether.Session.Backoff

import Mathlib.Algebra.Group.Nat.Defs
import Mathlib.Logic.Function.Iterate
import Roster.Policy

/-!
# Proofs.Doubling — the reconnect delay, doubled again and again

* `nextDelay_nanos`, `iterate_nextDelay`: doubled `k` times, the delay is the initial one times `2 ^ k`,
  cut off at the ceiling.
* `delayAfter_nanos`: the closed form multiplies by no more than the largest word.
* `delayAfter_iff_doubled`: so the two agree up to 31 doublings, and beyond that where the ceiling is
  within reach of such a multiple. `delayAfter_falls_short`: elsewhere they do not.
-/

namespace Roster

/-- Doubling a delay below the ceiling and cutting it off there. -/
theorem nextDelay_nanos (p : Policy) (d : Duration) :
    (p.nextDelay d).nanos = min (d.nanos * 2) p.maxDelay.nanos := by
  unfold Policy.nextDelay
  rw [Duration.nanos_min, Duration.nanos_times]
  have := p.maxDelay.nanos_le
  omega

/-- One doubling more of a delay that was cut off at the ceiling. -/
theorem double_delay (i r c : Nat) : min (min (i * 2 ^ r) c * 2) c = min (i * 2 ^ (r + 1)) c := by
  rw [Nat.pow_succ, ← Nat.mul_assoc]
  omega

namespace Policy

variable (p : Policy)

/-- Doubling step by step, and cutting off at the ceiling each time, is cutting off once at the end. -/
theorem iterate_nextDelay (ordered : p.initialDelay ≤ p.maxDelay) (k : Nat) :
    (p.nextDelay^[k] p.initialDelay).nanos =
      min (p.initialDelay.nanos * 2 ^ k) p.maxDelay.nanos := by
  induction k with
  | zero =>
    rw [Function.iterate_zero_apply, Nat.pow_zero, Nat.mul_one]
    exact (Nat.min_eq_left ordered).symm
  | succ k ih => rw [Function.iterate_succ_apply', nextDelay_nanos, ih, double_delay]

theorem delayAfter_nanos (k : UInt32) : (p.delayAfter k).nanos =
    min (p.initialDelay.nanos * multiplier k) p.maxDelay.nanos := by
  unfold delayAfter
  rw [Duration.nanos_min, Duration.nanos_times]
  have := p.maxDelay.nanos_le
  omega

/-- A power of two fits a word up to the thirty-first. -/
theorem multiplier_of_lt {k : UInt32} (h : k < 32) : multiplier k = 2 ^ k.toNat := if_pos h

/-- From the thirty-second on the multiple stays below the power. -/
theorem multiplier_lt_pow {k : UInt32} (h : ¬ k < 32) : multiplier k < 2 ^ k.toNat := by
  have large : 32 ≤ k.toNat := UInt32.le_iff_toNat_le.1 (UInt32.not_lt.1 h)
  have word : multiplier k = 2 ^ 32 - 1 := if_neg h
  have power : 2 ^ 32 ≤ 2 ^ k.toNat := Nat.pow_le_pow_right Nat.two_pos large
  omega

/-- **Where the closed form is right.** Applied again and again to the initial delay, the doubling gives
that delay times `2 ^ k` in exact arithmetic, up to the ceiling. The closed form gives the same if and
only if there are fewer than 32 doublings, or the ceiling is at most `2 ^ 32 - 1` initial delays away, or
the initial delay is empty. Otherwise it stays at `2 ^ 32 - 1` initial delays, short of the ceiling. -/
theorem delayAfter_iff_doubled (ordered : p.initialDelay ≤ p.maxDelay) (k : UInt32) :
    (p.nextDelay^[k.toNat] p.initialDelay).nanos =
        min (p.initialDelay.nanos * 2 ^ k.toNat) p.maxDelay.nanos ∧
    (p.delayAfter k = p.nextDelay^[k.toNat] p.initialDelay ↔
      k < 32 ∨ p.maxDelay.nanos ≤ p.initialDelay.nanos * (2 ^ 32 - 1) ∨ p.initialDelay = .zero) ∧
    (32 ≤ k → (p.delayAfter k).nanos =
      min (p.initialDelay.nanos * (2 ^ 32 - 1)) p.maxDelay.nanos) := by
  have doubled := p.iterate_nextDelay ordered k.toNat
  have same : p.delayAfter k = p.nextDelay^[k.toNat] p.initialDelay ↔
      min (p.initialDelay.nanos * multiplier k) p.maxDelay.nanos =
        min (p.initialDelay.nanos * 2 ^ k.toNat) p.maxDelay.nanos := by
    rw [← p.delayAfter_nanos, ← doubled]
    exact ⟨congrArg Duration.nanos, Duration.ext⟩
  refine ⟨doubled, same.trans ?_, fun large => ?_⟩
  · by_cases small : k < 32
    · rw [multiplier_of_lt small]
      exact ⟨fun _ => .inl small, fun _ => rfl⟩
    · have word : multiplier k = 2 ^ 32 - 1 := if_neg small
      rw [or_iff_right small, ← word]
      by_cases empty : p.initialDelay = .zero
      · have nothing : p.initialDelay.nanos = 0 := congrArg Duration.nanos empty
        rw [nothing, Nat.zero_mul, Nat.zero_mul]
        exact ⟨fun _ => .inr empty, fun _ => rfl⟩
      · have positive : 0 < p.initialDelay.nanos := Nat.pos_of_ne_zero fun h => empty (Duration.ext h)
        have short := Nat.mul_lt_mul_of_pos_left (multiplier_lt_pow small) positive
        rw [or_iff_left empty]
        omega
  · have word : multiplier k = 2 ^ 32 - 1 := if_neg (UInt32.not_lt.2 large)
    rw [p.delayAfter_nanos, word]

/-- A ceiling of a second is less than `2 ^ 32 - 1` nanoseconds away from one, so both forms are cut off
there. -/
theorem delayAfter_reaches_second :
    let p : Policy := { standard with initialDelay := .ofNanos 1, maxDelay := .ofSeconds 1 }
    p.initialDelay ≤ p.maxDelay ∧ p.delayAfter 80 = p.nextDelay^[80] p.initialDelay ∧
      (p.nextDelay^[80] p.initialDelay).nanos = 1000000000 := by
  intro p
  have ordered : p.initialDelay ≤ p.maxDelay := by decide +kernel
  obtain ⟨doubled, agrees, -⟩ := delayAfter_iff_doubled p ordered 80
  exact ⟨ordered, agrees.2 (.inr (.inl (by decide +kernel))), doubled.trans (by decide +kernel)⟩

/-- Forty doublings of a nanosecond reach the standard ceiling of sixteen seconds; the closed form stays
below four and a half. -/
theorem delayAfter_falls_short :
    let p : Policy := { standard with initialDelay := .ofNanos 1 }
    p.initialDelay ≤ p.maxDelay ∧ p.delayAfter 40 ≠ p.nextDelay^[40] p.initialDelay ∧
      (p.delayAfter 40).nanos = 4294967295 ∧
      (p.nextDelay^[40] p.initialDelay).nanos = 16000000000 := by
  decide +kernel

end Policy

end Roster

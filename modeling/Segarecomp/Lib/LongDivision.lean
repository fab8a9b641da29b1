import Mathlib.Data.Nat.Bitwise
import Mathlib.Tactic

/-! Long division of numbers in base two: the divisor stays, the remainder is doubled, and a bit of the quotient is
one where the divisor is subtracted. -/

namespace Segarecomp.Lib.LongDivision

variable {divisor remainder dividend : ℕ}

def doubled (divisor remainder : ℕ) : ℕ := if divisor ≤ 2 * remainder then 2 * remainder - divisor else 2 * remainder

def remainderAfter (divisor dividend : ℕ) : ℕ → ℕ
  | 0 => dividend
  | steps + 1 => doubled divisor (remainderAfter divisor dividend steps)

theorem doubled_lt (below : remainder < divisor) : doubled divisor remainder < divisor := by
  rw [doubled]
  split_ifs <;> omega

theorem remainderAfter_lt (below : dividend < divisor) (steps : ℕ) : remainderAfter divisor dividend steps < divisor := by
  induction steps with
  | zero => exact below
  | succ steps ih => exact doubled_lt ih

theorem doubled_eq_mod (below : remainder < divisor) : doubled divisor remainder = 2 * remainder % divisor := by
  rw [doubled]
  split_ifs with subtracts
  · rw [Nat.mod_eq_sub_mod subtracts, Nat.mod_eq_of_lt (by omega)]
  · rw [Nat.mod_eq_of_lt (Nat.lt_of_not_le subtracts)]

theorem remainderAfter_eq_mod (below : dividend < divisor) (steps : ℕ) :
    remainderAfter divisor dividend steps = dividend * 2 ^ steps % divisor := by
  induction steps with
  | zero => rw [remainderAfter, Nat.pow_zero, Nat.mul_one, Nat.mod_eq_of_lt below]
  | succ steps ih =>
      calc remainderAfter divisor dividend (steps + 1)
          = doubled divisor (remainderAfter divisor dividend steps) := rfl
        _ = 2 * (dividend * 2 ^ steps % divisor) % divisor := by
          rw [doubled_eq_mod (remainderAfter_lt below steps), ih]
        _ = dividend * 2 ^ (steps + 1) % divisor := by
          rw [Nat.mul_mod_mod, Nat.pow_succ]
          ring_nf

/-- Twice a number leaves an odd quotient where twice its remainder holds the divisor. -/
theorem odd_quotient_iff (positive : 0 < divisor) (n : ℕ) : 2 * n / divisor % 2 = 1 ↔ divisor ≤ 2 * (n % divisor) := by
  have below := Nat.mod_lt n positive
  have parts : 2 * n = 2 * (n % divisor) + divisor * (2 * (n / divisor)) := by
    calc 2 * n = 2 * (n % divisor + divisor * (n / divisor)) := by rw [Nat.mod_add_div]
      _ = 2 * (n % divisor) + divisor * (2 * (n / divisor)) := by ring
  have quotient : 2 * n / divisor = 2 * (n % divisor) / divisor + 2 * (n / divisor) :=
    (congrArg (· / divisor) parts).trans (Nat.add_mul_div_left _ _ positive)
  rw [quotient, Nat.add_mul_mod_self_left]
  by_cases holds : divisor ≤ 2 * (n % divisor)
  · have one : 2 * (n % divisor) / divisor = 1 := Nat.div_eq_of_lt_le (by omega) (by omega)
    simp [one, holds]
  · have zero : 2 * (n % divisor) / divisor = 0 := Nat.div_eq_of_lt (Nat.lt_of_not_le holds)
    simp [zero, holds]

/-- The quotient by a divisor that was shifted by `width` comes out bit by bit, the highest first. -/
theorem subtracts_iff {width step : ℕ} (inside : step < width) (below : dividend < divisor * 2 ^ width) :
    divisor * 2 ^ width ≤ 2 * remainderAfter (divisor * 2 ^ width) dividend step ↔
      (dividend / divisor).testBit (width - 1 - step) = true := by
  have positive : 0 < divisor * 2 ^ width := Nat.zero_lt_of_lt below
  have place : 2 ^ width = 2 ^ (width - 1 - step) * 2 ^ (step + 1) := by
    rw [← Nat.pow_add]
    congr 1
    omega
  have quotient : 2 * (dividend * 2 ^ step) / (divisor * 2 ^ width) = dividend / divisor / 2 ^ (width - 1 - step) := by
    calc 2 * (dividend * 2 ^ step) / (divisor * 2 ^ width)
        = dividend * 2 ^ (step + 1) / (divisor * 2 ^ (width - 1 - step) * 2 ^ (step + 1)) := by
          rw [place, Nat.pow_succ]
          ring_nf
      _ = dividend / (divisor * 2 ^ (width - 1 - step)) := Nat.mul_div_mul_right _ _ (Nat.two_pow_pos _)
      _ = dividend / divisor / 2 ^ (width - 1 - step) := (Nat.div_div_eq_div_mul _ _ _).symm
  rw [remainderAfter_eq_mod below, ← odd_quotient_iff positive, quotient, Nat.testBit_eq_decide_div_mod_eq,
    decide_eq_true_iff]

end Segarecomp.Lib.LongDivision

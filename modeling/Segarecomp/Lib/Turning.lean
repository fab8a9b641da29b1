import Mathlib.Tactic

/-! Turning a ring of bits that stands in the low end of a wider word: two shifts joined together
are as many one-bit turns. -/

namespace Segarecomp.Lib.Turning

variable {w m k e i : ℕ} {ring : BitVec w} {bits : ℕ → Bool}

/-! ## One-bit turns of an indexed ring -/

def left (m : ℕ) (bits : ℕ → Bool) : ℕ → Bool := fun i => bits ((i + (m - 1)) % m)

def right (m : ℕ) (bits : ℕ → Bool) : ℕ → Bool := fun i => bits ((i + 1) % m)

theorem left_iterate (m k : ℕ) (bits : ℕ → Bool) (inside : i < m) :
    (left m)^[k] bits i = bits ((i + k * (m - 1)) % m) := by
  induction k generalizing i with
  | zero => rw [Nat.zero_mul, Nat.add_zero, Nat.mod_eq_of_lt inside]; rfl
  | succ k ih =>
      have pos : 0 < m := Nat.zero_lt_of_lt inside
      rw [Function.iterate_succ_apply', left, ih (Nat.mod_lt _ pos), Nat.mod_add_mod, Nat.succ_mul]
      congr 2
      omega

theorem right_iterate (m k : ℕ) (bits : ℕ → Bool) (inside : i < m) :
    (right m)^[k] bits i = bits ((i + k) % m) := by
  induction k generalizing i with
  | zero => rw [Nat.add_zero, Nat.mod_eq_of_lt inside]; rfl
  | succ k ih =>
      have pos : 0 < m := Nat.zero_lt_of_lt inside
      rw [Function.iterate_succ_apply', right, ih (Nat.mod_lt _ pos), Nat.mod_add_mod]
      congr 2
      omega

/-- `k` turns to the left, as turns to the right. -/
theorem left_index (inside : i < m) : (i + k * (m - 1)) % m = (i + (m - k % m)) % m := by
  have pos : 0 < m := Nat.zero_lt_of_lt inside
  have back : k % m + (m - k % m) = m := Nat.add_sub_of_le (Nat.mod_lt k pos).le
  have whole : k * (m - 1) + k = k * m := by
    rw [← Nat.mul_succ, Nat.succ_eq_add_one, Nat.sub_add_cancel pos]
  have same : i + k * (m - 1) + k ≡ i + (m - k % m) + k [MOD m] := by
    calc
      i + k * (m - 1) + k = i + k * m := by rw [Nat.add_assoc, whole]
      _ ≡ i [MOD m] := by rw [Nat.ModEq, Nat.add_mul_mod_self_right]
      _ ≡ i + m [MOD m] := by rw [Nat.ModEq, Nat.add_mod_right]
      _ = i + (m - k % m) + k % m := by omega
      _ ≡ i + (m - k % m) + k [MOD m] := (Nat.ModEq.refl _).add (Nat.mod_modEq k m)
  exact Nat.ModEq.add_right_cancel' k same

/-! ## Two shifts joined together -/

theorem or_left_bit (low : ∀ i, m ≤ i → ring.getLsbD i = false) (wide : m ≤ w) (some : 0 < e) (part : e < m)
    (inside : i < m) :
    ((ring <<< e) ||| (ring >>> (m - e))).getLsbD i = ring.getLsbD ((i + (m - e)) % m) := by
  rw [BitVec.getLsbD_or, BitVec.getLsbD_shiftLeft, BitVec.getLsbD_ushiftRight,
    decide_eq_true (inside.trans_le wide)]
  by_cases under : i < e
  · have around : m - e + i = (i + (m - e)) % m := by rw [Nat.mod_eq_of_lt (by omega), Nat.add_comm]
    rw [decide_eq_true under, around]
    rfl
  · have past : ring.getLsbD (m - e + i) = false := low _ (by omega)
    have around : (i + (m - e)) % m = i - e := by
      rw [show i + (m - e) = i - e + m by omega, Nat.add_mod_right, Nat.mod_eq_of_lt (by omega)]
    rw [decide_eq_false under, past, around, Bool.or_false]
    rfl

theorem or_right_bit (low : ∀ i, m ≤ i → ring.getLsbD i = false) (wide : m ≤ w) (part : e < m)
    (inside : i < m) :
    ((ring >>> e) ||| (ring <<< (m - e))).getLsbD i = ring.getLsbD ((i + e) % m) := by
  rw [BitVec.getLsbD_or, BitVec.getLsbD_shiftLeft, BitVec.getLsbD_ushiftRight,
    decide_eq_true (inside.trans_le wide)]
  by_cases under : i < m - e
  · have around : e + i = (i + e) % m := by rw [Nat.mod_eq_of_lt (by omega), Nat.add_comm]
    rw [decide_eq_true under, around]
    exact Bool.or_false _
  · have past : ring.getLsbD (e + i) = false := low _ (by omega)
    have around : (i + e) % m = i - (m - e) := by
      rw [show i + e = i - (m - e) + m by omega, Nat.add_mod_right, Nat.mod_eq_of_lt (by omega)]
    rw [decide_eq_false under, past, around]
    rfl

end Segarecomp.Lib.Turning

import Mathlib.Tactic

/-! Reflected cyclic redundancy checks over bit vectors: the bit-serial division step and the
identity behind every byte-table implementation. -/

namespace Segarecomp.Lib.Crc

variable {w : ℕ}

/-- One division step: shift the low bit out and reduce by the polynomial when it was set. -/
def divStep (poly c : BitVec w) : BitVec w :=
  if c.getLsbD 0 then poly ^^^ c >>> 1 else c >>> 1

def divSteps (poly : BitVec w) : ℕ → BitVec w → BitVec w
  | 0, c => c
  | n + 1, c => divSteps poly n (divStep poly c)

/-- Feed one byte, low bit first. -/
def feed (poly c : BitVec w) (b : BitVec 8) : BitVec w :=
  divSteps poly 8 (c ^^^ b.setWidth w)

/-- The checksum of a byte string with all-ones initial value and final complement. -/
def checksum (poly : BitVec w) (bytes : List (BitVec 8)) : BitVec w :=
  bytes.foldl (feed poly) (BitVec.allOnes w) ^^^ BitVec.allOnes w

theorem divStep_xor (poly x y : BitVec w) :
    divStep poly (x ^^^ y) = divStep poly x ^^^ divStep poly y := by
  have cancel : poly ^^^ x >>> 1 ^^^ (poly ^^^ y >>> 1) = x >>> 1 ^^^ y >>> 1 := by
    rw [BitVec.xor_comm poly, BitVec.xor_assoc, ← BitVec.xor_assoc poly, BitVec.xor_self,
      BitVec.zero_xor]
  simp only [divStep, BitVec.getLsbD_xor, BitVec.ushiftRight_xor_distrib]
  cases hx : x.getLsbD 0 with
  | false =>
      cases hy : y.getLsbD 0 with
      | false => simp
      | true => simp [← BitVec.xor_assoc, BitVec.xor_comm poly]
  | true =>
      cases hy : y.getLsbD 0 with
      | false => simp [BitVec.xor_assoc]
      | true => simp [cancel]

theorem divSteps_xor (poly : BitVec w) (n : ℕ) (x y : BitVec w) :
    divSteps poly n (x ^^^ y) = divSteps poly n x ^^^ divSteps poly n y := by
  induction n generalizing x y with
  | zero => rfl
  | succ n ih => rw [divSteps, divStep_xor, ih, divSteps, divSteps]

/-- A value shifted clear of the low bits passes through the division unreduced. -/
theorem divSteps_shifted (poly x : BitVec w) (n : ℕ) :
    divSteps poly n ((x >>> n) <<< n) = x >>> n := by
  have step : ∀ m ≤ n, divSteps poly m ((x >>> n) <<< m) = x >>> n := by
    intro m
    induction m with
    | zero => intro _; simp [divSteps]
    | succ m ih =>
        intro hm
        have low : ((x >>> n) <<< (m + 1)).getLsbD 0 = false := by simp
        have back : ((x >>> n) <<< (m + 1)) >>> 1 = (x >>> n) <<< m := by
          apply BitVec.eq_of_getLsbD_eq
          intro i hi
          simp only [BitVec.getLsbD_ushiftRight, BitVec.getLsbD_shiftLeft]
          by_cases h : i < m
          · simp [show 1 + i < m + 1 by omega, h]
          · have hlow : ¬ 1 + i < m + 1 := by omega
            have hindex : 1 + i - (m + 1) = i - m := by omega
            simp only [hlow, h, hindex, hi]
            by_cases top : 1 + i < w
            · simp [top]
            · have : x.getLsbD (n + (i - m)) = false := BitVec.getLsbD_of_ge x _ (by omega)
              simp [this]
        rw [divSteps, divStep, if_neg (by simp [low]), back, ih (by omega)]
  exact step n le_rfl

theorem split_low (x : BitVec w) (n : ℕ) :
    x = (x &&& (BitVec.ofNat w (2 ^ n - 1))) ^^^ ((x >>> n) <<< n) := by
  apply BitVec.eq_of_getLsbD_eq
  intro i hi
  simp only [BitVec.getLsbD_xor, BitVec.getLsbD_and, BitVec.getLsbD_ofNat, BitVec.getLsbD_shiftLeft,
    BitVec.getLsbD_ushiftRight, Nat.testBit_two_pow_sub_one]
  by_cases h : i < n
  · simp [hi, h]
  · simp [hi, h, show n + (i - n) = i by omega]

/-- Eight division steps reduce the low byte and shift the rest: the byte-table identity. -/
theorem divSteps_eight (poly x : BitVec w) :
    divSteps poly 8 x = divSteps poly 8 (x &&& BitVec.ofNat w 255) ^^^ x >>> 8 := by
  conv_lhs => rw [split_low x 8]
  rw [divSteps_xor, divSteps_shifted]
  norm_num

end Segarecomp.Lib.Crc

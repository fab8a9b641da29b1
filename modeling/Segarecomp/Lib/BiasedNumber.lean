import Mathlib.Tactic

/-! The biased base-128 code: seven bits a byte, low bits first, the last byte marked by its high
bit, and one subtracted after every continued byte, so that each number has one encoding. -/

namespace Segarecomp.Lib.BiasedNumber

def encode (n : ℕ) : List (BitVec 8) :=
  if n < 128 then [BitVec.ofNat 8 (128 + n)]
  else BitVec.ofNat 8 (n % 128) :: encode (n / 128 - 1)
termination_by n
decreasing_by omega

theorem encode_small {n : ℕ} (h : n < 128) : encode n = [BitVec.ofNat 8 (128 + n)] := by
  rw [encode, if_pos h]

theorem encode_large {n : ℕ} (h : 128 ≤ n) :
    encode n = BitVec.ofNat 8 (n % 128) :: encode (n / 128 - 1) := by
  rw [encode, if_neg (by omega)]

theorem encode_ne_nil (n : ℕ) : encode n ≠ [] := by
  rw [encode]
  split <;> simp

theorem encode_length_pos (n : ℕ) : 0 < (encode n).length :=
  List.length_pos_iff.mpr (encode_ne_nil n)

theorem last_low {n : ℕ} (h : n < 128) : (BitVec.ofNat 8 (128 + n) &&& 0x7F).toNat = n := by
  have mask : (128 + n) &&& 127 = n := by
    have := Nat.and_two_pow_sub_one_eq_mod (128 + n) 7
    norm_num at this
    omega
  simp [BitVec.toNat_and, Nat.mod_eq_of_lt (show 128 + n < 256 by omega), mask]

theorem last_high {n : ℕ} (h : n < 128) : BitVec.ofNat 8 (128 + n) &&& 0x80 ≠ 0 := by
  have all : ∀ m : Fin 128, BitVec.ofNat 8 (128 + m.val) &&& 0x80 ≠ 0 := by decide
  exact all ⟨n, h⟩

theorem more_low (n : ℕ) : (BitVec.ofNat 8 (n % 128) &&& 0x7F).toNat = n % 128 := by
  have mask : n % 128 &&& 127 = n % 128 := by
    have := Nat.and_two_pow_sub_one_eq_mod (n % 128) 7
    norm_num at this
    omega
  simp [BitVec.toNat_and, Nat.mod_eq_of_lt (show n % 128 < 256 by omega), mask]

theorem more_high (n : ℕ) : BitVec.ofNat 8 (n % 128) &&& 0x80 = 0 := by
  have all : ∀ m : Fin 128, BitVec.ofNat 8 m.val &&& 0x80 = 0 := by decide
  exact all ⟨n % 128, Nat.mod_lt n (by decide)⟩

end Segarecomp.Lib.BiasedNumber

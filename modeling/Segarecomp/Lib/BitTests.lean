import Mathlib.Tactic

/-! The test of a bit of a word with a mask that has no other. -/

namespace Segarecomp.Lib.BitTests

variable {w i : ℕ}

theorem twoPow_ne_zero (inside : i < w) : BitVec.twoPow w i ≠ 0#w := by
  intro zero
  have bit := congrArg (fun mask => BitVec.getLsbD mask i) zero
  simp [inside] at bit

theorem and_twoPow_ne_zero_iff (word : BitVec w) (inside : i < w) :
    word &&& BitVec.twoPow w i ≠ 0#w ↔ word.getLsbD i = true := by
  rw [BitVec.and_twoPow]
  by_cases bit : word.getLsbD i = true
  · rw [if_pos bit]
    exact ⟨fun _ => bit, fun _ => twoPow_ne_zero inside⟩
  · rw [if_neg bit]
    exact ⟨fun kept => absurd rfl kept, fun set => absurd set bit⟩

theorem and_twoPow_ne_zero (word : BitVec w) (inside : i < w) :
    decide (word &&& BitVec.twoPow w i ≠ 0#w) = word.getLsbD i :=
  Bool.eq_iff_iff.mpr (decide_eq_true_iff.trans (and_twoPow_ne_zero_iff word inside))

theorem and_sign_ne_zero_iff (word : BitVec (w + 1)) :
    word &&& BitVec.twoPow (w + 1) w ≠ 0#(w + 1) ↔ word.msb = true := by
  rw [and_twoPow_ne_zero_iff word (Nat.lt_succ_self w), BitVec.msb_eq_getLsbD_last, Nat.add_sub_cancel]

end Segarecomp.Lib.BitTests

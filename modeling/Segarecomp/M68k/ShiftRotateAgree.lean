import Segarecomp.Lib.BitTests
import Segarecomp.M68k.ShiftRotateSteps

/-! The closed formulas of the shift and rotate specification are the one-bit shift or rotate of the
architecture, taken as often as the count says. -/

namespace Segarecomp.M68k.ShiftRotateSteps

open Effects ShiftRotate
open Lib Lib.BitTests

variable {n k i : ℕ} {v : BitVec n} {s : Operand n} {x : Bool} {width : MemoryAccessWidth} {count : BitVec 32}

/-! ## The 32-bit words of the specification -/

theorem size_pos (width : MemoryAccessWidth) : 0 < size width := by
  cases width <;> decide

theorem size_le (width : MemoryAccessWidth) : size width ≤ 32 := by
  cases width <;> decide

theorem toNat_widthBits (width : MemoryAccessWidth) : (widthBits width).toNat = size width := by
  cases width <;> rfl

theorem mask_bit (width : MemoryAccessWidth) (i : ℕ) : (mask width).getLsbD i = decide (i < size width) := by
  have ones : mask width = (BitVec.allOnes (size width)).setWidth 32 := by cases width <;> decide
  have fits : i < size width → i < 32 := fun inside => inside.trans_le (size_le width)
  rw [ones, BitVec.getLsbD_setWidth, BitVec.getLsbD_allOnes, ← Bool.decide_and]
  exact decide_eq_decide.mpr ⟨And.right, fun inside => ⟨fits inside, inside⟩⟩

theorem sign_eq (width : MemoryAccessWidth) : sign width = BitVec.twoPow 32 (size width - 1) := by
  cases width <;> decide

/-- The operand as the specification holds it. -/
def held (width : MemoryAccessWidth) (u : BitVec (size width)) : BitVec 32 := u.setWidth 32

variable {u : BitVec (size width)}

theorem held_bit (width : MemoryAccessWidth) (u : BitVec (size width)) (i : ℕ) :
    (held width u).getLsbD i = u.getLsbD i := by
  rw [held, BitVec.getLsbD_setWidth]
  by_cases inside : i < 32
  · rw [decide_eq_true inside, Bool.true_and]
  · rw [decide_eq_false inside, Bool.false_and,
      BitVec.getLsbD_of_ge u i ((size_le width).trans (Nat.le_of_not_lt inside))]

theorem held_eq_iff {word : BitVec 32} :
    word = held width u ↔ ∀ i < 32, word.getLsbD i = u.getLsbD i := by
  constructor
  · rintro rfl i -
    exact held_bit width u i
  · intro same
    refine BitVec.eq_of_getLsbD_eq fun i inside => ?_
    rw [held_bit]
    exact same i inside

theorem held_zero (u : BitVec (size width)) : held width u = 0#32 ↔ u = 0 := by
  constructor
  · intro none
    refine BitVec.eq_of_getLsbD_eq fun i inside => ?_
    rw [← held_bit, none]
    simp
  · rintro rfl
    simp [held]

theorem source_eq (original : BitVec 32) (width : MemoryAccessWidth) :
    original &&& mask width = held width (original.setWidth (size width)) := by
  refine held_eq_iff.mpr fun i inside => ?_
  rw [BitVec.getLsbD_and, mask_bit, BitVec.getLsbD_setWidth, Bool.and_comm]

theorem held_sign (u : BitVec (size width)) : decide (held width u &&& sign width ≠ 0#32) = u.msb := by
  have inside : size width - 1 < 32 := by have := size_le width; have := size_pos width; omega
  rw [sign_eq, and_twoPow_ne_zero _ inside, held_bit, BitVec.msb_eq_getLsbD_last]

theorem held_bitAt (u : BitVec (size width)) (c : BitVec 32) : bitAt (held width u) c = u.getLsbD c.toNat := by
  rw [bitAt, show 1#32 = BitVec.twoPow 32 0 by decide, and_twoPow_ne_zero _ (by decide)]
  calc
    (held width u >>> c).getLsbD 0 = (held width u).getLsbD (c.toNat + 0) := BitVec.getLsbD_ushiftRight ..
    _ = u.getLsbD c.toNat := held_bit width u _

theorem held_shiftLeft (u : BitVec (size width)) (c : BitVec 32) :
    (held width u <<< c) &&& mask width = held width (u <<< c.toNat) := by
  refine held_eq_iff.mpr fun i inside => ?_
  rw [BitVec.getLsbD_and, mask_bit, BitVec.getLsbD_shiftLeft, BitVec.shiftLeft_eq', BitVec.getLsbD_shiftLeft,
    held_bit, decide_eq_true inside, Bool.true_and, Bool.and_comm, Bool.and_assoc]

theorem held_shiftRight (u : BitVec (size width)) (c : BitVec 32) :
    held width u >>> c = held width (u >>> c.toNat) := by
  refine held_eq_iff.mpr fun i _ => ?_
  rw [BitVec.ushiftRight_eq', BitVec.getLsbD_ushiftRight, held_bit, BitVec.getLsbD_ushiftRight]

/-! ## The bit moved out last -/

theorem lsl_out (k : ℕ) :
    (after .lsl v x (k + 1)).carry = (v <<< k).msb ∧ (after .lsl v x (k + 1)).extend = (v <<< k).msb := by
  rw [after_succ, ← lsl_value (x := x)]
  exact ⟨rfl, rfl⟩

theorem lsr_out (k : ℕ) :
    (after .lsr v x (k + 1)).carry = v.getLsbD k ∧ (after .lsr v x (k + 1)).extend = v.getLsbD k := by
  have low : (after .lsr v x k).value.getLsbD 0 = v.getLsbD k := by
    rw [lsr_value, BitVec.getLsbD_ushiftRight, Nat.add_zero]
  rw [after_succ]
  exact ⟨low, low⟩

theorem asr_out (k : ℕ) :
    (after .asr v x (k + 1)).carry = (v.sshiftRight k).getLsbD 0 ∧
      (after .asr v x (k + 1)).extend = (v.sshiftRight k).getLsbD 0 := by
  rw [after_succ, ← asr_value (x := x)]
  exact ⟨rfl, rfl⟩

theorem msb_shiftLeft (v : BitVec n) (k : ℕ) (inside : k < n) : (v <<< k).msb = v.getLsbD (n - 1 - k) := by
  rw [BitVec.msb_eq_getLsbD_last, BitVec.getLsbD_shiftLeft, decide_eq_true (by omega),
    decide_eq_false (by omega)]
  rfl

theorem shiftLeft_all (v : BitVec n) (past : n ≤ k) : v <<< k = 0 := by
  refine BitVec.eq_of_getLsbD_eq fun i inside => ?_
  rw [BitVec.getLsbD_shiftLeft, decide_eq_true (inside.trans_le past)]
  simp

theorem ushiftRight_all (v : BitVec n) (past : n ≤ k) : v >>> k = 0 := by
  refine BitVec.eq_of_getLsbD_eq fun i inside => ?_
  rw [BitVec.getLsbD_ushiftRight, BitVec.getLsbD_of_ge v _ (past.trans (Nat.le_add_right k i))]
  simp

theorem count_zero_iff : count = 0#32 ↔ count.toNat = 0 := by
  rw [BitVec.toNat_eq]
  rfl

theorem count_lt_iff : count < widthBits width ↔ count.toNat < size width := by
  rw [BitVec.lt_def, toNat_widthBits]

theorem count_eq_iff : count = widthBits width ↔ count.toNat = size width := by
  rw [BitVec.toNat_eq, toNat_widthBits]

theorem le_count (all : ¬count < widthBits width) : size width ≤ count.toNat :=
  Nat.le_of_not_lt (mt count_lt_iff.mpr all)

theorem toNat_left_out (part : count.toNat < size width) :
    (widthBits width - count).toNat = size width - count.toNat := by
  have under : count ≤ widthBits width := by
    rw [BitVec.le_def, toNat_widthBits]
    exact part.le
  rw [BitVec.toNat_sub_of_le under, toNat_widthBits]

theorem toNat_pred (some : count.toNat = k + 1) : (count - 1#32).toNat = k := by
  have above : 1#32 ≤ count := by
    rw [BitVec.le_def, some]
    exact Nat.le_add_left 1 k
  rw [BitVec.toNat_sub_of_le above, some]
  rfl

/-! ## One kind after the other -/

/-- What one kind decided is an operand of the architecture. -/
structure Holds (width : MemoryAccessWidth) (d : Shifted) (s : Operand (size width)) : Prop where
  result : d.result = held width s.value
  carry : d.carry = s.carry
  extend : d.extendValue = s.extend

theorem lsl_holds (u : BitVec (size width)) (count : BitVec 32) (x : Bool) :
    Holds width (lsl (held width u) count width x) (after .lsl u x count.toNat) := by
  rw [lsl]
  by_cases none : count = 0#32
  · rw [if_pos none, count_zero_iff.mp none]
    exact ⟨rfl, rfl, rfl⟩
  obtain ⟨k, some⟩ := Nat.exists_eq_succ_of_ne_zero (mt count_zero_iff.mpr none)
  have out := lsl_out (v := u) (x := x) k
  rw [if_neg none]
  by_cases part : count < widthBits width
  · have inside : count.toNat < size width := count_lt_iff.mp part
    have carry : bitAt (held width u) (widthBits width - count) = (u <<< k).msb := by
      rw [held_bitAt, toNat_left_out inside, msb_shiftLeft u k (by omega)]
      congr 1
      omega
    rw [if_pos part, some]
    refine ⟨?_, carry.trans out.1.symm, carry.trans out.2.symm⟩
    rw [held_shiftLeft, lsl_value, some]
  rw [if_neg part, some]
  have past : size width ≤ k + 1 := (le_count part).trans some.le
  have value : 0#32 = held width (after .lsl u x (k + 1)).value := by
    rw [lsl_value, shiftLeft_all u past]
    exact ((held_zero 0).mpr rfl).symm
  by_cases edge : count = widthBits width
  · have last : k + 1 = size width := some.symm.trans (count_eq_iff.mp edge)
    have carry : decide (held width u &&& 1#32 ≠ 0#32) = (u <<< k).msb := by
      calc
        decide (held width u &&& 1#32 ≠ 0#32) = bitAt (held width u) 0#32 := by simp [bitAt]
        _ = u.getLsbD 0 := held_bitAt u _
        _ = (u <<< k).msb := by rw [msb_shiftLeft u k (by omega)]; congr 1; omega
    rw [if_pos edge]
    exact ⟨value, carry.trans out.1.symm, carry.trans out.2.symm⟩
  · have beyond : size width ≤ k := by
      have := mt count_eq_iff.mpr edge
      omega
    have carry : false = (u <<< k).msb := by
      rw [shiftLeft_all u beyond]
      simp
    rw [if_neg edge]
    exact ⟨value, carry.trans out.1.symm, carry.trans out.2.symm⟩

theorem lsr_holds (u : BitVec (size width)) (count : BitVec 32) (x : Bool) :
    Holds width (lsr (held width u) count width x) (after .lsr u x count.toNat) := by
  rw [lsr]
  by_cases none : count = 0#32
  · rw [if_pos none, count_zero_iff.mp none]
    exact ⟨rfl, rfl, rfl⟩
  obtain ⟨k, some⟩ := Nat.exists_eq_succ_of_ne_zero (mt count_zero_iff.mpr none)
  have out := lsr_out (v := u) (x := x) k
  rw [if_neg none]
  by_cases part : count < widthBits width
  · have carry : bitAt (held width u) (count - 1#32) = u.getLsbD k := by
      rw [held_bitAt, toNat_pred some]
    rw [if_pos part, some]
    refine ⟨?_, carry.trans out.1.symm, carry.trans out.2.symm⟩
    rw [held_shiftRight, lsr_value, some]
  rw [if_neg part, some]
  have past : size width ≤ k + 1 := (le_count part).trans some.le
  have value : 0#32 = held width (after .lsr u x (k + 1)).value := by
    rw [lsr_value, ushiftRight_all u past]
    exact ((held_zero 0).mpr rfl).symm
  by_cases edge : count = widthBits width
  · have carry : bitAt (held width u) (widthBits width - 1#32) = u.getLsbD k := by
      rw [← edge, held_bitAt, toNat_pred some]
    rw [if_pos edge]
    exact ⟨value, carry.trans out.1.symm, carry.trans out.2.symm⟩
  · have beyond : size width ≤ k := by
      have := mt count_eq_iff.mpr edge
      omega
    have carry : false = u.getLsbD k := (BitVec.getLsbD_of_ge u k beyond).symm
    rw [if_neg edge]
    exact ⟨value, carry.trans out.1.symm, carry.trans out.2.symm⟩

theorem sshiftRight_all (v : BitVec n) (past : n ≤ k) :
    v.sshiftRight k = if v.msb then BitVec.allOnes n else 0 := by
  refine BitVec.eq_of_getLsbD_eq fun i inside => ?_
  rw [BitVec.getLsbD_sshiftRight, decide_eq_false (by omega), if_neg (by omega)]
  cases v.msb with
  | false => simp
  | true => simp [inside]

theorem held_sshiftRight (u : BitVec (size width)) (count : BitVec 32) :
    (if decide (held width u &&& sign width ≠ 0#32) then
      held width u >>> count ||| (mask width &&& ~~~(mask width >>> count))
    else held width u >>> count) = held width (u.sshiftRight count.toNat) := by
  rw [held_sign, held_shiftRight]
  refine held_eq_iff.mpr fun i inside => ?_
  rw [BitVec.getLsbD_sshiftRight]
  cases negative : u.msb with
  | false =>
      rw [if_neg Bool.false_ne_true, held_bit, BitVec.getLsbD_ushiftRight]
      by_cases low : count.toNat + i < size width
      · rw [decide_eq_false (by omega), if_pos low]
        rfl
      · rw [if_neg low, BitVec.getLsbD_of_ge u _ (Nat.le_of_not_lt low), Bool.and_false]
  | true =>
      rw [if_pos rfl, BitVec.getLsbD_or, held_bit, BitVec.getLsbD_ushiftRight, BitVec.getLsbD_and, mask_bit,
        BitVec.getLsbD_not, BitVec.ushiftRight_eq', BitVec.getLsbD_ushiftRight, mask_bit, decide_eq_true inside]
      by_cases low : count.toNat + i < size width
      · have above : i < size width := (Nat.le_add_left i _).trans_lt low
        simp [low, above]
      · rw [if_neg low, decide_eq_false low, BitVec.getLsbD_of_ge u _ (Nat.le_of_not_lt low)]
        by_cases high : i < size width
        · simp [high]
        · simp [high, Nat.le_of_not_lt high]

theorem asr_holds (u : BitVec (size width)) (count : BitVec 32) (x : Bool) :
    Holds width (asr (held width u) count width x) (after .asr u x count.toNat) := by
  rw [asr]
  by_cases none : count = 0#32
  · rw [if_pos none, count_zero_iff.mp none]
    exact ⟨rfl, rfl, rfl⟩
  obtain ⟨k, some⟩ := Nat.exists_eq_succ_of_ne_zero (mt count_zero_iff.mpr none)
  have out := asr_out (v := u) (x := x) k
  rw [if_neg none]
  by_cases part : count < widthBits width
  · have inside : count.toNat < size width := count_lt_iff.mp part
    have carry : bitAt (held width u) (count - 1#32) = (u.sshiftRight k).getLsbD 0 := by
      rw [held_bitAt, toNat_pred some, BitVec.getLsbD_sshiftRight, decide_eq_false (by omega),
        if_pos (by omega)]
      rfl
    rw [if_pos part]
    refine ⟨?_, ?_, ?_⟩
    · rw [asr_value]
      exact held_sshiftRight u count
    · rw [some]
      exact carry.trans out.1.symm
    · rw [some]
      exact carry.trans out.2.symm
  have past : size width ≤ k + 1 := (le_count part).trans some.le
  have value : (after .asr u x (k + 1)).value = if u.msb then BitVec.allOnes (size width) else 0 := by
    rw [asr_value, sshiftRight_all u past]
  have carry : (u.sshiftRight k).getLsbD 0 = u.msb := by
    rw [BitVec.getLsbD_sshiftRight, decide_eq_false (Nat.not_le_of_lt (size_pos width))]
    by_cases last : k + 0 < size width
    · have top : 0 + k = size width - 1 := by omega
      rw [if_pos last, BitVec.msb_eq_getLsbD_last, Nat.add_comm, top]
      rfl
    · rw [if_neg last]
      rfl
  rw [if_neg part, some, held_sign]
  cases negative : u.msb with
  | false =>
      rw [negative] at value carry
      rw [if_neg Bool.false_ne_true] at value ⊢
      exact ⟨value.symm ▸ ((held_zero 0).mpr rfl).symm, (out.1.trans carry).symm, (out.2.trans carry).symm⟩
  | true =>
      rw [negative] at value carry
      rw [if_pos rfl] at value ⊢
      refine ⟨?_, (out.1.trans carry).symm, (out.2.trans carry).symm⟩
      refine held_eq_iff.mpr fun i _ => ?_
      rw [value, mask_bit, BitVec.getLsbD_allOnes]

theorem asl_holds (u : BitVec (size width)) (count : BitVec 32) (x : Bool) :
    Holds width (asl (held width u) count width x) (after .asl u x count.toNat) := by
  have shifted := lsl_holds u count x
  rw [asl_after]
  have same : ∃ v, asl (held width u) count width x = { lsl (held width u) count width x with overflow := v } := by
    rw [asl, lsl]
    by_cases none : count = 0#32
    · rw [if_pos none, if_pos none]
      exact ⟨_, rfl⟩
    rw [if_neg none, if_neg none]
    by_cases part : count < widthBits width
    · rw [if_pos part, if_pos part]
      exact ⟨_, rfl⟩
    rw [if_neg part, if_neg part]
    by_cases edge : count = widthBits width
    · rw [if_pos edge, if_pos edge]
      exact ⟨_, rfl⟩
    · rw [if_neg edge, if_neg edge]
      exact ⟨_, rfl⟩
  obtain ⟨v, same⟩ := same
  rw [same]
  exact ⟨shifted.result, shifted.carry, shifted.extend⟩

/-! ## V of ASL -/

/-- A sequence that never changes up to `k` is constant there. -/
theorem alike_iff (t : ℕ → Bool) (k : ℕ) : (∀ j < k, t j = t (j + 1)) ↔ ∀ j ≤ k, t j = t 0 := by
  constructor
  · intro alike j
    induction j with
    | zero => exact fun _ => rfl
    | succ j ih => exact fun under => (alike j under).symm.trans (ih (Nat.le_of_succ_le under))
  · intro alike j under
    exact (alike j under.le).trans (alike (j + 1) under).symm

theorem changed_iff (t : ℕ → Bool) (k : ℕ) :
    (∃ j < k, t j ≠ t (j + 1)) ↔ ¬((∀ j ≤ k, t j = false) ∨ ∀ j ≤ k, t j = true) := by
  rw [← not_iff_not, not_not]
  push Not
  rw [alike_iff]
  constructor
  · intro alike
    cases first : t 0 with
    | false => exact Or.inl fun j under => (alike j under).trans first
    | true => exact Or.inr fun j under => (alike j under).trans first
  · rintro (all | all) j under
    · rw [all j under, all 0 (Nat.zero_le k)]
    · rw [all j under, all 0 (Nat.zero_le k)]

theorem region_bit (part : count.toNat < size width) (inside : i < 32) :
    (if widthBits width ≤ count + 1#32 then mask width
      else mask width &&& ~~~(mask width >>> (count + 1#32))).getLsbD i =
      decide (i < size width ∧ size width ≤ count.toNat + 1 + i) := by
  have small := size_le width
  have next : (count + 1#32).toNat = count.toNat + 1 := by
    rw [BitVec.toNat_add_of_lt]
    · rfl
    · exact (Nat.succ_le_of_lt part).trans_lt (by omega)
  by_cases whole : widthBits width ≤ count + 1#32
  · have reached : size width ≤ count.toNat + 1 := by
      rw [← next, ← toNat_widthBits]
      exact whole
    rw [if_pos whole, mask_bit, decide_eq_decide]
    exact ⟨fun low => ⟨low, reached.trans (Nat.le_add_right _ i)⟩, And.left⟩
  · rw [if_neg whole, BitVec.getLsbD_and, mask_bit, BitVec.getLsbD_not, BitVec.ushiftRight_eq',
      BitVec.getLsbD_ushiftRight, mask_bit, next, decide_eq_true inside, Bool.true_and, ← decide_not,
      ← Bool.decide_and, decide_eq_decide, Nat.not_lt]

theorem region_clear (u : BitVec (size width)) (part : k < size width) {m : BitVec 32}
    (bits : ∀ i < 32, m.getLsbD i = decide (i < size width ∧ size width ≤ k + 1 + i)) :
    held width u &&& m = 0#32 ↔ ∀ j ≤ k, (u <<< j).msb = false := by
  have small := size_le width
  constructor
  · intro clear j under
    have bit := congrArg (·.getLsbD (size width - 1 - j)) clear
    rw [BitVec.getLsbD_and, held_bit, bits _ (by omega), decide_eq_true (by omega), Bool.and_true] at bit
    rw [msb_shiftLeft u j (by omega), bit]
    simp
  · intro clear
    refine BitVec.eq_of_getLsbD_eq fun i inside => ?_
    rw [BitVec.getLsbD_and, held_bit, bits i inside]
    by_cases top : i < size width ∧ size width ≤ k + 1 + i
    · have bit := clear (size width - 1 - i) (by omega)
      rw [msb_shiftLeft u _ (by omega), show size width - 1 - (size width - 1 - i) = i by omega] at bit
      simp [bit]
    · simp [top]

theorem region_full (u : BitVec (size width)) (part : k < size width) {m : BitVec 32}
    (bits : ∀ i < 32, m.getLsbD i = decide (i < size width ∧ size width ≤ k + 1 + i)) :
    held width u &&& m = m ↔ ∀ j ≤ k, (u <<< j).msb = true := by
  have small := size_le width
  constructor
  · intro full j under
    have bit := congrArg (·.getLsbD (size width - 1 - j)) full
    rw [BitVec.getLsbD_and, held_bit, bits _ (by omega), decide_eq_true (by omega), Bool.and_true] at bit
    rw [msb_shiftLeft u j (by omega), bit]
  · intro full
    refine BitVec.eq_of_getLsbD_eq fun i inside => ?_
    rw [BitVec.getLsbD_and, held_bit, bits i inside]
    by_cases top : i < size width ∧ size width ≤ k + 1 + i
    · have bit := full (size width - 1 - i) (by omega)
      rw [msb_shiftLeft u _ (by omega), show size width - 1 - (size width - 1 - i) = i by omega] at bit
      rw [bit, Bool.true_and]
    · rw [decide_eq_false top, Bool.and_false]

theorem held_clear (u : BitVec (size width)) (past : size width ≤ k) :
    held width u = 0#32 ↔ (∀ j ≤ k, (u <<< j).msb = false) ∨ ∀ j ≤ k, (u <<< j).msb = true := by
  have gone : (u <<< size width).msb = false := by
    rw [shiftLeft_all u le_rfl]
    simp
  rw [held_zero]
  constructor
  · rintro rfl
    refine Or.inl fun j _ => ?_
    simp
  · rintro (clear | full)
    · refine BitVec.eq_of_getLsbD_eq fun i inside => ?_
      have bit := clear (size width - 1 - i) (by omega)
      rw [msb_shiftLeft u _ (by omega), show size width - 1 - (size width - 1 - i) = i by omega] at bit
      rw [bit]
      simp
    · exact absurd (gone.symm.trans (full (size width) past)) Bool.false_ne_true

theorem asl_overflow (u : BitVec (size width)) (count : BitVec 32) (x : Bool) :
    (asl (held width u) count width x).overflow = true ↔
      ∃ j < count.toNat, (u <<< j).msb ≠ (u <<< (j + 1)).msb := by
  rw [changed_iff fun j => (u <<< j).msb, asl]
  by_cases none : count = 0#32
  · rw [if_pos none, count_zero_iff.mp none]
    refine iff_of_false Bool.false_ne_true (not_not_intro ?_)
    cases first : (u <<< 0).msb with
    | false => exact Or.inl fun j under => Nat.le_zero.mp under ▸ first
    | true => exact Or.inr fun j under => Nat.le_zero.mp under ▸ first
  rw [if_neg none]
  by_cases part : count < widthBits width
  · have inside : count.toNat < size width := count_lt_iff.mp part
    have bits := fun i (low : i < 32) => region_bit (i := i) inside low
    rw [if_pos part]
    dsimp only
    rw [Bool.not_eq_true', Bool.or_eq_false_iff, decide_eq_false_iff_not, decide_eq_false_iff_not,
      region_clear u inside bits, region_full u inside bits, not_or]
  · have past := le_count part
    rw [if_neg part]
    by_cases edge : count = widthBits width
    · rw [if_pos edge, decide_eq_true_iff, ne_eq, held_clear u past]
    · rw [if_neg edge, decide_eq_true_iff, ne_eq, held_clear u past]

/-! ## Rotates -/

theorem rol_out (pos : 0 < n) (k : ℕ) :
    (after .rol v x (k + 1)).carry = (after .rol v x (k + 1)).value.getLsbD 0 := by
  have low := rol_bit (s := after .rol v x k) pos
  rw [after_succ]
  calc
    (after .rol v x k).value.msb = (after .rol v x k).value.getLsbD (n - 1) := BitVec.msb_eq_getLsbD_last _
    _ = (after .rol v x k).value.getLsbD ((0 + (n - 1)) % n) := by
        rw [Nat.zero_add, Nat.mod_eq_of_lt (Nat.sub_lt pos Nat.one_pos)]
    _ = (step .rol (after .rol v x k)).value.getLsbD 0 := low.symm

theorem ror_out (pos : 0 < n) (k : ℕ) :
    (after .ror v x (k + 1)).carry = (after .ror v x (k + 1)).value.msb := by
  have high := ror_bit (s := after .ror v x k) (Nat.sub_lt pos Nat.one_pos)
  rw [after_succ]
  calc
    (after .ror v x k).value.getLsbD 0 = (after .ror v x k).value.getLsbD ((n - 1 + 1) % n) := by
        rw [Nat.sub_add_cancel pos, Nat.mod_self]
    _ = (step .ror (after .ror v x k)).value.getLsbD (n - 1) := high.symm
    _ = (step .ror (after .ror v x k)).value.msb := (BitVec.msb_eq_getLsbD_last _).symm

theorem rotate_extend (kind : ShiftRotateKind) (turns : kind = .rol ∨ kind = .ror) (k : ℕ) :
    (after kind v x k).extend = x := by
  induction k with
  | zero => rfl
  | succ k ih =>
      rw [after_succ]
      rcases turns with rfl | rfl
      · exact ih
      · exact ih

theorem toNat_effective (count : BitVec 32) (width : MemoryAccessWidth) :
    (count &&& (widthBits width - 1#32)).toNat = count.toNat % size width := by
  cases width
  · exact Nat.and_two_pow_sub_one_eq_mod count.toNat 3
  · exact Nat.and_two_pow_sub_one_eq_mod count.toNat 4
  · exact Nat.and_two_pow_sub_one_eq_mod count.toNat 5

theorem rol_turned (k : ℕ) (inside : i < n) :
    (after .rol v x k).value.getLsbD i = v.getLsbD ((i + (n - k % n)) % n) := by
  rw [rol_value k inside, Turning.left_iterate n k _ inside, Turning.left_index inside]

theorem ror_turned (k : ℕ) (inside : i < n) :
    (after .ror v x k).value.getLsbD i = v.getLsbD ((i + k % n) % n) := by
  rw [ror_value k inside, Turning.right_iterate n k _ inside, Nat.add_mod_mod]

theorem masked_eq {word : BitVec 32} (same : ∀ i < size width, word.getLsbD i = u.getLsbD i) :
    word &&& mask width = held width u := by
  refine held_eq_iff.mpr fun i _ => ?_
  rw [BitVec.getLsbD_and, mask_bit]
  by_cases low : i < size width
  · rw [decide_eq_true low, Bool.and_true, same i low]
  · rw [decide_eq_false low, Bool.and_false, BitVec.getLsbD_of_ge u i (Nat.le_of_not_lt low)]

theorem held_low (u : BitVec (size width)) (i : ℕ) (past : size width ≤ i) : (held width u).getLsbD i = false := by
  rw [held_bit, BitVec.getLsbD_of_ge u i past]

variable {e : BitVec 32}

theorem toNat_rest (turns : e.toNat = k % size width) : (widthBits width - e).toNat = size width - e.toNat :=
  toNat_left_out (turns ▸ Nat.mod_lt k (size_pos width))

theorem rol_word (turns : e.toNat = k % size width) (some : e ≠ 0#32) :
    ((held width u <<< e) ||| (held width u >>> (widthBits width - e))) &&& mask width =
      held width (after .rol u x k).value := by
  have pos : 0 < e.toNat := Nat.pos_of_ne_zero (mt count_zero_iff.mpr some)
  have part : e.toNat < size width := turns ▸ Nat.mod_lt k (size_pos width)
  refine masked_eq fun i inside => ?_
  rw [BitVec.shiftLeft_eq', BitVec.ushiftRight_eq', toNat_rest turns,
    Turning.or_left_bit (held_low u) (size_le width) pos part inside, held_bit, rol_turned k inside, turns]

theorem ror_word (turns : e.toNat = k % size width) :
    ((held width u >>> e) ||| (held width u <<< (widthBits width - e))) &&& mask width =
      held width (after .ror u x k).value := by
  have part : e.toNat < size width := turns ▸ Nat.mod_lt k (size_pos width)
  refine masked_eq fun i inside => ?_
  rw [BitVec.shiftLeft_eq', BitVec.ushiftRight_eq', toNat_rest turns,
    Turning.or_right_bit (held_low u) (size_le width) part inside, held_bit, ror_turned k inside, turns]

theorem rol_whole (turns : 0 = k % n) : (after .rol v x k).value = v := by
  refine BitVec.eq_of_getLsbD_eq fun i inside => ?_
  rw [rol_turned k inside, ← turns, Nat.sub_zero, Nat.add_mod_right, Nat.mod_eq_of_lt inside]

theorem ror_whole (turns : 0 = k % n) : (after .ror v x k).value = v := by
  refine BitVec.eq_of_getLsbD_eq fun i inside => ?_
  rw [ror_turned k inside, ← turns, Nat.add_zero, Nat.mod_eq_of_lt inside]

theorem rol_holds (u : BitVec (size width)) (count : BitVec 32) (x : Bool) :
    rotate true (held width u) count width =
      (held width (after .rol u x count.toNat).value, (after .rol u x count.toNat).carry) := by
  have turns := toNat_effective count width
  rw [rotate]
  by_cases none : count = 0#32
  · rw [if_pos none, count_zero_iff.mp none]
    rfl
  obtain ⟨k, some⟩ := Nat.exists_eq_succ_of_ne_zero (mt count_zero_iff.mpr none)
  have word : (if count &&& (widthBits width - 1#32) = 0#32 then held width u
      else ((held width u <<< (count &&& (widthBits width - 1#32))) |||
        (held width u >>> (widthBits width - (count &&& (widthBits width - 1#32))))) &&& mask width) =
      held width (after .rol u x count.toNat).value := by
    by_cases whole : count &&& (widthBits width - 1#32) = 0#32
    · rw [if_pos whole, rol_whole ((count_zero_iff.mp whole).symm.trans turns)]
    · rw [if_neg whole, rol_word turns whole]
  have low : decide (held width (after .rol u x count.toNat).value &&& 1#32 ≠ 0#32) =
      (after .rol u x count.toNat).carry := by
    rw [show 1#32 = BitVec.twoPow 32 0 by decide, and_twoPow_ne_zero _ (by decide), held_bit, some,
      rol_out (size_pos width)]
  rw [if_neg none]
  dsimp only
  rw [if_pos rfl, if_pos rfl, word, low]

theorem ror_holds (u : BitVec (size width)) (count : BitVec 32) (x : Bool) :
    rotate false (held width u) count width =
      (held width (after .ror u x count.toNat).value, (after .ror u x count.toNat).carry) := by
  have turns := toNat_effective count width
  rw [rotate]
  by_cases none : count = 0#32
  · rw [if_pos none, count_zero_iff.mp none]
    rfl
  obtain ⟨k, some⟩ := Nat.exists_eq_succ_of_ne_zero (mt count_zero_iff.mpr none)
  have word : (if count &&& (widthBits width - 1#32) = 0#32 then held width u
      else ((held width u >>> (count &&& (widthBits width - 1#32))) |||
        (held width u <<< (widthBits width - (count &&& (widthBits width - 1#32))))) &&& mask width) =
      held width (after .ror u x count.toNat).value := by
    by_cases whole : count &&& (widthBits width - 1#32) = 0#32
    · rw [if_pos whole, ror_whole ((count_zero_iff.mp whole).symm.trans turns)]
    · rw [if_neg whole, ror_word turns]
  have high : decide (held width (after .ror u x count.toNat).value &&& sign width ≠ 0#32) =
      (after .ror u x count.toNat).carry := by
    rw [held_sign, some, ror_out (size_pos width)]
  rw [if_neg none]
  dsimp only
  rw [if_neg Bool.false_ne_true, if_neg Bool.false_ne_true, word, high]

/-! ## Rotates through X -/

/-- A 64-bit word holds the ring in its low end. -/
def Rings (width : MemoryAccessWidth) (word : BitVec 64) (s : Operand (size width)) : Prop :=
  ∀ i < size width + 1, word.getLsbD i = s.ring i

theorem toNat_ringBits (width : MemoryAccessWidth) : (widthBits width + 1#32).toNat = size width + 1 := by
  cases width <;> rfl

theorem ringMask_bit (width : MemoryAccessWidth) (inside : i < size width + 1) :
    ((1#64 <<< (widthBits width + 1#32)) - 1#64).getLsbD i = true := by
  have small := size_le width
  have ones : (1#64 <<< (widthBits width + 1#32)) - 1#64 = (BitVec.allOnes (size width + 1)).setWidth 64 := by
    cases width <;> decide
  rw [ones, BitVec.getLsbD_setWidth, BitVec.getLsbD_allOnes, decide_eq_true inside, decide_eq_true (by omega)]
  rfl

theorem flag_bit (x : Bool) (i : ℕ) : ((flag x 1#32).setWidth 64).getLsbD i = (decide (i = 0) && x) := by
  cases x with
  | false => simp [flag]
  | true =>
      by_cases first : i = 0
      · subst first
        rfl
      · simp [flag, first]

theorem ring_bit (u : BitVec (size width)) (x : Bool) (i : ℕ) :
    (((flag x 1#32).setWidth 64 <<< widthBits width) ||| (held width u).setWidth 64).getLsbD i =
      if i < size width then u.getLsbD i else (decide (i = size width) && x) := by
  have small := size_le width
  rw [BitVec.getLsbD_or, BitVec.shiftLeft_eq', BitVec.getLsbD_shiftLeft, flag_bit, BitVec.getLsbD_setWidth,
    held_bit, toNat_widthBits]
  by_cases low : i < size width
  · rw [if_pos low, decide_eq_true low, decide_eq_true (show i < 64 by omega)]
    simp
  · rw [if_neg low, decide_eq_false low, BitVec.getLsbD_of_ge u i (Nat.le_of_not_lt low)]
    by_cases top : i = size width
    · subst top
      simp [show size width < 64 by omega]
    · simp [top, show i - size width ≠ 0 by omega]

theorem toNat_ring_effective (count : BitVec 32) (width : MemoryAccessWidth) :
    (count % (widthBits width + 1#32)).toNat = count.toNat % (size width + 1) := by
  rw [BitVec.toNat_umod, toNat_ringBits]

theorem toNat_ring_rest (turns : e.toNat = k % (size width + 1)) :
    (widthBits width + 1#32 - e).toNat = size width + 1 - e.toNat := by
  have under : e ≤ widthBits width + 1#32 := by
    rw [BitVec.le_def, toNat_ringBits, turns]
    exact (Nat.mod_lt k (Nat.succ_pos _)).le
  rw [BitVec.toNat_sub_of_le under, toNat_ringBits]

variable {word : BitVec 64}

theorem roxl_word (low : ∀ i, size width + 1 ≤ i → word.getLsbD i = false)
    (rings : Rings width word (start .roxl u x)) (turns : e.toNat = k % (size width + 1)) (some : e ≠ 0#32) :
    Rings width (((word <<< e) ||| (word >>> (widthBits width + 1#32 - e))) &&&
      ((1#64 <<< (widthBits width + 1#32)) - 1#64)) (after .roxl u x k) := by
  have pos : 0 < e.toNat := Nat.pos_of_ne_zero (mt count_zero_iff.mpr some)
  have part : e.toNat < size width + 1 := turns ▸ Nat.mod_lt k (Nat.succ_pos _)
  have wide : size width + 1 ≤ 64 := (Nat.succ_le_succ (size_le width)).trans (by decide)
  intro i inside
  rw [BitVec.getLsbD_and, ringMask_bit width inside, Bool.and_true, BitVec.shiftLeft_eq',
    BitVec.ushiftRight_eq', toNat_ring_rest turns, Turning.or_left_bit low wide pos part inside,
    rings _ (Nat.mod_lt _ (Nat.succ_pos _)), roxl_after (size_pos width) k inside,
    Turning.left_iterate _ _ _ inside, Turning.left_index inside, turns]

theorem roxr_word (low : ∀ i, size width + 1 ≤ i → word.getLsbD i = false)
    (rings : Rings width word (start .roxr u x)) (turns : e.toNat = k % (size width + 1)) :
    Rings width (((word >>> e) ||| (word <<< (widthBits width + 1#32 - e))) &&&
      ((1#64 <<< (widthBits width + 1#32)) - 1#64)) (after .roxr u x k) := by
  have part : e.toNat < size width + 1 := turns ▸ Nat.mod_lt k (Nat.succ_pos _)
  have wide : size width + 1 ≤ 64 := (Nat.succ_le_succ (size_le width)).trans (by decide)
  intro i inside
  rw [BitVec.getLsbD_and, ringMask_bit width inside, Bool.and_true, BitVec.shiftLeft_eq',
    BitVec.ushiftRight_eq', toNat_ring_rest turns, Turning.or_right_bit low wide part inside,
    rings _ (Nat.mod_lt _ (Nat.succ_pos _)), roxr_after (size_pos width) k inside,
    Turning.right_iterate _ _ _ inside, turns, Nat.add_mod_mod]

theorem roxl_ring_whole (rings : Rings width word (start .roxl u x)) (turns : 0 = k % (size width + 1)) :
    Rings width word (after .roxl u x k) := by
  intro i inside
  rw [rings i inside, roxl_after (size_pos width) k inside, Turning.left_iterate _ _ _ inside,
    Turning.left_index inside, ← turns, Nat.sub_zero, Nat.add_mod_right, Nat.mod_eq_of_lt inside]

theorem roxr_ring_whole (rings : Rings width word (start .roxr u x)) (turns : 0 = k % (size width + 1)) :
    Rings width word (after .roxr u x k) := by
  intro i inside
  rw [rings i inside, roxr_after (size_pos width) k inside, Turning.right_iterate _ _ _ inside,
    ← Nat.add_mod_mod, ← turns, Nat.add_zero, Nat.mod_eq_of_lt inside]

theorem rox_carry (kind : ShiftRotateKind) (through : kind = .roxl ∨ kind = .roxr) (k : ℕ) :
    (after kind v x k).carry = (after kind v x k).extend := by
  cases k with
  | zero => rcases through with rfl | rfl <;> rfl
  | succ k =>
      rw [after_succ]
      rcases through with rfl | rfl <;> rfl

theorem ring_value (inside : i < n) : s.ring i = s.value.getLsbD i := if_pos inside

theorem ring_extend (s : Operand n) : s.ring n = s.extend := if_neg (Nat.lt_irrefl n)

theorem rings_result {t : Operand (size width)} (rings : Rings width word t) :
    (word &&& (mask width).setWidth 64).setWidth 32 = held width t.value := by
  refine held_eq_iff.mpr fun i inside => ?_
  rw [BitVec.getLsbD_setWidth, BitVec.getLsbD_and, BitVec.getLsbD_setWidth, mask_bit, decide_eq_true inside,
    decide_eq_true (show i < 64 by omega)]
  by_cases low : i < size width
  · rw [rings i (Nat.lt_succ_of_lt low), ring_value low, decide_eq_true low]
    simp
  · rw [decide_eq_false low, BitVec.getLsbD_of_ge _ i (Nat.le_of_not_lt low)]
    simp

theorem rings_extend {t : Operand (size width)} (rings : Rings width word t) :
    decide ((word >>> widthBits width) &&& 1#64 ≠ 0#64) = t.extend := by
  rw [show 1#64 = BitVec.twoPow 64 0 by decide, and_twoPow_ne_zero _ (by decide), BitVec.ushiftRight_eq',
    BitVec.getLsbD_ushiftRight, toNat_widthBits, Nat.add_zero, rings _ (Nat.lt_succ_self _), ring_extend]

theorem rotateExtended_holds (leftward : Bool) (u : BitVec (size width)) (count : BitVec 32) (x : Bool) :
    Holds width (rotateExtended leftward (held width u) count width x)
      (after (if leftward then .roxl else .roxr) u x count.toNat) := by
  have turns := toNat_ring_effective count width
  have ring : ∀ kind : ShiftRotateKind,
      Rings width (((flag x 1#32).setWidth 64 <<< widthBits width) ||| (held width u).setWidth 64) (start kind u x) := by
    intro kind i inside
    rw [ring_bit, Operand.ring]
    by_cases low : i < size width
    · rw [if_pos low, if_pos low]
      rfl
    · rw [if_neg low, if_neg low, decide_eq_true (by omega), Bool.true_and]
      rfl
  have low : ∀ i, size width + 1 ≤ i →
      (((flag x 1#32).setWidth 64 <<< widthBits width) ||| (held width u).setWidth 64).getLsbD i = false := by
    intro i past
    rw [ring_bit, if_neg (by omega), decide_eq_false (by omega), Bool.false_and]
  rw [rotateExtended]
  cases leftward with
  | true =>
      have carry := rox_carry (v := u) (x := x) .roxl (Or.inl rfl) count.toNat
      rw [if_pos rfl, if_pos rfl]
      by_cases whole : count % (widthBits width + 1#32) = 0#32
      · have rings := roxl_ring_whole (ring .roxl) ((count_zero_iff.mp whole).symm.trans turns)
        rw [if_pos whole]
        exact ⟨rings_result rings, (rings_extend rings).trans carry.symm, rings_extend rings⟩
      · have rings := roxl_word low (ring .roxl) turns whole
        rw [if_neg whole]
        exact ⟨rings_result rings, (rings_extend rings).trans carry.symm, rings_extend rings⟩
  | false =>
      have carry := rox_carry (v := u) (x := x) .roxr (Or.inr rfl) count.toNat
      rw [if_neg Bool.false_ne_true, if_neg Bool.false_ne_true]
      by_cases whole : count % (widthBits width + 1#32) = 0#32
      · have rings := roxr_ring_whole (ring .roxr) ((count_zero_iff.mp whole).symm.trans turns)
        rw [if_pos whole]
        exact ⟨rings_result rings, (rings_extend rings).trans carry.symm, rings_extend rings⟩
      · have rings := roxr_word low (ring .roxr) turns
        rw [if_neg whole]
        exact ⟨rings_result rings, (rings_extend rings).trans carry.symm, rings_extend rings⟩

/-! ## The specification -/

/-- What the specification returns says of the operand: the value, C, X, N and Z. A kind that does not
write X leaves it at the value before. -/
structure Shows (r : ShiftRotateResult) (width : MemoryAccessWidth) (before : Bool) (s : Operand (size width)) :
    Prop where
  result : r.result = s.value.setWidth 32
  carry : r.carry = s.carry
  extend : (if r.extendWritten then r.extendValue else before) = s.extend
  negative : r.negative = s.value.msb
  zero : r.zero = decide (s.value = 0)

theorem shows_of_holds {d : Shifted} {t : Operand (size width)} (h : Holds width d t) :
    Shows (finish width d) width x t where
  result := h.result
  carry := h.carry
  extend := h.extend
  negative := by rw [finish, h.result, held_sign]
  zero := by rw [finish, h.result, decide_eq_decide, held_zero]

theorem shows_of_rotate {t : Operand (size width)} (same : t.extend = x) :
    Shows (finishRotate width (held width t.value, t.carry)) width x t where
  result := rfl
  carry := rfl
  extend := same.symm
  negative := held_sign t.value
  zero := decide_eq_decide.mpr (held_zero t.value)

theorem evaluate_shows (kind : ShiftRotateKind) (original count : BitVec 32) (width : MemoryAccessWidth) (x : Bool) :
    Shows (evaluate kind original count width x) width x
      (after kind (original.setWidth (size width)) x count.toNat) := by
  rw [evaluate.eq_def, source_eq]
  cases kind with
  | lsl => exact shows_of_holds (lsl_holds _ count x)
  | lsr => exact shows_of_holds (lsr_holds _ count x)
  | asr => exact shows_of_holds (asr_holds _ count x)
  | asl => exact shows_of_holds (asl_holds _ count x)
  | rol =>
      dsimp only
      rw [rol_holds _ count x]
      exact shows_of_rotate (rotate_extend .rol (Or.inl rfl) _)
  | ror =>
      dsimp only
      rw [ror_holds _ count x]
      exact shows_of_rotate (rotate_extend .ror (Or.inr rfl) _)
  | roxl => exact shows_of_holds (rotateExtended_holds true _ count x)
  | roxr => exact shows_of_holds (rotateExtended_holds false _ count x)

theorem evaluate_overflow (kind : ShiftRotateKind) (original count : BitVec 32) (width : MemoryAccessWidth)
    (x : Bool) :
    (evaluate kind original count width x).overflow = true ↔
      kind = .asl ∧ ∃ j < count.toNat,
        (after kind (original.setWidth (size width)) x j).value.msb ≠
          (after kind (original.setWidth (size width)) x (j + 1)).value.msb := by
  cases kind with
  | asl =>
      have value : evaluate .asl original count width x =
          finish width (asl (original &&& mask width) count width x) := rfl
      rw [value, source_eq]
      simp only [asl_after, lsl_value, true_and]
      exact asl_overflow _ count x
  | _ => simp [evaluate, finish, finishRotate, lsl, lsr, asr, rotateExtended, apply_ite Shifted.overflow]

theorem evaluate_eq_steps (kind : ShiftRotateKind) (original count : BitVec 32) (width : MemoryAccessWidth)
    (x : Bool) :
    Shows (evaluate kind original count width x) width x
        (after kind (original.setWidth (size width)) x count.toNat) ∧
      ((evaluate kind original count width x).overflow = true ↔
        kind = .asl ∧ ∃ j < count.toNat,
          (after kind (original.setWidth (size width)) x j).value.msb ≠
            (after kind (original.setWidth (size width)) x (j + 1)).value.msb) ∧
      Shows (evaluate kind original 0#32 width x) width x
        { value := original.setWidth (size width), extend := x,
          carry := x && (kind = .roxl || kind = .roxr) } := by
  refine ⟨evaluate_shows kind original count width x, evaluate_overflow kind original count width x, ?_⟩
  have shown := evaluate_shows kind original 0#32 width x
  have none : after kind (original.setWidth (size width)) x 0 =
      { value := original.setWidth (size width), extend := x, carry := x && (kind = .roxl || kind = .roxr) } := by
    cases kind <;> simp [after, start]
  exact none ▸ shown

end Segarecomp.M68k.ShiftRotateSteps

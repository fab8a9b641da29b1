import Segarecomp.Lib.BitTests
import Segarecomp.Lib.CarryChain
import Segarecomp.M68k.EffectsAgree

/-! Multi-precision chains of the extended and the packed decimal instructions. -/

namespace Segarecomp.M68k.Effects

open Lib Lib.BitTests

def extendSet (statusRegister : BitVec 16) : Bool := decide (statusRegister &&& 0x0010#16 ≠ 0#16)
def zeroSet (statusRegister : BitVec 16) : Bool := decide (statusRegister &&& 0x0004#16 ≠ 0#16)
def carrySet (statusRegister : BitVec 16) : Bool := decide (statusRegister &&& 0x0001#16 ≠ 0#16)

/-- One limb of each operand. -/
structure Limb where
  source : BitVec 32
  destination : BitVec 32
  deriving DecidableEq, Repr

inductive ExtendedInstruction
  | addx | subx | negx
  deriving DecidableEq, Repr

namespace ExtendedArithmetic

def bits : MemoryAccessWidth → ℕ
  | .byte => 8
  | .word => 16
  | .longWord => 32

/-- The result of the instruction on a limb and the status register after it. NEGX subtracts its operand
from zero. -/
def step (instruction : ExtendedInstruction) (width : MemoryAccessWidth) (statusRegister : BitVec 16)
    (limb : Limb) : BitVec 32 × BitVec 16 :=
  let x := extendSet statusRegister
  match instruction with
  | .addx =>
    ((evaluate .add limb.source limb.destination x width).result,
      apply statusRegister .add limb.source limb.destination width)
  | .subx =>
    ((evaluate .subtract limb.source limb.destination x width).result,
      apply statusRegister .subtract limb.source limb.destination width)
  | .negx =>
    ((evaluate .subtract limb.destination 0#32 x width).result,
      apply statusRegister .subtract limb.destination 0#32 width)

/-- The part of a register an operand of this width is. -/
def limbValue (width : MemoryAccessWidth) (x : BitVec 32) : ℕ := x.toNat % 2 ^ bits width

end ExtendedArithmetic

/-! ## The status register -/

theorem test_bit {w : ℕ} (x : BitVec w) (i : ℕ) :
    decide (x &&& BitVec.twoPow w i ≠ 0#w) = (decide (i < w) && x.getLsbD i) := by
  by_cases inside : i < w
  · rw [and_twoPow_ne_zero x inside, decide_eq_true inside, Bool.true_and]
  · have clear : x.getLsbD i = false := BitVec.getLsbD_of_ge x i (Nat.le_of_not_lt inside)
    rw [BitVec.and_twoPow]
    simp [clear]

theorem extendSet_eq (status : BitVec 16) : extendSet status = status.getLsbD 4 := test_bit status 4
theorem zeroSet_eq (status : BitVec 16) : zeroSet status = status.getLsbD 2 := test_bit status 2
theorem carrySet_eq (status : BitVec 16) : carrySet status = status.getLsbD 0 := test_bit status 0

/-- The condition codes as both families assemble them. -/
def conditionCodes (status : BitVec 16) (carry negative zero overflow : Bool) : BitVec 16 :=
  (status &&& 0xFFE0#16) ||| flag carry 0x0011#16 ||| flag negative 0x0008#16 ||| flag zero 0x0004#16 |||
    flag overflow 0x0002#16

section Codes

variable (status : BitVec 16) (carry negative zero overflow : Bool)

theorem extendSet_codes : extendSet (conditionCodes status carry negative zero overflow) = carry := by
  rw [extendSet_eq]
  cases carry <;> cases negative <;> cases zero <;> cases overflow <;> simp [conditionCodes]

theorem carrySet_codes : carrySet (conditionCodes status carry negative zero overflow) = carry := by
  rw [carrySet_eq]
  cases carry <;> cases negative <;> cases zero <;> cases overflow <;> simp [conditionCodes]

theorem zeroSet_codes : zeroSet (conditionCodes status carry negative zero overflow) = zero := by
  rw [zeroSet_eq]
  cases carry <;> cases negative <;> cases zero <;> cases overflow <;> simp [conditionCodes]

end Codes

/-! ## One binary limb -/

namespace ExtendedArithmetic

variable (width : MemoryAccessWidth)

theorem toNat_mask (x : BitVec 32) : (x &&& mask width).toNat = limbValue width x := by
  cases width
  case byte => exact (BitVec.toNat_and ..).trans (Nat.and_two_pow_sub_one_eq_mod x.toNat 8)
  case word => exact (BitVec.toNat_and ..).trans (Nat.and_two_pow_sub_one_eq_mod x.toNat 16)
  case longWord => exact (BitVec.toNat_and ..).trans (Nat.and_two_pow_sub_one_eq_mod x.toNat 32)

theorem sign_test (x : BitVec 32) : decide (x &&& sign width ≠ 0#32) = x.getLsbD (bits width - 1) := by
  cases width
  case byte => exact test_bit x 7
  case word => exact test_bit x 15
  case longWord => exact test_bit x 31

/-- The top bit of a limb tells whether it is in the upper half. -/
theorem top_bit (x : BitVec 32) :
    (x &&& mask width).getLsbD (bits width - 1) = decide (2 ^ (bits width - 1) ≤ limbValue width x) := by
  rw [BitVec.getLsbD, toNat_mask, Nat.testBit_eq_decide_div_mod_eq, decide_eq_decide]
  unfold limbValue
  cases width <;> simp only [bits] <;> omega

theorem limbValue_lt (x : BitVec 32) : limbValue width x < 2 ^ bits width := Nat.mod_lt _ (Nat.two_pow_pos _)

theorem bits_inside : bits width - 1 < 32 := by
  cases width <;> decide

theorem limbValue_add (s d : BitVec 32) (extend : Bool) :
    limbValue width ((d &&& mask width) + (s &&& mask width) + flag extend 1#32) =
      (limbValue width d + limbValue width s + extend.toNat) % 2 ^ bits width := by
  have carried : (flag extend 1#32).toNat = extend.toNat := by cases extend <;> rfl
  rw [limbValue, BitVec.toNat_add, BitVec.toNat_add, toNat_mask, toNat_mask, carried]
  cases width <;> simp only [bits] <;> omega

theorem limbValue_sub (s d : BitVec 32) (extend : Bool) :
    limbValue width ((d &&& mask width) - (s &&& mask width) - flag extend 1#32) =
      (limbValue width d + 2 ^ bits width - limbValue width s + 2 ^ bits width - extend.toNat) % 2 ^ bits width := by
  have carried : (flag extend 1#32).toNat = extend.toNat := by cases extend <;> rfl
  have bit : extend.toNat ≤ 1 := Bool.toNat_le extend
  have small := limbValue_lt width s
  rw [limbValue, BitVec.toNat_sub, BitVec.toNat_sub, toNat_mask, toNat_mask, carried]
  cases width <;> simp only [bits] at small ⊢ <;> omega

/-- The carry formula of the source at the top bits of the limbs. -/
theorem carry_add (a b r : BitVec 32) :
    decide (((a &&& b) ||| (~~~r &&& b) ||| (a &&& ~~~r)) &&& sign width ≠ 0#32) =
      (a.getLsbD (bits width - 1) && b.getLsbD (bits width - 1) ||
        !r.getLsbD (bits width - 1) && b.getLsbD (bits width - 1) ||
        a.getLsbD (bits width - 1) && !r.getLsbD (bits width - 1)) := by
  rw [sign_test]
  simp [bits_inside width]

theorem carry_subtract (a b r : BitVec 32) :
    decide (((a &&& ~~~b) ||| (r &&& ~~~b) ||| (a &&& r)) &&& sign width ≠ 0#32) =
      (a.getLsbD (bits width - 1) && !b.getLsbD (bits width - 1) ||
        r.getLsbD (bits width - 1) && !b.getLsbD (bits width - 1) ||
        a.getLsbD (bits width - 1) && r.getLsbD (bits width - 1)) := by
  rw [sign_test]
  simp [bits_inside width]

theorem add_halves {half a b r c : ℕ} (ha : a < 2 * half) (hb : b < 2 * half) (hc : c ≤ 1)
    (sum : r = (a + b + c) % (2 * half)) :
    r + 2 * half * (decide (half ≤ a) && decide (half ≤ b) || !decide (half ≤ r) && decide (half ≤ b) ||
      decide (half ≤ a) && !decide (half ≤ r)).toNat = a + b + c := by
  rcases Nat.lt_or_ge (a + b + c) (2 * half) with inside | carried
  · have same : r = a + b + c := sum.trans (Nat.mod_eq_of_lt inside)
    have clear : (decide (half ≤ a) && decide (half ≤ b) || !decide (half ≤ r) && decide (half ≤ b) ||
        decide (half ≤ a) && !decide (half ≤ r)) = false := by
      simp only [Bool.or_eq_false_iff, Bool.and_eq_false_iff, decide_eq_false_iff_not, Bool.not_eq_false',
        decide_eq_true_eq]
      omega
    rw [clear, same]
    rfl
  · have rest : r + 2 * half = a + b + c := by
      rw [sum, Nat.mod_eq_sub_mod carried, Nat.mod_eq_of_lt (by omega)]
      omega
    have set : (decide (half ≤ a) && decide (half ≤ b) || !decide (half ≤ r) && decide (half ≤ b) ||
        decide (half ≤ a) && !decide (half ≤ r)) = true := by
      simp only [Bool.or_eq_true, Bool.and_eq_true, decide_eq_true_eq, Bool.not_eq_true', decide_eq_false_iff_not]
      omega
    rw [set, Bool.toNat_true, Nat.mul_one]
    exact rest

theorem subtract_halves {half a b r c : ℕ} (ha : a < 2 * half) (hb : b < 2 * half) (hc : c ≤ 1)
    (difference : r = (b + 2 * half - a + 2 * half - c) % (2 * half)) :
    r + a + c = b + 2 * half * (decide (half ≤ a) && !decide (half ≤ b) || decide (half ≤ r) && !decide (half ≤ b) ||
      decide (half ≤ a) && decide (half ≤ r)).toNat := by
  rcases Nat.lt_or_ge b (a + c) with borrowed | inside
  · have rest : r + a + c = b + 2 * half := by
      have shifted : b + 2 * half - a + 2 * half - c = (b + 2 * half - a - c) + 2 * half := by omega
      rw [difference, shifted, Nat.add_mod_right, Nat.mod_eq_of_lt (by omega)]
      omega
    have set : (decide (half ≤ a) && !decide (half ≤ b) || decide (half ≤ r) && !decide (half ≤ b) ||
        decide (half ≤ a) && decide (half ≤ r)) = true := by
      simp only [Bool.or_eq_true, Bool.and_eq_true, decide_eq_true_eq, Bool.not_eq_true', decide_eq_false_iff_not]
      omega
    rw [set, Bool.toNat_true, Nat.mul_one]
    exact rest
  · have same : r + a + c = b := by
      have shifted : b + 2 * half - a + 2 * half - c = (b - a - c) + 2 * half + 2 * half := by omega
      rw [difference, shifted, Nat.add_mod_right, Nat.add_mod_right, Nat.mod_eq_of_lt (by omega)]
      omega
    have clear : (decide (half ≤ a) && !decide (half ≤ b) || decide (half ≤ r) && !decide (half ≤ b) ||
        decide (half ≤ a) && decide (half ≤ r)) = false := by
      simp only [Bool.or_eq_false_iff, Bool.and_eq_false_iff, decide_eq_false_iff_not, Bool.not_eq_false',
        decide_eq_true_eq]
      omega
    rw [clear, same]
    rfl

theorem two_halves : 2 ^ bits width = 2 * 2 ^ (bits width - 1) := by
  cases width <;> rfl

/-- ADDX: the carry formula is the carry out of the limb. -/
theorem evaluate_add (s d : BitVec 32) (extend : Bool) :
    (evaluate .add s d extend width).result.toNat + 2 ^ bits width * (evaluate .add s d extend width).carry.toNat =
      limbValue width s + limbValue width d + extend.toNat := by
  have sum := limbValue_add width s d extend
  have hs := limbValue_lt width s
  have hd := limbValue_lt width d
  simp only [evaluate, carry_add, top_bit, toNat_mask]
  rw [two_halves] at hs hd sum ⊢
  exact add_halves hs hd (Bool.toNat_le extend) (by rw [sum, Nat.add_comm (limbValue width d)])

theorem evaluate_subtract (s d : BitVec 32) (extend : Bool) :
    (evaluate .subtract s d extend width).result.toNat + limbValue width s + extend.toNat =
      limbValue width d + 2 ^ bits width * (evaluate .subtract s d extend width).carry.toNat := by
  have difference := limbValue_sub width s d extend
  have hs := limbValue_lt width s
  have hd := limbValue_lt width d
  simp only [evaluate, carry_subtract, top_bit, toNat_mask]
  rw [two_halves] at hs hd difference ⊢
  exact subtract_halves hs hd (Bool.toNat_le extend) difference

/-- What an instruction computes on whole numbers. -/
def operation : ExtendedInstruction → CarryChain.Operation
  | .addx => .sum
  | .subx => .difference
  | .negx => .complement

theorem extendSet_apply (status : BitVec 16) (kind : ExtendedArithmeticKind) (s d : BitVec 32) :
    extendSet (apply status kind s d width) = (evaluate kind s d (extendSet status) width).carry :=
  extendSet_codes ..

theorem carrySet_apply (status : BitVec 16) (kind : ExtendedArithmeticKind) (s d : BitVec 32) :
    carrySet (apply status kind s d width) = (evaluate kind s d (extendSet status) width).carry :=
  carrySet_codes ..

theorem zeroSet_apply (status : BitVec 16) (kind : ExtendedArithmeticKind) (s d : BitVec 32) :
    zeroSet (apply status kind s d width) =
      (decide ((evaluate kind s d (extendSet status) width).result.toNat = 0) && zeroSet status) := by
  have zero : (evaluate kind s d (extendSet status) width).result.toNat = 0 ↔
      (evaluate kind s d (extendSet status) width).result = 0#32 := by
    rw [BitVec.toNat_eq]
    rfl
  rw [decide_eq_decide.mpr zero]
  exact zeroSet_codes ..

theorem step_exact (instruction : ExtendedInstruction) (limb : Limb) (status : BitVec 16) :
    (operation instruction).Exact (2 ^ bits width) (limbValue width limb.source)
      (limbValue width limb.destination) (extendSet status) (step instruction width status limb).1.toNat
      (extendSet (step instruction width status limb).2) := by
  cases instruction with
  | addx =>
      change _ + _ * (extendSet (apply status .add _ _ width)).toNat = _
      rw [extendSet_apply]
      exact evaluate_add width limb.source limb.destination (extendSet status)
  | subx =>
      change _ = _ + _ * (extendSet (apply status .subtract _ _ width)).toNat
      rw [extendSet_apply]
      exact evaluate_subtract width limb.source limb.destination (extendSet status)
  | negx =>
      have zero : limbValue width 0#32 = 0 := Nat.zero_mod _
      have difference := evaluate_subtract width limb.destination 0#32 (extendSet status)
      rw [zero, Nat.zero_add] at difference
      change _ = _ * (extendSet (apply status .subtract _ _ width)).toNat
      rw [extendSet_apply]
      exact difference

theorem step_carry (instruction : ExtendedInstruction) (status : BitVec 16) (limb : Limb) :
    carrySet (step instruction width status limb).2 = extendSet (step instruction width status limb).2 := by
  cases instruction <;> exact (carrySet_apply ..).trans (extendSet_apply ..).symm

theorem step_zero (instruction : ExtendedInstruction) (status : BitVec 16) (limb : Limb) :
    zeroSet (step instruction width status limb).2 =
      (decide ((step instruction width status limb).1.toNat = 0) && zeroSet status) := by
  cases instruction <;> exact zeroSet_apply ..

theorem step_lt (instruction : ExtendedInstruction) (status : BitVec 16) (limb : Limb) :
    (step instruction width status limb).1.toNat < 2 ^ bits width := by
  have masked : ∀ x : BitVec 32, (x &&& mask width).toNat < 2 ^ bits width := by
    intro x
    rw [toNat_mask]
    exact limbValue_lt width x
  cases instruction <;> exact masked _

end ExtendedArithmetic

/-! ## One decimal limb -/

namespace DecimalArithmetic

/-- Both digits of a byte are decimal. -/
def Packed (x : ℕ) : Prop := x % 16 ≤ 9 ∧ x / 16 % 16 ≤ 9

/-- The number of a byte of two digits. -/
def packedValue (x : ℕ) : ℕ := x / 16 % 16 * 10 + x % 16

/-- The result of the instruction on a limb and the status register after it. -/
def step (kind : DecimalArithmeticKind) (statusRegister : BitVec 16) (limb : Limb) : BitVec 8 × BitVec 16 :=
  ((evaluate kind limb.source limb.destination (extendSet statusRegister)).result,
    apply statusRegister kind limb.source limb.destination)

def operation : DecimalArithmeticKind → CarryChain.Operation
  | .add => .sum
  | .subtract => .difference
  | .negate => .complement

theorem low_nibble (x : BitVec 32) : (x &&& 0xFF#32 &&& 0x0F#32).toNat = x.toNat % 16 := by
  have masks : x &&& 0xFF#32 &&& 0x0F#32 = x &&& 0x0F#32 := by
    rw [BitVec.and_assoc]
    rfl
  rw [masks]
  exact (BitVec.toNat_and ..).trans (Nat.and_two_pow_sub_one_eq_mod x.toNat 4)

theorem high_part (x : BitVec 32) : (x &&& 0xF0#32).toNat = x.toNat / 16 % 16 * 16 := by
  have high : (x.toNat &&& 0xF0) / 2 ^ 4 = x.toNat / 16 % 16 := by
    rw [Nat.and_div_two_pow]
    exact Nat.and_two_pow_sub_one_eq_mod _ 4
  have low : (x.toNat &&& 0xF0) % 2 ^ 4 = 0 := by
    rw [Nat.and_mod_two_pow]
    exact Nat.and_zero _
  rw [BitVec.toNat_and]
  change x.toNat &&& 0xF0 = _
  omega

theorem high_nibble (x : BitVec 32) : (x &&& 0xFF#32 &&& 0xF0#32).toNat = x.toNat / 16 % 16 * 16 := by
  have masks : x &&& 0xFF#32 &&& 0xF0#32 = x &&& 0xF0#32 := by
    rw [BitVec.and_assoc]
    rfl
  rw [masks, high_part]

theorem low_byte (x : BitVec 32) : (x &&& 0xFF#32).toNat = x.toNat % 256 :=
  (BitVec.toNat_and ..).trans (Nat.and_two_pow_sub_one_eq_mod x.toNat 8)

theorem stored_byte (x : BitVec 32) : ((x &&& 0xFF#32).setWidth 8).toNat = x.toNat % 256 := by
  rw [BitVec.toNat_setWidth, low_byte]
  omega

theorem flag_toNat (extend : Bool) : (flag extend 1#32).toNat = extend.toNat := by
  cases extend <;> rfl

/-- The number a corrected byte is read as. -/
theorem packed_of_digits {r low high : ℕ} (hl : low ≤ 9) (hh : high ≤ 9) (digits : r = 16 * high + low) :
    Packed (r % 256) ∧ packedValue (r % 256) = 10 * high + low := by
  have ones : r % 256 % 16 = low := by omega
  have tens : r % 256 / 16 % 16 = high := by omega
  unfold Packed packedValue
  rw [ones, tens]
  omega

/-- A register that holds a number, negative ones wrapped. -/
def Holds (x : BitVec 32) (z : ℤ) : Prop := (x.toNat : ℤ) = z % 2 ^ 32

section Holds

variable {x y : BitVec 32} {z w : ℤ}

theorem Holds.nat {n : ℕ} (same : x.toNat = n) : Holds x n := by
  have small := x.isLt
  unfold Holds
  omega

theorem Holds.add (first : Holds x z) (second : Holds y w) : Holds (x + y) (z + w) := by
  unfold Holds at *
  rw [BitVec.toNat_add]
  omega

theorem Holds.sub (first : Holds x z) (second : Holds y w) : Holds (x - y) (z - w) := by
  have small := y.isLt
  unfold Holds at *
  rw [BitVec.toNat_sub]
  omega

/-- A wrapped negative number is above every bound. -/
theorem Holds.above (holds : Holds x z) (below : -2147483648 ≤ z) (above : z < 2147483648)
    (bound : BitVec 32) (small : bound.toNat < 2147483648) : bound < x ↔ z < 0 ∨ (bound.toNat : ℤ) < z := by
  unfold Holds at holds
  rw [BitVec.lt_def]
  omega

theorem Holds.byte (holds : Holds x z) (below : 0 ≤ z) (above : z < 256) : (x.toNat % 256 : ℕ) = z := by
  unfold Holds at holds
  omega

end Holds

theorem holds_low (x : BitVec 32) : Holds (x &&& 0xFF#32 &&& 0x0F#32) ((x.toNat % 16 : ℕ) : ℤ) := .nat (low_nibble x)

theorem holds_high (x : BitVec 32) : Holds (x &&& 0xFF#32 &&& 0xF0#32) ((x.toNat / 16 % 16 * 16 : ℕ) : ℤ) :=
  .nat (high_nibble x)

theorem holds_flag (extend : Bool) : Holds (flag extend 1#32) (extend.toNat : ℤ) := .nat (flag_toNat extend)

theorem holds_ofNat (n : ℕ) (small : n < 2 ^ 32) : Holds (BitVec.ofNat 32 n) (n : ℤ) :=
  .nat (by rw [BitVec.toNat_ofNat, Nat.mod_eq_of_lt small])

/-- The two corrections on numbers. `units` and `tens` are the combined digits, `sign` tells a sum from a
difference, and the corrections are due when a wrapped or a two-digit number is seen. -/
theorem corrected_digits {sign units tens : ℤ} {adjust : Prop} [Decidable adjust] {carry : Bool}
    (range : sign = 1 ∧ 0 ≤ units ∧ units ≤ 19 ∧ 0 ≤ tens ∧ tens ≤ 18 ∨
      sign = -1 ∧ -10 ≤ units ∧ units ≤ 9 ∧ -9 ≤ tens ∧ tens ≤ 9)
    (adjusted : adjust ↔ units < 0 ∨ 9 < units)
    (carried : carry = true ↔ units + sign * (if adjust then 6 else 0) + 16 * tens < 0 ∨
      0x99 < units + sign * (if adjust then 6 else 0) + 16 * tens) :
    ∃ low high : ℕ, low ≤ 9 ∧ high ≤ 9 ∧
      units + sign * (if adjust then 6 else 0) + 16 * tens - sign * (if carry then 0xA0 else 0) = 16 * high + low ∧
      10 * (high : ℤ) + low + sign * (100 * carry.toNat) = 10 * tens + units := by
  by_cases due : adjust <;> cases carry <;>
    simp only [due, Bool.false_eq_true, if_false, if_true, false_iff, true_iff, Bool.toNat_false, Bool.toNat_true]
      at adjusted carried ⊢
  case pos.false =>
    rcases range with ⟨rfl, range⟩ | ⟨rfl, range⟩
    · exact ⟨(units - 10).toNat, (tens + 1).toNat, by omega, by omega, by omega, by omega⟩
    · exact ⟨(units + 10).toNat, (tens - 1).toNat, by omega, by omega, by omega, by omega⟩
  case pos.true =>
    rcases range with ⟨rfl, range⟩ | ⟨rfl, range⟩
    · exact ⟨(units - 10).toNat, (tens + 1 - 10).toNat, by omega, by omega, by omega, by omega⟩
    · exact ⟨(units + 10).toNat, (tens - 1 + 10).toNat, by omega, by omega, by omega, by omega⟩
  case neg.false => exact ⟨units.toNat, tens.toNat, by omega, by omega, by omega, by omega⟩
  case neg.true =>
    rcases range with ⟨rfl, range⟩ | ⟨rfl, range⟩
    · exact ⟨units.toNat, (tens - 10).toNat, by omega, by omega, by omega, by omega⟩
    · exact ⟨units.toNat, (tens + 10).toNat, by omega, by omega, by omega, by omega⟩

/-- A sum adds the source, a difference takes it away. -/
def sign (add : Bool) : ℤ := if add then 1 else -1

theorem Holds.congr {x : BitVec 32} {z w : ℤ} (holds : Holds x z) (same : z = w) : Holds x w := same ▸ holds

theorem Holds.adjust {x : BitVec 32} {z : ℤ} (holds : Holds x z) (add : Bool) (due : Prop) [Decidable due] {n : ℕ}
    (small : n < 2 ^ 32) :
    Holds (if due then (if add then x + BitVec.ofNat 32 n else x - BitVec.ofNat 32 n) else x)
      (z + sign add * (if due then (n : ℤ) else 0)) := by
  have constant := holds_ofNat n small
  by_cases needed : due
  · simp only [needed, if_true]
    cases add with
    | true => exact (holds.add constant).congr (by simp [sign])
    | false => exact (holds.sub constant).congr (by simp [sign, sub_eq_add_neg])
  · simp only [needed, if_false]
    exact holds.congr (by ring)

theorem Holds.low_corrected {x : BitVec 32} {z : ℤ} (holds : Holds x z) (add : Bool) :
    Holds (if 9#32 < x then (if add then x + 6#32 else x - 6#32) else x)
      (z + sign add * (if 9#32 < x then ((6 : ℕ) : ℤ) else 0)) :=
  holds.adjust add (9#32 < x) (by decide)

/-- The combined low digits, with the carry. -/
def unitsOf (add : Bool) (s d : BitVec 32) (extend : Bool) : ℤ :=
  (d.toNat % 16 : ℕ) + sign add * ((s.toNat % 16 : ℕ) + extend.toNat)

/-- The combined high digits. -/
def tensOf (add : Bool) (s d : BitVec 32) : ℤ := (d.toNat / 16 % 16 : ℕ) + sign add * (s.toNat / 16 % 16 : ℕ)

section Pair

variable (add : Bool) (s d : BitVec 32) (extend : Bool)

theorem holds_units :
    Holds (if add then (s &&& 0xFF#32 &&& 0x0F#32) + (d &&& 0xFF#32 &&& 0x0F#32) + flag extend 1#32
      else (d &&& 0xFF#32 &&& 0x0F#32) - (s &&& 0xFF#32 &&& 0x0F#32) - flag extend 1#32)
      (unitsOf add s d extend) := by
  have sl := holds_low s
  have dl := holds_low d
  have hx := holds_flag extend
  unfold unitsOf
  cases add with
  | true =>
      refine ((sl.add dl).add hx).congr ?_
      simp only [sign, if_true]
      ring
  | false =>
      refine ((dl.sub sl).sub hx).congr ?_
      simp only [sign, Bool.false_eq_true, if_false]
      ring

theorem holds_total {low : BitVec 32} {z : ℤ} (holds : Holds low z) :
    Holds (if add then low + (s &&& 0xFF#32 &&& 0xF0#32) + (d &&& 0xFF#32 &&& 0xF0#32)
      else low + (d &&& 0xFF#32 &&& 0xF0#32) - (s &&& 0xFF#32 &&& 0xF0#32)) (z + 16 * tensOf add s d) := by
  have sh := holds_high s
  have dh := holds_high d
  unfold tensOf
  cases add with
  | true =>
      refine ((holds.add sh).add dh).congr ?_
      simp only [sign, if_true]
      push_cast
      ring
  | false =>
      refine ((holds.add dh).sub sh).congr ?_
      simp only [sign, Bool.false_eq_true, if_false]
      push_cast
      ring

variable {s d}

theorem digits_range (hs : Packed s.toNat) (hd : Packed d.toNat) :
    sign add = 1 ∧ 0 ≤ unitsOf add s d extend ∧ unitsOf add s d extend ≤ 19 ∧ 0 ≤ tensOf add s d ∧ tensOf add s d ≤ 18 ∨
      sign add = -1 ∧ -10 ≤ unitsOf add s d extend ∧ unitsOf add s d extend ≤ 9 ∧
        -9 ≤ tensOf add s d ∧ tensOf add s d ≤ 9 := by
  have bit : extend.toNat ≤ 1 := Bool.toNat_le extend
  obtain ⟨sl, sh⟩ := hs
  obtain ⟨dl, dh⟩ := hd
  unfold unitsOf tensOf
  cases add with
  | true =>
      have one : sign true = 1 := rfl
      rw [one]
      omega
  | false =>
      have one : sign false = -1 := rfl
      rw [one]
      omega

omit s d in
/-- The high correction leaves the byte of the digits. -/
theorem stored_digits {whole : BitVec 32} {u t : ℤ} {due : Prop} [Decidable due]
    (holds : Holds whole (u + sign add * (if due then ((6 : ℕ) : ℤ) else 0) + 16 * t))
    (range : sign add = 1 ∧ 0 ≤ u ∧ u ≤ 19 ∧ 0 ≤ t ∧ t ≤ 18 ∨ sign add = -1 ∧ -10 ≤ u ∧ u ≤ 9 ∧ -9 ≤ t ∧ t ≤ 9)
    (adjusted : due ↔ u < 0 ∨ 9 < u) {carry : Bool} (carried : carry = decide (0x99#32 < whole))
    {stored : BitVec 32}
    (corrected : stored = if carry then (if add then whole - 0xA0#32 else whole + 0xA0#32) else whole) :
    Packed (stored.toNat % 256) ∧
      (packedValue (stored.toNat % 256) : ℤ) + sign add * (100 * carry.toNat) = 10 * t + u := by
  have wide : -2147483648 ≤ u + sign add * (if due then ((6 : ℕ) : ℤ) else 0) + 16 * t ∧
      u + sign add * (if due then ((6 : ℕ) : ℤ) else 0) + 16 * t < 2147483648 := by
    rcases range with ⟨one, bounds⟩ | ⟨one, bounds⟩ <;> rw [one] <;> split <;> omega
  have seen : carry = true ↔ u + sign add * (if due then 6 else 0) + 16 * t < 0 ∨
      0x99 < u + sign add * (if due then 6 else 0) + 16 * t := by
    rw [carried, decide_eq_true_iff]
    exact holds.above wide.1 wide.2 0x99#32 (by decide)
  obtain ⟨low, high, small, big, byte, value⟩ := corrected_digits range adjusted seen
  have adjust := holds.adjust (!add) (carry = true) (n := 0xA0) (by decide)
  have opposite : sign (!add) = -sign add := by cases add <;> rfl
  have swapped : (if carry then (if (!add) = true then whole + 0xA0#32 else whole - 0xA0#32) else whole) = stored := by
    rw [corrected]
    cases add <;> rfl
  have final : Holds stored (16 * high + low) := by
    rw [← byte, ← swapped]
    refine adjust.congr ?_
    rw [opposite]
    push_cast
    ring
  have digits : stored.toNat % 256 = 16 * high + low := by
    have same := final.byte (by omega) (by omega)
    omega
  obtain ⟨packed, read⟩ := packed_of_digits small big (r := 16 * high + low) rfl
  rw [Nat.mod_eq_of_lt (by omega)] at packed read
  rw [digits, read]
  refine ⟨packed, ?_⟩
  push_cast
  exact value

theorem evaluatePair_spec (hs : Packed s.toNat) (hd : Packed d.toNat) :
    Packed (evaluatePair add s d (flag extend 1#32)).result.toNat ∧
      (packedValue (evaluatePair add s d (flag extend 1#32)).result.toNat : ℤ) +
        sign add * (100 * (evaluatePair add s d (flag extend 1#32)).carry.toNat) =
      packedValue d.toNat + sign add * (packedValue s.toNat + extend.toNat) := by
  have combined : 10 * tensOf add s d + unitsOf add s d extend =
      packedValue d.toNat + sign add * (packedValue s.toNat + extend.toNat) := by
    unfold tensOf unitsOf packedValue
    push_cast
    ring
  rw [← combined]
  have range := digits_range add extend hs hd
  have raw := holds_units add s d extend
  have adjusted := raw.above (by omega) (by omega) 9#32 (by decide)
  have total := holds_total add s d (raw.low_corrected add)
  simp only [evaluatePair, stored_byte]
  exact stored_digits add total range adjusted rfl rfl

end Pair

theorem negate_intermediate {d : BitVec 32} (hd : Packed d.toNat) (extend : Bool) :
    ((0x9A#32 - (d &&& 0xFF#32) - flag extend 1#32) &&& 0xFF#32).toNat =
      154 - (d.toNat / 16 % 16 * 16 + d.toNat % 16) - extend.toNat := by
  have bit : extend.toNat ≤ 1 := Bool.toNat_le extend
  obtain ⟨low, high⟩ := hd
  rw [low_byte, BitVec.toNat_sub, BitVec.toNat_sub, low_byte, flag_toNat, BitVec.toNat_ofNat]
  omega

theorem evaluateNegate_spec {d : BitVec 32} (hd : Packed d.toNat) (extend : Bool) :
    Packed (evaluateNegate d (flag extend 1#32)).result.toNat ∧
      packedValue (evaluateNegate d (flag extend 1#32)).result.toNat + packedValue d.toNat + extend.toNat =
        100 * (evaluateNegate d (flag extend 1#32)).carry.toNat := by
  have bit : extend.toNat ≤ 1 := Bool.toNat_le extend
  have intermediate := negate_intermediate hd extend
  obtain ⟨ones, tens⟩ := hd
  unfold evaluateNegate
  simp only
  generalize (0x9A#32 - (d &&& 0xFF#32) - flag extend 1#32) &&& 0xFF#32 = r at intermediate ⊢
  by_cases nothing : r = 0x9A#32
  · have hex : r.toNat = 154 := congrArg BitVec.toNat nothing
    have unchanged : ((d &&& 0xFF#32).setWidth 8).toNat = d.toNat % 256 := stored_byte d
    simp only [if_pos nothing, unchanged, Packed, packedValue, Bool.toNat_false]
    omega
  · have hex : r.toNat ≠ 154 := fun same => nothing (BitVec.eq_of_toNat_eq same)
    have ten : r &&& 0x0F#32 = 0x0A#32 ↔ r.toNat % 16 = 10 := by
      have low : (r &&& 0x0F#32).toNat = r.toNat % 16 :=
        (BitVec.toNat_and ..).trans (Nat.and_two_pow_sub_one_eq_mod r.toNat 4)
      rw [BitVec.toNat_eq, low]
      exact Iff.rfl
    simp only [if_neg nothing, stored_byte, Bool.toNat_true]
    by_cases adjust : r &&& 0x0F#32 = 0x0A#32
    · have carried := ten.mp adjust
      have sum : ((r &&& 0xF0#32) + 0x10#32).toNat = 16 * (10 - d.toNat / 16 % 16) + 0 := by
        rw [BitVec.toNat_add, high_part, BitVec.toNat_ofNat]
        omega
      obtain ⟨packed, value⟩ := packed_of_digits (by omega) (by omega) sum
      rw [if_pos adjust]
      refine ⟨packed, ?_⟩
      rw [value, packedValue]
      omega
    · have plain : r.toNat % 16 ≠ 10 := fun same => adjust (ten.mpr same)
      have digits : r.toNat = 16 * (9 - d.toNat / 16 % 16) + (10 - d.toNat % 16 - extend.toNat) := by omega
      obtain ⟨packed, value⟩ := packed_of_digits (by omega) (by omega) digits
      rw [if_neg adjust]
      refine ⟨packed, ?_⟩
      rw [value, packedValue]
      omega

theorem stored_zero (x : BitVec 32) :
    decide (x &&& 0xFF#32 ≠ 0#32) = decide (((x &&& 0xFF#32).setWidth 8).toNat ≠ 0) := by
  rw [stored_byte, decide_eq_decide, ne_eq, BitVec.toNat_eq, low_byte]
  exact Iff.rfl

/-- Z is cleared exactly by a byte that is not zero. -/
theorem evaluate_clearsZero (kind : DecimalArithmeticKind) {s d : BitVec 32} (hd : Packed d.toNat) (extend : Bool) :
    (evaluate kind s d extend).clearsZero = decide ((evaluate kind s d extend).result.toNat ≠ 0) := by
  cases kind with
  | add => exact stored_zero _
  | subtract => exact stored_zero _
  | negate =>
      have intermediate := negate_intermediate hd extend
      simp only [evaluate, evaluateNegate]
      split
      · rename_i nothing
        rw [nothing] at intermediate
        have hex : 154 = 154 - (d.toNat / 16 % 16 * 16 + d.toNat % 16) - extend.toNat := intermediate
        have zero : ((d &&& 0xFF#32).setWidth 8).toNat = 0 := by
          rw [stored_byte]
          omega
        exact (decide_eq_false (not_not_intro zero)).symm
      · exact stored_zero _

/-! ## The instruction -/

theorem extendSet_apply (status : BitVec 16) (kind : DecimalArithmeticKind) (s d : BitVec 32) :
    extendSet (apply status kind s d) = (evaluate kind s d (extendSet status)).carry := extendSet_codes ..

theorem carrySet_apply (status : BitVec 16) (kind : DecimalArithmeticKind) (s d : BitVec 32) :
    carrySet (apply status kind s d) = (evaluate kind s d (extendSet status)).carry := carrySet_codes ..

theorem zeroSet_apply (status : BitVec 16) (kind : DecimalArithmeticKind) (s d : BitVec 32) :
    zeroSet (apply status kind s d) =
      (!(evaluate kind s d (extendSet status)).clearsZero && zeroSet status) := zeroSet_codes ..

/-- The digits of the operands an instruction uses are decimal. -/
def ValidLimb (kind : DecimalArithmeticKind) (limb : Limb) : Prop :=
  Packed limb.destination.toNat ∧ (kind ≠ .negate → Packed limb.source.toNat)

theorem step_exact (kind : DecimalArithmeticKind) {limb : Limb} (valid : ValidLimb kind limb) (status : BitVec 16) :
    Packed (step kind status limb).1.toNat ∧
      (operation kind).Exact 100 (packedValue limb.source.toNat) (packedValue limb.destination.toNat)
        (extendSet status) (packedValue (step kind status limb).1.toNat) (extendSet (step kind status limb).2) := by
  obtain ⟨hd, hs⟩ := valid
  simp only [step, extendSet_apply]
  cases kind with
  | add =>
      obtain ⟨packed, value⟩ := evaluatePair_spec true (extendSet status) (hs (by decide)) hd
      refine ⟨packed, ?_⟩
      have one : sign true = 1 := rfl
      have same : evaluate .add limb.source limb.destination (extendSet status) =
        evaluatePair true limb.source limb.destination (flag (extendSet status) 1#32) := rfl
      change _ + 100 * _ = packedValue limb.source.toNat + packedValue limb.destination.toNat + _
      rw [one] at value
      rw [same]
      omega
  | subtract =>
      obtain ⟨packed, value⟩ := evaluatePair_spec false (extendSet status) (hs (by decide)) hd
      refine ⟨packed, ?_⟩
      have one : sign false = -1 := rfl
      have same : evaluate .subtract limb.source limb.destination (extendSet status) =
        evaluatePair false limb.source limb.destination (flag (extendSet status) 1#32) := rfl
      change _ + packedValue limb.source.toNat + _ = packedValue limb.destination.toNat + 100 * _
      rw [one] at value
      rw [same]
      omega
  | negate => exact evaluateNegate_spec hd (extendSet status)

theorem step_carry (kind : DecimalArithmeticKind) (status : BitVec 16) (limb : Limb) :
    carrySet (step kind status limb).2 = extendSet (step kind status limb).2 :=
  (carrySet_apply ..).trans (extendSet_apply ..).symm

theorem packedValue_zero {x : BitVec 8} : packedValue x.toNat = 0 ↔ x.toNat = 0 := by
  have small := x.isLt
  unfold packedValue
  omega

theorem step_zero (kind : DecimalArithmeticKind) {limb : Limb} (valid : ValidLimb kind limb) (status : BitVec 16) :
    zeroSet (step kind status limb).2 =
      (decide (packedValue (step kind status limb).1.toNat = 0) && zeroSet status) := by
  have cleared := evaluate_clearsZero kind (s := limb.source) valid.1 (extendSet status)
  calc
    zeroSet (step kind status limb).2 =
        (!(evaluate kind limb.source limb.destination (extendSet status)).clearsZero && zeroSet status) :=
      zeroSet_apply ..
    _ = (!decide ((step kind status limb).1.toNat ≠ 0) && zeroSet status) := by
      rw [cleared]
      rfl
    _ = (decide (packedValue (step kind status limb).1.toNat = 0) && zeroSet status) := by
      simp [packedValue_zero]

end DecimalArithmetic

/-! ## The chains -/

open CarryChain

/-- What a chain leaves: the exact result of the operation on the whole numbers, with X going in and coming
out as its carry, C the same carry, and Z set iff the whole result is zero. -/
structure ChainExact (operation : Operation) (power source destination result limbs : ℕ)
    (status final : BitVec 16) : Prop where
  exact : operation.Exact power source destination (extendSet status) result (extendSet final)
  below : result < power
  carry : limbs ≠ 0 → carrySet final = extendSet final
  zero : zeroSet final = decide (result = 0)

def ExtendedChain (instruction : ExtendedInstruction) (width : MemoryAccessWidth) (status : BitVec 16)
    (limbs : List Limb) : Prop :=
  let base := 2 ^ ExtendedArithmetic.bits width
  let chain := run (ExtendedArithmetic.step instruction width) status limbs
  ChainExact (ExtendedArithmetic.operation instruction) (base ^ limbs.length)
    (number base (fun limb => ExtendedArithmetic.limbValue width limb.source) limbs)
    (number base (fun limb => ExtendedArithmetic.limbValue width limb.destination) limbs)
    (number base BitVec.toNat chain.1) limbs.length status chain.2

def DecimalChain (kind : DecimalArithmeticKind) (status : BitVec 16) (limbs : List Limb) : Prop :=
  let chain := run (DecimalArithmetic.step kind) status limbs
  (∀ x ∈ chain.1, DecimalArithmetic.Packed x.toNat) ∧
    ChainExact (DecimalArithmetic.operation kind) (100 ^ limbs.length)
      (number 100 (fun limb => DecimalArithmetic.packedValue limb.source.toNat) limbs)
      (number 100 (fun limb => DecimalArithmetic.packedValue limb.destination.toNat) limbs)
      (number 100 (fun x : BitVec 8 => DecimalArithmetic.packedValue x.toNat) chain.1) limbs.length status chain.2

variable {status : BitVec 16} {limbs : List Limb}

theorem extendedChain_exact (instruction : ExtendedInstruction) (width : MemoryAccessWidth)
    (zero : zeroSet status = true) : ExtendedChain instruction width status limbs := by
  have length : (run (ExtendedArithmetic.step instruction width) status limbs).1.length = limbs.length := run_length
  constructor
  case exact => exact run_operation fun limb _ status => ExtendedArithmetic.step_exact width instruction limb status
  case below =>
    rw [← length]
    exact number_lt (run_outputs fun limb _ status => ExtendedArithmetic.step_lt width instruction status limb)
  case carry =>
    intro some
    refine run_final (p := fun status => carrySet status = extendSet status) ?_ (List.ne_nil_of_length_pos (by omega))
    exact fun status limb => ExtendedArithmetic.step_carry width instruction status limb
  case zero =>
    have sticky := run_sticky (s := status) limbs zeroSet BitVec.toNat
      fun limb _ status => ExtendedArithmetic.step_zero width instruction status limb
    rw [Bool.eq_iff_iff, decide_eq_true_iff, number_eq_zero (Nat.two_pow_pos _), sticky, zero]
    exact and_iff_left rfl

theorem decimalChain_exact (kind : DecimalArithmeticKind)
    (valid : ∀ limb ∈ limbs, DecimalArithmetic.ValidLimb kind limb) (zero : zeroSet status = true) :
    DecimalChain kind status limbs := by
  have length : (run (DecimalArithmetic.step kind) status limbs).1.length = limbs.length := run_length
  have packed : ∀ x ∈ (run (DecimalArithmetic.step kind) status limbs).1, DecimalArithmetic.Packed x.toNat :=
    run_outputs fun limb member status => (DecimalArithmetic.step_exact kind (valid limb member) status).1
  refine ⟨packed, ?_⟩
  constructor
  case exact =>
    exact run_operation fun limb member status => (DecimalArithmetic.step_exact kind (valid limb member) status).2
  case below =>
    rw [← length]
    apply number_lt
    intro x member
    obtain ⟨low, high⟩ := packed x member
    unfold DecimalArithmetic.packedValue
    omega
  case carry =>
    intro some
    refine run_final (p := fun status => carrySet status = extendSet status) ?_ (List.ne_nil_of_length_pos (by omega))
    exact fun status limb => DecimalArithmetic.step_carry kind status limb
  case zero =>
    have sticky := run_sticky (s := status) limbs zeroSet
      (fun x : BitVec 8 => DecimalArithmetic.packedValue x.toNat)
      fun limb member status => DecimalArithmetic.step_zero kind (valid limb member) status
    rw [Bool.eq_iff_iff, decide_eq_true_iff, number_eq_zero (by decide), sticky, zero]
    exact and_iff_left rfl

/-- Chains of ADDX, SUBX, NEGX at any size and of ABCD, SBCD, NBCD are exact, with Z set at the start. -/
theorem multi_precision_exact (status : BitVec 16) (limbs : List Limb) (zero : zeroSet status = true) :
    (∀ instruction width, ExtendedChain instruction width status limbs) ∧
      ∀ kind, (∀ limb ∈ limbs, DecimalArithmetic.ValidLimb kind limb) → DecimalChain kind status limbs :=
  ⟨fun instruction width => extendedChain_exact instruction width zero,
    fun kind valid => decimalChain_exact kind valid zero⟩

/-- $0199 + $0001 as binary bytes and as packed digits. -/
theorem multi_precision_two :
    ExtendedChain .addx .byte 0x0004 [⟨0x01, 0x99⟩, ⟨0x00, 0x01⟩] ∧
      DecimalChain .add 0x0004 [⟨0x01, 0x99⟩, ⟨0x00, 0x01⟩] := by
  have digits : ∀ limb ∈ [Limb.mk 0x01 0x99, ⟨0x00, 0x01⟩], DecimalArithmetic.ValidLimb .add limb := by
    unfold DecimalArithmetic.ValidLimb DecimalArithmetic.Packed
    decide
  have chains := multi_precision_exact 0x0004 [⟨0x01, 0x99⟩, ⟨0x00, 0x01⟩] (by decide)
  exact ⟨chains.1 .addx .byte, chains.2 .add digits⟩

end Segarecomp.M68k.Effects

import Segarecomp.Lib.BitTests
import Segarecomp.Lib.LongDivision

/-! Cycle counts of the word divisions. DIVU's follows the subtractions of its loop, DIVS's the bits of the quotient
of the magnitudes. -/

namespace Segarecomp.M68k.DivisionTiming

open Lib.BitTests Lib.LongDivision

/-! ## DIVU -/

structure DivuLoop where
  remainder : BitVec 32
  cycles : BitVec 32
  deriving DecidableEq, Repr

def highDivisor (divisor : BitVec 16) : BitVec 32 := divisor.setWidth 32 <<< 16

def divuStep (high : BitVec 32) (loop : DivuLoop) : DivuLoop :=
  if loop.remainder &&& 0x80000000#32 ≠ 0 then { loop with remainder := (loop.remainder <<< 1) - high }
  else
    let remainder := loop.remainder <<< 1
    let cycles := loop.cycles + 4
    if high ≤ remainder then ⟨remainder - high, cycles - 2⟩ else ⟨remainder, cycles⟩

/-- The variables of the loop in front of a step. -/
def divuLoop (dividend : BitVec 32) (divisor : BitVec 16) : ℕ → DivuLoop
  | 0 => ⟨dividend, 76⟩
  | steps + 1 => divuStep (highDivisor divisor) (divuLoop dividend divisor steps)

def m68kDivuWordCycles (dividend : BitVec 32) (divisor : BitVec 16) : BitVec 32 :=
  if divisor.setWidth 32 ≤ dividend >>> 16 then 10 else (divuLoop dividend divisor 15).cycles

/-! ## DIVS -/

def negativeDividend (dividend : BitVec 32) : Bool := decide (dividend &&& 0x80000000#32 ≠ 0)

def negativeDivisor (divisor : BitVec 16) : Bool := decide (divisor &&& 0x8000#16 ≠ 0)

def magnitudeDividend (dividend : BitVec 32) : BitVec 32 := if negativeDividend dividend then 0 - dividend else dividend

def magnitudeDivisor (divisor : BitVec 16) : BitVec 32 :=
  if negativeDivisor divisor then 0x10000#32 - divisor.setWidth 32 else divisor.setWidth 32

/-- The loop over the bits of the quotient. -/
def addClearBits (quotient : BitVec 32) (bits : List ℕ) (cycles : BitVec 32) : BitVec 32 :=
  bits.foldl (fun cycles bit => if (quotient >>> bit) &&& 1 = 0 then cycles + 2 else cycles) cycles

def m68kDivsWordCycles (dividend : BitVec 32) (divisor : BitVec 16) : BitVec 32 :=
  let cycles : BitVec 32 := 12 + if negativeDividend dividend then 2 else 0
  if magnitudeDivisor divisor = 0 then 0
  else if magnitudeDivisor divisor ≤ magnitudeDividend dividend >>> 16 then cycles + 4
  else
    let cycles := cycles + 110
    let cycles :=
      if negativeDivisor divisor then cycles else if negativeDividend dividend then cycles + 2 else cycles - 2
    addClearBits (magnitudeDividend dividend / magnitudeDivisor divisor) (List.range' 1 15) cycles

/-! ## A step of DIVU -/

/-- How a step takes the divisor away, if it does. -/
inductive DivuMove
  | carryOut | comparison | keeps
  deriving DecidableEq, Repr

def divuMove (high remainder : BitVec 32) : DivuMove :=
  if remainder &&& 0x80000000#32 ≠ 0 then .carryOut else if high ≤ remainder <<< 1 then .comparison else .keeps

def DivuMove.subtracts : DivuMove → Bool
  | .carryOut | .comparison => true
  | .keeps => false

def DivuMove.cycles : DivuMove → ℕ
  | .carryOut => 0
  | .comparison => 2
  | .keeps => 4

variable {dividend : BitVec 32} {divisor : BitVec 16} {high : BitVec 32} {loop : DivuLoop}

theorem divuStep_remainder (high : BitVec 32) (loop : DivuLoop) :
    (divuStep high loop).remainder =
      if (divuMove high loop.remainder).subtracts then (loop.remainder <<< 1) - high else loop.remainder <<< 1 := by
  unfold divuStep divuMove
  dsimp only
  split_ifs <;> first | rfl | contradiction

theorem divuStep_cycles (high : BitVec 32) (loop : DivuLoop) :
    (divuStep high loop).cycles = loop.cycles + BitVec.ofNat 32 (divuMove high loop.remainder).cycles := by
  unfold divuStep divuMove
  dsimp only
  split_ifs
  · exact (BitVec.add_zero _).symm
  · simp only [DivuMove.cycles]
    bv_omega
  · rfl

/-- The top bit is the one that the shift moves out. -/
theorem top_bit (x : BitVec 32) : x &&& 0x80000000#32 ≠ 0 ↔ 2 ^ 31 ≤ x.toNat := by
  have sign : x &&& 0x80000000#32 ≠ 0 ↔ x.msb = true := and_sign_ne_zero_iff x
  rw [sign, BitVec.msb_eq_decide, decide_eq_true_iff]

theorem highDivisor_toNat (divisor : BitVec 16) : (highDivisor divisor).toNat = divisor.toNat * 2 ^ 16 := by
  rw [highDivisor, BitVec.toNat_shiftLeft, Nat.shiftLeft_eq, BitVec.toNat_setWidth]
  omega

theorem shifted_toNat (x : BitVec 32) : (x <<< 1).toNat = 2 * x.toNat % 2 ^ 32 := by
  rw [BitVec.toNat_shiftLeft, Nat.shiftLeft_eq]
  omega

theorem subtracts_iff_le (below : loop.remainder.toNat < high.toNat) :
    (divuMove high loop.remainder).subtracts = true ↔ high.toNat ≤ 2 * loop.remainder.toNat := by
  have shifted := shifted_toNat loop.remainder
  have bound := high.isLt
  rw [divuMove]
  split_ifs with top covers
  · rw [top_bit] at top
    exact ⟨fun _ => by omega, fun _ => rfl⟩
  · rw [top_bit] at top
    rw [BitVec.le_def, shifted] at covers
    exact ⟨fun _ => by omega, fun _ => rfl⟩
  · rw [top_bit] at top
    rw [BitVec.le_def, shifted] at covers
    constructor
    · intro kept
      cases kept
    · omega

/-- A remainder below the divisor is doubled as a number, the bit that is moved out included. -/
theorem divuStep_doubles (below : loop.remainder.toNat < high.toNat) :
    (divuStep high loop).remainder.toNat = doubled high.toNat loop.remainder.toNat := by
  have shifted := shifted_toNat loop.remainder
  have bound := high.isLt
  rw [divuStep_remainder, doubled]
  by_cases takes : high.toNat ≤ 2 * loop.remainder.toNat
  · rw [if_pos ((subtracts_iff_le below).mpr takes), if_pos takes, BitVec.toNat_sub, shifted]
    omega
  · rw [if_neg (mt (subtracts_iff_le below).mp takes), if_neg takes, shifted]
    omega

/-! ## The loop of DIVU -/

/-- The move of a step of the loop. -/
def divuMoveAt (dividend : BitVec 32) (divisor : BitVec 16) (step : ℕ) : DivuMove :=
  divuMove (highDivisor divisor) (divuLoop dividend divisor step).remainder

/-- The steps follow the bits of the quotient, and the count the steps. -/
structure DivuFollows (dividend : BitVec 32) (divisor : BitVec 16) : Prop where
  subtracts : ∀ step < 15, (divuMoveAt dividend divisor step).subtracts =
    (dividend.toNat / divisor.toNat).testBit (15 - step)
  below : ∀ step ≤ 15, (divuLoop dividend divisor step).remainder < highDivisor divisor
  count : (m68kDivuWordCycles dividend divisor).toNat =
    76 + ((List.range 15).map fun step => (divuMoveAt dividend divisor step).cycles).sum
  even : Even (m68kDivuWordCycles dividend divisor).toNat
  least : 76 ≤ (m68kDivuWordCycles dividend divisor).toNat
  most : (m68kDivuWordCycles dividend divisor).toNat ≤ 136

theorem fits_iff : dividend >>> 16 < divisor.setWidth 32 ↔ dividend.toNat < divisor.toNat * 2 ^ 16 := by
  have wide : (divisor.setWidth 32).toNat = divisor.toNat := by
    rw [BitVec.toNat_setWidth]
    exact Nat.mod_eq_of_lt (divisor.isLt.trans (by decide))
  rw [BitVec.lt_def, BitVec.toNat_ushiftRight, Nat.shiftRight_eq_div_pow, wide,
    Nat.div_lt_iff_lt_mul (Nat.two_pow_pos 16)]

theorem divuLoop_remainder (fits : dividend.toNat < divisor.toNat * 2 ^ 16) (steps : ℕ) :
    (divuLoop dividend divisor steps).remainder.toNat =
      remainderAfter (divisor.toNat * 2 ^ 16) dividend.toNat steps := by
  induction steps with
  | zero => rfl
  | succ steps ih =>
      have below : (divuLoop dividend divisor steps).remainder.toNat < (highDivisor divisor).toNat := by
        rw [ih, highDivisor_toNat]
        exact remainderAfter_lt fits steps
      rw [divuLoop, divuStep_doubles below, ih, highDivisor_toNat, remainderAfter]

theorem divuLoop_below (fits : dividend.toNat < divisor.toNat * 2 ^ 16) (steps : ℕ) :
    (divuLoop dividend divisor steps).remainder.toNat < (highDivisor divisor).toNat := by
  rw [divuLoop_remainder fits, highDivisor_toNat]
  exact remainderAfter_lt fits steps

theorem divuMoveAt_subtracts (fits : dividend.toNat < divisor.toNat * 2 ^ 16) {step : ℕ} (inside : step < 16) :
    (divuMoveAt dividend divisor step).subtracts = (dividend.toNat / divisor.toNat).testBit (15 - step) := by
  have moves := subtracts_iff_le (divuLoop_below fits step)
  rw [divuLoop_remainder fits, highDivisor_toNat, Lib.LongDivision.subtracts_iff inside fits] at moves
  exact Bool.eq_iff_iff.mpr moves

theorem move_cycles (move : DivuMove) : Even move.cycles ∧ move.cycles ≤ 4 := by
  cases move <;> decide

theorem sum_cycles (steps : ℕ) (moves : ℕ → DivuMove) :
    Even ((List.range steps).map fun step => (moves step).cycles).sum ∧
      ((List.range steps).map fun step => (moves step).cycles).sum ≤ 4 * steps := by
  induction steps with
  | zero => exact ⟨Even.zero, le_rfl⟩
  | succ steps ih =>
      have last := move_cycles (moves steps)
      rw [List.range_succ, List.map_append, List.sum_append, List.map_singleton, List.sum_singleton]
      exact ⟨ih.1.add last.1, by omega⟩

theorem divuLoop_cycles (dividend : BitVec 32) (divisor : BitVec 16) {steps : ℕ} (few : steps ≤ 15) :
    (divuLoop dividend divisor steps).cycles.toNat =
      76 + ((List.range steps).map fun step => (divuMoveAt dividend divisor step).cycles).sum := by
  induction steps with
  | zero => rfl
  | succ steps ih =>
      have before := ih (Nat.le_of_succ_le few)
      have bound := (sum_cycles (steps + 1) (divuMoveAt dividend divisor)).2
      have last := (move_cycles (divuMoveAt dividend divisor steps)).2
      have move : divuMove (highDivisor divisor) (divuLoop dividend divisor steps).remainder =
        divuMoveAt dividend divisor steps := rfl
      rw [List.range_succ, List.map_append, List.sum_append, List.map_singleton, List.sum_singleton] at bound ⊢
      rw [divuLoop, divuStep_cycles, BitVec.toNat_add, before, BitVec.toNat_ofNat, move]
      omega

theorem divuFollows (fits : dividend >>> 16 < divisor.setWidth 32) : DivuFollows dividend divisor := by
  have low := fits_iff.mp fits
  have loop : m68kDivuWordCycles dividend divisor = (divuLoop dividend divisor 15).cycles := if_neg (by bv_omega)
  have count := divuLoop_cycles dividend divisor (le_refl 15)
  have sum := sum_cycles 15 (divuMoveAt dividend divisor)
  rw [← loop] at count
  exact {
    subtracts := fun step inside => divuMoveAt_subtracts low (inside.trans (by decide))
    below := fun step _ => divuLoop_below low step
    count := count
    even := by
      rw [count]
      exact Even.add (by decide) sum.1
    least := by omega
    most := by omega }

/-! ## The bits of DIVS -/

def clearBits (quotient : ℕ) (bits : List ℕ) : ℕ := bits.countP fun bit => !quotient.testBit bit

/-- What a quotient that fits costs by its signs. -/
def signCycles (dividend divisor : ℤ) : ℕ :=
  if divisor < 0 then if dividend < 0 then 124 else 122 else if dividend < 0 then 126 else 120

/-- The quotient of the magnitudes is too large, or every clear bit above the lowest costs two cycles. -/
structure DivsFollows (dividend : BitVec 32) (divisor : BitVec 16) : Prop where
  overflow : 2 ^ 16 ≤ dividend.toInt.natAbs / divisor.toInt.natAbs →
    m68kDivsWordCycles dividend divisor = if dividend.toInt < 0 then 18 else 16
  count : dividend.toInt.natAbs / divisor.toInt.natAbs < 2 ^ 16 →
    (m68kDivsWordCycles dividend divisor).toNat = signCycles dividend.toInt divisor.toInt +
      2 * clearBits (dividend.toInt.natAbs / divisor.toInt.natAbs) (List.range' 1 15)
  even : Even (m68kDivsWordCycles dividend divisor).toNat
  range : dividend.toInt.natAbs / divisor.toInt.natAbs < 2 ^ 16 →
    120 ≤ (m68kDivsWordCycles dividend divisor).toNat ∧ (m68kDivsWordCycles dividend divisor).toNat ≤ 156

theorem negativeDividend_eq (dividend : BitVec 32) : negativeDividend dividend = decide (dividend.toInt < 0) := by
  have sign : dividend &&& 0x80000000#32 ≠ 0 ↔ dividend.msb = true := and_sign_ne_zero_iff dividend
  rw [negativeDividend, decide_eq_decide, sign, BitVec.msb_eq_toInt, decide_eq_true_iff]

theorem negativeDivisor_eq (divisor : BitVec 16) : negativeDivisor divisor = decide (divisor.toInt < 0) := by
  have sign : divisor &&& 0x8000#16 ≠ 0 ↔ divisor.msb = true := and_sign_ne_zero_iff divisor
  rw [negativeDivisor, decide_eq_decide, sign, BitVec.msb_eq_toInt, decide_eq_true_iff]

theorem magnitudeDividend_toNat (dividend : BitVec 32) :
    (magnitudeDividend dividend).toNat = dividend.toInt.natAbs := by
  have signed := BitVec.toInt_eq_toNat_cond dividend
  have bound := dividend.isLt
  rw [magnitudeDividend, negativeDividend_eq]
  by_cases negative : dividend.toInt < 0
  · have zero : (0 : BitVec 32).toNat = 0 := rfl
    rw [if_pos (decide_eq_true negative), BitVec.toNat_sub, zero]
    split_ifs at signed <;> omega
  · rw [if_neg (by simpa using negative)]
    split_ifs at signed <;> omega

theorem magnitudeDivisor_toNat (divisor : BitVec 16) :
    (magnitudeDivisor divisor).toNat = divisor.toInt.natAbs := by
  have signed := BitVec.toInt_eq_toNat_cond divisor
  have bound := divisor.isLt
  have wide : (divisor.setWidth 32).toNat = divisor.toNat := by
    rw [BitVec.toNat_setWidth]
    omega
  rw [magnitudeDivisor, negativeDivisor_eq]
  by_cases negative : divisor.toInt < 0
  · have top : (0x10000#32).toNat = 65536 := rfl
    rw [if_pos (decide_eq_true negative), BitVec.toNat_sub, wide, top]
    split_ifs at signed <;> omega
  · rw [if_neg (by simpa using negative), wide]
    split_ifs at signed <;> omega

theorem bit_clear_iff (quotient : BitVec 32) (bit : ℕ) :
    (quotient >>> bit) &&& 1 = 0 ↔ quotient.toNat.testBit bit = false := by
  have low := and_twoPow_ne_zero_iff (quotient >>> bit) (i := 0) (by decide)
  rw [BitVec.getLsbD_ushiftRight, Nat.add_zero] at low
  rw [← not_iff_not, Bool.not_eq_false]
  exact low

theorem addClearBits_toNat (quotient : BitVec 32) (bits : List ℕ) (cycles : BitVec 32)
    (room : cycles.toNat + 2 * bits.length < 2 ^ 32) :
    (addClearBits quotient bits cycles).toNat = cycles.toNat + 2 * clearBits quotient.toNat bits := by
  induction bits generalizing cycles with
  | nil => rfl
  | cons bit bits ih =>
      have step : addClearBits quotient (bit :: bits) cycles =
        addClearBits quotient bits (if (quotient >>> bit) &&& 1 = 0 then cycles + 2 else cycles) := rfl
      have two : (2 : BitVec 32).toNat = 2 := rfl
      rw [List.length_cons] at room
      rw [step, clearBits, List.countP_cons]
      by_cases clear : (quotient >>> bit) &&& 1 = 0
      · have later : (cycles + 2).toNat = cycles.toNat + 2 := by
          rw [BitVec.toNat_add, two]
          omega
        rw [if_pos clear, ih _ (by omega), later, (bit_clear_iff quotient bit).mp clear, clearBits]
        simp only [Bool.not_false, if_true]
        omega
      · have set : quotient.toNat.testBit bit = true := by
          rw [← Bool.not_eq_false]
          exact mt (bit_clear_iff quotient bit).mpr clear
        rw [if_neg clear, ih _ (by omega), set, clearBits]
        simp

theorem overflow_iff (nonzero : divisor ≠ 0) :
    magnitudeDivisor divisor ≤ magnitudeDividend dividend >>> 16 ↔
      2 ^ 16 ≤ dividend.toInt.natAbs / divisor.toInt.natAbs := by
  have positive : 0 < divisor.toInt.natAbs := by
    rw [Int.natAbs_pos]
    exact fun zero => nonzero (BitVec.toInt_inj.mp zero)
  rw [BitVec.le_def, BitVec.toNat_ushiftRight, Nat.shiftRight_eq_div_pow, magnitudeDivisor_toNat,
    magnitudeDividend_toNat, Nat.le_div_iff_mul_le positive, Nat.le_div_iff_mul_le (Nat.two_pow_pos 16), Nat.mul_comm]

theorem magnitudeDivisor_ne_zero (nonzero : divisor ≠ 0) : magnitudeDivisor divisor ≠ 0 := by
  intro zero
  have magnitude := magnitudeDivisor_toNat divisor
  rw [zero] at magnitude
  exact nonzero (BitVec.toInt_inj.mp (Int.natAbs_eq_zero.mp magnitude.symm))

theorem signCycles_range (dividend divisor : ℤ) :
    Even (signCycles dividend divisor) ∧ 120 ≤ signCycles dividend divisor ∧ signCycles dividend divisor ≤ 126 := by
  rw [signCycles]
  split_ifs <;> decide

theorem clearBits_le (quotient : ℕ) (bits : List ℕ) : clearBits quotient bits ≤ bits.length := List.countP_le_length

theorem signCycles_toNat (dividend : BitVec 32) (divisor : BitVec 16) :
    (if negativeDivisor divisor then (12 + if negativeDividend dividend then 2 else 0 : BitVec 32) + 110
      else if negativeDividend dividend then (12 + if negativeDividend dividend then 2 else 0) + 110 + 2
      else (12 + if negativeDividend dividend then 2 else 0) + 110 - 2).toNat =
      signCycles dividend.toInt divisor.toInt := by
  rw [negativeDividend_eq, negativeDivisor_eq, signCycles]
  by_cases first : dividend.toInt < 0 <;> by_cases second : divisor.toInt < 0 <;> simp [first, second]

theorem divs_fits (nonzero : divisor ≠ 0) (fits : dividend.toInt.natAbs / divisor.toInt.natAbs < 2 ^ 16) :
    (m68kDivsWordCycles dividend divisor).toNat = signCycles dividend.toInt divisor.toInt +
      2 * clearBits (dividend.toInt.natAbs / divisor.toInt.natAbs) (List.range' 1 15) := by
  have small : ¬magnitudeDivisor divisor ≤ magnitudeDividend dividend >>> 16 :=
    mt (overflow_iff nonzero).mp (Nat.not_le_of_lt fits)
  have signs := signCycles_range dividend.toInt divisor.toInt
  have start := signCycles_toNat dividend divisor
  rw [m68kDivsWordCycles]
  dsimp only
  rw [if_neg (magnitudeDivisor_ne_zero nonzero), if_neg small, addClearBits_toNat, start, BitVec.toNat_udiv,
    magnitudeDividend_toNat, magnitudeDivisor_toNat]
  rw [start, List.length_range']
  omega

theorem divs_overflow (nonzero : divisor ≠ 0) (large : 2 ^ 16 ≤ dividend.toInt.natAbs / divisor.toInt.natAbs) :
    m68kDivsWordCycles dividend divisor = if dividend.toInt < 0 then 18 else 16 := by
  have large' : magnitudeDivisor divisor ≤ magnitudeDividend dividend >>> 16 := (overflow_iff nonzero).mpr large
  rw [m68kDivsWordCycles]
  dsimp only
  rw [if_neg (magnitudeDivisor_ne_zero nonzero), if_pos large', negativeDividend_eq]
  by_cases negative : dividend.toInt < 0 <;> simp [negative]

theorem divsFollows (nonzero : divisor ≠ 0) : DivsFollows dividend divisor := by
  have signs := signCycles_range dividend.toInt divisor.toInt
  have clear := clearBits_le (dividend.toInt.natAbs / divisor.toInt.natAbs) (List.range' 1 15)
  rw [List.length_range'] at clear
  exact {
    overflow := divs_overflow nonzero
    count := divs_fits nonzero
    even := by
      rcases Nat.lt_or_ge (dividend.toInt.natAbs / divisor.toInt.natAbs) (2 ^ 16) with fits | large
      · rw [divs_fits nonzero fits]
        exact signs.1.add (even_two_mul _)
      · rw [divs_overflow nonzero large]
        split_ifs <;> decide
    range := by
      intro fits
      rw [divs_fits nonzero fits]
      omega }

/-- DIVU follows its quotient where it does not overflow, and DIVS where there is a divisor; without one it has no
cycles. -/
theorem division_cycles (dividend : BitVec 32) (divisor : BitVec 16) :
    (dividend >>> 16 < divisor.setWidth 32 → DivuFollows dividend divisor) ∧
      (divisor ≠ 0 → DivsFollows dividend divisor) ∧ (divisor = 0 → m68kDivsWordCycles dividend divisor = 0) := by
  refine ⟨divuFollows, divsFollows, ?_⟩
  rintro rfl
  rfl

/-- -2^31 by -32768 overflows, and a DIVU whose quotient has every bit above the lowest does not. -/
theorem division_cycles_extremes : m68kDivsWordCycles 0x80000000 0x8000 = 18 ∧
    (m68kDivuWordCycles 0xFFFE0000 0xFFFF).toNat ≤ 136 := by
  have signed := (division_cycles 0x80000000 0x8000).2.1 (by decide)
  have unsigned := (division_cycles 0xFFFE0000 0xFFFF).1 (by decide)
  exact ⟨signed.overflow (by decide), unsigned.most⟩

/-- There is no division by zero to count. -/
theorem divs_zero_divisor : ¬∀ (dividend : BitVec 32) (divisor : BitVec 16),
    m68kDivsWordCycles dividend divisor = 16 ∨ m68kDivsWordCycles dividend divisor = 18 ∨
      120 ≤ (m68kDivsWordCycles dividend divisor).toNat := by
  intro every
  exact absurd (every 0 0) (by decide)

end Segarecomp.M68k.DivisionTiming

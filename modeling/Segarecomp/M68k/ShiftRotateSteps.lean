import Segarecomp.M68k.Effects
import Segarecomp.Lib.Turning

/-! The one-bit shifts and rotates of the architecture, and what several of them make of an operand. -/

namespace Segarecomp.M68k.ShiftRotateSteps

open Effects ShiftRotate
open Lib

def size : MemoryAccessWidth → ℕ
  | .byte => 8
  | .word => 16
  | .longWord => 32

/-- An operand with X and the last bit shifted out. -/
structure Operand (n : ℕ) where
  value : BitVec n
  extend : Bool
  carry : Bool
  deriving DecidableEq, Repr

variable {n k i : ℕ} {kind : ShiftRotateKind} {s : Operand n} {x : Bool}

/-! ## One bit -/

/-- A bit moves out at one end: into C, and for all but ROL and ROR into X. -/
def step (kind : ShiftRotateKind) (s : Operand n) : Operand n :=
  match kind with
  | .lsl | .asl => { value := s.value <<< 1, extend := s.value.msb, carry := s.value.msb }
  | .lsr => { value := s.value >>> 1, extend := s.value.getLsbD 0, carry := s.value.getLsbD 0 }
  | .asr => { value := s.value.sshiftRight 1, extend := s.value.getLsbD 0, carry := s.value.getLsbD 0 }
  | .rol => { s with value := s.value.rotateLeft 1, carry := s.value.msb }
  | .ror => { s with value := s.value.rotateRight 1, carry := s.value.getLsbD 0 }
  | .roxl =>
      { value := s.value <<< 1 ||| (BitVec.ofBool s.extend).setWidth n
        extend := s.value.msb, carry := s.value.msb }
  | .roxr =>
      { value := s.value >>> 1 ||| (BitVec.ofBool s.extend).setWidth n <<< (n - 1)
        extend := s.value.getLsbD 0, carry := s.value.getLsbD 0 }

def start (kind : ShiftRotateKind) (value : BitVec n) (extend : Bool) : Operand n :=
  { value, extend, carry := match kind with | .roxl | .roxr => extend | _ => false }

def after (kind : ShiftRotateKind) (value : BitVec n) (extend : Bool) (k : ℕ) : Operand n :=
  (step kind)^[k] (start kind value extend)

theorem after_succ (value : BitVec n) : after kind value x (k + 1) = step kind (after kind value x k) :=
  Function.iterate_succ_apply' _ _ _

/-! ## Several bits -/

variable {v : BitVec n}

theorem lsl_value (k : ℕ) : (after .lsl v x k).value = v <<< k := by
  induction k with
  | zero => exact (BitVec.shiftLeft_zero v).symm
  | succ k ih => rw [after_succ, step, ih, BitVec.shiftLeft_add]

theorem asl_after (k : ℕ) : after .asl v x k = after .lsl v x k := by
  induction k with
  | zero => rfl
  | succ k ih => rw [after_succ, after_succ, ih]; rfl

theorem lsr_value (k : ℕ) : (after .lsr v x k).value = v >>> k := by
  induction k with
  | zero => exact (BitVec.ushiftRight_zero v).symm
  | succ k ih => rw [after_succ, step, ih, BitVec.shiftRight_add]

theorem asr_value (k : ℕ) : (after .asr v x k).value = v.sshiftRight k := by
  induction k with
  | zero => exact (BitVec.sshiftRight_zero).symm
  | succ k ih => rw [after_succ, step, ih, BitVec.sshiftRight_add]

theorem rol_bit (inside : i < n) :
    (s.value.rotateLeft 1).getLsbD i = Turning.left n s.value.getLsbD i := by
  rw [Turning.left, BitVec.getLsbD_rotateLeft]
  rcases Nat.lt_or_ge 1 n with wide | narrow
  · rw [Nat.mod_eq_of_lt wide]
    by_cases first : i < 1
    · rw [decide_eq_true first, Nat.mod_eq_of_lt (by omega), Nat.add_comm]
      rfl
    · rw [decide_eq_false first, decide_eq_true inside, show i + (n - 1) = i - 1 + n by omega,
        Nat.add_mod_right, Nat.mod_eq_of_lt (by omega)]
      rfl
  · have one : n = 1 := Nat.le_antisymm narrow (Nat.zero_lt_of_lt inside)
    subst one
    have zero : i = 0 := by omega
    subst zero
    rfl

theorem ror_bit (inside : i < n) :
    (s.value.rotateRight 1).getLsbD i = Turning.right n s.value.getLsbD i := by
  rw [Turning.right, BitVec.getLsbD_rotateRight]
  rcases Nat.lt_or_ge 1 n with wide | narrow
  · rw [Nat.mod_eq_of_lt wide]
    by_cases last : i < n - 1
    · rw [decide_eq_true last, Nat.mod_eq_of_lt (by omega), Nat.add_comm]
      rfl
    · rw [decide_eq_false last, decide_eq_true inside, show i + 1 = n by omega, Nat.mod_self,
        show i - (n - 1) = 0 by omega]
      rfl
  · have one : n = 1 := Nat.le_antisymm narrow (Nat.zero_lt_of_lt inside)
    subst one
    have zero : i = 0 := by omega
    subst zero
    rfl

theorem rol_value (k : ℕ) (inside : i < n) :
    (after .rol v x k).value.getLsbD i = (Turning.left n)^[k] v.getLsbD i := by
  induction k generalizing i with
  | zero => rfl
  | succ k ih =>
      rw [after_succ, Function.iterate_succ_apply']
      exact (rol_bit inside).trans (ih (Nat.mod_lt _ (Nat.zero_lt_of_lt inside)))

theorem ror_value (k : ℕ) (inside : i < n) :
    (after .ror v x k).value.getLsbD i = (Turning.right n)^[k] v.getLsbD i := by
  induction k generalizing i with
  | zero => rfl
  | succ k ih =>
      rw [after_succ, Function.iterate_succ_apply']
      exact (ror_bit inside).trans (ih (Nat.mod_lt _ (Nat.zero_lt_of_lt inside)))

/-- The ring of ROXL and ROXR: the operand with X above it. -/
def Operand.ring (s : Operand n) (i : ℕ) : Bool := if i < n then s.value.getLsbD i else s.extend

theorem roxl_ring (pos : 0 < n) (inside : i < n + 1) :
    (step .roxl s).ring i = Turning.left (n + 1) s.ring i := by
  rw [Turning.left, Operand.ring, step, Nat.add_sub_cancel]
  dsimp only
  by_cases top : i < n
  · rw [if_pos top, BitVec.getLsbD_or, BitVec.getLsbD_shiftLeft, BitVec.getLsbD_setWidth, decide_eq_true top]
    by_cases first : i = 0
    · subst first
      rw [Nat.zero_add, Nat.mod_eq_of_lt (Nat.lt_succ_self n), Operand.ring, if_neg (Nat.lt_irrefl n)]
      simp
    · rw [show i + n = i - 1 + (n + 1) by omega, Nat.add_mod_right, Nat.mod_eq_of_lt (by omega), Operand.ring,
        if_pos (by omega)]
      simp [first, BitVec.getLsbD_ofBool]
  · have last : i = n := by omega
    subst last
    rw [if_neg top, show i + i = i - 1 + (i + 1) by omega, Nat.add_mod_right, Nat.mod_eq_of_lt (by omega),
      Operand.ring, if_pos (by omega), BitVec.msb_eq_getLsbD_last]

theorem roxr_ring (pos : 0 < n) (inside : i < n + 1) :
    (step .roxr s).ring i = Turning.right (n + 1) s.ring i := by
  rw [Turning.right, Operand.ring, step]
  dsimp only
  by_cases top : i < n
  · rw [if_pos top, BitVec.getLsbD_or, BitVec.getLsbD_ushiftRight, BitVec.getLsbD_shiftLeft,
      BitVec.getLsbD_setWidth, decide_eq_true top, Nat.mod_eq_of_lt (by omega), Operand.ring]
    by_cases last : i = n - 1
    · rw [if_neg (by omega), show 1 + i = n by omega, show i - (n - 1) = 0 by omega]
      simp [last, pos]
    · rw [if_pos (by omega), decide_eq_true (show i < n - 1 by omega), Nat.add_comm]
      simp
  · have last : i = n := by omega
    subst last
    rw [if_neg top, Nat.mod_self, Operand.ring, if_pos pos]

theorem roxl_after (pos : 0 < n) (k : ℕ) (inside : i < n + 1) :
    (after .roxl v x k).ring i = (Turning.left (n + 1))^[k] (start .roxl v x).ring i := by
  induction k generalizing i with
  | zero => rfl
  | succ k ih =>
      rw [after_succ, Function.iterate_succ_apply']
      exact (roxl_ring pos inside).trans (ih (Nat.mod_lt _ (Nat.succ_pos n)))

theorem roxr_after (pos : 0 < n) (k : ℕ) (inside : i < n + 1) :
    (after .roxr v x k).ring i = (Turning.right (n + 1))^[k] (start .roxr v x).ring i := by
  induction k generalizing i with
  | zero => rfl
  | succ k ih =>
      rw [after_succ, Function.iterate_succ_apply']
      exact (roxr_ring pos inside).trans (ih (Nat.mod_lt _ (Nat.succ_pos n)))


end Segarecomp.M68k.ShiftRotateSteps

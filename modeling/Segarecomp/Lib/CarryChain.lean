import Mathlib.Algebra.Ring.Basic
import Mathlib.Data.List.Basic
import Mathlib.Tactic.LinearCombination
import Mathlib.Tactic.Ring
import Mathlib.Tactic.Zify

/-! Multi-precision arithmetic: a step that is exact on one digit, with its carry in the state, is exact on
numbers of any length. -/

namespace Segarecomp.Lib.CarryChain

variable {σ α β R : Type*}

/-- The outputs of the steps from the least significant digit upward, and the last state. -/
def run (step : σ → α → β × σ) : σ → List α → List β × σ
  | s, [] => ([], s)
  | s, a :: rest =>
    let (out, s) := step s a
    let (outs, s) := run step s rest
    (out :: outs, s)

/-- The number with these digits, the least significant one first. -/
def number [Semiring R] (base : R) (digit : α → R) : List α → R
  | [] => 0
  | a :: rest => digit a + base * number base digit rest

section Digits

variable [Semiring R] {base : R} {digit : α → R}

theorem number_nil : number base digit [] = 0 := rfl

theorem number_cons (a : α) (rest : List α) : number base digit (a :: rest) = digit a + base * number base digit rest :=
  rfl

end Digits

section Run

variable {step : σ → α → β × σ} {limbs : List α} {s : σ}

theorem run_nil : run step s [] = ([], s) := rfl

theorem run_cons (a : α) (rest : List α) : run step s (a :: rest) =
    ((step s a).1 :: (run step (step s a).2 rest).1, (run step (step s a).2 rest).2) := rfl

theorem run_length : (run step s limbs).1.length = limbs.length := by
  induction limbs generalizing s with
  | nil => rfl
  | cons a rest ih => exact congrArg (· + 1) ih

/-- A fact each step leaves in the state is there after the last one. -/
theorem run_final {p : σ → Prop} (left : ∀ s a, p (step s a).2) (some : limbs ≠ []) : p (run step s limbs).2 := by
  induction limbs generalizing s with
  | nil => exact absurd rfl some
  | cons a rest ih =>
      cases rest with
      | nil => exact left s a
      | cons b rest => exact ih (List.cons_ne_nil b rest)

/-- A property of every output. -/
theorem run_outputs {p : β → Prop} (each : ∀ a ∈ limbs, ∀ s, p (step s a).1) : ∀ out ∈ (run step s limbs).1, p out := by
  induction limbs generalizing s with
  | nil => simp [run_nil]
  | cons a rest ih =>
      exact List.forall_mem_cons.mpr
        ⟨each a (List.mem_cons_self ..) s, ih fun b member => each b (List.mem_cons_of_mem a member)⟩

/-- One step exact on its digit makes the run exact on the number. -/
theorem run_value [CommRing R] {base : R} {value : α → R} {digit : β → R} (carry : σ → R)
    (exact : ∀ a ∈ limbs, ∀ s, digit (step s a).1 + base * carry (step s a).2 = value a + carry s) :
    number base digit (run step s limbs).1 + base ^ limbs.length * carry (run step s limbs).2 =
      number base value limbs + carry s := by
  induction limbs generalizing s with
  | nil => simp [run_nil, number_nil]
  | cons a rest ih =>
      have head := exact a (List.mem_cons_self ..) s
      have tail := ih (s := (step s a).2) fun b member => exact b (List.mem_cons_of_mem a member)
      calc
        digit (step s a).1 + base * number base digit (run step (step s a).2 rest).1 +
            base ^ (rest.length + 1) * carry (run step (step s a).2 rest).2 =
          digit (step s a).1 + base * (number base digit (run step (step s a).2 rest).1 +
            base ^ rest.length * carry (run step (step s a).2 rest).2) := by ring
        _ = digit (step s a).1 + base * (number base value rest + carry (step s a).2) := by rw [tail]
        _ = (digit (step s a).1 + base * carry (step s a).2) + base * number base value rest := by ring
        _ = value a + base * number base value rest + carry s := by
          rw [head]
          ring

/-- A sticky flag that a step clears on a non-zero digit is left iff it was set and every digit is zero. -/
theorem run_sticky (limbs : List α) (zero : σ → Bool) (digit : β → ℕ)
    (sticky : ∀ a ∈ limbs, ∀ s, zero (step s a).2 = (decide (digit (step s a).1 = 0) && zero s)) :
    zero (run step s limbs).2 = true ↔ (∀ out ∈ (run step s limbs).1, digit out = 0) ∧ zero s = true := by
  induction limbs generalizing s with
  | nil => simp [run_nil]
  | cons a rest ih =>
      have head := sticky a (List.mem_cons_self ..) s
      have tail := ih (s := (step s a).2) fun b member => sticky b (List.mem_cons_of_mem a member)
      calc
        zero (run step (step s a).2 rest).2 = true ↔
            (∀ out ∈ (run step (step s a).2 rest).1, digit out = 0) ∧ zero (step s a).2 = true := tail
        _ ↔ (∀ out ∈ (run step s (a :: rest)).1, digit out = 0) ∧ zero s = true := by
          simp only [head, Bool.and_eq_true, decide_eq_true_eq, run_cons, List.forall_mem_cons]
          tauto

end Run

section Number

variable [CommRing R] {base : R} {digit other : α → R}

theorem number_add (limbs : List α) :
    number base (fun a => digit a + other a) limbs = number base digit limbs + number base other limbs := by
  induction limbs with
  | nil => simp [number_nil]
  | cons a rest ih =>
      simp only [number_cons, ih]
      ring

theorem number_sub (limbs : List α) :
    number base (fun a => digit a - other a) limbs = number base digit limbs - number base other limbs := by
  induction limbs with
  | nil => simp [number_nil]
  | cons a rest ih =>
      simp only [number_cons, ih]
      ring

theorem number_cast (base : ℕ) (digit : α → ℕ) (limbs : List α) :
    number (base : R) (fun a => (digit a : R)) limbs = ((number base digit limbs : ℕ) : R) := by
  induction limbs with
  | nil => simp [number_nil]
  | cons a rest ih => simp [number_cons, ih]

end Number

theorem number_eq_zero {base : ℕ} (positive : 0 < base) {digit : α → ℕ} {limbs : List α} :
    number base digit limbs = 0 ↔ ∀ a ∈ limbs, digit a = 0 := by
  induction limbs with
  | nil => simp [number_nil]
  | cons a rest ih =>
      rw [number_cons, Nat.add_eq_zero_iff, Nat.mul_eq_zero, List.forall_mem_cons, ih]
      simp [positive.ne']

/-- Digits below the base make a number below its power. -/
theorem number_lt {base : ℕ} {digit : α → ℕ} {limbs : List α} (below : ∀ a ∈ limbs, digit a < base) :
    number base digit limbs < base ^ limbs.length := by
  induction limbs with
  | nil => simp [number_nil]
  | cons a rest ih =>
      have head := below a (List.mem_cons_self ..)
      have tail := ih fun b member => below b (List.mem_cons_of_mem a member)
      calc
        digit a + base * number base digit rest < base + base * number base digit rest := by omega
        _ = base * (number base digit rest + 1) := by ring
        _ ≤ base * base ^ rest.length := Nat.mul_le_mul_left base tail
        _ = base ^ (rest.length + 1) := by ring

/-! ## The three operations on natural numbers -/

inductive Operation
  | sum | difference | complement
  deriving DecidableEq, Repr

/-- `result` and the carry are the exact value of the operation modulo `power`, with a carry in. -/
def Operation.Exact (operation : Operation) (power source destination : ℕ) (extend : Bool) (result : ℕ)
    (carry : Bool) : Prop :=
  match operation with
  | .sum => result + power * carry.toNat = source + destination + extend.toNat
  | .difference => result + source + extend.toNat = destination + power * carry.toNat
  | .complement => result + destination + extend.toNat = power * carry.toNat

/-- What the operation contributes at a digit. -/
def Operation.value (operation : Operation) (source destination : ℕ) : ℤ :=
  match operation with
  | .sum => source + destination
  | .difference => destination - source
  | .complement => 0 - destination

/-- The sign with which the carry goes in. -/
def Operation.carry (operation : Operation) (extend : Bool) : ℤ :=
  match operation with
  | .sum => extend.toNat
  | _ => -extend.toNat

theorem Operation.exact_iff (operation : Operation) (power source destination result : ℕ) (extend carry : Bool) :
    operation.Exact power source destination extend result carry ↔
      (result : ℤ) + (power : ℤ) * operation.carry carry = operation.value source destination + operation.carry extend := by
  cases operation <;> simp only [Exact, Operation.value, Operation.carry] <;> zify <;>
    constructor <;> intro equation <;> linear_combination equation

variable {step : σ → α → β × σ} {limbs : List α} {s : σ}

theorem number_value (operation : Operation) (base : ℕ) (source destination : α → ℕ) (limbs : List α) :
    number (base : ℤ) (fun a => operation.value (source a) (destination a)) limbs =
      operation.value (number base source limbs) (number base destination limbs) := by
  have none : number (base : ℤ) (fun _ : α => (0 : ℤ)) limbs = 0 := by
    induction limbs with
    | nil => rfl
    | cons a rest ih => simp [number_cons, ih]
  cases operation with
  | sum => simp only [Operation.value, number_add, number_cast]
  | difference => simp only [Operation.value, number_sub, number_cast]
  | complement => simp only [Operation.value, number_sub, number_cast, none]

/-- An operation exact at each limb is exact on the whole numbers. -/
theorem run_operation {operation : Operation} {base : ℕ} {source destination : α → ℕ} {digit : β → ℕ}
    {extend : σ → Bool}
    (exact : ∀ a ∈ limbs, ∀ s, operation.Exact base (source a) (destination a) (extend s) (digit (step s a).1)
      (extend (step s a).2)) :
    operation.Exact (base ^ limbs.length) (number base source limbs) (number base destination limbs) (extend s)
      (number base digit (run step s limbs).1) (extend (run step s limbs).2) := by
  have signed : number (base : ℤ) (fun out => (digit out : ℤ)) (run step s limbs).1 +
      (base : ℤ) ^ limbs.length * operation.carry (extend (run step s limbs).2) =
        number (base : ℤ) (fun a => operation.value (source a) (destination a)) limbs + operation.carry (extend s) :=
    run_value (fun s => operation.carry (extend s))
      fun a member s => (operation.exact_iff ..).mp (exact a member s)
  rw [number_value, number_cast] at signed
  rw [Operation.exact_iff]
  push_cast
  exact signed

end Segarecomp.Lib.CarryChain

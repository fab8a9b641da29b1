import Mathlib.Tactic

/-! Numbers of a fixed width in hexadecimal, with small letters. -/

namespace Segarecomp.Lib.HexText

def digit (n : ℕ) : Char := if n < 10 then Char.ofNat (48 + n) else Char.ofNat (87 + n)

def isDigit (c : Char) : Bool := decide ('0' ≤ c ∧ c ≤ '9') || decide ('a' ≤ c ∧ c ≤ 'f')

def digitValue (c : Char) : ℕ := if c ≤ '9' then c.toNat - 48 else c.toNat - 87

/-- The lowest digits, highest first. -/
def write : ℕ → ℕ → List Char
  | 0, _ => []
  | width + 1, n => write width (n / 16) ++ [digit (n % 16)]

def value (text : List Char) : ℕ := text.foldl (fun n c => n * 16 + digitValue c) 0

def read (text : List Char) : Option ℕ := if text.all isDigit then some (value text) else none

variable {c : Char} {n : ℕ} {text : List Char}

/-! ## Digits -/

theorem digit_ok (small : n < 16) : isDigit (digit n) = true ∧ digitValue (digit n) = n := by
  revert n
  decide

theorem digit_digitValue (digits : isDigit c = true) : digitValue c < 16 ∧ digit (digitValue c) = c := by
  have range : c.toNat < 103 := by
    rw [isDigit, Bool.or_eq_true, decide_eq_true_iff, decide_eq_true_iff] at digits
    rcases digits with ⟨-, top⟩ | ⟨-, top⟩
    · exact Nat.lt_of_le_of_lt top (by decide)
    · exact Nat.lt_of_le_of_lt top (by decide)
  have every : ∀ code < 103, isDigit (Char.ofNat code) = true →
      digitValue (Char.ofNat code) < 16 ∧ digit (digitValue (Char.ofNat code)) = Char.ofNat code := by
    decide
  have here := every c.toNat range
  rw [Char.ofNat_toNat] at here
  exact here digits

/-! ## Texts -/

theorem length_write (width n : ℕ) : (write width n).length = width := by
  induction width generalizing n with
  | zero => rfl
  | succ width ih => rw [write, List.length_append, ih, List.length_singleton]

theorem all_isDigit_write (width n : ℕ) : (write width n).all isDigit = true := by
  induction width generalizing n with
  | zero => rfl
  | succ width ih =>
      have last := (digit_ok (Nat.mod_lt n (by decide : 0 < 16))).1
      rw [write, List.all_append, ih, List.all_cons, last, List.all_nil]
      rfl

theorem value_append_digit (text : List Char) (c : Char) : value (text ++ [c]) = value text * 16 + digitValue c := by
  rw [value, List.foldl_append]
  rfl

theorem value_write (width : ℕ) (small : n < 16 ^ width) : value (write width n) = n := by
  induction width generalizing n with
  | zero =>
      rw [Nat.pow_zero, Nat.lt_one_iff] at small
      rw [small]
      rfl
  | succ width ih =>
      have high : n / 16 < 16 ^ width := by
        rw [Nat.div_lt_iff_lt_mul (by decide), ← Nat.pow_succ]
        exact small
      rw [write, value_append_digit, ih high, (digit_ok (Nat.mod_lt n (by decide))).2, Nat.div_add_mod']

theorem read_write (width : ℕ) (small : n < 16 ^ width) : read (write width n) = some n := by
  rw [read, if_pos (all_isDigit_write width n), value_write width small]

theorem value_lt_and_write (digits : text.all isDigit = true) :
    value text < 16 ^ text.length ∧ write text.length (value text) = text := by
  induction text using List.reverseRecOn with
  | nil => exact ⟨Nat.one_pos, rfl⟩
  | append_singleton text c ih =>
      rw [List.all_append, Bool.and_eq_true, List.all_cons, List.all_nil, Bool.and_true] at digits
      have front := ih digits.1
      have last := digit_digitValue digits.2
      rw [List.length_append, List.length_singleton, value_append_digit]
      constructor
      · rw [Nat.pow_succ]
        omega
      · have high : (value text * 16 + digitValue c) / 16 = value text := by omega
        have low : (value text * 16 + digitValue c) % 16 = digitValue c := by omega
        rw [write, high, low, front.2, last.2]

theorem read_eq_some (taken : read text = some n) : n < 16 ^ text.length ∧ write text.length n = text := by
  rw [read] at taken
  split_ifs at taken with digits
  rw [← Option.some.inj taken]
  exact value_lt_and_write digits

/-! ## Bytes -/

def writeBytes (bytes : List (BitVec 8)) : List Char := bytes.flatMap fun b => write 2 b.toNat

/-- The bytes of a text, two digits each. -/
def readBytes : List Char → List (BitVec 8)
  | high :: low :: text => BitVec.ofNat 8 (digitValue high * 16 + digitValue low) :: readBytes text
  | _ => []

theorem length_writeBytes (bytes : List (BitVec 8)) : (writeBytes bytes).length = bytes.length * 2 := by
  induction bytes with
  | nil => rfl
  | cons b bytes ih =>
      rw [writeBytes, List.flatMap_cons, List.length_append, length_write, ← writeBytes, ih, List.length_cons]
      omega

theorem isDigit_of_mem_writeBytes {bytes : List (BitVec 8)} (member : c ∈ writeBytes bytes) : isDigit c = true := by
  rcases List.mem_flatMap.mp member with ⟨b, -, inside⟩
  exact List.all_eq_true.mp (all_isDigit_write 2 b.toNat) c inside

theorem readBytes_write (b : BitVec 8) (text : List Char) : readBytes (write 2 b.toNat ++ text) = b :: readBytes text := by
  have shape : write 2 b.toNat = [digit (b.toNat / 16 % 16), digit (b.toNat % 16)] := rfl
  have high := (digit_ok (Nat.mod_lt (b.toNat / 16) (by decide : 0 < 16))).2
  have low := (digit_ok (Nat.mod_lt b.toNat (by decide : 0 < 16))).2
  have whole : b.toNat / 16 % 16 * 16 + b.toNat % 16 = b.toNat := by
    have bound := b.isLt
    omega
  rw [shape, List.cons_append, List.singleton_append, readBytes, high, low, whole, BitVec.ofNat_toNat, BitVec.setWidth_eq]

theorem readBytes_writeBytes (bytes : List (BitVec 8)) : readBytes (writeBytes bytes) = bytes := by
  induction bytes with
  | nil => rfl
  | cons b bytes ih => rw [writeBytes, List.flatMap_cons, readBytes_write, ← writeBytes, ih]

end Segarecomp.Lib.HexText

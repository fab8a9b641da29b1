import Mathlib.Tactic

/-! Numbers as bit strings, least or most significant bit first. -/

namespace Segarecomp.Lib.Bits

/-- `width` bits of `n`, least significant first. -/
def lsb : (width n : ℕ) → List Bool
  | 0, _ => []
  | width + 1, n => decide (n % 2 = 1) :: lsb width (n / 2)

/-- `width` bits of `n`, most significant first. -/
def msb (width n : ℕ) : List Bool := (lsb width n).reverse

@[simp] theorem lsb_length (width n : ℕ) : (lsb width n).length = width := by
  induction width generalizing n with
  | zero => rfl
  | succ width ih => rw [lsb, List.length_cons, ih]

@[simp] theorem msb_length (width n : ℕ) : (msb width n).length = width := by
  rw [msb, List.length_reverse, lsb_length]

theorem lsb_split (low high n : ℕ) : lsb (low + high) n = lsb low n ++ lsb high (n / 2 ^ low) := by
  induction low generalizing n with
  | zero => simp [lsb]
  | succ low ih =>
      rw [Nat.add_right_comm, lsb, lsb, ih, List.cons_append, Nat.div_div_eq_div_mul, pow_succ']

theorem lsb_mod (width n : ℕ) : lsb width (n % 2 ^ width) = lsb width n := by
  induction width generalizing n with
  | zero => rfl
  | succ width ih =>
      have low : n % 2 ^ (width + 1) % 2 = n % 2 :=
        Nat.mod_mod_of_dvd n (Dvd.intro_left (2 ^ width) rfl)
      have high : n % 2 ^ (width + 1) / 2 = n / 2 % 2 ^ width := by
        rw [pow_succ', Nat.mod_mul_right_div_self]
      rw [lsb, lsb, low, high, ih]

theorem lsb_append {low : ℕ} (high : ℕ) {a : ℕ} (b : ℕ) (small : a < 2 ^ low) :
    lsb (low + high) (a + b * 2 ^ low) = lsb low a ++ lsb high b := by
  have positive : 0 < 2 ^ low := Nat.two_pow_pos low
  rw [lsb_split, ← lsb_mod low (a + b * 2 ^ low), Nat.add_mul_mod_self_right, Nat.mod_eq_of_lt small,
    Nat.add_mul_div_right _ _ positive, Nat.div_eq_of_lt small, Nat.zero_add]

theorem lsb_injective {width a b : ℕ} (first : a < 2 ^ width) (second : b < 2 ^ width)
    (same : lsb width a = lsb width b) : a = b := by
  induction width generalizing a b with
  | zero =>
      simp only [pow_zero, Nat.lt_one_iff] at first second
      rw [first, second]
  | succ width ih =>
      rw [lsb, lsb, List.cons.injEq, decide_eq_decide] at same
      have halves := ih (by omega) (by omega) same.2
      omega

theorem msb_succ (width n : ℕ) :
    msb (width + 1) n = decide (n / 2 ^ width % 2 = 1) :: msb width n := by
  rw [msb, msb, lsb_split, List.reverse_append]
  rfl

/-- The bits of a byte string, each byte least significant bit first. -/
def ofBytes (bytes : List (BitVec 8)) : List Bool := bytes.flatMap (fun b => lsb 8 b.toNat)

@[simp] theorem ofBytes_nil : ofBytes [] = [] := rfl

@[simp] theorem ofBytes_cons (b : BitVec 8) (bytes : List (BitVec 8)) :
    ofBytes (b :: bytes) = lsb 8 b.toNat ++ ofBytes bytes := rfl

@[simp] theorem ofBytes_append (first second : List (BitVec 8)) :
    ofBytes (first ++ second) = ofBytes first ++ ofBytes second := List.flatMap_append

@[simp] theorem ofBytes_length (bytes : List (BitVec 8)) : (ofBytes bytes).length = 8 * bytes.length := by
  induction bytes with
  | nil => rfl
  | cons b rest ih =>
      rw [ofBytes_cons, List.length_append, lsb_length, ih, List.length_cons]
      omega

/-- A bit string that is whole bytes long comes from one byte string. -/
theorem ofBytes_injective {first second : List (BitVec 8)} (length : first.length = second.length)
    (same : ofBytes first = ofBytes second) : first = second := by
  induction first generalizing second with
  | nil =>
      cases second with
      | nil => rfl
      | cons b rest => simp at length
  | cons a rest ih =>
      cases second with
      | nil => simp at length
      | cons b more =>
          rw [ofBytes_cons, ofBytes_cons] at same
          rcases List.append_inj same (by simp) with ⟨head, tail⟩
          have one := lsb_injective a.isLt b.isLt head
          rw [BitVec.eq_of_toNat_eq one, ih (by simpa using length) tail]

/-- A mask of `k + 1` bits without the lowest one. -/
theorem land_even_mask (x k : ℕ) : x &&& (2 ^ (k + 1) - 2) = x / 2 % 2 ^ k * 2 := by
  have mask : 2 ^ (k + 1) - 2 = (2 ^ k - 1) * 2 := by
    rw [pow_succ]
    omega
  have half : (x &&& (2 ^ k - 1) * 2) / 2 = x / 2 % 2 ^ k := by
    rw [Nat.and_div_two, Nat.mul_div_cancel _ Nat.two_pos, Nat.and_two_pow_sub_one_eq_mod]
  have low : (x &&& (2 ^ k - 1) * 2) % 2 = 0 := by
    rw [← pow_one 2, Nat.and_mod_two_pow]
    simp
  rw [mask]
  omega

end Segarecomp.Lib.Bits

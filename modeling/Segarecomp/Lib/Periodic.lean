import Mathlib.Tactic

/-! Periodic marks on a time line, and folds over the positions between two times. -/

namespace Segarecomp.Lib.Periodic

/-! ## Marks -/

/-- One of the marks `first`, `first + period`, … lies after `a` and not after `b`. -/
def Marked (first period a b : ℕ) : Prop :=
  ∃ k, a < first + k * period ∧ first + k * period ≤ b

section Marked

variable {first period unit a b n : ℕ}

theorem marked_iff_of_lt (before : a < first) : Marked first period a b ↔ first ≤ b := by
  constructor
  · rintro ⟨k, -, within⟩
    exact (Nat.le_add_right _ _).trans within
  · intro within
    exact ⟨0, by simpa using before, by simpa using within⟩

theorem marked_iff_of_le (pos : 0 < period) (le : a ≤ b) (after : first ≤ a) :
    Marked first period a b ↔ (a - first) / period ≠ (b - first) / period := by
  have mono : (a - first) / period ≤ (b - first) / period := Nat.div_le_div_right (by omega)
  constructor
  · rintro ⟨k, past, within⟩
    have low : (a - first) / period < k := (Nat.div_lt_iff_lt_mul pos).mpr (by omega)
    have high : k ≤ (b - first) / period := (Nat.le_div_iff_mul_le pos).mpr (by omega)
    omega
  · intro differ
    have low : (a - first) / period < (b - first) / period := by omega
    have past := (Nat.div_lt_iff_lt_mul pos).mp low
    have within := Nat.div_mul_le_self (b - first) period
    exact ⟨(b - first) / period, by omega, by omega⟩

theorem marked_iff (pos : 0 < period) (le : a ≤ b) :
    Marked first period a b ↔
      if a < first then first ≤ b else (a - first) / period ≠ (b - first) / period := by
  split_ifs with before
  · exact marked_iff_of_lt before
  · exact marked_iff_of_le pos le (by omega)

def decidableMarked (pos : 0 < period) : Decidable (Marked first period a b) :=
  if le : a ≤ b then decidable_of_iff _ (marked_iff pos le).symm
  else isFalse fun ⟨_, past, within⟩ => le (past.le.trans within)

/-- Marks at multiples of a unit are marks of the time counted in units. -/
theorem marked_scale (pos : 0 < unit) :
    Marked (first * unit) (period * unit) a b ↔ Marked first period (a / unit) (b / unit) := by
  have tick (k : ℕ) : first * unit + k * (period * unit) = (first + k * period) * unit := by ring
  refine exists_congr fun k => ?_
  rw [tick, Nat.div_lt_iff_lt_mul pos, Nat.le_div_iff_mul_le pos]

theorem marked_iff_mod (small : first < period) :
    Marked first period a b ↔ ∃ n, a < n ∧ n ≤ b ∧ n % period = first := by
  constructor
  · rintro ⟨k, past, within⟩
    exact ⟨first + k * period, past, within, by rw [Nat.add_mul_mod_self_right, Nat.mod_eq_of_lt small]⟩
  · rintro ⟨n, past, within, phase⟩
    have eq : first + n / period * period = n := by rw [← phase, Nat.mul_comm, Nat.mod_add_div]
    exact ⟨n / period, by rw [eq]; exact past, by rw [eq]; exact within⟩

end Marked

/-! ## Sweeps -/

section Sweep

variable {σ τ : Type*} {f : σ → ℕ → σ} {a b c : ℕ} {s : σ}

/-- Folds over the positions after `a` and up to `b`. -/
def sweep (f : σ → ℕ → σ) (a b : ℕ) (s : σ) : σ := (List.range' (a + 1) (b - a)).foldl f s

theorem sweep_self : sweep f a a s = s := by
  rw [sweep, Nat.sub_self]
  rfl

theorem sweep_trans (le : a ≤ b) (le' : b ≤ c) : sweep f b c (sweep f a b s) = sweep f a c s := by
  have joined : List.range' (a + 1) (c - a) =
      List.range' (a + 1) (b - a) ++ List.range' (b + 1) (c - b) := by
    rw [show c - a = (b - a) + (c - b) by omega, ← List.range'_append_1,
      show a + 1 + (b - a) = b + 1 by omega]
  rw [sweep, sweep, sweep, joined, List.foldl_append]

theorem sweep_succ (le : a ≤ b) : sweep f a (b + 1) s = f (sweep f a b s) (b + 1) := by
  rw [← sweep_trans le (Nat.le_succ b)]
  rw [sweep, show b + 1 - b = 1 by omega]
  rfl

/-- What holds at the start and is kept at every position swept holds at the end. -/
theorem sweep_keeps {P : σ → Prop} (keeps : ∀ n s, a < n → n ≤ b → P s → P (f s n)) (h : P s) :
    P (sweep f a b s) := by
  rcases Nat.le_total b a with none | le
  · rw [sweep, Nat.sub_eq_zero_of_le none]
    exact h
  · induction b, le using Nat.le_induction with
    | base => rwa [sweep_self]
    | succ b le ih =>
        rw [sweep_succ le]
        exact keeps (b + 1) _ (by omega) le_rfl (ih fun n s past within => keeps n s past (by omega))

/-- A map that takes every step of one fold to a step of the other takes the fold to the fold. -/
theorem sweep_map {f' : τ → ℕ → τ} {h : σ → τ}
    (maps : ∀ n s, a < n → n ≤ b → h (f s n) = f' (h s) n) :
    h (sweep f a b s) = sweep f' a b (h s) := by
  rcases Nat.le_total b a with none | le
  · rw [sweep, sweep, Nat.sub_eq_zero_of_le none]
    rfl
  · induction b, le using Nat.le_induction with
    | base => rw [sweep_self, sweep_self]
    | succ b le ih =>
        have before := ih fun n s past within => maps n s past (by omega)
        rw [sweep_succ le, sweep_succ le, ← before]
        exact maps (b + 1) _ (by omega) le_rfl

end Sweep

end Segarecomp.Lib.Periodic

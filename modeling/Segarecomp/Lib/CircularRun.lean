import Mathlib.Algebra.Ring.Periodic
import Mathlib.Data.Nat.ModEq
import Mathlib.Tactic

/-! Runs of a predicate over a circular index space: the run of `true` values that starts at an
index, and the backwards table that holds the end of the run of every index at once. -/

namespace Segarecomp.Lib.CircularRun

variable {p : ℕ → Bool} {N : ℕ}

/-- From `a` there are exactly `k` true positions before the first false one. -/
def IsRun (p : ℕ → Bool) (a k : ℕ) : Prop :=
  (∀ d < k, p (a + d) = true) ∧ p (a + k) = false

theorem isRun_zero {a : ℕ} (h : p a = false) : IsRun p a 0 :=
  ⟨fun d hd => absurd hd (Nat.not_lt_zero d), h⟩

theorem IsRun.step {a k : ℕ} (h : p a = true) (run : IsRun p (a + 1) k) : IsRun p a (k + 1) := by
  constructor
  · intro d hd
    cases d with
    | zero => exact h
    | succ d =>
        have := run.1 d (by omega)
        rwa [show a + 1 + d = a + (d + 1) by omega] at this
  · have := run.2
    rwa [show a + 1 + k = a + (k + 1) by omega] at this

theorem IsRun.tail {a k : ℕ} (run : IsRun p a (k + 1)) : p a = true ∧ IsRun p (a + 1) k := by
  refine ⟨by simpa using run.1 0 (by omega), ?_, ?_⟩
  · intro d hd
    rw [show a + 1 + d = a + (d + 1) by omega]
    exact run.1 (d + 1) (by omega)
  · rw [show a + 1 + k = a + (k + 1) by omega]
    exact run.2

theorem IsRun.head {a : ℕ} (run : IsRun p a 0) : p a = false := run.2

theorem IsRun.congr (periodic : Function.Periodic p N) {a b k : ℕ} (h : a ≡ b [MOD N])
    (run : IsRun p a k) : IsRun p b k := by
  have same : ∀ d, p (b + d) = p (a + d) := by
    intro d
    have hmod : (b + d) % N = (a + d) % N := (h.symm.add_right d)
    rw [← periodic.map_mod_nat (b + d), hmod, periodic.map_mod_nat]
  exact ⟨fun d hd => by rw [same]; exact run.1 d hd, by rw [same]; exact run.2⟩

/-- One backwards step from `anchor`: a true position inherits its successor's run end. -/
def endStep (p : ℕ → Bool) (N anchor : ℕ) (ends : ℕ → ℕ) (step : ℕ) : ℕ → ℕ :=
  let a := (anchor + N - step) % N
  Function.update ends a (if p a then ends ((a + 1) % N) else a)

def endTable (p : ℕ → Bool) (N anchor : ℕ) : ℕ → ℕ :=
  (List.range' 1 (N - 1)).foldl (endStep p N anchor) (Function.update (fun _ => 0) anchor anchor)

/-- The positions `anchor`, `anchor - 1`, …, `anchor - m` already hold their run ends. -/
def Filled (p : ℕ → Bool) (N anchor m : ℕ) (ends : ℕ → ℕ) : Prop :=
  ∀ s ≤ m, ∃ k ≤ s, IsRun p (anchor + N - s) k ∧ ends ((anchor + N - s) % N) = (anchor + N - s + k) % N

theorem filled_zero (periodic : Function.Periodic p N) {anchor : ℕ} (inside : anchor < N)
    (stop : p anchor = false) :
    Filled p N anchor 0 (Function.update (fun _ => 0) anchor anchor) := by
  intro s hs
  obtain rfl : s = 0 := by omega
  have hmod : (anchor + N) % N = anchor := by rw [Nat.add_mod_right, Nat.mod_eq_of_lt inside]
  refine ⟨0, le_rfl, ?_, ?_⟩
  · simpa using isRun_zero (p := p) (a := anchor + N) (by rw [periodic anchor]; exact stop)
  · simp [hmod]

/-- Distinct distances below `N` from the anchor are distinct positions. -/
theorem back_ne {anchor s m : ℕ} (hs : s ≤ m) (hm : m + 1 < N) :
    (anchor + N - s) % N ≠ (anchor + N - (m + 1)) % N := by
  intro h
  have hcong : anchor + N - (m + 1) ≡ anchor + N - s [MOD N] := h.symm
  have hdvd := (Nat.modEq_iff_dvd' (by omega)).mp hcong
  have hlt : anchor + N - s - (anchor + N - (m + 1)) < N := by omega
  have hpos : 0 < anchor + N - s - (anchor + N - (m + 1)) := by omega
  exact absurd (Nat.le_of_dvd hpos hdvd) (by omega)

theorem filled_succ (periodic : Function.Periodic p N) {anchor m : ℕ} {ends : ℕ → ℕ}
    (hm : m + 1 < N) (filled : Filled p N anchor m ends) :
    Filled p N anchor (m + 1) (endStep p N anchor ends (m + 1)) := by
  intro s hs
  rcases Nat.lt_or_ge s (m + 1) with hlt | hge
  · rcases filled s (by omega) with ⟨k, hk, run, value⟩
    refine ⟨k, hk, run, ?_⟩
    rw [endStep, Function.update_of_ne (back_ne (by omega) hm), value]
  · obtain rfl : s = m + 1 := by omega
    have here : p ((anchor + N - (m + 1)) % N) = p (anchor + N - (m + 1)) := periodic.map_mod_nat _
    simp only [endStep, Function.update_self, here]
    cases hp : p (anchor + N - (m + 1)) with
    | false =>
        exact ⟨0, by omega, isRun_zero hp, by simp⟩
    | true =>
        rcases filled m le_rfl with ⟨k, hk, run, value⟩
        have next : anchor + N - (m + 1) + 1 = anchor + N - m := by omega
        refine ⟨k + 1, by omega, IsRun.step hp (by rw [next]; exact run), ?_⟩
        have succMod : ((anchor + N - (m + 1)) % N + 1) % N = (anchor + N - m) % N := by
          rw [Nat.mod_add_mod, next]
        rw [if_pos rfl, succMod, value]
        congr 1
        omega

theorem filled_fold (periodic : Function.Periodic p N) {anchor : ℕ} (inside : anchor < N)
    (stop : p anchor = false) (m : ℕ) (hm : m < N) :
    Filled p N anchor m ((List.range' 1 m).foldl (endStep p N anchor)
      (Function.update (fun _ => 0) anchor anchor)) := by
  induction m with
  | zero => exact filled_zero periodic inside stop
  | succ m ih =>
      rw [List.range'_concat, List.foldl_append]
      simpa [Nat.add_comm] using filled_succ periodic hm (ih (by omega))

/-- The finished table holds, for every position, the end of the run that starts there. -/
theorem endTable_spec (periodic : Function.Periodic p N) {anchor : ℕ} (inside : anchor < N)
    (stop : p anchor = false) {a : ℕ} (ha : a < N) :
    ∃ k < N, IsRun p a k ∧ endTable p N anchor a = (a + k) % N := by
  let s := (anchor + N - a) % N
  have hs : s < N := Nat.mod_lt _ (by omega)
  have back : anchor + N - s ≡ a [MOD N] := by
    rcases Nat.lt_or_ge anchor a with h | h
    · have : s = anchor + N - a := Nat.mod_eq_of_lt (by omega)
      rw [this, show anchor + N - (anchor + N - a) = a by omega]
    · have : s = anchor - a := by
        show (anchor + N - a) % N = _
        rw [show anchor + N - a = anchor - a + N by omega, Nat.add_mod_right,
          Nat.mod_eq_of_lt (by omega)]
      rw [this, show anchor + N - (anchor - a) = a + N by omega]
      exact Nat.add_mod_right a N
  rcases filled_fold periodic inside stop (N - 1) (by omega) s (by omega) with ⟨k, hk, run, value⟩
  refine ⟨k, by omega, run.congr periodic back, ?_⟩
  have hmod : (anchor + N - s) % N = a := by
    rw [show (anchor + N - s) % N = a % N from back, Nat.mod_eq_of_lt ha]
  rw [endTable, ← hmod, value, Nat.mod_add_mod]

/-- The run length is recovered from its circular end. -/
theorem length_of_end {a k : ℕ} (ha : a < N) (hk : k < N) : ((a + k) % N + N - a) % N = k := by
  rcases Nat.lt_or_ge (a + k) N with h | h
  · rw [Nat.mod_eq_of_lt h, show a + k + N - a = k + N by omega, Nat.add_mod_right,
      Nat.mod_eq_of_lt hk]
  · rw [Nat.mod_eq_sub_mod h, Nat.mod_eq_of_lt (by omega : a + k - N < N),
      show a + k - N + N - a = k by omega, Nat.mod_eq_of_lt hk]

/-- The position before a circular end is the last true position of a non-empty run. -/
theorem pred_of_end {a k : ℕ} (hN : 0 < N) : ((a + (k + 1)) % N + N - 1) % N = (a + k) % N := by
  have lt := Nat.mod_lt (a + (k + 1)) hN
  have eq : a + (k + 1) = (a + k) + 1 := by omega
  rcases Nat.lt_or_ge ((a + k) % N + 1) N with h | h
  · have : (a + (k + 1)) % N = (a + k) % N + 1 := by
      rw [eq, Nat.add_mod, Nat.mod_eq_of_lt (show 1 < N by omega), Nat.mod_eq_of_lt h]
    rw [this, show (a + k) % N + 1 + N - 1 = (a + k) % N + N by omega, Nat.add_mod_right, Nat.mod_mod]
  · have last : (a + k) % N = N - 1 := by
      have := Nat.mod_lt (a + k) hN
      omega
    have wrap : (a + (k + 1)) % N = 0 := by
      rw [eq, ← Nat.mod_add_mod, last, Nat.sub_add_cancel hN, Nat.mod_self]
    rw [wrap, last, Nat.zero_add, Nat.mod_eq_of_lt (by omega)]

end Segarecomp.Lib.CircularRun

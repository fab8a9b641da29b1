import Mathlib.Tactic

/-! Binary search for the boundary of a property that holds on a front part of the indexes. -/

namespace Segarecomp.Bisect

variable {before : ℕ → Bool} {low high i : ℕ}

/-- The loop that halves `[low, high)`, keeping to the right of the indexes where `before` holds. -/
def bisect (before : ℕ → Bool) (low high : ℕ) : ℕ :=
  if low < high then
    let middle := low + (high - low) / 2
    if before middle then bisect before (middle + 1) high else bisect before low middle
  else low
termination_by high - low

/-- Nothing that the property has comes after something that it has not. -/
def Front (before : ℕ → Bool) (high : ℕ) : Prop := ∀ i j, i ≤ j → j < high → before j = true → before i = true

/-- The search ends inside, after the indexes where the property holds and not after others. -/
theorem bisect_spec (le : low ≤ high) :
    (low ≤ bisect before low high ∧ bisect before low high ≤ high) ∧ (Front before high →
      (∀ i, low ≤ i → i < bisect before low high → before i = true) ∧
        ∀ i, bisect before low high ≤ i → i < high → before i = false) := by
  fun_induction bisect before low high with
  | case1 low high lt middle holds ih =>
      rcases ih (by omega) with ⟨⟨lower, upper⟩, exact'⟩
      refine ⟨⟨by omega, upper⟩, fun front => ⟨?_, (exact' front).2⟩⟩
      intro i from_low below
      rcases Nat.lt_or_ge middle i with right | left
      · exact (exact' front).1 i right below
      · exact front i middle left (by omega) holds
  | case2 low high lt middle fails ih =>
      rcases ih (by omega) with ⟨⟨lower, upper⟩, exact'⟩
      refine ⟨⟨lower, by omega⟩, fun front => ?_⟩
      rcases exact' (fun i j le upper => front i j le (by omega)) with ⟨inside, outside⟩
      refine ⟨inside, ?_⟩
      intro i above upper
      rcases Nat.lt_or_ge i middle with left | right
      · exact outside i above left
      · by_contra holds
        exact fails (front middle i right upper (Bool.not_eq_false _ ▸ holds))
  | case3 low high done =>
      exact ⟨⟨le_rfl, le⟩, fun _ => ⟨fun i from_low below => by omega, fun i above upper => by omega⟩⟩

/-- The search over `[0, n)` ends where the property does. -/
theorem lt_bisect_iff (front : Front before high) (upper : i < high) : i < bisect before 0 high ↔ before i = true := by
  constructor
  · exact ((bisect_spec (Nat.zero_le high)).2 front).1 i (Nat.zero_le i)
  · intro holds
    by_contra out
    rw [((bisect_spec (Nat.zero_le high)).2 front).2 i (Nat.le_of_not_lt out) upper] at holds
    exact Bool.false_ne_true holds

theorem bisect_le (before : ℕ → Bool) (high : ℕ) : bisect before 0 high ≤ high :=
  (bisect_spec (Nat.zero_le high)).1.2

/-! ## Sorted keys -/

section

variable {key : ℕ → ℕ} {n a : ℕ}

/-- The keys below `n` ascend. -/
def Sorted (key : ℕ → ℕ) (n : ℕ) : Prop := ∀ i j, i < j → j < n → key i < key j

theorem Sorted.le (sorted : Sorted key n) {j : ℕ} (le : i ≤ j) (upper : j < n) : key i ≤ key j := by
  rcases Nat.eq_or_lt_of_le le with rfl | lt
  · exact le_rfl
  · exact (sorted i j lt upper).le

theorem Sorted.front_lt (sorted : Sorted key n) (a : ℕ) : Front (fun i => decide (key i < a)) n := by
  intro i j le upper holds
  exact decide_eq_true (Nat.lt_of_le_of_lt (sorted.le le upper) (of_decide_eq_true holds))

theorem Sorted.front_le (sorted : Sorted key n) (a : ℕ) : Front (fun i => decide (key i ≤ a)) n := by
  intro i j le upper holds
  exact decide_eq_true (Nat.le_trans (sorted.le le upper) (of_decide_eq_true holds))

/-- A lower-bound search ends at the place of a key that is there. -/
theorem Sorted.lowerBound_eq (sorted : Sorted key n) (upper : i < n) (is : key i = a) :
    bisect (fun m => decide (key m < a)) 0 n = i := by
  have not_after : ¬ i < bisect (fun m => decide (key m < a)) 0 n := by
    rw [lt_bisect_iff (sorted.front_lt a) upper, decide_eq_true_iff, is]
    exact Nat.lt_irrefl a
  by_contra other
  have earlier : bisect (fun m => decide (key m < a)) 0 n < i := by omega
  have below : key (bisect (fun m => decide (key m < a)) 0 n) < a := (sorted _ _ earlier upper).trans_eq is
  have passed := (lt_bisect_iff (sorted.front_lt a) (earlier.trans upper)).mpr (decide_eq_true below)
  exact Nat.lt_irrefl _ passed

/-- An upper-bound search counts the keys up to the one sought. -/
theorem Sorted.lt_upperBound_iff (sorted : Sorted key n) (upper : i < n) :
    i < bisect (fun m => decide (key m ≤ a)) 0 n ↔ key i ≤ a := by
  rw [lt_bisect_iff (sorted.front_le a) upper, decide_eq_true_iff]

end

end Segarecomp.Bisect

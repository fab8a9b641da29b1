import Mathlib.Tactic

/-! Windows of a rational rate over a clock: window `k` starts at `⌈k * num / den⌉`, and entries that
stand at the multiples of a step fall into the windows one after the other. -/

namespace Segarecomp.RateWindows

variable {α β : Type*} {num den step : ℕ}

/-- The first clock value of window `k`. -/
def start (num den k : ℕ) : ℕ := (k * num + (den - 1)) / den

/-- How many windows are over at clock `t`, which is also the window that `t` lies in. -/
def windowAt (num den t : ℕ) : ℕ := t * den / num

/-- The entries of window `k`: entry `j` stands at clock `j * step`. -/
def inside (num den step : ℕ) (xs : List α) (k : ℕ) : List α :=
  (xs.zipIdx.filter fun e =>
    decide (start num den k ≤ e.2 * step ∧ e.2 * step < start num den (k + 1))).map Prod.fst

/-- How many of the entries `0 .. n - 1` lie in window `k`. -/
def population (num den step n k : ℕ) : ℕ :=
  ((List.range n).filter fun j =>
    decide (start num den k ≤ j * step ∧ j * step < start num den (k + 1))).length

/-- A value for each window: made from its entries, or kept from the window before it when there are
none. `carried … k` is what stands when window `k` opens. -/
def carried (value : List α → β) (first : β) (parts : ℕ → List α) : ℕ → β
  | 0 => first
  | k + 1 => if parts k = [] then carried value first parts k else value (parts k)

/-! ## Boundaries -/

theorem start_le_iff (num_pos : 0 < num) (den_pos : 0 < den) {k t : ℕ} :
    start num den k ≤ t ↔ k ≤ windowAt num den t := by
  rw [start, windowAt, Nat.le_div_iff_mul_le num_pos, ← Nat.lt_succ_iff, Nat.div_lt_iff_lt_mul den_pos,
    Nat.succ_mul]
  omega

theorem within_iff (num_pos : 0 < num) (den_pos : 0 < den) {k t : ℕ} :
    start num den k ≤ t ∧ t < start num den (k + 1) ↔ windowAt num den t = k := by
  rw [start_le_iff num_pos den_pos, ← not_le, start_le_iff num_pos den_pos]
  omega

theorem windowAt_mono {s t : ℕ} (le : s ≤ t) : windowAt num den s ≤ windowAt num den t := by
  rw [windowAt, windowAt]
  exact Nat.div_le_div_right (Nat.mul_le_mul_right den le)

theorem windowAt_zero : windowAt num den 0 = 0 := by
  rw [windowAt, Nat.zero_mul, Nat.zero_div]

/-- The ceiling as quotient and remainder give it. -/
theorem start_eq_div_add (den_pos : 0 < den) (k : ℕ) :
    k * num / den + (if k * num % den = 0 then 0 else 1) = start num den k := by
  have parts := Nat.div_add_mod (k * num) den
  have rest := Nat.mod_lt (k * num) den_pos
  rw [start]
  generalize k * num / den = quotient at *
  generalize k * num % den = remainder at *
  rw [← parts]
  split_ifs with exact
  · rw [exact, Nat.add_zero, Nat.add_zero, Nat.mul_add_div den_pos, Nat.div_eq_of_lt (by omega),
      Nat.add_zero]
  · have next : remainder + (den - 1) = den * 1 + (remainder - 1) := by omega
    rw [Nat.add_assoc, next, Nat.mul_add_div den_pos, Nat.mul_add_div den_pos,
      Nat.div_eq_of_lt (by omega), Nat.add_zero]

/-! ## Entries -/

theorem inside_append (num_pos : 0 < num) (den_pos : 0 < den) (xs : List α) (x : α) (k : ℕ) :
    inside num den step (xs ++ [x]) k =
      if windowAt num den (xs.length * step) = k then inside num den step xs k ++ [x]
      else inside num den step xs k := by
  rw [inside, List.zipIdx_append, List.filter_append, List.map_append]
  split_ifs with here
  · congr 1
    simp [within_iff num_pos den_pos, here]
  · simp [within_iff num_pos den_pos, here, inside]

/-- A window that starts after the last entry has none. -/
theorem inside_eq_nil (num_pos : 0 < num) (den_pos : 0 < den) {xs : List α} {k : ℕ}
    (before : ∀ j < xs.length, windowAt num den (j * step) < k) : inside num den step xs k = [] := by
  induction xs using List.reverseRecOn with
  | nil => rfl
  | append_singleton xs x ih =>
      have last := before xs.length (by simp)
      rw [inside_append num_pos den_pos, if_neg (Nat.ne_of_lt last)]
      exact ih fun j lt => before j (by rw [List.length_append]; omega)

theorem inside_eq_self (num_pos : 0 < num) (den_pos : 0 < den) {xs : List α} {k : ℕ}
    (all : ∀ j < xs.length, windowAt num den (j * step) = k) : inside num den step xs k = xs := by
  induction xs using List.reverseRecOn with
  | nil => rfl
  | append_singleton xs x ih =>
      rw [inside_append num_pos den_pos, if_pos (all xs.length (by simp)),
        ih fun j lt => all j (by rw [List.length_append]; omega)]

theorem length_inside (xs : List α) {n k : ℕ} (long : xs.length = n) :
    (inside num den step xs k).length = population num den step n k := by
  rw [inside, population, List.length_map, ← long, List.range_eq_range', ← List.zipIdx_map_snd, List.filter_map,
    List.length_map]
  rfl

theorem population_mono {n m k : ℕ} (le : n ≤ m) : population num den step n k ≤ population num den step m k := by
  have front : (List.range n).Sublist (List.range m) := List.range_sublist.mpr le
  exact (front.filter _).length_le

theorem mem_of_mem_inside {xs : List α} {k : ℕ} {x : α} (is : x ∈ inside num den step xs k) : x ∈ xs := by
  rw [inside, List.mem_map] at is
  obtain ⟨entry, kept, rfl⟩ := is
  exact List.fst_mem_of_mem_zipIdx (List.mem_of_mem_filter kept)

/-! ## Carried values -/

section

variable {value : List α → β} {first : β} {parts parts' : ℕ → List α}

theorem carried_succ (k : ℕ) :
    carried value first parts (k + 1) =
      if parts k = [] then carried value first parts k else value (parts k) := rfl

theorem carried_congr {k : ℕ} (same : ∀ j < k, parts j = parts' j) :
    carried value first parts k = carried value first parts' k := by
  induction k with
  | zero => rfl
  | succ k ih =>
      rw [carried_succ, carried_succ, same k (Nat.lt_succ_self k),
        ih fun j lt => same j (Nat.lt_succ_of_lt lt)]

end

end Segarecomp.RateWindows

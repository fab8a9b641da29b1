import Mathlib.Tactic

/-! A memory whose writes are journaled with the line they were made in: what it held when a line
was entered is the start image with the writes made before that line. -/

namespace Segarecomp.Lib.Journal

variable {M W : Type*} {store : M → W → M} {line : W → ℕ} {writes : List W} {start now : M} {w : W}
  {seen : ℕ → M} {k k' last : ℕ}

/-- How many writes stand before the first one that was not made before line `k`. -/
def reach (line : W → ℕ) (writes : List W) (k : ℕ) : ℕ := writes.findIdx fun w => decide (k ≤ line w)

def asOf (store : M → W → M) (line : W → ℕ) (start : M) (writes : List W) (k : ℕ) : M :=
  (writes.take (reach line writes k)).foldl store start

theorem reach_le : reach line writes k ≤ writes.length := List.findIdx_le_length

theorem reach_append (late : k ≤ line w) : reach line (writes ++ [w]) k = reach line writes k := by
  have bound : reach line writes k ≤ writes.length := reach_le
  have single : ([w] : List W).findIdx (fun w => decide (k ≤ line w)) = 0 := by
    rw [List.findIdx_cons, decide_eq_true late]
    rfl
  rw [reach] at bound ⊢
  rw [List.findIdx_append, single, reach]
  split_ifs with found
  · rfl
  · omega

theorem asOf_append (late : k ≤ line w) :
    asOf store line start (writes ++ [w]) k = asOf store line start writes k := by
  rw [asOf, asOf, reach_append late, List.take_append_of_le_length reach_le]

theorem reach_all (early : ∀ w ∈ writes, line w < k) : reach line writes k = writes.length := by
  rw [reach, List.findIdx_eq_length]
  intro w mem
  exact decide_eq_false (Nat.not_le.mpr (early w mem))

theorem asOf_all (early : ∀ w ∈ writes, line w < k) :
    asOf store line start writes k = writes.foldl store start := by
  rw [asOf, reach_all early, List.take_length]

/-! ## Keeping the journal -/

/-- `seen k` is the memory as line `k` was entered, for the lines up to `last`, and `now` what it
holds since. -/
structure Recorded (store : M → W → M) (line : W → ℕ) (start : M) (writes : List W) (seen : ℕ → M)
    (last : ℕ) (now : M) : Prop where
  early : ∀ w ∈ writes, line w ≤ last
  past : ∀ k ≤ last, seen k = asOf store line start writes k
  present : now = writes.foldl store start

theorem recorded_start (first : seen 0 = start) : Recorded store line start [] seen 0 start where
  early := fun _ mem => absurd mem List.not_mem_nil
  past := by
    intro k le
    rw [Nat.le_zero.mp le]
    exact first
  present := rfl

theorem Recorded.write (recorded : Recorded store line start writes seen last now) (stamped : line w = last) :
    Recorded store line start (writes ++ [w]) seen last (store now w) where
  early := by
    intro v mem
    rcases List.mem_append.mp mem with old | new
    · exact recorded.early v old
    · rw [List.mem_singleton.mp new]
      exact stamped.le
  past := by
    intro k le
    rw [asOf_append (le.trans stamped.ge)]
    exact recorded.past k le
  present := by rw [List.foldl_concat, ← recorded.present]

theorem Recorded.enter (recorded : Recorded store line start writes seen last now)
    (entered : seen (last + 1) = now) : Recorded store line start writes seen (last + 1) now where
  early := fun w mem => (recorded.early w mem).trans (Nat.le_succ last)
  past := by
    intro k le
    rcases Nat.le_or_eq_of_le_succ le with old | rfl
    · exact recorded.past k old
    · rw [entered, recorded.present]
      exact (asOf_all fun w mem => Nat.lt_succ_of_le (recorded.early w mem)).symm
  present := recorded.present

/-! ## Reading the journal -/

/-- A reader that has applied some of the writes applies those made before line `k`. -/
def catchUp (store : M → W → M) (line : W → ℕ) (writes : List W) (k : ℕ) : (steps : ℕ) → ℕ × M → ℕ × M
  | 0, reader => reader
  | steps + 1, reader =>
      match writes[reader.1]? with
      | none => reader
      | some w =>
          if line w < k then catchUp store line writes k steps (reader.1 + 1, store reader.2 w) else reader

theorem reach_mono (le : k ≤ k') : reach line writes k ≤ reach line writes k' := by
  rw [reach, reach]
  by_contra past
  have found := Nat.lt_of_not_le past
  have within : writes.findIdx (fun w => decide (k' ≤ line w)) < writes.length :=
    found.trans_le List.findIdx_le_length
  have late := List.findIdx_getElem (w := within)
  exact absurd (le.trans (of_decide_eq_true late)) (of_decide_eq_false (List.not_of_lt_findIdx found)) 

theorem catchUp_spec (steps : ℕ) {i : ℕ} (before : i ≤ reach line writes k) (enough : writes.length ≤ i + steps) :
    catchUp store line writes k steps (i, (writes.take i).foldl store start) =
      (reach line writes k, asOf store line start writes k) := by
  induction steps generalizing i with
  | zero =>
      have bound : reach line writes k ≤ writes.length := reach_le
      have there : i = reach line writes k := by omega
      rw [catchUp, asOf, there]
  | succ steps ih =>
      rw [catchUp]
      by_cases more : i < reach line writes k
      · have within : i < writes.length := more.trans_le reach_le
        have early : line writes[i] < k := by
          have passed := List.not_of_lt_findIdx more
          exact Nat.lt_of_not_le (of_decide_eq_false passed)
        have applied : store ((writes.take i).foldl store start) writes[i] =
            (writes.take (i + 1)).foldl store start := by
          rw [List.take_succ_eq_append_getElem within, List.foldl_concat]
        simp only [List.getElem?_eq_getElem within]
        rw [if_pos early, applied]
        exact ih more (by omega)
      · have there : i = reach line writes k := Nat.le_antisymm before (Nat.not_lt.mp more)
        by_cases within : i < writes.length
        · have late : ¬ line writes[i] < k := by
            have found := List.findIdx_getElem (w := there ▸ within)
            subst there
            exact Nat.not_lt.mpr (of_decide_eq_true found)
          simp only [List.getElem?_eq_getElem within]
          rw [if_neg late, asOf, there]
        · simp only [List.getElem?_eq_none (Nat.not_lt.mp within)]
          rw [asOf, there]

end Segarecomp.Lib.Journal

import Mathlib.Tactic

/-! Writing a buffer element by element, where a written element may be read again by the same
loop. `grow` appends to a list; `blit` overwrites a preallocated buffer in place. -/

namespace Segarecomp.Lib.Overlap

variable {α : Type}

/-- Append `n` elements, each computed from what has been written so far and its index. -/
def grow (next : List α → ℕ → α) (written : List α) : ℕ → List α
  | 0 => written
  | n + 1 => grow next written n ++ [next (grow next written n) n]

/-- Overwrite `n` elements from `start`, each read from the buffer as it stands. -/
def blit (read : List α → ℕ → α) (start : ℕ) (buffer : List α) : ℕ → List α
  | 0 => buffer
  | n + 1 => (blit read start buffer n).set (start + n) (read (blit read start buffer n) n)

@[simp] theorem grow_length (next : List α → ℕ → α) (written : List α) (n : ℕ) :
    (grow next written n).length = written.length + n := by
  induction n with
  | zero => rfl
  | succ n ih => simp [grow, ih, Nat.add_assoc]

theorem grow_congr {next next' : List α → ℕ → α} {written : List α} {n : ℕ}
    (same : ∀ k < n, ∀ done, next done k = next' done k) :
    grow next written n = grow next' written n := by
  induction n with
  | zero => rfl
  | succ n ih => rw [grow, grow, ih (fun k hk => same k (by omega)), same n (by omega)]

/-- The in-place loop writes what the appending loop appends, when no read looks past the
written part. -/
theorem blit_eq_grow (read next : List α → ℕ → α) (written tail : List α) (n : ℕ)
    (room : n ≤ tail.length)
    (agree : ∀ done rest k, done.length = written.length + k → k < n →
      read (done ++ rest) k = next done k) :
    blit read written.length (written ++ tail) n = grow next written n ++ tail.drop n := by
  induction n with
  | zero => simp [blit, grow]
  | succ n ih =>
      have before := ih (by omega) (fun done rest k h hk => agree done rest k h (by omega))
      have value := agree (grow next written n) (tail.drop n) n (grow_length next written n) (by omega)
      have split : tail.drop n = tail.get ⟨n, room⟩ :: tail.drop (n + 1) := by
        rw [List.get_eq_getElem, List.getElem_cons_drop]
      rw [blit, before, value, grow, List.set_append_right _ _ (by rw [grow_length]), grow_length,
        Nat.sub_self, split, List.set_cons_zero, List.append_assoc]
      rfl

/-- Reading from a fixed list appends a slice of it. -/
theorem grow_slice [Inhabited α] (from_ written : List α) (start n : ℕ)
    (inside : start + n ≤ from_.length) :
    grow (fun _ i => from_.getD (start + i) default) written n =
      written ++ (from_.drop start).take n := by
  induction n with
  | zero => simp [grow]
  | succ n ih =>
      have bound : start + n < from_.length := by omega
      rw [grow, ih (by omega), List.append_assoc, List.take_add_one, List.getElem?_drop,
        List.getElem?_eq_getElem bound, List.getD_eq_getElem?_getD, List.getElem?_eq_getElem bound]
      rfl

end Segarecomp.Lib.Overlap

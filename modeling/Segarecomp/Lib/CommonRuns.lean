import Mathlib.Tactic

/-! Stretches on which two lists agree. A stretch that is made as long as it can be on both sides is the one
maximal stretch through each of its places. Of some stretches one may be longer than all the others. -/

namespace Segarecomp.Lib.CommonRuns

variable {α : Type*} {xs ys : List α} {i j n p q i' j' n' : ℕ}

/-- The lists agree on `n` places, from `i` in one and from `j` in the other. -/
structure Agrees (xs ys : List α) (i j n : ℕ) : Prop where
  left : i + n ≤ xs.length
  right : j + n ≤ ys.length
  same : ∀ k < n, xs[i + k]? = ys[j + k]?

/-- Neither end can be moved outwards. -/
structure Maximal (xs ys : List α) (i j n : ℕ) : Prop where
  agrees : Agrees xs ys i j n
  before : 0 < i → 0 < j → xs[i - 1]? ≠ ys[j - 1]?
  after : i + n < xs.length → j + n < ys.length → xs[i + n]? ≠ ys[j + n]?

theorem agrees_iff_prefix (some_length : 0 < n) (inside : i + n ≤ xs.length) :
    Agrees xs ys i j n ↔ (xs.drop i).take n <+: ys.drop j := by
  have length : ((xs.drop i).take n).length = n := by
    rw [List.length_take, List.length_drop]
    omega
  have place : ∀ k < n, ((xs.drop i).take n)[k]? = xs[i + k]? := by
    intro k early
    rw [List.getElem?_take_of_lt early, List.getElem?_drop]
  constructor
  · intro agrees
    rw [List.prefix_iff_eq_take, length]
    apply List.ext_getElem?
    intro k
    rcases Nat.lt_or_ge k n with early | beyond
    · rw [place k early, List.getElem?_take_of_lt early, List.getElem?_drop]
      exact agrees.same k early
    · rw [List.getElem?_eq_none (length.trans_le beyond), List.getElem?_eq_none]
      exact (List.length_take_le _ _).trans beyond
  · intro begins
    have fits := begins.length_le
    rw [length, List.length_drop] at fits
    constructor
    · exact inside
    · omega
    · intro k early
      rw [List.prefix_iff_eq_take, length] at begins
      rw [← place k early, begins, List.getElem?_take_of_lt early, List.getElem?_drop]

theorem Agrees.part {m : ℕ} (agrees : Agrees xs ys i j n) (low : i ≤ p) (high : p + m ≤ i + n) :
    Agrees xs ys p (j + (p - i)) m := by
  have left := agrees.left
  have right := agrees.right
  constructor
  · omega
  · omega
  · intro k inside
    have here := agrees.same (p - i + k) (by omega)
    rw [show p + k = i + (p - i + k) by omega, Nat.add_assoc]
    exact here

section Extend

variable [DecidableEq α]

/-- The places before `i` and `j`, counted backwards, on which the lists agree. -/
def backward (xs ys : List α) : ℕ → ℕ → ℕ
  | i + 1, j + 1 => if xs[i]? = ys[j]? then backward xs ys i j + 1 else 0
  | _, _ => 0

/-- The places from the front on which the lists agree. -/
def forward : List α → List α → ℕ
  | x :: xs, y :: ys => if x = y then forward xs ys + 1 else 0
  | _, _ => 0

theorem backward_zero (xs ys : List α) (j : ℕ) : backward xs ys 0 j = 0 := rfl

theorem backward_succ_zero (xs ys : List α) (i : ℕ) : backward xs ys (i + 1) 0 = 0 := rfl

theorem backward_succ (xs ys : List α) (i j : ℕ) :
    backward xs ys (i + 1) (j + 1) = if xs[i]? = ys[j]? then backward xs ys i j + 1 else 0 := rfl

theorem forward_nil (ys : List α) : forward [] ys = 0 := rfl

theorem forward_cons_nil (x : α) (xs : List α) : forward (x :: xs) [] = 0 := rfl

theorem forward_cons (x y : α) (xs ys : List α) :
    forward (x :: xs) (y :: ys) = if x = y then forward xs ys + 1 else 0 := rfl

theorem backward_le (xs ys : List α) (i j : ℕ) : backward xs ys i j ≤ i ∧ backward xs ys i j ≤ j := by
  induction i generalizing j with
  | zero =>
      rw [backward_zero]
      exact ⟨le_rfl, Nat.zero_le j⟩
  | succ i ih =>
      cases j with
      | zero =>
          rw [backward_succ_zero]
          exact ⟨Nat.zero_le _, le_rfl⟩
      | succ j =>
          rw [backward_succ]
          split_ifs
          · exact ⟨Nat.succ_le_succ (ih j).1, Nat.succ_le_succ (ih j).2⟩
          · exact ⟨Nat.zero_le _, Nat.zero_le _⟩

theorem backward_same (xs ys : List α) (i j : ℕ) :
    ∀ k < backward xs ys i j, xs[i - backward xs ys i j + k]? = ys[j - backward xs ys i j + k]? := by
  induction i generalizing j with
  | zero =>
      intro k inside
      exact absurd (inside.trans_le (backward_le xs ys 0 j).1) (Nat.not_lt_zero k)
  | succ i ih =>
      cases j with
      | zero =>
          intro k inside
          exact absurd (inside.trans_le (backward_le xs ys (i + 1) 0).2) (Nat.not_lt_zero k)
      | succ j =>
          rw [backward_succ]
          split_ifs with agree
          · intro k inside
            rw [Nat.add_sub_add_right, Nat.add_sub_add_right]
            rcases Nat.lt_succ_iff_lt_or_eq.mp inside with early | last
            · exact ih j k early
            · rw [last, Nat.sub_add_cancel (backward_le xs ys i j).1, Nat.sub_add_cancel (backward_le xs ys i j).2]
              exact agree
          · exact fun k inside => absurd inside (Nat.not_lt_zero k)

theorem backward_stops (xs ys : List α) (i j : ℕ) (more : 0 < i - backward xs ys i j)
    (more' : 0 < j - backward xs ys i j) :
    xs[i - backward xs ys i j - 1]? ≠ ys[j - backward xs ys i j - 1]? := by
  induction i generalizing j with
  | zero => exact absurd (more.trans_le (Nat.sub_le _ _)) (Nat.lt_irrefl 0)
  | succ i ih =>
      cases j with
      | zero => exact absurd (more'.trans_le (Nat.sub_le _ _)) (Nat.lt_irrefl 0)
      | succ j =>
          rw [backward_succ] at *
          split_ifs at * with agree
          · rw [Nat.add_sub_add_right] at *
            rw [Nat.add_sub_add_right] at *
            exact ih j more more'
          · exact agree

theorem forward_spec (xs ys : List α) :
    forward xs ys ≤ xs.length ∧ forward xs ys ≤ ys.length ∧ (∀ k < forward xs ys, xs[k]? = ys[k]?) ∧
      (forward xs ys < xs.length → forward xs ys < ys.length → xs[forward xs ys]? ≠ ys[forward xs ys]?) := by
  induction xs generalizing ys with
  | nil =>
      rw [forward_nil]
      exact ⟨le_rfl, Nat.zero_le _, fun k none => absurd none (Nat.not_lt_zero k), fun none => absurd none (Nat.lt_irrefl 0)⟩
  | cons x xs ih =>
      cases ys with
      | nil =>
          rw [forward_cons_nil]
          exact ⟨Nat.zero_le _, le_rfl, fun k none => absurd none (Nat.not_lt_zero k),
            fun _ none => absurd none (Nat.lt_irrefl 0)⟩
      | cons y ys =>
          rcases ih ys with ⟨left, right, same, stops⟩
          rw [forward_cons]
          by_cases agree : x = y
          · rw [if_pos agree]
            refine ⟨Nat.succ_le_succ left, Nat.succ_le_succ right, ?_, ?_⟩
            · intro k inside
              cases k with
              | zero => exact congrArg some agree
              | succ k => exact same k (Nat.lt_of_succ_lt_succ inside)
            · exact fun more more' => stops (Nat.lt_of_succ_lt_succ more) (Nat.lt_of_succ_lt_succ more')
          · rw [if_neg agree]
            exact ⟨Nat.zero_le _, Nat.zero_le _, fun k none => absurd none (Nat.not_lt_zero k),
              fun _ _ other => agree (Option.some.inj other)⟩

theorem Agrees.extend (agrees : Agrees xs ys i j n) :
    Maximal xs ys (i - backward xs ys i j) (j - backward xs ys i j)
      (backward xs ys i j + n + forward (xs.drop (i + n)) (ys.drop (j + n))) := by
  have low := backward_le xs ys i j
  have left := agrees.left
  have right := agrees.right
  rcases forward_spec (xs.drop (i + n)) (ys.drop (j + n)) with ⟨up, up', same, stops⟩
  rw [List.length_drop] at up up'
  have start : i - backward xs ys i j + (backward xs ys i j + n + forward (xs.drop (i + n)) (ys.drop (j + n))) =
      i + n + forward (xs.drop (i + n)) (ys.drop (j + n)) := by omega
  have start' : j - backward xs ys i j + (backward xs ys i j + n + forward (xs.drop (i + n)) (ys.drop (j + n))) =
      j + n + forward (xs.drop (i + n)) (ys.drop (j + n)) := by omega
  constructor
  · constructor
    · omega
    · omega
    · intro k inside
      rcases Nat.lt_or_ge k (backward xs ys i j) with early | late
      · exact backward_same xs ys i j k early
      · rcases Nat.lt_or_ge k (backward xs ys i j + n) with middle | beyond
        · have here := agrees.same (k - backward xs ys i j) (by omega)
          rw [show i - backward xs ys i j + k = i + (k - backward xs ys i j) by omega,
            show j - backward xs ys i j + k = j + (k - backward xs ys i j) by omega]
          exact here
        · have here := same (k - (backward xs ys i j + n)) (by omega)
          rw [List.getElem?_drop, List.getElem?_drop] at here
          rw [show i - backward xs ys i j + k = i + n + (k - (backward xs ys i j + n)) by omega,
            show j - backward xs ys i j + k = j + n + (k - (backward xs ys i j + n)) by omega]
          exact here
  · exact backward_stops xs ys i j
  · intro more more'
    rw [start] at more ⊢
    rw [start'] at more' ⊢
    have here := stops (by rw [List.length_drop]; omega) (by rw [List.length_drop]; omega)
    rw [List.getElem?_drop, List.getElem?_drop] at here
    exact here

end Extend

/-- Two maximal stretches of one shift that share a place are the same. -/
theorem Maximal.unique (first : Maximal xs ys i j n) (second : Maximal xs ys i' j' n') (shift : i + j' = i' + j)
    (inside : i ≤ p ∧ p < i + n) (inside' : i' ≤ p ∧ p < i' + n') : i = i' ∧ j = j' ∧ n = n' := by
  have left := first.agrees.left
  have right := first.agrees.right
  have left' := second.agrees.left
  have right' := second.agrees.right
  have begins : i = i' := by
    rcases Nat.lt_trichotomy i i' with early | same | late
    · have here := first.agrees.same (i' - 1 - i) (by omega)
      rw [show i + (i' - 1 - i) = i' - 1 by omega, show j + (i' - 1 - i) = j' - 1 by omega] at here
      exact absurd here (second.before (by omega) (by omega))
    · exact same
    · have here := second.agrees.same (i - 1 - i') (by omega)
      rw [show i' + (i - 1 - i') = i - 1 by omega, show j' + (i - 1 - i') = j - 1 by omega] at here
      exact absurd here (first.before (by omega) (by omega))
  have begins' : j = j' := by omega
  subst begins begins'
  have ends : n = n' := by
    rcases Nat.lt_trichotomy n n' with short | same | long
    · exact absurd (second.agrees.same n short) (first.after (by omega) (by omega))
    · exact same
    · exact absurd (first.agrees.same n' long) (second.after (by omega) (by omega))
  exact ⟨rfl, rfl, ends⟩

section Longest

variable {size : α → ℕ} {items : List α} {item : α}

/-- The item is longer than every other. -/
def Longest (size : α → ℕ) (items : List α) (item : α) : Prop :=
  item ∈ items ∧ ∀ other ∈ items, other ≠ item → size other < size item

theorem foldl_max (sizes : List ℕ) (start : ℕ) :
    start ≤ sizes.foldl max start ∧ (∀ n ∈ sizes, n ≤ sizes.foldl max start) ∧
      (sizes.foldl max start = start ∨ sizes.foldl max start ∈ sizes) := by
  induction sizes generalizing start with
  | nil => exact ⟨le_rfl, fun n none => absurd none List.not_mem_nil, Or.inl rfl⟩
  | cons first sizes ih =>
      rcases ih (max start first) with ⟨low, all, reached⟩
      rw [List.foldl_cons]
      constructor
      · exact (le_max_left _ _).trans low
      constructor
      · intro n member
        rcases List.mem_cons.mp member with rfl | later
        · exact (le_max_right _ _).trans low
        · exact all n later
      · rcases reached with same | later
        · rw [same]
          rcases max_choice start first with left | right
          · exact Or.inl left
          · exact Or.inr (List.mem_cons.mpr (Or.inl right))
        · exact Or.inr (List.mem_cons_of_mem _ later)

/-- The items of the greatest size are one item when it is longer than every other. -/
theorem filter_eq_singleton_iff (nodup : items.Nodup) :
    items.filter (fun x => size x = (items.map size).foldl max 0) = [item] ↔ Longest size items item := by
  rcases foldl_max (items.map size) 0 with ⟨-, all, reached⟩
  have bound : ∀ x ∈ items, size x ≤ (items.map size).foldl max 0 := fun x member => all _ (List.mem_map_of_mem member)
  generalize (items.map size).foldl max 0 = best at *
  constructor
  · intro only
    have kept : ∀ x, x ∈ items ∧ size x = best ↔ x = item := by
      intro x
      have here : x ∈ items.filter (fun x => size x = best) ↔ x ∈ [item] := by rw [only]
      rw [List.mem_filter, List.mem_singleton, decide_eq_true_iff] at here
      exact here
    have top := (kept item).mpr rfl
    constructor
    · exact top.1
    · intro other member different
      rw [top.2]
      exact lt_of_le_of_ne (bound other member) fun same => different ((kept other).mp ⟨member, same⟩)
  · rintro ⟨member, shorter⟩
    have top : size item = best := by
      apply Nat.le_antisymm (bound item member)
      rcases reached with zero | attained
      · exact zero ▸ Nat.zero_le _
      · rcases List.mem_map.mp attained with ⟨x, present, rfl⟩
        by_cases same : x = item
        · rw [same]
        · exact (shorter x present same).le
    apply List.perm_singleton.mp
    rw [List.perm_ext_iff_of_nodup (nodup.filter _) (List.nodup_singleton item)]
    intro x
    rw [List.mem_filter, List.mem_singleton, decide_eq_true_iff]
    constructor
    · rintro ⟨present, same⟩
      by_contra different
      exact absurd (same.trans top.symm) (shorter x present different).ne
    · rintro rfl
      exact ⟨member, top⟩

end Longest

end Segarecomp.Lib.CommonRuns

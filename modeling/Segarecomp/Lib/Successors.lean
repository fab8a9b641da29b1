import Mathlib.Order.Bounds.Basic
import Mathlib.Order.Interval.Set.Basic
import Mathlib.Data.Nat.Basic
import Mathlib.Tactic

/-! A function that gives the next point of a set visits every later point once. -/

namespace Segarecomp.Successors

variable {points : Set ℕ} {next : ℕ → ℕ} {limit u v : ℕ}

/-- From every point below the limit `next` leads to the point after it, if that is below the limit too. -/
def Follows (points : Set ℕ) (next : ℕ → ℕ) (limit : ℕ) : Prop :=
  ∀ u ∈ points, u < limit → ∃ v, IsLeast {w | w ∈ points ∧ u < w} v ∧ (v < limit → next u = v)

def later (points : Set ℕ) (limit u : ℕ) : Set ℕ := {v | v ∈ points ∧ u < v ∧ v < limit}

/-- The points reached from `u` come in order, and they are the later points below the limit. -/
structure Visits (points : Set ℕ) (next : ℕ → ℕ) (limit u count : ℕ) : Prop where
  ordered : StrictMonoOn (fun n => next^[n] u) (Set.Iic count)
  exact : (fun n => next^[n] u) '' Set.Icc 1 count = later points limit u

theorem later_empty (least : IsLeast {w | w ∈ points ∧ u < w} v) (beyond : limit ≤ v) :
    later points limit u = ∅ := by
  apply Set.eq_empty_of_forall_notMem
  intro w member
  have above : v ≤ w := least.2 ⟨member.1, member.2.1⟩
  have below : w < limit := member.2.2
  omega

theorem later_eq_insert (least : IsLeast {w | w ∈ points ∧ u < w} v) (below : v < limit) :
    later points limit u = insert v (later points limit v) := by
  ext w
  constructor
  · intro member
    have above : v ≤ w := least.2 ⟨member.1, member.2.1⟩
    rcases Nat.eq_or_lt_of_le above with same | more
    · exact Or.inl same.symm
    · exact Or.inr ⟨member.1, more, member.2.2⟩
  · intro member
    rcases member with same | member
    · subst same
      exact ⟨least.1.1, least.1.2, below⟩
    · exact ⟨member.1, Nat.lt_trans least.1.2 member.2.1, member.2.2⟩

theorem Visits.start (least : IsLeast {w | w ∈ points ∧ u < w} v) (beyond : limit ≤ v) :
    Visits points next limit u 0 := by
  constructor
  · intro a lowA b lowB less
    simp only [Set.mem_Iic] at lowA lowB
    omega
  · rw [later_empty least beyond, Set.Icc_eq_empty (by omega), Set.image_empty]

theorem Visits.cons {count : ℕ} (least : IsLeast {w | w ∈ points ∧ u < w} v) (below : v < limit)
    (step : next u = v) (rest : Visits points next limit v count) :
    Visits points next limit u (count + 1) := by
  have shift (n : ℕ) : next^[n + 1] u = next^[n] v := by
    rw [Function.iterate_succ_apply, step]
  constructor
  · intro a lowA b lowB less
    simp only [Set.mem_Iic] at lowA lowB
    obtain ⟨b, rfl⟩ : ∃ c, b = c + 1 := ⟨b - 1, by omega⟩
    have from_v : v ≤ next^[b] v := rest.ordered.monotoneOn (Set.mem_Iic.mpr (Nat.zero_le count))
      (Set.mem_Iic.mpr (by omega)) (Nat.zero_le b)
    cases a with
    | zero =>
      calc u < v := least.1.2
        _ ≤ next^[b] v := from_v
        _ = next^[b + 1] u := (shift b).symm
    | succ a =>
      show next^[a + 1] u < next^[b + 1] u
      rw [shift, shift]
      exact rest.ordered (Set.mem_Iic.mpr (by omega)) (Set.mem_Iic.mpr (by omega)) (by omega)
  · rw [later_eq_insert least below, ← rest.exact]
    ext w
    constructor
    · intro member
      rcases member with ⟨n, range, reached⟩
      simp only [Set.mem_Icc] at range
      obtain ⟨n, rfl⟩ : ∃ c, n = c + 1 := ⟨n - 1, by omega⟩
      have at_v : next^[n] v = w := (shift n).symm.trans reached
      cases n with
      | zero => exact Or.inl at_v.symm
      | succ n => exact Or.inr ⟨n + 1, Set.mem_Icc.mpr (by omega), at_v⟩
    · intro member
      rcases member with same | ⟨n, range, reached⟩
      · exact ⟨1, Set.mem_Icc.mpr (by omega), step.trans same.symm⟩
      · simp only [Set.mem_Icc] at range
        exact ⟨n + 1, Set.mem_Icc.mpr (by omega), (shift n).trans reached⟩

theorem Follows.visits (follows : Follows points next limit) (member : u ∈ points) (low : u < limit) :
    ∃ count, Visits points next limit u count := by
  induction room : limit - u using Nat.strong_induction_on generalizing u with
  | _ left ih =>
    rcases follows u member low with ⟨v, least, step⟩
    rcases Nat.lt_or_ge v limit with below | beyond
    · have closer : limit - v < left := by
        have above : u < v := least.1.2
        omega
      rcases ih (limit - v) closer least.1.1 below rfl with ⟨count, rest⟩
      exact ⟨count + 1, rest.cons least below (step below)⟩
    · exact ⟨0, Visits.start least beyond⟩

end Segarecomp.Successors

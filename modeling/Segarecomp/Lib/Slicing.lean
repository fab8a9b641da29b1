import Mathlib.Data.List.Basic
import Mathlib.Tactic

/-! Components that are brought up to a tick on demand. Where a later bring-up absorbs an
earlier one, the ticks at which the component is looked at leave no trace. -/

namespace Segarecomp.Lib.Slicing

/-! ## Absorption -/

section Absorbs

variable {σ : Type*} {adv : ℕ → σ → σ}

/-- Advancing to `t` and then to a later `u` is advancing to `u`. -/
def Absorbs (adv : ℕ → σ → σ) : Prop :=
  ∀ t u s, t ≤ u → adv u (adv t s) = adv u s

def advanceAll (adv : ℕ → σ → σ) (ticks : List ℕ) (s : σ) : σ :=
  ticks.foldl (fun s t => adv t s) s

theorem Absorbs.advanceAll (absorbs : Absorbs adv) {ticks : List ℕ} {last : ℕ}
    (ordered : (ticks ++ [last]).Pairwise (· ≤ ·)) (s : σ) :
    advanceAll adv (ticks ++ [last]) s = adv last s := by
  induction ticks generalizing s with
  | nil => rfl
  | cons t ticks ih =>
      obtain ⟨first, rest⟩ := List.pairwise_cons.mp ordered
      have before : t ≤ last := first last (by simp)
      calc
        Slicing.advanceAll adv (t :: ticks ++ [last]) s =
            Slicing.advanceAll adv (ticks ++ [last]) (adv t s) := rfl
        _ = adv last (adv t s) := ih rest (adv t s)
        _ = adv last s := absorbs t last s before

/-- A schedule of ticks, each with the action taken there or none: an action always finds the
component brought up to its tick. -/
def runSchedule (adv : ℕ → σ → σ) (schedule : List (ℕ × Option (σ → σ))) (s : σ) : σ :=
  schedule.foldl (fun s e => e.2.getD id (adv e.1 s)) s

theorem runSchedule_cons (e : ℕ × Option (σ → σ)) (schedule : List (ℕ × Option (σ → σ))) (s : σ) :
    runSchedule adv (e :: schedule) s = runSchedule adv schedule (e.2.getD id (adv e.1 s)) := rfl

/-- Whatever comes first after an observation absorbs it. -/
theorem Absorbs.observed (absorbs : Absorbs adv) {schedule : List (ℕ × Option (σ → σ))}
    {t last : ℕ} (before : ∀ e ∈ schedule, t ≤ e.1) (h : t ≤ last) (s : σ) :
    adv last (runSchedule adv schedule (adv t s)) = adv last (runSchedule adv schedule s) := by
  cases schedule with
  | nil => exact absorbs t last s h
  | cons e schedule =>
      have le : t ≤ e.1 := before e List.mem_cons_self
      rw [runSchedule_cons, runSchedule_cons, absorbs t e.1 s le]

/-- Observations between the actions of a schedule do not change where it ends. -/
theorem Absorbs.runSchedule (absorbs : Absorbs adv) {schedule : List (ℕ × Option (σ → σ))}
    {last : ℕ} (ordered : (schedule.map Prod.fst ++ [last]).Pairwise (· ≤ ·)) (s : σ) :
    adv last (runSchedule adv schedule s) =
      adv last (runSchedule adv (schedule.filter (·.2.isSome)) s) := by
  induction schedule generalizing s with
  | nil => rfl
  | cons e schedule ih =>
      obtain ⟨first, rest⟩ := List.pairwise_cons.mp ordered
      obtain ⟨t, action⟩ := e
      cases action with
      | some action =>
          rw [List.filter_cons_of_pos rfl, runSchedule_cons, runSchedule_cons]
          exact ih rest _
      | none =>
          have before : ∀ e ∈ schedule.filter (·.2.isSome), t ≤ e.1 := by
            intro e he
            have mem : e.1 ∈ schedule.map Prod.fst := List.mem_map_of_mem (List.mem_of_mem_filter he)
            exact first e.1 (List.mem_append_left _ mem)
          have last_le : t ≤ last := first last (by simp)
          rw [List.filter_cons_of_neg Bool.false_ne_true, runSchedule_cons]
          exact (ih rest _).trans (absorbs.observed before last_le s)

end Absorbs

/-! ## Elapsed periods -/

/-- The periods begun strictly before `now`, counted from `base`. -/
def elapsed (base period now : ℕ) : ℕ := (now - base + period - 1) / period

section Elapsed

variable {base period now later k : ℕ}

theorem elapsed_le_iff (pos : 0 < period) : elapsed base period now ≤ k ↔ now ≤ base + k * period := by
  unfold elapsed
  rw [← Nat.lt_succ_iff, Nat.div_lt_iff_lt_mul pos, Nat.succ_mul]
  omega

theorem lt_elapsed_iff (pos : 0 < period) : k < elapsed base period now ↔ base + k * period < now := by
  rw [← Nat.not_le, elapsed_le_iff pos, Nat.not_le]

theorem elapsed_mono (h : now ≤ later) : elapsed base period now ≤ elapsed base period later := by
  unfold elapsed
  exact Nat.div_le_div_right (by omega)

theorem elapsed_eq_zero (h : now ≤ base) (pos : 0 < period) : elapsed base period now = 0 := by
  have := (elapsed_le_iff (k := 0) pos).mpr (by omega : now ≤ base + 0 * period)
  omega

/-- Moving the base on by whole periods takes these off the count. -/
theorem elapsed_add (pos : 0 < period) :
    elapsed (base + k * period) period now = elapsed base period now - k := by
  apply Nat.le_antisymm
  · rw [elapsed_le_iff pos]
    have bound : now ≤ base + elapsed base period now * period := (elapsed_le_iff pos).mp le_rfl
    rcases Nat.le_total k (elapsed base period now) with h | h
    · rw [Nat.sub_mul, Nat.add_assoc, Nat.add_sub_cancel' (Nat.mul_le_mul_right period h)]
      exact bound
    · have := Nat.mul_le_mul_right period h
      omega
  · rw [Nat.sub_le_iff_le_add, elapsed_le_iff pos, Nat.add_mul]
    have bound : now ≤ base + k * period + elapsed (base + k * period) period now * period :=
      (elapsed_le_iff pos).mp le_rfl
    omega

end Elapsed

end Segarecomp.Lib.Slicing

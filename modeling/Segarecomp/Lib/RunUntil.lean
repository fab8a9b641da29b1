import Mathlib.Logic.Function.Iterate
import Segarecomp.Lib.Slicing

/-! Systems that run until their clock reaches a target: a step is taken as long as it starts
before the target and the system has not stopped. -/

namespace Segarecomp.Lib.RunUntil

structure Clocked (σ : Type*) where
  now : σ → ℕ
  stopped : σ → Prop
  step : σ → σ

inductive Runs {σ : Type*} (sys : Clocked σ) (target : ℕ) : σ → σ → Prop
  | rest {s : σ} (ended : target ≤ sys.now s ∨ sys.stopped s) : Runs sys target s s
  | step {s s' : σ} (before : sys.now s < target) (going : ¬ sys.stopped s)
      (run : Runs sys target (sys.step s) s') : Runs sys target s s'

variable {σ τ ρ : Type*} {sys : Clocked σ} {t u : ℕ} {s s' s'' : σ}

namespace Runs

theorem unique (first : Runs sys t s s') (second : Runs sys t s s'') : s' = s'' := by
  induction first with
  | rest ended =>
      cases second with
      | rest _ => rfl
      | step before going _ => exact (ended.elim (fun late => absurd late (by omega)) going).elim
  | step before going _ ih =>
      cases second with
      | rest ended => exact (ended.elim (fun late => absurd late (by omega)) going).elim
      | step _ _ run => exact ih run

theorem ended (run : Runs sys t s s') : t ≤ sys.now s' ∨ sys.stopped s' := by
  induction run with
  | rest ended => exact ended
  | step _ _ _ ih => exact ih

theorem tail (before : sys.now s < t) (going : ¬ sys.stopped s) (run : Runs sys t s s') :
    Runs sys t (sys.step s) s' := by
  cases run with
  | rest ended => exact (ended.elim (fun late => absurd late (by omega)) going).elim
  | step _ _ run => exact run

/-- Whatever stopped before an earlier target goes on to a later one. -/
theorem trans (first : Runs sys t s s') (le : t ≤ u) (second : Runs sys u s' s'') :
    Runs sys u s s'' := by
  induction first with
  | rest _ => exact second
  | step before going _ ih => exact .step (by omega) going (ih second)

theorem keeps {I : σ → Prop}
    (step_keeps : ∀ s, I s → ¬ sys.stopped s → sys.now s < t → I (sys.step s))
    (run : Runs sys t s s') (h : I s) : I s' := by
  induction run with
  | rest _ => exact h
  | step before going _ ih => exact ih (step_keeps _ h going before)

theorem iterate {n : ℕ} (each : ∀ k < n, sys.now (sys.step^[k] s) < t ∧ ¬ sys.stopped (sys.step^[k] s))
    (run : Runs sys t (sys.step^[n] s) s') : Runs sys t s s' := by
  induction n generalizing s with
  | zero => exact run
  | succ n ih =>
      obtain ⟨before, going⟩ := each 0 (Nat.succ_pos n)
      refine .step before going (ih (fun k hk => ?_) run)
      exact each (k + 1) (Nat.succ_lt_succ hk)

theorem exists_iterate (run : Runs sys t s s') :
    ∃ n, s' = sys.step^[n] s ∧ ∀ k < n, sys.now (sys.step^[k] s) < t := by
  induction run with
  | rest _ => exact ⟨0, rfl, fun k below => absurd below (Nat.not_lt_zero k)⟩
  | step before _ _ ih =>
      obtain ⟨n, arrived, early⟩ := ih
      refine ⟨n + 1, arrived, fun k below => ?_⟩
      cases k with
      | zero => exact before
      | succ k => exact early k (Nat.lt_of_succ_lt_succ below)

/-- A map that commutes with the steps of a run carries it to another system, whose target `u`
is late where `t` is. -/
theorem map {other : Clocked τ} {f : σ → τ} {I : σ → Prop}
    (step_keeps : ∀ s, I s → ¬ sys.stopped s → sys.now s < t → I (sys.step s))
    (late_iff : ∀ s, I s → (u ≤ other.now (f s) ↔ t ≤ sys.now s))
    (stops : ∀ s, I s → sys.stopped s → other.stopped (f s))
    (goes : ∀ s, I s → ¬ sys.stopped s → sys.now s < t → ¬ other.stopped (f s))
    (step_eq : ∀ s, I s → ¬ sys.stopped s → sys.now s < t → other.step (f s) = f (sys.step s))
    (run : Runs sys t s s') (h : I s) : Runs other u (f s) (f s') := by
  induction run with
  | rest ended =>
      refine .rest (ended.imp (fun late => ?_) (stops _ h))
      exact (late_iff _ h).mpr late
  | @step s s' before going run ih =>
      refine .step ?_ (goes s h going before) ?_
      · rw [← Nat.not_le, late_iff s h]
        exact Nat.not_le.mpr before
      · rw [step_eq s h going before]
        exact ih (step_keeps s h going before)

end Runs

/-- A function that runs the system to its target, on states `f` looks at, leaves no trace of
the targets it was called with on the way. -/
theorem advanceAll_eq {f : ρ → σ} {run : ℕ → ρ → ρ} {I : ρ → Prop}
    (keeps : ∀ t r, I r → I (run t r)) (sound : ∀ t r, I r → Runs sys t (f r) (f (run t r)))
    {ticks : List ℕ} {last : ℕ} (ordered : (ticks ++ [last]).Pairwise (· ≤ ·)) {r : ρ} (h : I r) :
    f (Slicing.advanceAll run (ticks ++ [last]) r) = f (run last r) := by
  have whole : Runs sys last (f r) (f (Slicing.advanceAll run (ticks ++ [last]) r)) := by
    induction ticks generalizing r with
    | nil => exact sound last r h
    | cons t ticks ih =>
        obtain ⟨first, rest⟩ := List.pairwise_cons.mp ordered
        exact (sound t r h).trans (first last (by simp)) (ih rest (keeps t r h))
  exact whole.unique (sound last r h)

end Segarecomp.Lib.RunUntil

import Mathlib.Tactic

/-! Runs that end with a result or an error, taken apart at their first step. -/

namespace Segarecomp.Lib.Fallible

universe u v

variable {ε : Type v} {α β : Type u} {x : Except ε α} {f : α → Except ε β}

theorem ok_bind (a : α) (f : α → Except ε β) : (Except.ok a >>= f) = f a := rfl

theorem error_bind (error : ε) (f : α → Except ε β) : (Except.error error >>= f) = .error error := rfl

theorem bind_ok_iff {b : β} : x >>= f = .ok b ↔ ∃ a, x = .ok a ∧ f a = .ok b := by
  cases x with
  | error error => simp [error_bind]
  | ok a => simp [ok_bind]

end Segarecomp.Lib.Fallible

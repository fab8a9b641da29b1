import Mathlib.Data.List.Basic

/-! Runs over a buffer in which every access is checked. A run that stops early either refuses its
input with a message, which is a result, or has done what the program must never do: accessed
something outside the buffer, or used up the rounds of a loop. -/

namespace Segarecomp.Lib.Checked

inductive Stop (ε : Type*)
  | outside
  | unfinished
  | refused (message : ε)
  deriving DecidableEq, Repr

universe u

variable {ε δ : Type*} {α β : Type u}

/-- The element at a position of the buffer. -/
def item (buffer : List α) (pos : ℕ) : Except (Stop ε) α :=
  match buffer[pos]? with
  | some a => .ok a
  | none => .error .outside

/-- The `n` elements from `start` on. -/
def slice (buffer : List α) (start n : ℕ) : Except (Stop ε) (List α) :=
  if start + n ≤ buffer.length then .ok ((buffer.drop start).take n) else .error .outside

def refuseIf (c : Prop) [Decidable c] (message : ε) : Except (Stop ε) Unit :=
  if c then .error (.refused message) else .ok ()

/-- A function that can fail, as a run that never leaves the buffer. -/
def found (result : Option α) : Except (Stop Unit) α :=
  match result with
  | some a => .ok a
  | none => .error (.refused ())

/-- The caller of a run puts its own message in place of the run's. -/
def relabel (message : ε) : Except (Stop δ) α → Except (Stop ε) α
  | .ok a => .ok a
  | .error .outside => .error .outside
  | .error .unfinished => .error .unfinished
  | .error (.refused _) => .error (.refused message)

/-- Every access was inside, every loop ended, and a result has the property. -/
def Ends (P : α → Prop) : Except (Stop ε) α → Prop
  | .ok a => P a
  | .error (.refused _) => True
  | .error _ => False

section Rules

variable {P Q : α → Prop} {R : β → Prop} {x : Except (Stop ε) α} {f : α → Except (Stop ε) β}

theorem Ends.bind (first : Ends P x) (then_ : ∀ a, P a → Ends R (f a)) : Ends R (x >>= f) := by
  cases x with
  | ok a => exact then_ a first
  | error stop => cases stop <;> exact first

theorem Ends.mono (run : Ends P x) (weaker : ∀ a, P a → Q a) : Ends Q x := by
  cases x with
  | ok a => exact weaker a run
  | error stop => cases stop <;> exact run

theorem ends_pure {a : α} (holds : P a) : Ends P (pure a : Except (Stop ε) α) := holds

theorem ends_refuseIf (c : Prop) [Decidable c] (message : ε) : Ends (fun _ => ¬c) (refuseIf c message) := by
  unfold refuseIf
  split_ifs with refused
  · trivial
  · exact refused

theorem ends_slice {buffer : List α} {start n : ℕ} (inside : start + n ≤ buffer.length) :
    Ends (fun s => s = (buffer.drop start).take n) (slice buffer start n : Except (Stop ε) (List α)) := by
  rw [slice, if_pos inside]
  exact rfl

theorem ends_relabel {P : α → Prop} {message : ε} {result : Option α} (holds : ∀ a, result = some a → P a) :
    Ends P (relabel message (found result)) := by
  cases result with
  | none => trivial
  | some a => exact holds a rfl

end Rules

@[simp] theorem item_of_lt {buffer : List α} {pos : ℕ} (inside : pos < buffer.length) :
    (item buffer pos : Except (Stop ε) α) = .ok buffer[pos] := by
  rw [item, List.getElem?_eq_getElem inside]

@[simp] theorem slice_of_le {buffer : List α} {start n : ℕ} (inside : start + n ≤ buffer.length) :
    (slice buffer start n : Except (Stop ε) (List α)) = .ok ((buffer.drop start).take n) := if_pos inside

@[simp] theorem ok_bind (a : α) (f : α → Except (Stop ε) β) : ((.ok a : Except (Stop ε) α) >>= f) = f a := rfl

@[simp] theorem found_some (a : α) : found (some a) = .ok a := rfl

end Segarecomp.Lib.Checked

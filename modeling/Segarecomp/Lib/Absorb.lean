import Mathlib.Data.List.Basic
import Mathlib.Tactic

/-! A message taken in blocks from the front: the state after the whole blocks and the rest behind them are
functions of the message. -/

namespace Segarecomp.Lib.Absorb

variable {σ α : Type*} {compress : σ → List α → σ} {n : ℕ} {start s t : σ} {message rest other : List α}

/-- Whole blocks of `message` have been absorbed, and `rest` is what follows them. -/
def Through (compress : σ → List α → σ) (n : ℕ) (start : σ) (message : List α) (s : σ) (rest : List α) : Prop :=
  ∃ blocks : List (List α), (∀ block ∈ blocks, block.length = n) ∧ message = blocks.flatten ++ rest ∧
    s = blocks.foldl compress start

theorem Through.none (compress : σ → List α → σ) (n : ℕ) (start : σ) (message : List α) :
    Through compress n start message start message :=
  ⟨[], fun _ member => absurd member List.not_mem_nil, rfl, rfl⟩

theorem Through.block {block : List α} (through : Through compress n start message s (block ++ rest)) (full : block.length = n) :
    Through compress n start message (compress s block) rest := by
  obtain ⟨blocks, lengths, split, state⟩ := through
  refine ⟨blocks ++ [block], ?_, ?_, ?_⟩
  · intro b member
    rcases List.mem_append.mp member with early | last
    · exact lengths b early
    · rw [List.mem_singleton.mp last]
      exact full
  · rw [split, List.flatten_append, List.flatten_singleton, List.append_assoc]
  · rw [List.foldl_append, ← state]
    rfl

theorem Through.append (through : Through compress n start message s rest) (more : List α) :
    Through compress n start (message ++ more) s (rest ++ more) := by
  obtain ⟨blocks, lengths, split, state⟩ := through
  exact ⟨blocks, lengths, by rw [split, List.append_assoc], state⟩

theorem Through.unique (first : Through compress n start message s rest) (short : rest.length < n)
    (second : Through compress n start message t other) (few : other.length < n) : s = t ∧ rest = other := by
  obtain ⟨blocks, lengths, split, state⟩ := first
  obtain ⟨others, sizes, cut, reached⟩ := second
  subst split state reached
  induction blocks generalizing start others with
  | nil =>
      cases others with
      | nil => exact ⟨rfl, cut⟩
      | cons b others =>
          have long := congrArg List.length cut
          have size := sizes b List.mem_cons_self
          simp only [List.flatten_nil, List.nil_append, List.flatten_cons, List.length_append] at long
          omega
  | cons b blocks ih =>
      have length := lengths b List.mem_cons_self
      cases others with
      | nil =>
          have long := congrArg List.length cut
          simp only [List.flatten_nil, List.nil_append, List.flatten_cons, List.length_append] at long
          omega
      | cons b' others =>
          have size := sizes b' List.mem_cons_self
          rw [List.flatten_cons, List.flatten_cons, List.append_assoc, List.append_assoc] at cut
          obtain ⟨same, tails⟩ := List.append_inj cut (length.trans size.symm)
          subst same
          exact ih (fun c member => lengths c (List.mem_cons_of_mem _ member)) others
            (fun c member => sizes c (List.mem_cons_of_mem _ member)) tails

end Segarecomp.Lib.Absorb

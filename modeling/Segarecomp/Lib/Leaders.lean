import Mathlib.Data.List.Perm.Basic
import Mathlib.Data.List.Nodup
import Mathlib.Data.List.Pairwise
import Mathlib.Order.Basic
import Mathlib.Tactic.Cases
import Mathlib.Tactic.Common

/-! Splitting a set of program points into basic blocks. `next` is the fall-through successor of a
point; a block runs from a leader along `next` up to the next leader. -/

namespace Segarecomp.Lib.Leaders

variable {α : Type*}

def block [DecidableEq α] (next : α → Option α) (leaders : List α) : ℕ → α → List α
  | 0, _ => []
  | room + 1, a =>
      a :: match next a with
        | none => []
        | some b => if b ∈ leaders then [] else block next leaders room b

/-- `p` is reached from `a` along `next` without entering a leader. -/
inductive Runs (next : α → Option α) (leaders : List α) (a : α) : α → Prop
  | start : Runs next leaders a a
  | step {p q : α} : Runs next leaders a p → next p = some q → q ∉ leaders → Runs next leaders a q

/-- What makes a decoded set splittable: fall-through stays inside, climbs in `rank`, merges
nowhere, and every point is a leader or the fall-through of another point. -/
structure Splittable (next : α → Option α) (rank : α → ℕ) (bound : ℕ) (points leaders : List α) : Prop where
  points_nodup : points.Nodup
  leaders_nodup : leaders.Nodup
  leaders_inside : ∀ a ∈ leaders, a ∈ points
  closed : ∀ a ∈ points, ∀ b, next a = some b → b ∈ points
  climbs : ∀ a ∈ points, ∀ b, next a = some b → rank a < rank b
  bounded : ∀ a, rank a < bound
  injective : ∀ a b c, next a = some c → next b = some c → a = b
  preceded : ∀ a ∈ points, a ∉ leaders → ∃ b ∈ points, next b = some a

variable {next : α → Option α} {rank : α → ℕ} {bound : ℕ} {points leaders : List α}

theorem Runs.inside (split : Splittable next rank bound points leaders) {a p : α}
    (start : a ∈ points) (runs : Runs next leaders a p) : p ∈ points := by
  induction runs with
  | start => exact start
  | step _ follows _ ih => exact split.closed _ ih _ follows

theorem Runs.head {a b p : α} (follows : next a = some b) (plain : b ∉ leaders)
    (runs : Runs next leaders b p) : Runs next leaders a p := by
  induction runs with
  | start => exact .step .start follows plain
  | step _ follows plain ih => exact .step ih follows plain

theorem Runs.cases_head {a p : α} (runs : Runs next leaders a p) :
    p = a ∨ ∃ b, next a = some b ∧ b ∉ leaders ∧ Runs next leaders b p := by
  induction runs with
  | start => exact .inl rfl
  | step before follows plain ih =>
      rcases ih with same | ⟨b, first, clear, rest⟩
      · subst same
        exact .inr ⟨_, follows, plain, .start⟩
      · exact .inr ⟨b, first, clear, .step rest follows plain⟩

theorem Runs.rank_le (split : Splittable next rank bound points leaders) {a p : α}
    (start : a ∈ points) (runs : Runs next leaders a p) : rank a ≤ rank p := by
  induction runs with
  | start => exact Nat.le_refl _
  | step before follows _ ih =>
      have inside := before.inside split start
      exact Nat.le_trans ih (Nat.le_of_lt (split.climbs _ inside _ follows))

section

variable [DecidableEq α]

theorem block_step {a b : α} (follows : next a = some b) (room : ℕ) :
    block next leaders (room + 1) a = a :: if b ∈ leaders then [] else block next leaders room b := by
  rw [block, follows]

theorem block_end {a : α} (stops : next a = none) (room : ℕ) : block next leaders (room + 1) a = [a] := by
  rw [block, stops]

theorem mem_block_iff (split : Splittable next rank bound points leaders) {a p : α} {room : ℕ}
    (start : a ∈ points) (enough : bound ≤ room + rank a) :
    p ∈ block next leaders room a ↔ Runs next leaders a p := by
  induction room generalizing a with
  | zero =>
      have below := split.bounded a
      omega
  | succ room ih =>
      cases follows : next a with
      | none =>
          rw [block_end follows, List.mem_singleton]
          constructor
          · exact fun same => same ▸ .start
          · intro runs
            rcases runs.cases_head with same | ⟨b, other, _⟩
            · exact same
            · rw [follows] at other
              cases other
      | some b =>
          have inside := split.closed a start b follows
          have higher := split.climbs a start b follows
          rw [block_step follows, List.mem_cons]
          constructor
          · rintro (same | later)
            · exact same ▸ .start
            · by_cases leads : b ∈ leaders
              · simp [leads] at later
              · rw [if_neg leads] at later
                exact ((ih inside (by omega)).mp later).head follows leads
          · intro runs
            rcases runs.cases_head with same | ⟨c, other, plain, rest⟩
            · exact .inl same
            · cases follows.symm.trans other
              rw [if_neg plain]
              exact .inr ((ih inside (by omega)).mpr rest)

/-- A block ends where control leaves the straight line or the next point leads a block. -/
theorem block_last (split : Splittable next rank bound points leaders) {a : α} {room : ℕ}
    (start : a ∈ points) (enough : bound ≤ room + rank a) :
    ∃ p, (block next leaders room a).getLast? = some p ∧ p ∈ points ∧
      ∀ b, next p = some b → b ∈ leaders := by
  induction room generalizing a with
  | zero =>
      have below := split.bounded a
      omega
  | succ room ih =>
      cases follows : next a with
      | none => exact ⟨a, by rw [block_end follows, List.getLast?_singleton], start, by simp [follows]⟩
      | some b =>
          rw [block_step follows]
          by_cases leads : b ∈ leaders
          · refine ⟨a, by simp [leads], start, ?_⟩
            intro c later
            rw [follows] at later
            injection later with same
            exact same ▸ leads
          · have inside := split.closed a start b follows
            have higher := split.climbs a start b follows
            rcases ih inside (by omega) with ⟨p, last, known, ends⟩
            refine ⟨p, ?_, known, ends⟩
            rw [if_neg leads, List.getLast?_cons, last]
            rfl

theorem block_sorted (split : Splittable next rank bound points leaders) {a : α} {room : ℕ}
    (start : a ∈ points) (enough : bound ≤ room + rank a) :
    (block next leaders room a).Pairwise (fun p q => rank p < rank q) := by
  induction room generalizing a with
  | zero => exact List.Pairwise.nil
  | succ room ih =>
      cases follows : next a with
      | none =>
          rw [block_end follows]
          exact List.pairwise_singleton _ _
      | some b =>
          rw [block_step follows]
          by_cases leads : b ∈ leaders
          · simp [leads]
          · have inside := split.closed a start b follows
            have higher := split.climbs a start b follows
            rw [if_neg leads, List.pairwise_cons]
            constructor
            · intro p member
              have runs := (mem_block_iff split inside (by omega)).mp member
              have above := runs.rank_le split inside
              omega
            · exact ih inside (by omega)

theorem block_nodup (split : Splittable next rank bound points leaders) {a : α} {room : ℕ}
    (start : a ∈ points) (enough : bound ≤ room + rank a) : (block next leaders room a).Nodup :=
  (block_sorted split start enough).imp (fun lower same => by
    subst same
    exact Nat.lt_irrefl _ lower)

end

/-- A point belongs to the block of one leader only. -/
theorem leader_unique (split : Splittable next rank bound points leaders) {a b p : α}
    (first : a ∈ leaders) (second : b ∈ leaders) (one : Runs next leaders a p)
    (two : Runs next leaders b p) : a = b := by
  induction one with
  | start =>
      cases two with
      | start => rfl
      | step _ _ plain => exact absurd first plain
  | step before follows plain ih =>
      cases two with
      | start => exact absurd second plain
      | step other into _ =>
          have same := split.injective _ _ _ follows into
          subst same
          exact ih other

theorem covered (split : Splittable next rank bound points leaders) {p : α} (member : p ∈ points) :
    ∃ a ∈ leaders, Runs next leaders a p := by
  induction height : rank p using Nat.strongRecOn generalizing p with
  | ind n ih =>
      by_cases leads : p ∈ leaders
      · exact ⟨p, leads, .start⟩
      · rcases split.preceded p member leads with ⟨q, inside, follows⟩
        have lower := split.climbs q inside p follows
        rcases ih (rank q) (by omega) inside rfl with ⟨a, leader, runs⟩
        exact ⟨a, leader, .step runs follows leads⟩

theorem blocks_partition [DecidableEq α] (split : Splittable next rank bound points leaders) :
    (leaders.flatMap (block next leaders bound)).Perm points := by
  have enough : ∀ a : α, bound ≤ bound + rank a := fun a => Nat.le_add_right _ _
  have separate : (leaders.flatMap (block next leaders bound)).Nodup := by
    rw [List.nodup_flatMap]
    constructor
    · intro a leader
      exact block_nodup split (split.leaders_inside a leader) (enough a)
    · have distinct : leaders.Pairwise (fun a b => a ≠ b) := split.leaders_nodup
      apply distinct.imp_of_mem
      intro a b first second different p one two
      have runsOne := (mem_block_iff split (split.leaders_inside a first) (enough a)).mp one
      have runsTwo := (mem_block_iff split (split.leaders_inside b second) (enough b)).mp two
      exact different (leader_unique split first second runsOne runsTwo)
  rw [List.perm_ext_iff_of_nodup separate split.points_nodup]
  intro p
  rw [List.mem_flatMap]
  constructor
  · rintro ⟨a, leader, member⟩
    have inside := split.leaders_inside a leader
    exact ((mem_block_iff split inside (enough a)).mp member).inside split inside
  · intro member
    rcases covered split member with ⟨a, leader, runs⟩
    exact ⟨a, leader, (mem_block_iff split (split.leaders_inside a leader) (enough a)).mpr runs⟩

end Segarecomp.Lib.Leaders

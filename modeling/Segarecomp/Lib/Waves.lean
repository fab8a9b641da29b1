import Mathlib.Data.List.Basic
import Mathlib.Order.Bounds.Basic
import Mathlib.Data.Set.Basic

/-! Breadth-first closure in waves: what a wave discovers is the next wave, and each element is
expanded once. The elements seen at the end are the least closed set over the seeds. -/

namespace Segarecomp.Lib.Waves

variable {α : Type*} [DecidableEq α]

/-- Marks the candidates not seen yet, in order, and lists them. -/
def discover : List α → List α → List α × List α
  | [], seen => (seen, [])
  | a :: rest, seen =>
    if a ∈ seen then discover rest seen
    else
      let found := discover rest (a :: seen)
      (found.1, a :: found.2)

structure Outcome (α : Type*) where
  seen : List α
  expanded : List α
  rounds : ℕ
  deriving DecidableEq, Repr

/-- `none` when the cap of rounds is exhausted; `arrange` orders the next wave. -/
def spread (expand : α → List α) (arrange : List α → List α) :
    ℕ → List α → List α → List α → ℕ → Option (Outcome α)
  | _, seen, expanded, [], rounds => some ⟨seen, expanded, rounds⟩
  | 0, _, _, _ :: _, _ => none
  | cap + 1, seen, expanded, a :: wave, rounds =>
    let found := discover ((a :: wave).flatMap expand) seen
    spread expand arrange cap found.1 ((a :: wave) ++ expanded) (arrange found.2) (rounds + 1)

/-! ## What a wave discovers -/

theorem mem_discover_seen {candidates seen : List α} {a : α} :
    a ∈ (discover candidates seen).1 ↔ a ∈ seen ∨ a ∈ candidates := by
  induction candidates generalizing seen with
  | nil => simp [discover]
  | cons b rest ih =>
    rw [discover]
    split_ifs with known
    · rw [ih, List.mem_cons]
      constructor
      · exact Or.imp_right .inr
      · rintro (old | rfl | new)
        · exact .inl old
        · exact .inl known
        · exact .inr new
    · rw [ih, List.mem_cons, List.mem_cons]
      tauto

theorem mem_discover_new {candidates seen : List α} {a : α} :
    a ∈ (discover candidates seen).2 ↔ a ∉ seen ∧ a ∈ candidates := by
  induction candidates generalizing seen with
  | nil => simp [discover]
  | cons b rest ih =>
    rw [discover]
    split_ifs with known
    · rw [ih, List.mem_cons]
      constructor
      · exact And.imp_right .inr
      · rintro ⟨fresh, rfl | new⟩
        · exact absurd known fresh
        · exact ⟨fresh, new⟩
    · dsimp only
      rw [List.mem_cons, ih, List.mem_cons, List.mem_cons]
      by_cases same : a = b
      · simp [same, known]
      · simp [same]

/-! ## The closure -/

/-- Holds the seeds and everything an element of it expands to. -/
def ClosedOver (expand : α → List α) (seeds : List α) (K : Set α) : Prop :=
  (∀ s ∈ seeds, s ∈ K) ∧ ∀ a ∈ K, ∀ b ∈ expand a, b ∈ K

/-- Seen is what was expanded and what the wave still has to expand. -/
structure Frontier (expand : α → List α) (seeds seen expanded wave : List α) : Prop where
  seen_iff : ∀ a, a ∈ seen ↔ a ∈ expanded ∨ a ∈ wave
  seeded : ∀ s ∈ seeds, s ∈ seen
  followed : ∀ a ∈ expanded, ∀ b ∈ expand a, b ∈ seen
  least : ∀ K, ClosedOver expand seeds K → ∀ a ∈ seen, a ∈ K

variable {expand : α → List α} {arrange : List α → List α} {seeds seen expanded wave : List α}

omit [DecidableEq α] in
theorem Frontier.start (same : ∀ a, a ∈ seen ↔ a ∈ seeds) : Frontier expand seeds seen [] seeds where
  seen_iff a := by simp [same]
  seeded s mem := (same s).mpr mem
  followed a mem := absurd mem List.not_mem_nil
  least _ closed a mem := closed.1 a ((same a).mp mem)

theorem Frontier.step (order : ∀ l a, a ∈ arrange l ↔ a ∈ l) (front : Frontier expand seeds seen expanded wave) :
    Frontier expand seeds (discover (wave.flatMap expand) seen).1 (wave ++ expanded)
      (arrange (discover (wave.flatMap expand) seen).2) where
  seen_iff a := by
    rw [mem_discover_seen, order, mem_discover_new, List.mem_append, front.seen_iff]
    tauto
  seeded s mem := mem_discover_seen.mpr (.inl (front.seeded s mem))
  followed a mem b child := by
    rcases List.mem_append.mp mem with new | old
    · exact mem_discover_seen.mpr (.inr (List.mem_flatMap.mpr ⟨a, new, child⟩))
    · exact mem_discover_seen.mpr (.inl (front.followed a old b child))
  least K closed a mem := by
    rcases mem_discover_seen.mp mem with old | new
    · exact front.least K closed a old
    · obtain ⟨parent, inWave, child⟩ := List.mem_flatMap.mp new
      have known : parent ∈ seen := (front.seen_iff parent).mpr (.inr inWave)
      exact closed.2 parent (front.least K closed parent known) a child

theorem spread_frontier (order : ∀ l a, a ∈ arrange l ↔ a ∈ l) {cap rounds : ℕ} {out : Outcome α}
    (front : Frontier expand seeds seen expanded wave)
    (eq : spread expand arrange cap seen expanded wave rounds = some out) :
    Frontier expand seeds out.seen out.expanded [] := by
  induction cap generalizing seen expanded wave rounds with
  | zero =>
    cases wave with
    | nil =>
      cases eq
      exact front
    | cons a wave => cases eq
  | succ cap ih =>
    cases wave with
    | nil =>
      cases eq
      exact front
    | cons a wave => exact ih (front.step order) eq

/-- The waves end with the least closed set over the seeds, every element of it expanded. -/
theorem spread_least (order : ∀ l a, a ∈ arrange l ↔ a ∈ l) {cap rounds : ℕ} {out : Outcome α}
    (same : ∀ a, a ∈ seen ↔ a ∈ seeds) (eq : spread expand arrange cap seen [] seeds rounds = some out) :
    (∀ a, a ∈ out.expanded ↔ a ∈ out.seen) ∧
      IsLeast {K | ClosedOver expand seeds K} {a | a ∈ out.seen} := by
  have front := spread_frontier order (Frontier.start same) eq
  have all_expanded : ∀ a, a ∈ out.expanded ↔ a ∈ out.seen := fun a => by
    rw [front.seen_iff]
    simp
  refine ⟨all_expanded, ⟨front.seeded, ?_⟩, fun K closed a mem => front.least K closed a mem⟩
  exact fun a mem b child => front.followed a ((all_expanded a).mpr mem) b child

end Segarecomp.Lib.Waves

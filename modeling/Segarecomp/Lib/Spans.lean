import Mathlib.Data.List.Sort
import Mathlib.Data.Set.Basic
import Mathlib.Tactic

/-! Spans of numbers. A sweep over spans in the order of their beginnings joins those that overlap or
touch; what it leaves is determined by the numbers that are covered. -/

namespace Segarecomp.Lib.Spans

structure Span where
  first : ℕ
  count : ℕ
  deriving DecidableEq, Repr

variable {s t last : Span} {spans others rest : List Span} {x : ℕ}

def Span.stop (s : Span) : ℕ := s.first + s.count

def Span.Holds (s : Span) (x : ℕ) : Prop := s.first ≤ x ∧ x < s.stop

instance (s : Span) (x : ℕ) : Decidable (s.Holds x) := inferInstanceAs (Decidable (_ ∧ _))

def Covers (spans : List Span) (x : ℕ) : Prop := ∃ s ∈ spans, s.Holds x

/-- None is empty, and there is a gap behind each. -/
structure Apart (spans : List Span) : Prop where
  nonempty : ∀ s ∈ spans, 0 < s.count
  gaps : spans.Pairwise fun s t => s.stop < t.first

/-! ## Coverage -/

theorem covers_nil : ¬Covers [] x := by
  rintro ⟨s, member, -⟩
  exact List.not_mem_nil member

theorem covers_cons : Covers (s :: spans) x ↔ s.Holds x ∨ Covers spans x := by
  simp [Covers]

theorem covers_perm (same : spans.Perm others) : Covers spans x ↔ Covers others x := by
  simp only [Covers, same.mem_iff]

/-! ## The sweep -/

def Span.join (s t : Span) : Span := ⟨s.first, max s.stop t.stop - s.first⟩

/-- `last` is the span that may still grow. -/
def absorb (last : Span) : List Span → List Span
  | [] => [last]
  | s :: rest => if s.first ≤ last.stop then absorb (last.join s) rest else last :: absorb s rest

def sweep : List Span → List Span
  | [] => []
  | s :: rest => absorb s rest

theorem stop_join (s t : Span) : (s.join t).stop = max s.stop t.stop := by
  have inside : s.first ≤ max s.stop t.stop := (Nat.le_add_right _ _).trans (le_max_left _ _)
  exact Nat.add_sub_of_le inside

theorem holds_join (after : s.first ≤ t.first) (touch : t.first ≤ s.stop) :
    (s.join t).Holds x ↔ s.Holds x ∨ t.Holds x := by
  rw [Span.Holds, Span.Holds, Span.Holds, stop_join]
  change s.first ≤ x ∧ _ ↔ _
  rw [lt_max_iff]
  have end_s : s.stop = s.first + s.count := rfl
  omega

/-- The spans begin in ascending order, none before `last`. -/
def Ascending (last : Span) (rest : List Span) : Prop :=
  (∀ s ∈ rest, last.first ≤ s.first) ∧ rest.Pairwise fun s t => s.first ≤ t.first

theorem Ascending.join (ascending : Ascending last (s :: rest)) : Ascending (last.join s) rest :=
  ⟨fun t member => ascending.1 t (List.mem_cons_of_mem _ member), ascending.2.of_cons⟩

theorem Ascending.next (ascending : Ascending last (s :: rest)) : Ascending s rest :=
  List.pairwise_cons.mp ascending.2

theorem covers_absorb (ascending : Ascending last rest) : Covers (absorb last rest) x ↔ Covers (last :: rest) x := by
  induction rest generalizing last with
  | nil => rfl
  | cons s rest ih =>
      rw [absorb]
      by_cases touch : s.first ≤ last.stop
      · rw [if_pos touch, ih ascending.join, covers_cons, holds_join (ascending.1 s List.mem_cons_self) touch,
          covers_cons, covers_cons, or_assoc]
      · rw [if_neg touch, covers_cons, ih ascending.next, ← covers_cons]

theorem first_le_of_mem_absorb (ascending : Ascending last rest) (member : t ∈ absorb last rest) :
    last.first ≤ t.first := by
  induction rest generalizing last with
  | nil => exact (congrArg Span.first (List.mem_singleton.mp member)).ge
  | cons s rest ih =>
      rw [absorb] at member
      split_ifs at member
      · have grown : (last.join s).first ≤ t.first := ih ascending.join member
        exact grown
      · rcases List.mem_cons.mp member with rfl | later
        · exact le_rfl
        · exact (ascending.1 s List.mem_cons_self).trans (ih ascending.next later)

theorem absorb_apart (ascending : Ascending last rest) (nonempty : ∀ s ∈ last :: rest, 0 < s.count) :
    Apart (absorb last rest) := by
  induction rest generalizing last with
  | nil => exact ⟨nonempty, List.pairwise_singleton _ _⟩
  | cons s rest ih =>
      have here := nonempty last List.mem_cons_self
      have next := nonempty s (List.mem_cons_of_mem _ List.mem_cons_self)
      have later : ∀ t ∈ rest, 0 < t.count := fun t member =>
        nonempty t (List.mem_cons_of_mem _ (List.mem_cons_of_mem _ member))
      rw [absorb]
      by_cases touch : s.first ≤ last.stop
      · rw [if_pos touch]
        apply ih ascending.join
        intro t member
        rcases List.mem_cons.mp member with rfl | old
        · have grown : last.stop ≤ (last.join s).stop := (le_max_left _ _).trans (stop_join last s).ge
          have begins : (last.join s).first = last.first := rfl
          rw [Span.stop, Span.stop] at grown
          omega
        · exact later t old
      · rw [if_neg touch]
        have tail := ih ascending.next fun t member => (List.mem_cons.mp member).elim (fun is => is ▸ next) (later t)
        refine ⟨?_, List.pairwise_cons.mpr ⟨?_, tail.gaps⟩⟩
        · intro t member
          exact (List.mem_cons.mp member).elim (fun is => is ▸ here) (tail.nonempty t)
        · intro t member
          exact (Nat.lt_of_not_le touch).trans_le (first_le_of_mem_absorb ascending.next member)

theorem covers_sweep (ascending : spans.Pairwise fun s t => s.first ≤ t.first) :
    Covers (sweep spans) x ↔ Covers spans x := by
  cases spans with
  | nil => rfl
  | cons s rest => exact covers_absorb (List.pairwise_cons.mp ascending)

theorem sweep_apart (ascending : spans.Pairwise fun s t => s.first ≤ t.first) (nonempty : ∀ s ∈ spans, 0 < s.count) :
    Apart (sweep spans) := by
  cases spans with
  | nil => exact ⟨nonempty, List.Pairwise.nil⟩
  | cons s rest => exact absorb_apart (List.pairwise_cons.mp ascending) nonempty

/-! ## Uniqueness -/

theorem Apart.tail (apart : Apart (s :: spans)) : Apart spans :=
  ⟨fun t member => apart.nonempty t (List.mem_cons_of_mem _ member), apart.gaps.of_cons⟩

theorem Apart.holds_first (apart : Apart (s :: spans)) : s.Holds s.first :=
  ⟨le_rfl, Nat.lt_add_of_pos_right (apart.nonempty s List.mem_cons_self)⟩

/-- What is covered behind the end of the first span is covered by the others. -/
theorem Apart.beyond (apart : Apart (s :: spans)) (covered : Covers spans x) : s.stop < x := by
  rcases covered with ⟨t, member, holds⟩
  exact (List.rel_of_pairwise_cons apart.gaps member).trans_le holds.1

theorem Apart.first_le (apart : Apart (s :: spans)) (covered : Covers (s :: spans) x) : s.first ≤ x := by
  rcases covers_cons.mp covered with here | later
  · exact here.1
  · exact (Nat.le_add_right _ _).trans (apart.beyond later).le

theorem Apart.not_stop (apart : Apart (s :: spans)) : ¬Covers (s :: spans) s.stop := by
  intro covered
  rcases covers_cons.mp covered with here | later
  · exact here.2.false
  · exact (apart.beyond later).false

/-- Spans that are apart are determined by what they cover. -/
theorem Apart.unique (apart : Apart spans) (other : Apart others) (same : ∀ x, Covers spans x ↔ Covers others x) :
    spans = others := by
  induction spans generalizing others with
  | nil =>
      cases others with
      | nil => rfl
      | cons t others => exact absurd ((same t.first).mpr (covers_cons.mpr (.inl other.holds_first))) covers_nil
  | cons s spans ih =>
      cases others with
      | nil => exact absurd ((same s.first).mp (covers_cons.mpr (.inl apart.holds_first))) covers_nil
      | cons t others =>
          have first : s.first = t.first := by
            apply le_antisymm
            · exact apart.first_le ((same _).mpr (covers_cons.mpr (.inl other.holds_first)))
            · exact other.first_le ((same _).mp (covers_cons.mpr (.inl apart.holds_first)))
          -- the end of either span is not covered, so neither reaches past the other's end
          have stop : s.stop = t.stop := by
            have ends := mt (same s.stop).mpr apart.not_stop
            have ends' := mt (same t.stop).mp other.not_stop
            have left : t.stop ≤ s.stop := by
              by_contra short
              exact ends (covers_cons.mpr (.inl ⟨first ▸ Nat.le_add_right _ _, Nat.lt_of_not_le short⟩))
            have right : s.stop ≤ t.stop := by
              by_contra short
              exact ends' (covers_cons.mpr (.inl ⟨first ▸ Nat.le_add_right _ _, Nat.lt_of_not_le short⟩))
            exact le_antisymm right left
          have head : s = t := by
            rw [Span.stop, Span.stop, first] at stop
            cases s
            cases t
            simp only [Span.mk.injEq]
            exact ⟨first, Nat.add_left_cancel stop⟩
          subst head
          rw [ih apart.tail other.tail]
          intro x
          constructor
          · intro covered
            have past := apart.beyond covered
            rcases covers_cons.mp ((same x).mp (covers_cons.mpr (.inr covered))) with here | later
            · exact absurd here.2 past.le.not_gt
            · exact later
          · intro covered
            have past := other.beyond covered
            rcases covers_cons.mp ((same x).mpr (covers_cons.mpr (.inr covered))) with here | later
            · exact absurd here.2 past.le.not_gt
            · exact later

end Segarecomp.Lib.Spans

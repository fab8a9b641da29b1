import Segarecomp.SegaCd.SourceResolve

/-! The merged ranges: the delivered sectors of the track, whatever the order of the ledger. -/

namespace Segarecomp.SegaCd.SourceResolve

open Lib.Spans Media.Disc

variable {track : DiscTrack} {delivered delivered' ranges merged : List LedgerRange} {r last : LedgerRange} {x : ℕ}

def LedgerRange.span (r : LedgerRange) : Span := ⟨r.firstLba, r.count⟩

theorem span_injective : Function.Injective LedgerRange.span := by
  rintro ⟨first, count⟩ ⟨first', count'⟩ same
  simp only [LedgerRange.span, Span.mk.injEq] at same
  rw [same.1, same.2]

/-- The end of the range is a 32-bit number. -/
def LedgerRange.Narrow (r : LedgerRange) : Prop := r.span.stop < 2 ^ 32

/-! ## Clipping -/

/-- A clipped range is not empty, and holds what the range and the track have in common. -/
theorem clip_some (narrow : track.endLba < 2 ^ 32) (clipped : clip track r = some last) :
    0 < last.count ∧ last.Narrow ∧ ∀ x, last.span.Holds x ↔ r.span.Holds x ∧ track.Covers x := by
  have finish : track.endLba = track.firstLba + track.sectorCount := rfl
  rw [clip] at clipped
  split_ifs at clipped with some_left
  have ends : min (r.firstLba + r.count) (track.firstLba + track.sectorCount) < 2 ^ 32 :=
    (min_le_right _ _).trans_lt narrow
  have first : u32 (max r.firstLba track.firstLba) = max r.firstLba track.firstLba :=
    Nat.mod_eq_of_lt (some_left.trans ends)
  have count : u32 (min (r.firstLba + r.count) (track.firstLba + track.sectorCount) - max r.firstLba track.firstLba) =
      min (r.firstLba + r.count) (track.firstLba + track.sectorCount) - max r.firstLba track.firstLba :=
    Nat.mod_eq_of_lt ((Nat.sub_le _ _).trans_lt ends)
  rw [first, count] at clipped
  rw [← Option.some.inj clipped]
  have stop : (⟨max r.firstLba track.firstLba, min (r.firstLba + r.count) (track.firstLba + track.sectorCount) -
      max r.firstLba track.firstLba⟩ : LedgerRange).span.stop =
      min (r.firstLba + r.count) (track.firstLba + track.sectorCount) := Nat.add_sub_of_le some_left.le
  refine ⟨Nat.sub_pos_of_lt some_left, stop.trans_lt ends, fun x => ?_⟩
  rw [Span.Holds, stop, covers_iff, finish, lt_min_iff]
  change max r.firstLba track.firstLba ≤ x ∧ _ ↔ (r.firstLba ≤ x ∧ x < r.firstLba + r.count) ∧ _
  rw [max_le_iff]
  tauto

theorem clip_none (clipped : clip track r = none) : ¬(r.span.Holds x ∧ track.Covers x) := by
  rintro ⟨⟨above, below⟩, covers⟩
  rw [covers_iff, DiscTrack.endLba] at covers
  change r.firstLba ≤ x at above
  change x < r.firstLba + r.count at below
  rw [clip] at clipped
  rw [if_pos (by omega)] at clipped
  cases clipped

/-! ## Merging -/

theorem narrow_join (narrow : last.Narrow) (next : r.Narrow) :
    ({ last with count := u32 (max (u32 (last.firstLba + last.count)) (u32 (r.firstLba + r.count)) + 2 ^ 32 -
      last.firstLba) } : LedgerRange).span = last.span.join r.span := by
  have stop : last.firstLba + last.count < 2 ^ 32 := narrow
  have stop' : r.firstLba + r.count < 2 ^ 32 := next
  have high : max (last.firstLba + last.count) (r.firstLba + r.count) < 2 ^ 32 := max_lt stop stop'
  have low : last.firstLba ≤ max (last.firstLba + last.count) (r.firstLba + r.count) :=
    (Nat.le_add_right _ _).trans (le_max_left _ _)
  have count : u32 (max (last.firstLba + last.count) (r.firstLba + r.count) + 2 ^ 32 - last.firstLba) =
      max (last.firstLba + last.count) (r.firstLba + r.count) - last.firstLba := by
    rw [u32]
    omega
  have one : u32 (last.firstLba + last.count) = last.firstLba + last.count := Nat.mod_eq_of_lt stop
  have two : u32 (r.firstLba + r.count) = r.firstLba + r.count := Nat.mod_eq_of_lt stop'
  rw [one, two, LedgerRange.span, count]
  rfl

/-- The loop over sorted ranges is the sweep over their spans. -/
theorem foldl_mergeRange (narrow : ∀ s ∈ last :: ranges, s.Narrow)
    (ascending : Ascending last.span (ranges.map LedgerRange.span)) :
    (ranges.foldl mergeRange (last :: merged)).reverse.map LedgerRange.span =
      merged.reverse.map LedgerRange.span ++ absorb last.span (ranges.map LedgerRange.span) := by
  induction ranges generalizing last merged with
  | nil =>
    rw [List.foldl_nil, List.reverse_cons, List.map_append]
    rfl
  | cons r ranges ih =>
    have here := narrow last List.mem_cons_self
    have next := narrow r (List.mem_cons_of_mem _ List.mem_cons_self)
    have later : ∀ s ∈ ranges, s.Narrow := fun s member => narrow s (List.mem_cons_of_mem _ (List.mem_cons_of_mem _ member))
    have stop : u32 (last.firstLba + last.count) = last.span.stop := Nat.mod_eq_of_lt here
    rw [List.foldl_cons, mergeRange, List.map_cons, absorb]
    by_cases touch : r.firstLba ≤ u32 (last.firstLba + last.count)
    · have joined := narrow_join here next
      have touching : r.span.first ≤ last.span.stop := stop ▸ touch
      rw [if_pos touch, if_pos touching, ← joined]
      apply ih
      · intro s member
        rcases List.mem_cons.mp member with rfl | old
        · rw [LedgerRange.Narrow, joined, stop_join]
          exact max_lt here next
        · exact later s old
      · rw [joined]
        exact ascending.join
    · have beyond : ¬r.span.first ≤ last.span.stop := fun touching => touch (stop.symm ▸ touching)
      have rest := @ih (last :: merged) r (fun s member => narrow s (List.mem_cons_of_mem _ member)) ascending.next
      rw [if_neg touch, if_neg beyond, rest, List.reverse_cons, List.map_append, List.append_assoc]
      rfl

/-- Ranges that are apart, and cover the delivered sectors of the track. -/
theorem mergeDelivered_spec (narrow : track.endLba < 2 ^ 32) (delivered : List LedgerRange) :
    Apart ((mergeDelivered track delivered).map LedgerRange.span) ∧
      ∀ x, Covers ((mergeDelivered track delivered).map LedgerRange.span) x ↔
        (∃ r ∈ delivered, r.span.Holds x) ∧ track.Covers x := by
  have same : ((delivered.filterMap (clip track)).insertionSort fun a b => a.firstLba ≤ b.firstLba).Perm
      (delivered.filterMap (clip track)) := List.perm_insertionSort _ _
  have sorted : ((delivered.filterMap (clip track)).insertionSort fun a b => a.firstLba ≤ b.firstLba).Pairwise
      fun a b => a.firstLba ≤ b.firstLba := List.pairwise_insertionSort _ _
  have clipped : ∀ s ∈ (delivered.filterMap (clip track)).insertionSort fun a b => a.firstLba ≤ b.firstLba,
      0 < s.count ∧ s.Narrow := by
    intro s member
    rcases List.mem_filterMap.mp (same.mem_iff.mp member) with ⟨r, -, kept⟩
    have spec := clip_some narrow kept
    exact ⟨spec.1, spec.2.1⟩
  have covered : ∀ x, Covers (((delivered.filterMap (clip track)).insertionSort fun a b =>
      a.firstLba ≤ b.firstLba).map LedgerRange.span) x ↔ (∃ r ∈ delivered, r.span.Holds x) ∧ track.Covers x := by
    intro x
    rw [covers_perm (same.map _)]
    constructor
    · rintro ⟨s, member, holds⟩
      rcases List.mem_map.mp member with ⟨c, kept, rfl⟩
      rcases List.mem_filterMap.mp kept with ⟨r, present, is⟩
      have both := ((clip_some narrow is).2.2 x).mp holds
      exact ⟨⟨r, present, both.1⟩, both.2⟩
    · rintro ⟨⟨r, present, holds⟩, covers⟩
      cases is : clip track r with
      | none => exact absurd ⟨holds, covers⟩ (clip_none is)
      | some c =>
        have inside := ((clip_some narrow is).2.2 x).mpr ⟨holds, covers⟩
        exact ⟨c.span, List.mem_map_of_mem (List.mem_filterMap.mpr ⟨r, present, is⟩), inside⟩
  have swept : (mergeDelivered track delivered).map LedgerRange.span =
      sweep (((delivered.filterMap (clip track)).insertionSort fun a b => a.firstLba ≤ b.firstLba).map
        LedgerRange.span) := by
    rw [mergeDelivered]
    generalize (delivered.filterMap (clip track)).insertionSort (fun a b => a.firstLba ≤ b.firstLba) = ranges at *
    cases ranges with
    | nil => rfl
    | cons first ranges =>
      have ascending : Ascending first.span (ranges.map LedgerRange.span) := by
        rw [List.pairwise_cons] at sorted
        constructor
        · intro s member
          rcases List.mem_map.mp member with ⟨r, present, rfl⟩
          exact sorted.1 r present
        · exact List.pairwise_map.mpr sorted.2
      exact foldl_mergeRange (fun s member => (clipped s member).2) ascending
  have order : (((delivered.filterMap (clip track)).insertionSort fun a b => a.firstLba ≤ b.firstLba).map
      LedgerRange.span).Pairwise fun s t => s.first ≤ t.first := List.pairwise_map.mpr sorted
  rw [swept]
  constructor
  · apply sweep_apart order
    intro s member
    rcases List.mem_map.mp member with ⟨r, present, rfl⟩
    exact (clipped r present).1
  · intro x
    rw [covers_sweep order, covered]

/-- The order of the ledger does not matter, nor how the sort orders ranges that begin alike. -/
theorem mergeDelivered_perm (narrow : track.endLba < 2 ^ 32) (same : delivered'.Perm delivered) :
    mergeDelivered track delivered' = mergeDelivered track delivered := by
  have one := mergeDelivered_spec narrow delivered'
  have two := mergeDelivered_spec narrow delivered
  apply List.map_injective_iff.mpr span_injective
  apply one.1.unique two.1
  intro x
  rw [one.2, two.2]
  simp only [same.mem_iff]

end Segarecomp.SegaCd.SourceResolve

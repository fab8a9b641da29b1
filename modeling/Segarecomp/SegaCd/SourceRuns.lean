import Mathlib.Data.Set.Card
import Segarecomp.SegaCd.SourceData

/-! The runs of a window: its maximal equalities with a delivered segment around the anchor. Each occurrence of the
anchor lies in one, and the resolver looks at them all. -/

namespace Segarecomp.SegaCd.SourceResolve

open Lib.CommonRuns Media.Disc

variable {e : SourceEvidence} {segments : List Segment} {s : Segment} {place : Segment × ℕ} {source : ResolvedSource}
  {anchor bytes : List Byte} {p q : ℕ}

/-! ## The occurrences of the anchor -/

theorem mem_occurrences (nonempty : anchor ≠ []) :
    p ∈ occurrencesFrom anchor q bytes ↔ q ≤ p ∧ anchor <+: bytes.drop (p - q) := by
  induction bytes generalizing q with
  | nil =>
    rw [occurrencesFrom, List.drop_nil, List.prefix_nil]
    exact ⟨fun none => absurd none List.not_mem_nil, fun empty => absurd empty.2 nonempty⟩
  | cons b bytes ih =>
    have later : p ∈ occurrencesFrom anchor (q + 1) bytes ↔ q + 1 ≤ p ∧ anchor <+: (b :: bytes).drop (p - q) := by
      rw [ih]
      apply and_congr_right
      intro beyond
      rw [show p - q = p - (q + 1) + 1 by omega, List.drop_succ_cons]
    rw [occurrencesFrom]
    split_ifs with begins
    · rw [List.mem_cons, later]
      constructor
      · rintro (rfl | found)
        · rw [Nat.sub_self, List.drop_zero]
          exact ⟨le_rfl, begins⟩
        · exact ⟨Nat.le_of_succ_le found.1, found.2⟩
      · rintro ⟨here, found⟩
        rcases here.eq_or_lt with rfl | beyond
        · exact Or.inl rfl
        · exact Or.inr ⟨beyond, found⟩
    · rw [later]
      constructor
      · exact fun found => ⟨Nat.le_of_succ_le found.1, found.2⟩
      · rintro ⟨here, found⟩
        rcases here.eq_or_lt with rfl | beyond
        · rw [Nat.sub_self, List.drop_zero] at found
          exact absurd found begins
        · exact ⟨beyond, found⟩

theorem occurrences_nodup (nonempty : anchor ≠ []) : (occurrencesFrom anchor q bytes).Nodup := by
  induction bytes generalizing q with
  | nil => exact List.nodup_nil
  | cons b bytes ih =>
    rw [occurrencesFrom]
    split_ifs
    · apply List.Nodup.cons
      · intro again
        have beyond := ((mem_occurrences nonempty).mp again).1
        exact absurd beyond (Nat.not_succ_le_self q)
      · exact ih
    · exact ih

/-- What the guards at the head leave: a window of at least 32 bytes with the program counter in it. -/
structure SourceEvidence.Usable (e : SourceEvidence) : Prop where
  above : e.regionBase ≤ e.pc
  inside : e.pc < e.regionBase + e.region.length
  enough : kResolveAnchorBytes ≤ e.region.length
  small : e.region.length + kResolveAnchorBytes ≤ 2 ^ 32

namespace SourceEvidence.Usable

theorem anchorAt_eq (usable : e.Usable) : e.anchorAt = min e.pcIndex (e.region.length - kResolveAnchorBytes) := by
  have above := usable.above
  have inside := usable.inside
  have enough := usable.enough
  have small := usable.small
  have sum : u32 (e.pcIndex + kResolveAnchorBytes) = e.pcIndex + kResolveAnchorBytes := by
    apply Nat.mod_eq_of_lt
    rw [SourceEvidence.pcIndex]
    omega
  have rest : u32 (e.region.length - kResolveAnchorBytes) = e.region.length - kResolveAnchorBytes := by
    apply Nat.mod_eq_of_lt
    rw [kResolveAnchorBytes] at *
    omega
  rw [SourceEvidence.anchorAt, sum, rest]
  split_ifs with near
  · exact (min_eq_left (Nat.le_sub_of_add_le near)).symm
  · exact (min_eq_right (by omega)).symm

theorem anchor_fits (usable : e.Usable) : e.anchorAt + kResolveAnchorBytes ≤ e.region.length := by
  have enough := usable.enough
  rw [usable.anchorAt_eq]
  omega

theorem anchor_ne_nil (usable : e.Usable) : e.anchor ≠ [] := by
  apply List.ne_nil_of_length_pos
  have fits := usable.anchor_fits
  rw [SourceEvidence.anchor, List.length_take, List.length_drop]
  rw [kResolveAnchorBytes] at *
  omega

theorem mem_places (usable : e.Usable) : place ∈ e.places segments ↔
    place.1 ∈ segments ∧ Agrees e.region place.1.bytes e.anchorAt place.2 kResolveAnchorBytes := by
  have found : ∀ s : Segment, place.2 ∈ occurrencesFrom e.anchor 0 s.bytes ↔
      Agrees e.region s.bytes e.anchorAt place.2 kResolveAnchorBytes := by
    intro s
    rw [mem_occurrences usable.anchor_ne_nil, Nat.sub_zero, agrees_iff_prefix (by decide) usable.anchor_fits]
    exact and_iff_right (Nat.zero_le _)
  rw [SourceEvidence.places, List.mem_flatMap]
  constructor
  · rintro ⟨s, member, here⟩
    rcases List.mem_map.mp here with ⟨p, occurs, rfl⟩
    exact ⟨member, (found s).mp occurs⟩
  · rintro ⟨member, agrees⟩
    exact ⟨place.1, member, List.mem_map.mpr ⟨place.2, (found place.1).mpr agrees, rfl⟩⟩

theorem places_nodup (usable : e.Usable) (nodup : segments.Nodup) : (e.places segments).Nodup := by
  rw [SourceEvidence.places, List.nodup_flatMap]
  constructor
  · exact fun s _ => (occurrences_nodup usable.anchor_ne_nil).map (Prod.mk_right_injective s)
  · apply nodup.imp
    intro s s' different here there
    rcases List.mem_map.mp there with ⟨p, -, rfl⟩
    intro other
    rcases List.mem_map.mp other with ⟨q, -, same⟩
    exact different (congrArg Prod.fst same).symm

end SourceEvidence.Usable

/-! ## The runs -/

structure SourceRun where
  segment : Segment
  windowBegin : ℕ
  segmentBegin : ℕ
  length : ℕ
  deriving DecidableEq

/-- A maximal equality of the window and a segment, with the anchor in it. -/
structure SourceEvidence.IsRun (e : SourceEvidence) (segments : List Segment) (run : SourceRun) : Prop where
  member : run.segment ∈ segments
  maximal : Maximal e.region run.segment.bytes run.windowBegin run.segmentBegin run.length
  before : run.windowBegin ≤ e.anchorAt
  after : e.anchorAt + kResolveAnchorBytes ≤ run.windowBegin + run.length

/-- The run through an occurrence. -/
def SourceEvidence.runAt (e : SourceEvidence) (place : Segment × ℕ) : SourceRun :=
  let low := backward e.region place.1.bytes e.anchorAt place.2
  let high := forward (e.region.drop (e.anchorAt + kResolveAnchorBytes))
    (place.1.bytes.drop (place.2 + kResolveAnchorBytes))
  ⟨place.1, e.anchorAt - low, place.2 - low, low + kResolveAnchorBytes + high⟩

def SourceRun.candidate (run : SourceRun) : Candidate :=
  ⟨run.segment.offset + run.segmentBegin, run.windowBegin, run.length⟩

theorem candidates_eq (e : SourceEvidence) (places : List (Segment × ℕ)) :
    places.map e.candidate = (places.map e.runAt).map SourceRun.candidate := by
  rw [List.map_map]
  rfl

def SourceEvidence.runs (e : SourceEvidence) (segments : List Segment) : List SourceRun :=
  (e.places segments).map e.runAt

namespace SourceEvidence.Usable

variable {run : SourceRun}

theorem mem_runs (usable : e.Usable) : run ∈ e.runs segments ↔ e.IsRun segments run := by
  rw [SourceEvidence.runs, List.mem_map]
  constructor
  · rintro ⟨place, found, rfl⟩
    rcases usable.mem_places.mp found with ⟨member, agrees⟩
    have low := (backward_le e.region place.1.bytes e.anchorAt place.2).1
    constructor
    · exact member
    · exact agrees.extend
    · exact Nat.sub_le _ _
    · change e.anchorAt + kResolveAnchorBytes ≤ e.anchorAt - _ + (_ + kResolveAnchorBytes + _)
      omega
  · intro isRun
    have before := isRun.before
    have after := isRun.after
    have part : Agrees e.region run.segment.bytes e.anchorAt (run.segmentBegin + (e.anchorAt - run.windowBegin))
        kResolveAnchorBytes := isRun.maximal.agrees.part before after
    have low := backward_le e.region run.segment.bytes e.anchorAt (run.segmentBegin + (e.anchorAt - run.windowBegin))
    have same := part.extend.unique isRun.maximal (p := e.anchorAt) (by omega)
      ⟨Nat.sub_le _ _, by rw [kResolveAnchorBytes]; omega⟩ ⟨before, by rw [kResolveAnchorBytes] at after; omega⟩
    refine ⟨(run.segment, run.segmentBegin + (e.anchorAt - run.windowBegin)), ?_, ?_⟩
    · exact usable.mem_places.mpr ⟨isRun.member, part⟩
    · rw [SourceEvidence.runAt]
      dsimp only
      rw [same.1, same.2.1, same.2.2]

theorem runs_nodup (usable : e.Usable) (nodup : segments.Nodup) : (e.runs segments).Nodup := by
  apply (usable.places_nodup nodup).map_on
  rintro ⟨s, p⟩ - ⟨s', p'⟩ - same
  have segment : s = s' := congrArg SourceRun.segment same
  subst segment
  have windowBegin : e.anchorAt - backward e.region s.bytes e.anchorAt p =
      e.anchorAt - backward e.region s.bytes e.anchorAt p' := congrArg SourceRun.windowBegin same
  have segmentBegin : p - backward e.region s.bytes e.anchorAt p = p' - backward e.region s.bytes e.anchorAt p' :=
    congrArg SourceRun.segmentBegin same
  have low := backward_le e.region s.bytes e.anchorAt p
  have low' := backward_le e.region s.bytes e.anchorAt p'
  have equal : p = p' := by omega
  rw [equal]

theorem length_places (usable : e.Usable) (nodup : segments.Nodup) :
    (e.places segments).length = {run | e.IsRun segments run}.ncard := by
  have same : {run | e.IsRun segments run} = ((e.runs segments).toFinset : Set SourceRun) := by
    apply Set.ext
    intro run
    rw [Set.mem_ofPred_eq, Finset.mem_coe, List.mem_toFinset, usable.mem_runs]
  rw [same, Set.ncard_coe_finset, List.toFinset_card_of_nodup (usable.runs_nodup nodup), SourceEvidence.runs,
    List.length_map]

end SourceEvidence.Usable

end Segarecomp.SegaCd.SourceResolve

import Segarecomp.SegaCd.HintCounter

/-! The lazy counter is the line-by-line counter: skipping whole frames, sampling at other instants
and looking ahead for the next latch all follow the same sequence of lines. -/

namespace Segarecomp.SegaCd.HintCounter

open scoped Genesis.Schedule
open Genesis.Schedule (VdpState linesPerFrame vblankOnsetLine rasterMaxLines)

variable {reload : BitVec 8} {vdp : VdpState} {h : ScdHint}

/-! ## The counter against the line of the frame -/

/-- Where the counter is: its value, and the line of the frame it steps next. -/
abbrev Position := BitVec 8 × ℕ

def nextPosition (reload : BitVec 8) (p : Position) : Position :=
  ((scdHintStep p.1 p.2 reload).1, (p.2 + 1) % linesPerFrame)

def latchesHere (reload : BitVec 8) (p : Position) : Prop := (scdHintStep p.1 p.2 reload).2 = true

instance : Decidable (latchesHere reload p) := inferInstanceAs (Decidable (_ = true))

def ScdHint.position (h : ScdHint) : Position := (h.counter, h.next % linesPerFrame)

theorem nextPosition_line (counter : BitVec 8) (line : ℕ) :
    nextPosition reload (counter, line % linesPerFrame) =
      ((scdHintStep counter (line % linesPerFrame) reload).1, (line + 1) % linesPerFrame) := by
  rw [nextPosition, Nat.mod_add_mod]

theorem scdHintStep_counting {counter : BitVec 8} {line : ℕ} (active : line < 224) (counting : counter ≠ 0) :
    scdHintStep counter line reload = (counter - 1, false) :=
  (if_pos active).trans (if_neg counting)

theorem scdHintStep_blank {counter : BitVec 8} {line : ℕ} (low : 224 < line) (high : line < 261) :
    scdHintStep counter line reload = (counter, false) := by
  have late : ¬line < vblankOnsetLine := by simp only [vblankOnsetLine]; omega
  have onset : line ≠ vblankOnsetLine := by simp only [vblankOnsetLine]; omega
  have last : line ≠ linesPerFrame - 1 := by simp only [linesPerFrame]; omega
  rw [scdHintStep, if_neg late, if_neg onset, if_neg last]

theorem scdHintStep_last (counter : BitVec 8) : scdHintStep counter 261 reload = (reload, false) := by
  rw [scdHintStep, if_neg (by decide), if_neg (by decide), if_pos (by decide)]

theorem iterate_line (counter : BitVec 8) {line n : ℕ} (small : line + n < 262) :
    ((nextPosition reload)^[n] (counter, line)).2 = line + n := by
  induction n with
  | zero => rfl
  | succ n ih =>
    rw [Function.iterate_succ_apply', nextPosition, ih (by omega)]
    exact Nat.mod_eq_of_lt small

/-- Wherever the counter is in a frame, the last line of the frame reloads it. -/
theorem iterate_last (counter : BitVec 8) {line n : ℕ} (last : line + n = 261) :
    (nextPosition reload)^[n + 1] (counter, line) = (reload, 0) := by
  have at_last : ((nextPosition reload)^[n] (counter, line)).2 = 261 := (iterate_line counter (by omega)).trans last
  rw [Function.iterate_succ_apply', nextPosition, at_last, scdHintStep_last]
  rfl

theorem loaded_periodic : Function.IsPeriodicPt (nextPosition reload) 262 (reload, 0) :=
  iterate_last reload rfl

theorem counting_ne_zero {n : ℕ} (below : n < reload.toNat) : reload - BitVec.ofNat 8 n ≠ 0 := by
  bv_omega

/-- From line 0 with the reload value the counter counts down until it reaches 0. -/
theorem iterate_counting {n : ℕ} (active : n ≤ 224) (counting : n ≤ reload.toNat) :
    (nextPosition reload)^[n] (reload, 0) = (reload - BitVec.ofNat 8 n, n) := by
  induction n with
  | zero => simp
  | succ n ih =>
    rw [Function.iterate_succ_apply', ih (by omega) (by omega), nextPosition,
      scdHintStep_counting (by omega) (counting_ne_zero counting)]
    refine Prod.ext ?_ (Nat.mod_eq_of_lt (by simp only [linesPerFrame]; omega))
    bv_omega

theorem latchesHere_zero {line : ℕ} (low : line ≤ 224) : latchesHere reload (0, line) := by
  rcases low.lt_or_eq with active | rfl
  · exact congrArg Prod.snd ((if_pos active).trans (if_pos rfl))
  · rfl

/-- A whole frame from its line 0 with the counter at the reload value latches iff the reload value
is at most 224. -/
theorem frame_latches_iff :
    (∃ k < 262, latchesHere reload ((nextPosition reload)^[k] (reload, 0))) ↔ reload.toNat ≤ 224 := by
  constructor
  · rintro ⟨k, inside, latches⟩
    by_contra large
    have counting (n : ℕ) (le : n ≤ 224) := iterate_counting le (by omega : n ≤ reload.toNat)
    rcases Nat.lt_or_ge 224 k with late | early
    · have line : ((nextPosition reload)^[k] (reload, 0)).2 = k :=
        (iterate_line reload (by omega)).trans (Nat.zero_add k)
      rw [latchesHere, line] at latches
      rcases Nat.lt_or_ge k 261 with blank | last
      · rw [scdHintStep_blank late blank] at latches
        exact absurd latches Bool.false_ne_true
      · obtain rfl : k = 261 := by omega
        rw [scdHintStep_last] at latches
        exact absurd latches Bool.false_ne_true
    · rw [counting k early] at latches
      have nonzero := counting_ne_zero (by omega : k < reload.toNat)
      rcases early.lt_or_eq with active | rfl
      · rw [latchesHere, scdHintStep_counting active nonzero] at latches
        exact absurd latches Bool.false_ne_true
      · exact nonzero (beq_iff_eq.mp latches)
  · intro small
    refine ⟨reload.toNat, by omega, ?_⟩
    rw [iterate_counting small le_rfl]
    have zero : reload - BitVec.ofNat 8 reload.toNat = 0 := by rw [BitVec.ofNat_toNat, BitVec.setWidth_eq, BitVec.sub_self]; rfl
    rw [zero]
    exact latchesHere_zero small

/-! ## Many lines -/

/-- Some of the `n` lines from a position on latches. -/
def LatchesWithin (reload : BitVec 8) (n : ℕ) (p : Position) : Prop :=
  ∃ k < n, latchesHere reload ((nextPosition reload)^[k] p)

instance : Decidable (LatchesWithin reload n p) := inferInstanceAs (Decidable (∃ k < n, _))

theorem latchesWithin_succ {n : ℕ} {p : Position} :
    LatchesWithin reload (n + 1) p ↔
      LatchesWithin reload n p ∨ latchesHere reload ((nextPosition reload)^[n] p) := by
  constructor
  · rintro ⟨k, inside, latches⟩
    rcases Nat.lt_succ_iff_lt_or_eq.mp inside with lt | rfl
    · exact .inl ⟨k, lt, latches⟩
    · exact .inr latches
  · rintro (⟨k, inside, latches⟩ | latches)
    · exact ⟨k, by omega, latches⟩
    · exact ⟨n, n.lt_succ_self, latches⟩

theorem latchesWithin_frames {frames : ℕ} (pos : 0 < frames) :
    LatchesWithin reload (frames * 262) (reload, 0) ↔ reload.toNat ≤ 224 := by
  rw [← frame_latches_iff]
  constructor
  · rintro ⟨k, -, latches⟩
    refine ⟨k % 262, Nat.mod_lt _ (by omega), ?_⟩
    rwa [loaded_periodic.iterate_mod_apply]
  · rintro ⟨k, inside, latches⟩
    exact ⟨k, by omega, latches⟩

def ScdHint.moved (h : ScdHint) (counter : BitVec 8) (next : ℕ) : ScdHint :=
  { h with counter := counter, next := next }

theorem scdHintLatch_moved (h : ScdHint) (counter : BitVec 8) (next : ℕ) :
    scdHintLatch (h.moved counter next) = (scdHintLatch h).moved counter next := by
  obtain ⟨_, pending, _, _, _⟩ := h
  cases pending <;> rfl

theorem scdHintLatch_hintAt (h : ScdHint) : (scdHintLatch h).hintAt = h.hintAt := by
  obtain ⟨_, pending, _, _, _⟩ := h
  cases pending <;> rfl

theorem scdHintLatch_twice (h : ScdHint) : scdHintLatch (scdHintLatch h) = scdHintLatch h := by
  obtain ⟨counter, pending, next, hintAt, latched⟩ := h
  cases pending <;> rfl

theorem scdHintLine_eq (h : ScdHint) :
    scdHintLine reload h =
      (if latchesHere reload h.position then scdHintLatch h else h).moved
        (nextPosition reload h.position).1 (h.next + 1) := by
  by_cases latches : latchesHere reload h.position
  · have stepped : (scdHintStep h.counter (h.next % linesPerFrame) reload).2 = true := latches
    rw [if_pos latches, scdHintLine]
    simp only [stepped, if_true]
    obtain ⟨_, pending, _, _, _⟩ := h
    cases pending <;> rfl
  · have stepped : ¬(scdHintStep h.counter (h.next % linesPerFrame) reload).2 = true := latches
    rw [if_neg latches, scdHintLine]
    simp only [if_neg stepped]
    rfl

theorem scdHintLine_next (h : ScdHint) : (scdHintLine reload h).next = h.next + 1 := by
  rw [scdHintLine_eq]
  rfl

theorem scdHintLine_position (h : ScdHint) : (scdHintLine reload h).position = nextPosition reload h.position := by
  rw [scdHintLine_eq]
  exact (nextPosition_line h.counter h.next).symm

theorem iterate_position (n : ℕ) (h : ScdHint) :
    ((scdHintLine reload)^[n] h).position = (nextPosition reload)^[n] h.position := by
  induction n with
  | zero => rfl
  | succ n ih => rw [Function.iterate_succ_apply', Function.iterate_succ_apply', scdHintLine_position, ih]

theorem iterate_next (n : ℕ) (h : ScdHint) : ((scdHintLine reload)^[n] h).next = h.next + n := by
  induction n with
  | zero => rfl
  | succ n ih => rw [Function.iterate_succ_apply', scdHintLine_next, ih, Nat.add_assoc]

/-- The lines move the counter along; the request is latched at most once. -/
theorem iterate_eq (n : ℕ) (h : ScdHint) :
    (scdHintLine reload)^[n] h =
      (if LatchesWithin reload n h.position then scdHintLatch h else h).moved
        ((nextPosition reload)^[n] h.position).1 (h.next + n) := by
  induction n with
  | zero =>
    have quiet : ¬LatchesWithin reload 0 h.position := fun ⟨_, inside, _⟩ => absurd inside (Nat.not_lt_zero _)
    rw [if_neg quiet]
    rfl
  | succ n ih =>
    rw [Function.iterate_succ_apply', Function.iterate_succ_apply', scdHintLine_eq, iterate_position, iterate_next, ih]
    simp only [latchesWithin_succ]
    by_cases here : latchesHere reload ((nextPosition reload)^[n] h.position)
    · simp only [if_pos here, or_iff_right_of_imp fun _ => here, scdHintLatch_moved]
      split_ifs with earlier
      · rw [scdHintLatch_twice]
        rfl
      · rfl
    · rw [if_neg here]
      simp only [or_iff_left here]
      rfl

theorem iterate_hintAt (n : ℕ) (h : ScdHint) : ((scdHintLine reload)^[n] h).hintAt = h.hintAt := by
  rw [iterate_eq]
  split_ifs
  · exact scdHintLatch_hintAt h
  · rfl

/-! ## The loop -/

theorem iterate_frames {frames : ℕ} (pos : 0 < frames) (origin : h.next % linesPerFrame = 0)
    (loaded : h.counter = reload) :
    (scdHintLine reload)^[frames * linesPerFrame] h =
      let latched := if reload.toNat ≤ vblankOnsetLine then scdHintLatch h else h
      { latched with next := latched.next + frames * linesPerFrame } := by
  have position : h.position = (reload, 0) := Prod.ext loaded origin
  have back : (nextPosition reload)^[frames * linesPerFrame] (reload, 0) = (reload, 0) :=
    loaded_periodic.const_mul frames
  have latches : LatchesWithin reload (frames * linesPerFrame) (reload, 0) ↔ reload.toNat ≤ vblankOnsetLine :=
    latchesWithin_frames pos
  rw [iterate_eq, position, back]
  simp only [latches]
  subst loaded
  split_ifs
  · obtain ⟨_, pending, _, _, _⟩ := h
    cases pending <;> rfl
  · rfl

theorem scdHintLoop_eq {target fuel : ℕ} (enough : target + 1 - h.next ≤ fuel) :
    scdHintLoop reload target fuel h = (scdHintLine reload)^[target + 1 - h.next] h := by
  induction fuel generalizing h with
  | zero =>
    rw [Nat.le_zero.mp enough]
    rfl
  | succ fuel ih =>
    rw [scdHintLoop]
    by_cases past : target < h.next
    · rw [if_pos past, Nat.sub_eq_zero_of_le past]
      rfl
    rw [if_neg past]
    by_cases skips : h.next % linesPerFrame = 0 ∧ h.counter = reload ∧ linesPerFrame ≤ target - h.next + 1
    · have pos : 0 < (target - h.next + 1) / linesPerFrame := Nat.div_pos skips.2.2 (by decide)
      have within := Nat.div_mul_le_self (target - h.next + 1) linesPerFrame
      have whole : linesPerFrame ≤ (target - h.next + 1) / linesPerFrame * linesPerFrame :=
        Nat.le_mul_of_pos_left _ pos
      have some_line : 0 < linesPerFrame := by decide
      rw [if_pos skips]
      dsimp only
      rw [← iterate_frames pos skips.1 skips.2.1, ih (by rw [iterate_next]; omega), iterate_next,
        ← Function.iterate_add_apply]
      congr 1
      omega
    · rw [if_neg skips, ih (by rw [scdHintLine_next]; omega), scdHintLine_next, ← Function.iterate_succ_apply]
      congr 1
      omega

theorem scdHintSync_eq (h : ScdHint) (t : ℕ) :
    scdHintSync vdp h t = (scdHintLine vdp.register10)^[scdHintLineOf t + 1 - h.next] h :=
  scdHintLoop_eq le_rfl

/-! ## Sampling -/

theorem scdHintLineOf_mono {s t : ℕ} (le : s ≤ t) (inside : t + SCD_HINT_BIAS < 2 ^ 64) :
    scdHintLineOf s ≤ scdHintLineOf t := by
  rw [scdHintLineOf, scdHintLineOf, Nat.mod_eq_of_lt inside, Nat.mod_eq_of_lt (by omega)]
  exact Nat.div_le_div_right (by omega)

/-- An earlier sample leaves no trace in a later one. -/
theorem scdHintSync_absorb {s t : ℕ} (le : s ≤ t) (inside : t + SCD_HINT_BIAS < 2 ^ 64) (h : ScdHint) :
    scdHintSync vdp (scdHintSync vdp h s) t = scdHintSync vdp h t := by
  have mono := scdHintLineOf_mono le inside
  rw [scdHintSync_eq, scdHintSync_eq, scdHintSync_eq, iterate_next, ← Function.iterate_add_apply]
  congr 1
  omega

theorem foldl_scdHintSync {ticks : List ℕ} {t : ℕ} (le : ∀ s ∈ ticks, s ≤ t)
    (inside : t + SCD_HINT_BIAS < 2 ^ 64) (h : ScdHint) :
    scdHintSync vdp (ticks.foldl (scdHintSync vdp) h) t = scdHintSync vdp h t := by
  induction ticks generalizing h with
  | nil => rfl
  | cons s ticks ih =>
    rw [List.foldl_cons, ih (fun r mem => le r (List.mem_cons_of_mem s mem))]
    exact scdHintSync_absorb (le s List.mem_cons_self) inside h

end Segarecomp.SegaCd.HintCounter

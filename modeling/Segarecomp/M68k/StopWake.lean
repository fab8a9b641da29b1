import Segarecomp.M68k.ExceptionCore

/-! The wake decision of a stopped CPU against every sequence of interrupt samples the machine can
still take. Levels 1-6 are compared with the mask at each sample; level 7 is latched on its edge. -/

namespace Segarecomp.M68k.ExceptionCore

def stopWakePossible (state : InterruptState) (maxRequestLevel : BitVec 32) (sr : BitVec 16) : Bool :=
  let mask := ((sr &&& srInterruptMask) >>> 8).setWidth 32
  if state.level7EdgePending then true
  else
    let maxRequestLevel := maxRequestLevel &&& 7
    decide (maxRequestLevel = 7) || decide (maxRequestLevel > mask)

/-- The mask of `sr` as a level. -/
def priority (sr : BitVec 16) : BitVec 32 := ((sr &&& srInterruptMask) >>> 8).setWidth 32

/-- The state after the samples, oldest first. -/
def interruptSamples (state : InterruptState) (levels : List (BitVec 32)) : InterruptState :=
  levels.foldl interruptSample state

@[simp] theorem interruptSamples_nil (state : InterruptState) : interruptSamples state [] = state := rfl

@[simp] theorem interruptSamples_cons (state : InterruptState) (level : BitVec 32) (levels : List (BitVec 32)) :
    interruptSamples state (level :: levels) = interruptSamples (interruptSample state level) levels := rfl

theorem land_seven (level : BitVec 32) : (level &&& 7).toNat = level.toNat % 8 := by
  rw [BitVec.toNat_and]
  exact Nat.and_two_pow_sub_one_eq_mod level.toNat 3

theorem interruptSample_level (state : InterruptState) (level : BitVec 32) :
    (interruptSample state level).sampledLevel.toNat = level.toNat % 8 := by
  have small : level.toNat % 8 < 2 ^ 8 := by omega
  rw [interruptSample, BitVec.toNat_setWidth, land_seven, Nat.mod_eq_of_lt small]

theorem interruptSample_edge (state : InterruptState) {level : BitVec 32} (low : level.toNat % 8 ≠ 7) :
    (interruptSample state level).level7EdgePending = state.level7EdgePending := by
  have other : (level &&& 7).setWidth 8 ≠ 7 := by
    intro seven
    have same : (interruptSample state level).sampledLevel.toNat = 7 := congrArg BitVec.toNat seven
    rw [interruptSample_level] at same
    exact low same
  rw [interruptSample, if_neg (fun both => other both.1)]

/-- No edge is latched and the last sample is at most `bound`. -/
structure Quiet (bound : ℕ) (state : InterruptState) : Prop where
  edge : state.level7EdgePending = false
  level : state.sampledLevel.toNat ≤ bound

/-- Below level 7 a sample never latches, whatever was sampled before it. -/
theorem quiet_sample {bound : ℕ} {state : InterruptState} {level : BitVec 32} (below : bound < 7)
    (edge : state.level7EdgePending = false) (le : level.toNat ≤ bound) :
    Quiet bound (interruptSample state level) where
  edge := by
    rw [interruptSample_edge state (by omega)]
    exact edge
  level := by
    rw [interruptSample_level]
    exact (Nat.mod_le _ _).trans le

theorem quiet_samples {bound : ℕ} {state : InterruptState} {levels : List (BitVec 32)} (below : bound < 7)
    (edge : state.level7EdgePending = false) (some : levels ≠ []) (le : ∀ level ∈ levels, level.toNat ≤ bound) :
    Quiet bound (interruptSamples state levels) := by
  induction levels generalizing state with
  | nil => exact absurd rfl some
  | cons level rest ih =>
      have first : Quiet bound (interruptSample state level) := quiet_sample below edge (le level (by simp))
      rw [interruptSamples_cons]
      cases rest with
      | nil => exact first
      | cons next later => exact ih first.edge (by simp) fun l member => le l (by simp [member])

theorem interruptRecognizedLevel_eq (state : InterruptState) (sr : BitVec 16) :
    interruptRecognizedLevel state sr =
      if state.level7EdgePending then 7
      else if priority sr < state.sampledLevel.setWidth 32 then state.sampledLevel.setWidth 32
      else 0 := rfl

theorem Quiet.unrecognized {bound : ℕ} {state : InterruptState} {sr : BitVec 16} (quiet : Quiet bound state)
    (masked : bound ≤ (priority sr).toNat) : interruptRecognizedLevel state sr = 0 := by
  have small : (state.sampledLevel.setWidth 32).toNat ≤ bound := by
    have fits : state.sampledLevel.toNat < 2 ^ 32 := by omega
    rw [BitVec.toNat_setWidth, Nat.mod_eq_of_lt fits]
    exact quiet.level
  have under : ¬ priority sr < state.sampledLevel.setWidth 32 := by
    rw [BitVec.lt_def]
    omega
  rw [interruptRecognizedLevel_eq, quiet.edge, if_neg Bool.false_ne_true, if_neg under]

theorem recognized_of_edge {state : InterruptState} (edge : state.level7EdgePending = true) (sr : BitVec 16) :
    interruptRecognizedLevel state sr ≠ 0 := by
  rw [interruptRecognizedLevel_eq, if_pos edge]
  decide

/-- Level 0 and then level 7: an edge, whatever was sampled before. -/
theorem edge_of_release (state : InterruptState) :
    (interruptSamples state [0, 7]).level7EdgePending = true := by
  simp [interruptSample]

theorem recognized_of_above {state : InterruptState} {level : BitVec 32} {sr : BitVec 16}
    (above : priority sr < level &&& 7) :
    interruptRecognizedLevel (interruptSample state (level &&& 7)) sr ≠ 0 := by
  have level_eq : (interruptSample state (level &&& 7)).sampledLevel.setWidth 32 = level &&& 7 := by
    apply BitVec.eq_of_toNat_eq
    rw [BitVec.toNat_setWidth, interruptSample_level, land_seven]
    omega
  by_cases edge : (interruptSample state (level &&& 7)).level7EdgePending = true
  · exact recognized_of_edge edge sr
  · have positive : level &&& 7 ≠ 0 := by
      intro zero
      rw [zero, BitVec.lt_def] at above
      exact absurd above (Nat.not_lt_zero _)
    rw [interruptRecognizedLevel_eq, if_neg edge, level_eq, if_pos above]
    exact positive

theorem stopWakePossible_eq_false {state : InterruptState} {maxRequestLevel : BitVec 32} {sr : BitVec 16} :
    stopWakePossible state maxRequestLevel sr = false ↔
      state.level7EdgePending = false ∧ maxRequestLevel &&& 7 ≠ 7 ∧ ¬ priority sr < maxRequestLevel &&& 7 := by
  unfold stopWakePossible priority
  cases state.level7EdgePending <;> simp

/-- A machine that samples at most the level it names never wakes the CPU when the answer is no, and
has samples that wake it when the answer is yes. The level is read modulo 8. -/
theorem stop_wake_exact (state : InterruptState) (maxRequestLevel : BitVec 32) (sr : BitVec 16) :
    (stopWakePossible state maxRequestLevel sr = false →
      ∀ levels, levels ≠ [] → (∀ level ∈ levels, level ≤ maxRequestLevel &&& 7) →
        interruptRecognizedLevel (interruptSamples state levels) sr = 0) ∧
    (stopWakePossible state maxRequestLevel sr = true →
      ∃ levels, levels ≠ [] ∧ (∀ level ∈ levels, level ≤ maxRequestLevel &&& 7) ∧
        interruptRecognizedLevel (interruptSamples state levels) sr ≠ 0) := by
  constructor
  · intro asleep levels some le
    obtain ⟨edge, seven, masked⟩ := stopWakePossible_eq_false.mp asleep
    have below : (maxRequestLevel &&& 7).toNat < 7 := by
      have other : (maxRequestLevel &&& 7).toNat ≠ 7 := fun same => seven (BitVec.eq_of_toNat_eq same)
      rw [land_seven] at other ⊢
      omega
    have quiet : Quiet (maxRequestLevel &&& 7).toNat (interruptSamples state levels) :=
      quiet_samples below edge some fun level member => BitVec.le_def.mp (le level member)
    apply quiet.unrecognized
    rw [BitVec.lt_def, Nat.not_lt] at masked
    exact masked
  · intro awake
    by_cases edge : state.level7EdgePending = true
    · have bounded : ∀ level ∈ [0], level ≤ maxRequestLevel &&& 7 := by
        rw [List.forall_mem_singleton, BitVec.le_def]
        exact Nat.zero_le _
      refine ⟨[0], by simp, bounded, ?_⟩
      apply recognized_of_edge
      rw [interruptSamples_cons, interruptSamples_nil, interruptSample_edge state (by decide)]
      exact edge
    · by_cases seven : maxRequestLevel &&& 7 = 7
      · refine ⟨[0, 7], by simp, ?_, recognized_of_edge (edge_of_release state) sr⟩
        rw [seven, List.forall_mem_cons, List.forall_mem_singleton]
        exact ⟨by decide, by decide⟩
      · have above : priority sr < maxRequestLevel &&& 7 := by
          by_contra masked
          have asleep := stopWakePossible_eq_false.mpr ⟨by simpa using edge, seven, masked⟩
          rw [asleep] at awake
          cases awake
        exact ⟨[maxRequestLevel &&& 7], by simp, by simp, recognized_of_above above⟩

/-- Level 8 is read as 0, yet a machine whose levels are at most 8 can still raise 7. -/
theorem level_eight_wakes :
    ¬ ∀ (state : InterruptState) (maxRequestLevel : BitVec 32) (sr : BitVec 16),
      stopWakePossible state maxRequestLevel sr = false →
        ∀ levels, levels ≠ [] → (∀ level ∈ levels, level ≤ maxRequestLevel) →
          interruptRecognizedLevel (interruptSamples state levels) sr = 0 := by
  intro all
  have unrecognized := all {} 8 0x0700 (by decide) [7] (by decide) (List.forall_mem_singleton.mpr (by decide))
  exact absurd unrecognized (by decide)

end Segarecomp.M68k.ExceptionCore

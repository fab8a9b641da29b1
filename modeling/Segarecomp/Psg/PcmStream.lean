import Segarecomp.Lib.RateWindows
import Segarecomp.Psg.Sn76489

/-! What the PCM stream holds after any number of ticks: the closed windows are in the batches, the open
one is in the sum and the count. -/

namespace Segarecomp.Psg

open RateWindows

namespace Pcm

/-- Every sample put out so far, delivered or still in the batch. -/
def stream (pcm : Pcm) : List Word := pcm.delivered.flatMap Delivery.samples ++ pcm.batch

end Pcm

/-- Each delivery starts at the index the one before it ended at. -/
def Consecutive : ℕ → List Delivery → Prop
  | _, [] => True
  | first, d :: rest => d.firstIndex = first ∧ Consecutive (first + d.samples.length) rest

def meanOf (levels : List ℕ) : ℕ := levels.sum / levels.length

namespace PcmConfig

variable (config : PcmConfig) (divider : ℕ) (levels : List ℕ)

/-- The levels of the ticks that start in window `k`. -/
def ticksOf (k : ℕ) : List ℕ := inside config.rateNum config.rateDen divider levels k

/-- The truncated mean of window `k`, or the mean before it where no tick starts in the window. -/
def meanAt (k : ℕ) : ℕ := carried meanOf 0 (config.ticksOf divider levels) (k + 1)

/-- How many samples are complete after `n` ticks. -/
def complete (n : ℕ) : ℕ := windowAt config.rateNum config.rateDen (n * divider)

def samples (count : ℕ) : List Word :=
  (List.range count).map fun k => Pcm.sampleOf config.fullScale (config.meanAt divider levels k)

/-- The bounds within which `n` ticks can be decimated: the products that give the window starts fit
into 64 bits, and the ticks of a window into the 32 bits they are counted in. -/
structure Fits (n : ℕ) : Prop where
  products : (config.complete divider n + 1) * config.rateNum < 2 ^ 64
  counts : ∀ k, population config.rateNum config.rateDen divider n k < 2 ^ 32

structure Usable : Prop where
  num_pos : 0 < config.rateNum
  den_pos : 0 < config.rateDen
  scale_pos : 0 < config.fullScale

end PcmConfig

/-- The stream after the ticks of `levels` when the samples below `index` are out. -/
structure Keeps (config : PcmConfig) (divider : ℕ) (levels : List ℕ) (index : ℕ) (pcm : Pcm) : Prop where
  configured : pcm.config = config
  opened : pcm.index = index
  boundary : pcm.boundary = start config.rateNum config.rateDen (index + 1)
  sum : pcm.sum = (config.ticksOf divider levels index).sum
  count : pcm.count = (config.ticksOf divider levels index).length
  lastMean : pcm.lastMean = carried meanOf 0 (config.ticksOf divider levels) index
  stream : pcm.stream = config.samples divider levels index
  batchFirst : pcm.batchFirst = (pcm.delivered.flatMap Delivery.samples).length
  consecutive : Consecutive 0 pcm.delivered

variable {config : PcmConfig} {divider index : ℕ} {levels : List ℕ} {pcm : Pcm}

/-! ## Deliveries -/

theorem Consecutive.append {first : ℕ} {ds : List Delivery} (is : Consecutive first ds) {d : Delivery}
    (next : d.firstIndex = first + (ds.flatMap Delivery.samples).length) : Consecutive first (ds ++ [d]) := by
  induction ds generalizing first with
  | nil => exact ⟨next, trivial⟩
  | cons e rest ih =>
      obtain ⟨here, later⟩ := is
      refine ⟨here, ih later ?_⟩
      rw [next, List.flatMap_cons, List.length_append, Nat.add_assoc]

theorem stream_flush : pcm.flush.stream = pcm.stream := by
  rw [Pcm.stream, Pcm.stream, Pcm.flush]
  by_cases empty : pcm.batch = []
  · simp [empty]
  · simp [empty]

theorem length_delivered_flush :
    (pcm.flush.delivered.flatMap Delivery.samples).length =
      (pcm.delivered.flatMap Delivery.samples).length + pcm.batch.length := by
  rw [Pcm.flush]
  by_cases empty : pcm.batch = []
  · simp [empty]
  · simp [empty]

theorem length_samples : (config.samples divider levels index).length = index := by
  rw [PcmConfig.samples, List.length_map, List.length_range]

/-- A flush delivers the batch and changes nothing else that the stream keeps. -/
theorem Keeps.flush (keeps : Keeps config divider levels index pcm) (small : index < 2 ^ 64) :
    Keeps config divider levels index pcm.flush where
  configured := keeps.configured
  opened := keeps.opened
  boundary := keeps.boundary
  sum := keeps.sum
  count := keeps.count
  lastMean := keeps.lastMean
  stream := by rw [stream_flush, keeps.stream]
  batchFirst := by
    have total : (pcm.delivered.flatMap Delivery.samples).length + pcm.batch.length = index := by
      rw [← List.length_append, ← Pcm.stream, keeps.stream, length_samples]
    rw [length_delivered_flush, total, Pcm.flush]
    dsimp only
    rw [keeps.batchFirst, total, Nat.mod_eq_of_lt small]
  consecutive := by
    rw [Pcm.flush]
    dsimp only
    split_ifs
    · exact keeps.consecutive
    · refine keeps.consecutive.append ?_
      rw [Nat.zero_add]
      exact keeps.batchFirst

/-! ## Samples -/

theorem sampleStart_eq (usable : config.Usable) {k : ℕ} (fits : k * config.rateNum < 2 ^ 64) :
    Pcm.sampleStart config k = start config.rateNum config.rateDen k := by
  rw [Pcm.sampleStart, Nat.mod_eq_of_lt fits, start_eq_div_add usable.den_pos]

theorem sum_le {xs : List ℕ} {bound : ℕ} (all : ∀ x ∈ xs, x ≤ bound) : xs.sum ≤ xs.length * bound := by
  have le := List.sum_le_card_nsmul xs bound all
  rwa [smul_eq_mul] at le

/-- The levels a tick can have. -/
def LEVEL_MAX : ℕ := 4 * 65535

theorem Keeps.mean (keeps : Keeps config divider levels index pcm)
    (bounded : ∀ l ∈ levels, l ≤ LEVEL_MAX) : pcm.mean = config.meanAt divider levels index := by
  rw [Pcm.mean, PcmConfig.meanAt, carried_succ, keeps.count, keeps.sum, keeps.lastMean]
  by_cases none : config.ticksOf divider levels index = []
  · rw [none, if_neg (by simp), if_pos rfl]
  · have positive : 0 < (config.ticksOf divider levels index).length := List.length_pos_iff.mpr none
    have most : (config.ticksOf divider levels index).sum ≤
        (config.ticksOf divider levels index).length * LEVEL_MAX :=
      sum_le fun l is => bounded l (mem_of_mem_inside is)
    have small : (config.ticksOf divider levels index).sum / (config.ticksOf divider levels index).length <
        2 ^ 32 :=
      calc _ ≤ LEVEL_MAX := Nat.div_le_of_le_mul most
        _ < 2 ^ 32 := by decide
    rw [if_pos (Nat.ne_of_gt positive), if_neg none, Nat.mod_eq_of_lt small, meanOf]

theorem samples_succ :
    config.samples divider levels (index + 1) =
      config.samples divider levels index ++
        [Pcm.sampleOf config.fullScale (config.meanAt divider levels index)] := by
  simp [PcmConfig.samples, List.range_succ]

theorem stream_putSample :
    pcm.putSample.stream = pcm.stream ++ [Pcm.sampleOf pcm.config.fullScale pcm.mean] := by
  rw [Pcm.stream, Pcm.stream, List.append_assoc]
  rfl

theorem stream_emitSample :
    pcm.emitSample.stream = pcm.stream ++ [Pcm.sampleOf pcm.config.fullScale pcm.mean] := by
  rw [← stream_putSample, Pcm.emitSample]
  split_ifs
  · exact stream_flush
  · rfl

theorem boundary_emitSample :
    pcm.emitSample.boundary = Pcm.sampleStart pcm.config ((pcm.index + 1) % 2 ^ 64 + 1) := by
  rw [Pcm.emitSample]
  split_ifs <;> rfl

/-- Closing a window whose successor has no tick yet. -/
theorem Keeps.putSample (usable : config.Usable) (keeps : Keeps config divider levels index pcm)
    (bounded : ∀ l ∈ levels, l ≤ LEVEL_MAX) (next : config.ticksOf divider levels (index + 1) = [])
    (fits : (index + 1 + 1) * config.rateNum < 2 ^ 64) :
    Keeps config divider levels (index + 1) pcm.putSample := by
  have small : (pcm.index + 1) % 2 ^ 64 = index + 1 := by
    have positive := usable.num_pos
    rw [keeps.opened]
    exact Nat.mod_eq_of_lt (by nlinarith)
  have mean := keeps.mean bounded
  exact {
    configured := keeps.configured
    opened := small
    boundary := by
      change Pcm.sampleStart pcm.config ((pcm.index + 1) % 2 ^ 64 + 1) = _
      rw [small, keeps.configured, sampleStart_eq usable fits]
    sum := by
      rw [next]
      rfl
    count := by
      rw [next]
      rfl
    lastMean := mean
    stream := by rw [stream_putSample, keeps.stream, keeps.configured, mean, samples_succ]
    batchFirst := keeps.batchFirst
    consecutive := keeps.consecutive }

theorem Keeps.emitSample (usable : config.Usable) (keeps : Keeps config divider levels index pcm)
    (bounded : ∀ l ∈ levels, l ≤ LEVEL_MAX) (next : config.ticksOf divider levels (index + 1) = [])
    (fits : (index + 1 + 1) * config.rateNum < 2 ^ 64) :
    Keeps config divider levels (index + 1) pcm.emitSample := by
  have put := keeps.putSample usable bounded next fits
  rw [Pcm.emitSample]
  split_ifs
  · have positive := usable.num_pos
    exact put.flush (by nlinarith)
  · exact put

theorem room_emitSample (room : pcm.batch.length < SN76489_PCM_BATCH) :
    pcm.emitSample.batch.length < SN76489_PCM_BATCH := by
  have grown : pcm.putSample.batch.length = pcm.batch.length + 1 := by
    rw [Pcm.putSample, List.length_append, List.length_singleton]
  rw [Pcm.emitSample]
  split_ifs
  · change 0 < SN76489_PCM_BATCH
    decide
  · omega

/-! ## Ticks -/

theorem complete_mono {n m : ℕ} (le : n ≤ m) : config.complete divider n ≤ config.complete divider m :=
  windowAt_mono (Nat.mul_le_mul_right divider le)

theorem PcmConfig.Fits.mono {n m : ℕ} (fits : config.Fits divider m) (le : n ≤ m) : config.Fits divider n where
  products :=
    calc (config.complete divider n + 1) * config.rateNum
        ≤ (config.complete divider m + 1) * config.rateNum :=
          Nat.mul_le_mul_right _ (Nat.succ_le_succ (complete_mono le))
      _ < 2 ^ 64 := fits.products
  counts k := Nat.lt_of_le_of_lt (population_mono le) (fits.counts k)

/-- The loop of a push closes every window that is over. -/
theorem Keeps.emitUntil (usable : config.Usable) {stop last : ℕ} (bounded : ∀ l ∈ levels, l ≤ LEVEL_MAX)
    (fits : (last + 1) * config.rateNum < 2 ^ 64) (is_last : windowAt config.rateNum config.rateDen stop = last)
    (later : ∀ k, index < k → config.ticksOf divider levels k = []) (le : index ≤ last) {fuel : ℕ}
    (enough : last < fuel + index) (keeps : Keeps config divider levels index pcm)
    (room : pcm.batch.length < SN76489_PCM_BATCH) :
    ∃ pcm', Pcm.emitUntil stop fuel pcm = some pcm' ∧ Keeps config divider levels last pcm' ∧
      pcm'.batch.length < SN76489_PCM_BATCH := by
  induction fuel generalizing index pcm with
  | zero => omega
  | succ fuel ih =>
      rw [Pcm.emitUntil]
      have due_iff : pcm.boundary ≤ stop ↔ index + 1 ≤ last := by
        rw [keeps.boundary, start_le_iff usable.num_pos usable.den_pos, is_last]
      split_ifs with due
      · have more := due_iff.mp due
        have product : (index + 1 + 1) * config.rateNum < 2 ^ 64 :=
          Nat.lt_of_le_of_lt (Nat.mul_le_mul_right _ (Nat.succ_le_succ more)) fits
        apply ih (fun k lt => later k (by omega)) more (by omega)
        · exact keeps.emitSample usable bounded (later _ (Nat.lt_succ_self index)) product
        · exact room_emitSample room
      · have done : index = last := by
          have not_more := fun more => due (due_iff.mpr more)
          omega
        subst done
        exact ⟨pcm, rfl, keeps, room⟩

theorem ticksOf_append (usable : config.Usable) (level k : ℕ) :
    config.ticksOf divider (levels ++ [level]) k =
      if config.complete divider levels.length = k then config.ticksOf divider levels k ++ [level]
      else config.ticksOf divider levels k :=
  inside_append usable.num_pos usable.den_pos levels level k

/-- The level of one more tick, before any window is closed. -/
theorem Keeps.accumulate (usable : config.Usable) {level : ℕ}
    (keeps : Keeps config divider levels (config.complete divider levels.length) pcm)
    (bounded : ∀ l ∈ levels ++ [level], l ≤ LEVEL_MAX) (fits : config.Fits divider (levels.length + 1)) :
    Keeps config divider (levels ++ [level]) (config.complete divider levels.length)
      { pcm with sum := (pcm.sum + level) % 2 ^ 64, count := (pcm.count + 1) % 2 ^ 32 } := by
  have here : config.ticksOf divider (levels ++ [level]) (config.complete divider levels.length) =
      config.ticksOf divider levels (config.complete divider levels.length) ++ [level] := by
    rw [ticksOf_append usable, if_pos rfl]
  have before : ∀ k < config.complete divider levels.length,
      config.ticksOf divider (levels ++ [level]) k = config.ticksOf divider levels k := by
    intro k lt
    rw [ticksOf_append usable, if_neg (Nat.ne_of_gt lt)]
  have counted : (config.ticksOf divider (levels ++ [level]) (config.complete divider levels.length)).length <
      2 ^ 32 := by
    have few := fits.counts (config.complete divider levels.length)
    rwa [← length_inside (levels ++ [level]) (by simp)] at few
  have summed : (config.ticksOf divider (levels ++ [level]) (config.complete divider levels.length)).sum <
      2 ^ 64 := by
    have most : (config.ticksOf divider (levels ++ [level]) (config.complete divider levels.length)).sum ≤
        (config.ticksOf divider (levels ++ [level]) (config.complete divider levels.length)).length * LEVEL_MAX :=
      sum_le fun l is => bounded l (mem_of_mem_inside is)
    have bound : LEVEL_MAX = 262140 := by decide
    rw [bound] at most
    omega
  have means : ∀ k < config.complete divider levels.length,
      config.meanAt divider (levels ++ [level]) k = config.meanAt divider levels k := by
    intro k lt
    exact carried_congr fun j le => before j (by omega)
  exact {
    configured := keeps.configured
    opened := keeps.opened
    boundary := keeps.boundary
    sum := by
      dsimp only
      rw [here, List.sum_append, List.sum_singleton] at summed ⊢
      rw [keeps.sum, Nat.mod_eq_of_lt summed]
    count := by
      dsimp only
      rw [here, List.length_append, List.length_singleton] at counted ⊢
      rw [keeps.count, Nat.mod_eq_of_lt counted]
    lastMean := by
      rw [carried_congr before]
      exact keeps.lastMean
    stream := by
      change pcm.stream = _
      rw [keeps.stream, PcmConfig.samples, PcmConfig.samples]
      apply List.map_congr_left
      intro k is
      rw [means k (List.mem_range.mp is)]
    batchFirst := keeps.batchFirst
    consecutive := keeps.consecutive }

theorem Keeps.pushTick (usable : config.Usable) {level fuel : ℕ}
    (keeps : Keeps config divider levels (config.complete divider levels.length) pcm)
    (room : pcm.batch.length < SN76489_PCM_BATCH) (bounded : ∀ l ∈ levels ++ [level], l ≤ LEVEL_MAX)
    (fits : config.Fits divider (levels.length + 1)) (enough : config.complete divider (levels.length + 1) < fuel) :
    ∃ pcm', pcm.pushTick fuel ((levels.length + 1) * divider) level = some pcm' ∧
      Keeps config divider (levels ++ [level]) (config.complete divider (levels.length + 1)) pcm' ∧
      pcm'.batch.length < SN76489_PCM_BATCH := by
  have later : ∀ k, config.complete divider levels.length < k →
      config.ticksOf divider (levels ++ [level]) k = [] := by
    intro k lt
    apply inside_eq_nil usable.num_pos usable.den_pos
    intro j inside
    rw [List.length_append, List.length_singleton] at inside
    exact Nat.lt_of_le_of_lt (complete_mono (Nat.lt_succ_iff.mp inside)) lt
  rw [Pcm.pushTick]
  apply Keeps.emitUntil usable bounded fits.products rfl later (complete_mono (Nat.le_succ _)) (by omega)
  · exact keeps.accumulate usable bounded fits
  · exact room

end Segarecomp.Psg

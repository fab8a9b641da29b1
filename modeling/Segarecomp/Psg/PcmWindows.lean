import Segarecomp.Psg.PcmStream

/-! The PCM stream of a run is read off the register writes and the ticks they fall between: how the
advances and the flushes are split leaves no trace in it. -/

namespace Segarecomp.Psg

open RateWindows

/-! ## What a run writes, and when -/

/-- The register writes, each with the ticks run before it, and the ticks run in all. -/
structure Timeline where
  writes : List (ℕ × Byte)
  ticks : ℕ
deriving DecidableEq

namespace Timeline

def next (divider : ℕ) (line : Timeline) : Player.Event → Timeline
  | .write value => { line with writes := line.writes ++ [(line.ticks, value)] }
  | .advance cycles => { line with ticks := max line.ticks (cycles.toNat / divider) }
  | .flush => line

def after (divider : ℕ) (line : Timeline) (events : List Player.Event) : Timeline :=
  events.foldl (next divider) line

end Timeline

/-- The timeline of a run from reset. -/
def timeline (divider : ℕ) (events : List Player.Event) : Timeline := Timeline.after divider ⟨[], 0⟩ events

/-- A chip and the levels of the ticks it has run. -/
structure Heard where
  chip : Sn76489
  levels : List ℕ

namespace Heard

def tick (heard : Heard) : Heard := ⟨heard.chip.tick, heard.levels ++ [heard.chip.tick.level]⟩

/-- Runs the chip until `n` ticks have been heard. -/
def toTick (heard : Heard) (n : ℕ) : Heard := tick^[n - heard.levels.length] heard

def writeAt (heard : Heard) (write : ℕ × Byte) : Heard :=
  let there := heard.toTick write.1
  { there with chip := there.chip.write write.2 }

end Heard

namespace Timeline

/-- The chip after the writes of a timeline, each at its tick. -/
def written (config : Sn76489Config) (line : Timeline) : Heard :=
  line.writes.foldl Heard.writeAt ⟨Sn76489.reset config, []⟩

def heard (config : Sn76489Config) (line : Timeline) : Heard := (line.written config).toTick line.ticks

end Timeline

/-! ## The chip -/

theorem divider_tick (chip : Sn76489) : chip.tick.config = chip.config := by
  rw [Sn76489.tick, Sn76489.tickNoise]
  dsimp only
  split_ifs <;> rfl

theorem ticks_tick (chip : Sn76489) : chip.tick.ticks = (chip.ticks + 1) % 2 ^ 64 := by
  rw [Sn76489.tick, Sn76489.tickNoise]
  dsimp only
  split_ifs <;> rfl

theorem writeRegister_keeps (chip : Sn76489) (latch : ℕ) (value : Byte) (period : Word → Word) :
    (chip.writeRegister latch value period).config = chip.config ∧
      (chip.writeRegister latch value period).ticks = chip.ticks := by
  rw [Sn76489.writeRegister]
  split_ifs <;> exact ⟨rfl, rfl⟩

theorem write_keeps (chip : Sn76489) (value : Byte) :
    (chip.write value).config = chip.config ∧ (chip.write value).ticks = chip.ticks := by
  rw [Sn76489.write]
  split_ifs
  · exact writeRegister_keeps _ _ _ _
  · cases chip.latch with
    | none => exact ⟨rfl, rfl⟩
    | some latch => exact writeRegister_keeps _ _ _ _

theorem channelLevel_le (chip : Sn76489) (channel : Fin 4) : chip.channelLevel channel ≤ 65535 := by
  have lt := (chip.config.levels (chip.attenuation channel &&& 15).toNat).isLt
  rw [Sn76489.channelLevel]
  omega

theorem level_le (chip : Sn76489) : chip.level ≤ LEVEL_MAX := by
  have tone : ∀ i, chip.toneLevel i ≤ 65535 := by
    intro i
    rw [Sn76489.toneLevel]
    split_ifs
    · exact channelLevel_le chip _
    · omega
  have noise : (if chip.lfsr &&& 1 ≠ 0 then chip.channelLevel (Fin.last 3) else 0) ≤ 65535 := by
    split_ifs
    · exact channelLevel_le chip _
    · omega
  have first := tone 0
  have second := tone 1
  have third := tone 2
  rw [Sn76489.level, LEVEL_MAX]
  omega

/-! ## Runs up to a tick -/

namespace Heard

variable {heard : Heard}

theorem length_tick_iterate (n : ℕ) : (tick^[n] heard).levels.length = heard.levels.length + n := by
  induction n with
  | zero => rfl
  | succ n ih =>
      rw [Function.iterate_succ_apply', tick, List.length_append, ih, List.length_singleton, Nat.add_assoc]

theorem length_toTick {n : ℕ} (le : heard.levels.length ≤ n) : (heard.toTick n).levels.length = n := by
  rw [toTick, length_tick_iterate]
  omega

theorem toTick_of_length {n : ℕ} (is : heard.levels.length = n) : heard.toTick n = heard := by
  rw [toTick, is, Nat.sub_self, Function.iterate_zero_apply]

theorem toTick_toTick {n m : ℕ} (le : heard.levels.length ≤ n) (next : n ≤ m) :
    (heard.toTick n).toTick m = heard.toTick m := by
  have split : m - heard.levels.length = m - n + (n - heard.levels.length) := by omega
  calc (heard.toTick n).toTick m = tick^[m - n] (heard.toTick n) := by rw [toTick, length_toTick le]
    _ = heard.toTick m := by rw [toTick, toTick, split, Function.iterate_add_apply]

end Heard

/-! ## The player follows the timeline -/

/-- A player that has played what a chip alone is heard to do. -/
structure Plays (chip : Sn76489Config) (config : PcmConfig) (heard : Heard) (player : Player) : Prop where
  played : player.chip = heard.chip
  configured : heard.chip.config = chip
  ticks : heard.chip.ticks = heard.levels.length
  bounded : ∀ l ∈ heard.levels, l ≤ LEVEL_MAX
  keeps : Keeps config chip.divider heard.levels (config.complete chip.divider heard.levels.length) player.pcm
  room : player.pcm.batch.length < SN76489_PCM_BATCH

variable {chip : Sn76489Config} {config : PcmConfig} {heard : Heard} {player : Player} {fuel : ℕ}

theorem Plays.tick (usable : config.Usable) (plays : Plays chip config heard player)
    (fits : config.Fits chip.divider (heard.levels.length + 1))
    (small : (heard.levels.length + 1) * chip.divider < 2 ^ 64) (count : heard.levels.length + 1 < 2 ^ 64)
    (enough : config.complete chip.divider (heard.levels.length + 1) < fuel) :
    ∃ player', player.tick fuel = some player' ∧ Plays chip config heard.tick player' := by
  have ticks : heard.chip.tick.ticks = heard.levels.length + 1 := by
    rw [ticks_tick, plays.ticks, Nat.mod_eq_of_lt count]
  have stop : heard.chip.tick.ticks * heard.chip.tick.config.divider % 2 ^ 64 =
      (heard.levels.length + 1) * chip.divider := by
    rw [ticks, divider_tick, plays.configured, Nat.mod_eq_of_lt small]
  have bounded : ∀ l ∈ heard.levels ++ [heard.chip.tick.level], l ≤ LEVEL_MAX := by
    intro l is
    rcases List.mem_append.mp is with old | new
    · exact plays.bounded l old
    · rw [List.mem_singleton.mp new]
      exact level_le _
  obtain ⟨pcm, pushed, keeps, room⟩ := plays.keeps.pushTick usable plays.room bounded fits enough
  refine ⟨⟨heard.chip.tick, pcm⟩, ?_, ?_⟩
  · rw [Player.tick, plays.played, stop, pushed]
    rfl
  · have length : heard.tick.levels.length = heard.levels.length + 1 := by
      rw [Heard.tick, List.length_append, List.length_singleton]
    exact {
      played := rfl
      configured := (divider_tick _).trans plays.configured
      ticks := ticks.trans length.symm
      bounded := bounded
      keeps := by
        rw [length]
        exact keeps
      room := room }

theorem Plays.tickTimes (usable : config.Usable) {n : ℕ} (plays : Plays chip config heard player)
    (fits : config.Fits chip.divider (heard.levels.length + n))
    (small : (heard.levels.length + n) * chip.divider < 2 ^ 64) (count : heard.levels.length + n < 2 ^ 64)
    (enough : config.complete chip.divider (heard.levels.length + n) < fuel) :
    ∃ player', Player.tickTimes fuel n player = some player' ∧ Plays chip config (Heard.tick^[n] heard) player' := by
  induction n generalizing heard player with
  | zero => exact ⟨player, rfl, plays⟩
  | succ n ih =>
      have length : heard.tick.levels.length + n = heard.levels.length + (n + 1) := by
        rw [Heard.tick, List.length_append, List.length_singleton]
        omega
      have le : heard.levels.length + 1 ≤ heard.levels.length + (n + 1) := by omega
      obtain ⟨after, ticked, plays⟩ := plays.tick usable (fits.mono le)
        (Nat.lt_of_le_of_lt (Nat.mul_le_mul_right _ le) small) (Nat.lt_of_le_of_lt le count)
        (Nat.lt_of_le_of_lt (complete_mono le) enough)
      rw [← length] at fits small count enough
      obtain ⟨last, run, plays⟩ := ih plays fits small count enough
      refine ⟨last, ?_, ?_⟩
      · rw [Player.tickTimes, ticked]
        exact run
      · rwa [Function.iterate_succ_apply]

/-- The heard chip of a timeline has run exactly its ticks. -/
structure Timeline.Ordered (chip : Sn76489Config) (line : Timeline) : Prop where
  length : (line.written chip).levels.length ≤ line.ticks
  bound : line.ticks * chip.divider < 2 ^ 64
  count : line.ticks < 2 ^ 64

namespace Timeline

variable {line : Timeline}

theorem Ordered.length_heard (ordered : line.Ordered chip) : (line.heard chip).levels.length = line.ticks :=
  Heard.length_toTick ordered.length

theorem ticks_next_le (divider : ℕ) (event : Player.Event) : line.ticks ≤ (line.next divider event).ticks := by
  cases event with
  | write value => exact le_rfl
  | advance cycles => exact le_max_left _ _
  | flush => exact le_rfl

theorem ticks_after_le (divider : ℕ) (events : List Player.Event) :
    line.ticks ≤ (line.after divider events).ticks := by
  induction events generalizing line with
  | nil => exact le_rfl
  | cons event rest ih =>
      calc line.ticks ≤ (line.next divider event).ticks := ticks_next_le divider event
        _ ≤ ((line.next divider event).after divider rest).ticks := ih

end Timeline

/-- One event: the player goes on to what the longer timeline is heard to do. -/
theorem Plays.step (usable : config.Usable) {line : Timeline} (ordered : line.Ordered chip)
    (plays : Plays chip config (line.heard chip) player) (event : Player.Event)
    (fits : config.Fits chip.divider (line.next chip.divider event).ticks)
    (enough : config.complete chip.divider (line.next chip.divider event).ticks < fuel) :
    ∃ player', player.step fuel event = some player' ∧
      Plays chip config ((line.next chip.divider event).heard chip) player' ∧
      (line.next chip.divider event).Ordered chip := by
  cases event with
  | write value =>
      have written : (line.next chip.divider (.write value)).written chip =
          { line.heard chip with chip := (line.heard chip).chip.write value } := by
        rw [Timeline.written, Timeline.next, List.foldl_append, List.foldl_cons, List.foldl_nil]
        rfl
      have length := ordered.length_heard
      have heard : (line.next chip.divider (.write value)).heard chip =
          { line.heard chip with chip := (line.heard chip).chip.write value } := by
        rw [Timeline.heard, written]
        exact Heard.toTick_of_length length
      have kept := write_keeps (line.heard chip).chip value
      refine ⟨_, rfl, ?_, ?_⟩
      · rw [heard]
        exact {
          played := by
            dsimp only
            rw [plays.played]
          configured := kept.1.trans plays.configured
          ticks := kept.2.trans plays.ticks
          bounded := plays.bounded
          keeps := plays.keeps
          room := plays.room }
      · exact {
          length := by
            rw [written]
            exact length.le
          bound := ordered.bound
          count := ordered.count }
  | advance cycles =>
      have length := ordered.length_heard
      have ticks : player.chip.ticks = line.ticks := by rw [plays.played, plays.ticks, length]
      have divider : player.chip.config.divider = chip.divider := by rw [plays.played, plays.configured]
      have rounds : line.ticks + (cycles.toNat / chip.divider - line.ticks) =
          max line.ticks (cycles.toNat / chip.divider) := by omega
      have target : cycles.toNat / chip.divider * chip.divider < 2 ^ 64 :=
        Nat.lt_of_le_of_lt (Nat.div_mul_le_self _ _) cycles.isLt
      have target_count : cycles.toNat / chip.divider < 2 ^ 64 :=
        Nat.lt_of_le_of_lt (Nat.div_le_self _ _) cycles.isLt
      have next : (line.next chip.divider (.advance cycles)).Ordered chip := {
        length := ordered.length.trans (le_max_left _ _)
        bound := by
          rcases max_choice line.ticks (cycles.toNat / chip.divider) with is | is
          · rw [Timeline.next, is]
            exact ordered.bound
          · rw [Timeline.next, is]
            exact target
        count := max_lt ordered.count target_count }
      have heard : (line.next chip.divider (.advance cycles)).heard chip =
          Heard.tick^[cycles.toNat / chip.divider - line.ticks] (line.heard chip) := by
        calc (line.next chip.divider (.advance cycles)).heard chip
            = (line.written chip).toTick (max line.ticks (cycles.toNat / chip.divider)) := rfl
          _ = (line.heard chip).toTick (max line.ticks (cycles.toNat / chip.divider)) :=
              (Heard.toTick_toTick ordered.length (le_max_left _ _)).symm
          _ = _ := by rw [Heard.toTick, length, ← rounds, Nat.add_sub_cancel_left]
      have reached : (line.heard chip).levels.length + (cycles.toNat / chip.divider - line.ticks) =
          (line.next chip.divider (.advance cycles)).ticks := by
        rw [length, rounds]
        rfl
      obtain ⟨after, run, plays⟩ := plays.tickTimes usable (by rwa [reached]) (by rw [reached]; exact next.bound)
        (by rw [reached]; exact next.count) (by rwa [reached])
      refine ⟨after, ?_, ?_, next⟩
      · rw [Player.step, Player.advance, ticks, divider]
        exact run
      · rwa [heard]
  | flush =>
      have small : config.complete chip.divider (line.heard chip).levels.length < 2 ^ 64 := by
        have positive := usable.num_pos
        have products := fits.products
        rw [ordered.length_heard]
        rw [Timeline.next] at products
        nlinarith
      refine ⟨_, rfl, ?_, ordered⟩
      exact {
        played := plays.played
        configured := plays.configured
        ticks := plays.ticks
        bounded := plays.bounded
        keeps := plays.keeps.flush small
        room := by
          change 0 < SN76489_PCM_BATCH
          decide }

theorem Plays.run (usable : config.Usable) {line : Timeline} (ordered : line.Ordered chip)
    (plays : Plays chip config (line.heard chip) player) (events : List Player.Event)
    (fits : config.Fits chip.divider (line.after chip.divider events).ticks)
    (enough : config.complete chip.divider (line.after chip.divider events).ticks < fuel) :
    ∃ player', player.run fuel events = some player' ∧
      Plays chip config ((line.after chip.divider events).heard chip) player' ∧
      (line.after chip.divider events).Ordered chip := by
  induction events generalizing line player with
  | nil => exact ⟨player, rfl, plays, ordered⟩
  | cons event rest ih =>
      have le : (line.next chip.divider event).ticks ≤ (line.after chip.divider (event :: rest)).ticks :=
        Timeline.ticks_after_le chip.divider rest
      obtain ⟨after, step, plays, ordered⟩ := plays.step usable ordered event (fits.mono le)
        (Nat.lt_of_le_of_lt (complete_mono le) enough)
      obtain ⟨last, run, plays, ordered⟩ := ih ordered plays fits enough
      refine ⟨last, ?_, plays, ordered⟩
      rw [Player.run, step]
      exact run

theorem Plays.start (usable : config.Usable) (fits : config.rateNum < 2 ^ 64) :
    Plays chip config ((⟨[], 0⟩ : Timeline).heard chip) ⟨Sn76489.reset chip, Pcm.init config⟩ where
  played := rfl
  configured := rfl
  ticks := rfl
  bounded l is := absurd is (List.not_mem_nil)
  keeps := by
    have none : config.complete chip.divider 0 = 0 := by rw [PcmConfig.complete, Nat.zero_mul, windowAt_zero]
    change Keeps config chip.divider [] (config.complete chip.divider 0) (Pcm.init config)
    rw [none]
    exact {
      configured := rfl
      opened := rfl
      boundary := sampleStart_eq usable (by rwa [Nat.one_mul])
      sum := rfl
      count := rfl
      lastMean := rfl
      stream := rfl
      batchFirst := rfl
      consecutive := trivial }
  room := by
    change 0 < SN76489_PCM_BATCH
    decide

/-! ## The stream of a run -/

/-- Within the documented bounds every run of a fresh chip and stream ends, and its samples are the
means of the ticks of their windows, delivered in index order; the writes and the ticks they fall
between decide them. -/
theorem pcm_windows {built : Sn76489} (init : Sn76489.init chip = some built) (usable : config.Usable)
    (events : List Player.Event) (fits : config.Fits chip.divider (timeline chip.divider events).ticks)
    (enough : config.complete chip.divider (timeline chip.divider events).ticks < fuel) :
    ∃ player, (⟨built, Pcm.init config⟩ : Player).run fuel events = some player ∧
      player.chip = ((timeline chip.divider events).heard chip).chip ∧
      player.pcm.stream = config.samples chip.divider ((timeline chip.divider events).heard chip).levels
        (config.complete chip.divider (timeline chip.divider events).ticks) ∧
      (∀ k, k < config.complete chip.divider (timeline chip.divider events).ticks ↔
        start config.rateNum config.rateDen (k + 1) ≤ (timeline chip.divider events).ticks * chip.divider) ∧
      Consecutive 0 player.pcm.flush.delivered ∧
      player.pcm.flush.delivered.flatMap Delivery.samples = player.pcm.stream := by
  have fresh : built = Sn76489.reset chip := by
    rw [Sn76489.init] at init
    split_ifs at init
    exact (Option.some.inj init).symm
  have products := fits.products
  have positive := usable.num_pos
  have first : config.rateNum < 2 ^ 64 := by nlinarith
  have ordered : (⟨[], 0⟩ : Timeline).Ordered chip := {
    length := le_rfl
    bound := by
      rw [Nat.zero_mul]
      decide
    count := by decide }
  obtain ⟨player, run, plays, ordered⟩ := (Plays.start usable first).run usable ordered events fits enough
  have length := ordered.length_heard
  have keeps := plays.keeps
  rw [length] at keeps
  have small : config.complete chip.divider (timeline chip.divider events).ticks < 2 ^ 64 := by nlinarith
  have flushed := keeps.flush small
  refine ⟨player, ?_, plays.played, keeps.stream, ?_, flushed.consecutive, ?_⟩
  · rw [fresh]
    exact run
  · intro k
    exact (start_le_iff usable.num_pos usable.den_pos).symm
  · rw [← stream_flush, Pcm.stream]
    exact (List.append_nil _).symm

/-- A chip on the default configuration but one clock to the tick. -/
def fastChip : Sn76489Config := ⟨0x0009, 16, 1, fun _ => 32767⟩

theorem pcm_windows_default :
    ∃ player, (⟨Sn76489.reset fastChip, Pcm.init ⟨3, 1, 131068⟩⟩ : Player).run 4 [.write 0x90, .advance 7, .flush] =
        some player ∧
      player.pcm.stream.length = 2 := by
  have fits : PcmConfig.Fits ⟨3, 1, 131068⟩ fastChip.divider
      (timeline fastChip.divider [.write 0x90, .advance 7, .flush]).ticks := {
    products := by decide
    counts k := by
      refine Nat.lt_of_le_of_lt (List.length_filter_le _ _) ?_
      rw [List.length_range]
      decide }
  obtain ⟨player, run, -, stream, -⟩ := @pcm_windows fastChip ⟨3, 1, 131068⟩ 4 _ rfl ⟨by decide, by decide, by decide⟩
    [.write 0x90, .advance 7, .flush] fits (by decide)
  refine ⟨player, run, ?_⟩
  rw [stream, length_samples]
  decide

/-- A rate whose window products leave 64 bits at the second window. -/
def wideRate : PcmConfig := ⟨2 ^ 63, 2 ^ 63, 131068⟩

theorem sampleStart_wideRate (k : ℕ) : Pcm.sampleStart wideRate k ≤ 1 := by
  rw [Pcm.sampleStart, wideRate]
  dsimp only
  split_ifs <;> omega

theorem emitUntil_wideRate (fuel : ℕ) {pcm : Pcm} (config : pcm.config = wideRate) (due : pcm.boundary ≤ 1) :
    Pcm.emitUntil 1 fuel pcm = none := by
  induction fuel generalizing pcm with
  | zero => rfl
  | succ fuel ih =>
      have kept : pcm.emitSample.config = wideRate ∧
          pcm.emitSample.boundary = Pcm.sampleStart wideRate ((pcm.index + 1) % 2 ^ 64 + 1) := by
        rw [← config, Pcm.emitSample]
        split_ifs <;> exact ⟨rfl, rfl⟩
      rw [Pcm.emitUntil, if_pos due]
      apply ih kept.1
      rw [kept.2]
      exact sampleStart_wideRate _

theorem pushTick_wideRate (fuel level : ℕ) : (Pcm.init wideRate).pushTick fuel 1 level = none :=
  emitUntil_wideRate fuel rfl (sampleStart_wideRate 1)

/-- A rate at which the ticks of a window leave the 32 bits they are counted in. -/
def slowRate : PcmConfig := ⟨2 ^ 32, 1, 131068⟩

/-- A fresh fast chip toggles its three tones at every tick. -/
structure Toggles (n : ℕ) (heard : Heard) : Prop where
  configured : heard.chip.config = fastChip
  periods : heard.chip.tonePeriod = fun _ => 0
  counters : heard.chip.toneCounter = fun _ => 0
  outputs : heard.chip.toneOutput = fun _ => if n % 2 = 1 then 1 else 0
  most : ∀ l ∈ heard.levels, l ≤ 131068
  least : (n + 1) / 2 * 98301 ≤ heard.levels.sum

theorem tones_tick (chip : Sn76489) :
    chip.tick.tonePeriod = chip.tonePeriod ∧ chip.tick.toneCounter = (fun i => (chip.tickTone i).1) ∧
      chip.tick.toneOutput = fun i => (chip.tickTone i).2 := by
  rw [Sn76489.tick, Sn76489.tickNoise]
  dsimp only
  split_ifs <;> exact ⟨rfl, rfl, rfl⟩

theorem channelLevel_fastChip {chip : Sn76489} (is : chip.config = fastChip) (channel : Fin 4) :
    chip.channelLevel channel = 32767 := by
  rw [Sn76489.channelLevel, is]
  rfl

theorem level_fastChip {chip : Sn76489} (is : chip.config = fastChip) :
    chip.level ≤ 131068 ∧ ((∀ i, chip.toneOutput i = 1) → 98301 ≤ chip.level) := by
  have tone : ∀ i, chip.toneLevel i ≤ 32767 := by
    intro i
    rw [Sn76489.toneLevel, channelLevel_fastChip is]
    split_ifs <;> omega
  have noise : (if chip.lfsr &&& 1 ≠ 0 then chip.channelLevel (Fin.last 3) else 0) ≤ 32767 := by
    rw [channelLevel_fastChip is]
    split_ifs <;> omega
  have first := tone 0
  have second := tone 1
  have third := tone 2
  refine ⟨?_, fun on => ?_⟩
  · rw [Sn76489.level]
    omega
  · have sounding : ∀ i, chip.toneLevel i = 32767 := by
      intro i
      rw [Sn76489.toneLevel, on i, channelLevel_fastChip is]
      rfl
    rw [Sn76489.level, sounding 0, sounding 1, sounding 2]
    omega

theorem toggles (n : ℕ) : Toggles n (Heard.tick^[n] ⟨Sn76489.reset fastChip, []⟩) := by
  induction n with
  | zero => exact ⟨rfl, rfl, rfl, rfl, fun l is => absurd is List.not_mem_nil, le_rfl⟩
  | succ n ih =>
      rw [Function.iterate_succ_apply']
      generalize Heard.tick^[n] ⟨Sn76489.reset fastChip, []⟩ = heard at ih
      obtain ⟨periods, counters, outputs⟩ := tones_tick heard.chip
      have configured : heard.chip.tick.config = fastChip := (divider_tick _).trans ih.configured
      have tone : ∀ i, heard.chip.tickTone i = (0, if (n + 1) % 2 = 1 then 1 else 0) := by
        intro i
        rw [Sn76489.tickTone, ih.counters, ih.periods, ih.outputs]
        change ((0 : Word), (if n % 2 = 1 then (1 : Byte) else 0) ^^^ 1) = _
        rcases Nat.mod_two_eq_zero_or_one n with even | odd
        · rw [even, show (n + 1) % 2 = 1 by omega]
          rfl
        · rw [odd, show (n + 1) % 2 = 0 by omega]
          rfl
      have outputs : heard.chip.tick.toneOutput = fun _ => if (n + 1) % 2 = 1 then 1 else 0 := by
        rw [outputs]
        funext i
        rw [tone i]
      have level := level_fastChip configured
      exact {
        configured := configured
        periods := periods.trans ih.periods
        counters := by
          change heard.chip.tick.toneCounter = _
          rw [counters]
          funext i
          rw [tone i]
        outputs := outputs
        most := by
          intro l is
          rcases List.mem_append.mp is with old | new
          · exact ih.most l old
          · rw [List.mem_singleton.mp new]
            exact level.1
        least := by
          change (n + 1 + 1) / 2 * 98301 ≤ (heard.levels ++ [heard.chip.tick.level]).sum
          rw [List.sum_append, List.sum_singleton]
          have before := ih.least
          rcases Nat.mod_two_eq_zero_or_one n with even | odd
          · have on := level.2 fun i => by rw [outputs, if_pos (by omega)]
            have more : (n + 1 + 1) / 2 = (n + 1) / 2 + 1 := by omega
            calc (n + 1 + 1) / 2 * 98301 = (n + 1) / 2 * 98301 + 98301 := by rw [more, Nat.succ_mul]
              _ ≤ heard.levels.sum + heard.chip.tick.level := Nat.add_le_add before on
          · have same : (n + 1 + 1) / 2 = (n + 1) / 2 := by omega
            calc (n + 1 + 1) / 2 * 98301 = (n + 1) / 2 * 98301 := by rw [same]
              _ ≤ heard.levels.sum + heard.chip.tick.level := Nat.le_add_right_of_le before }

theorem fits_slowRate {n : ℕ} (lt : n < 2 ^ 32) : slowRate.Fits fastChip.divider n where
  products := by
    have none : slowRate.complete fastChip.divider n = 0 := Nat.div_eq_of_lt (by
      change n * 1 * 1 < 2 ^ 32
      omega)
    rw [none]
    decide
  counts k :=
    calc population slowRate.rateNum slowRate.rateDen fastChip.divider n k ≤ (List.range n).length :=
          List.length_filter_le _ _
      _ < 2 ^ 32 := by rwa [List.length_range]

theorem complete_slowRate {n : ℕ} (lt : n < 2 ^ 32) : slowRate.complete fastChip.divider n = 0 :=
  Nat.div_eq_of_lt (by
    change n * 1 * 1 < 2 ^ 32
    omega)

theorem usable_slowRate : slowRate.Usable := ⟨by decide, by decide, by decide⟩

/-- The tick that closes a window of 2^32 ticks finds no tick counted in it. -/
theorem pushTick_slowRate {levels : List ℕ} {pcm : Pcm} {level fuel : ℕ} (length : levels.length = 2 ^ 32 - 1)
    (keeps : Keeps slowRate fastChip.divider levels 0 pcm) :
    ∃ pcm', pcm.pushTick (fuel + 2) (2 ^ 32) level = some pcm' ∧ pcm'.stream = [Pcm.sampleOf 131068 0] := by
  have counted : (slowRate.ticksOf fastChip.divider levels 0).length = 2 ^ 32 - 1 := by
    rw [PcmConfig.ticksOf, inside_eq_self usable_slowRate.num_pos usable_slowRate.den_pos, length]
    intro j lt
    exact complete_slowRate (by omega)
  have wrapped : (pcm.count + 1) % 2 ^ 32 = 0 := by
    rw [keeps.count, counted]
    rfl
  have index : (pcm.index + 1) % 2 ^ 64 + 1 = 2 := by
    rw [keeps.opened]
    rfl
  have before : pcm.boundary ≤ 2 ^ 32 := by
    rw [keeps.boundary]
    decide
  have after : ¬ Pcm.sampleStart slowRate 2 ≤ 2 ^ 32 := by decide
  rw [Pcm.pushTick, wrapped]
  generalize opened : { pcm with sum := (pcm.sum + level) % 2 ^ 64, count := 0 } = last
  have stream : last.stream = [] := by
    rw [← opened]
    exact keeps.stream
  have mean : last.mean = 0 := by
    rw [← opened]
    exact keeps.lastMean
  have config : last.config = slowRate := by
    rw [← opened]
    exact keeps.configured
  refine ⟨last.emitSample, ?_, ?_⟩
  · rw [Pcm.emitUntil, if_pos (by rwa [← opened]), Pcm.emitUntil, if_neg]
    rw [boundary_emitSample, config, ← opened, index]
    exact after
  · rw [stream_emitSample, stream, mean, config]
    rfl

theorem word_ne {x : ℕ} (low : 1 ≤ x) (high : x ≤ 65535) :
    (BitVec.ofNat 32 0 - 32768#32).setWidth 16 ≠ (BitVec.ofNat 32 x - 32768#32).setWidth 16 := by
  intro same
  have nats := congrArg BitVec.toNat same
  simp only [BitVec.toNat_setWidth, BitVec.toNat_sub, BitVec.toNat_ofNat] at nats
  omega

theorem sampleOf_ne {m : ℕ} (least : 2 ≤ m) (most : m ≤ 131068) :
    Pcm.sampleOf 131068 0 ≠ Pcm.sampleOf 131068 m := by
  have low : 1 ≤ m * 65535 / 131068 := by omega
  have high : m * 65535 / 131068 ≤ 65535 := by omega
  unfold Pcm.sampleOf
  exact word_ne low high

theorem meanAt_slowRate {levels : List ℕ} (length : levels.length = 2 ^ 32) :
    slowRate.meanAt fastChip.divider levels 0 = levels.sum / 2 ^ 32 := by
  have all : slowRate.ticksOf fastChip.divider levels 0 = levels := by
    apply inside_eq_self usable_slowRate.num_pos usable_slowRate.den_pos
    intro j lt
    exact complete_slowRate (by omega)
  have some : levels ≠ [] := by
    rintro rfl
    exact absurd length (by decide)
  rw [PcmConfig.meanAt, carried_succ, all, if_neg some, meanOf, length]

theorem run_slowRate (fuel : ℕ) :
    ∃ player, (⟨Sn76489.reset fastChip, Pcm.init slowRate⟩ : Player).run (fuel + 2)
        [.advance 4294967295, .advance 4294967296] = some player ∧
      player.pcm.stream = [Pcm.sampleOf 131068 0] := by
  have ordered : (⟨[], 0⟩ : Timeline).Ordered fastChip := ⟨le_rfl, by decide, by decide⟩
  have lt : ((⟨[], 0⟩ : Timeline).next fastChip.divider (.advance 4294967295)).ticks < 2 ^ 32 := by decide
  have none := complete_slowRate lt
  obtain ⟨before, step, plays, ordered⟩ := (Plays.start usable_slowRate (by decide)).step usable_slowRate ordered
    (.advance 4294967295) (fits_slowRate lt) (show _ < fuel + 2 by rw [none]; omega)
  have length := ordered.length_heard
  have keeps := plays.keeps
  rw [length, none] at keeps
  generalize (Timeline.next fastChip.divider ⟨[], 0⟩ (.advance 4294967295)).heard fastChip = heard at plays keeps length
  have ticks : before.chip.ticks = 2 ^ 32 - 1 := by
    rw [plays.played, plays.ticks, length]
    decide
  have configured : before.chip.config = fastChip := by rw [plays.played, plays.configured]
  obtain ⟨pcm, pushed, stream⟩ := @pushTick_slowRate heard.levels before.pcm before.chip.tick.level fuel
    (by rw [length]; decide) keeps
  have tick : before.tick (fuel + 2) = some ⟨before.chip.tick, pcm⟩ := by
    have stop : before.chip.tick.ticks * before.chip.tick.config.divider % 2 ^ 64 = 2 ^ 32 := by
      rw [ticks_tick, ticks, divider_tick, configured]
      decide
    rw [Player.tick, stop, pushed]
    rfl
  have advance : before.advance (fuel + 2) 4294967296 = some ⟨before.chip.tick, pcm⟩ := by
    have rounds : (4294967296#64).toNat / before.chip.config.divider - before.chip.ticks = 1 := by
      rw [configured, ticks]
      decide
    change Player.tickTimes _ ((4294967296#64).toNat / _ - _) _ = _
    rw [rounds, Player.tickTimes, tick]
    rfl
  refine ⟨⟨before.chip.tick, pcm⟩, ?_, stream⟩
  rw [Player.run, step]
  change Player.run _ before _ = _
  rw [Player.run, Player.step, advance]
  rfl

theorem run_wideRate (fuel : ℕ) :
    (⟨Sn76489.reset fastChip, Pcm.init wideRate⟩ : Player).run fuel [.advance 1] = none := by
  have tick : (⟨Sn76489.reset fastChip, Pcm.init wideRate⟩ : Player).tick fuel = none := by
    rw [Player.tick]
    dsimp only
    rw [ticks_tick, divider_tick]
    have pushed := pushTick_wideRate fuel (Sn76489.reset fastChip).tick.level
    change ((Pcm.init wideRate).pushTick fuel 1 _).bind _ = none
    rw [pushed]
    rfl
  have advance : (⟨Sn76489.reset fastChip, Pcm.init wideRate⟩ : Player).advance fuel 1 = none := by
    change Player.tickTimes fuel 1 _ = none
    rw [Player.tickTimes, tick]
    rfl
  rw [Player.run, Player.step, advance]
  rfl

/-- Outside either bound the windows are not what they say: past 64 bits the second window starts at 0
again and the first tick never comes back, and a window of 2^32 ticks keeps the mean before it. -/
theorem pcm_windows_bounds :
    Sn76489.init fastChip = some (Sn76489.reset fastChip) ∧ wideRate.Usable ∧ slowRate.Usable ∧
      (∀ fuel, (⟨Sn76489.reset fastChip, Pcm.init wideRate⟩ : Player).run fuel [.advance 1] = none) ∧
      ∃ player, (⟨Sn76489.reset fastChip, Pcm.init slowRate⟩ : Player).run 2
          [.advance 4294967295, .advance 4294967296] = some player ∧
        player.pcm.stream ≠ slowRate.samples fastChip.divider
          ((timeline fastChip.divider [.advance 4294967295, .advance 4294967296]).heard fastChip).levels
          (slowRate.complete fastChip.divider
            (timeline fastChip.divider [.advance 4294967295, .advance 4294967296]).ticks) := by
  refine ⟨rfl, ⟨by decide, by decide, by decide⟩, usable_slowRate, run_wideRate, ?_⟩
  obtain ⟨player, run, stream⟩ := run_slowRate 0
  refine ⟨player, run, ?_⟩
  have line : timeline fastChip.divider [.advance 4294967295, .advance 4294967296] = ⟨[], 2 ^ 32⟩ := by decide
  have one : slowRate.complete fastChip.divider (2 ^ 32) = 1 := by decide
  have heard : (⟨[], 2 ^ 32⟩ : Timeline).heard fastChip =
      Heard.tick^[2 ^ 32] ⟨Sn76489.reset fastChip, []⟩ := by
    rw [Timeline.heard, Heard.toTick]
    rfl
  rw [stream, line, one, heard]
  have toggled := toggles (2 ^ 32)
  have length := @Heard.length_tick_iterate ⟨Sn76489.reset fastChip, []⟩ (2 ^ 32)
  rw [List.length_nil, Nat.zero_add] at length
  generalize Heard.tick^[2 ^ 32] ⟨Sn76489.reset fastChip, []⟩ = all at toggled length
  have least := toggled.least
  have most := sum_le toggled.most
  rw [length] at most
  intro same
  rw [PcmConfig.samples, List.range_one, List.map_singleton, meanAt_slowRate length] at same
  refine sampleOf_ne ?_ ?_ (List.singleton_inj.mp same)
  · rw [Nat.le_div_iff_mul_le (by decide)]
    refine le_trans ?_ least
    decide
  · exact Nat.div_le_of_le_mul most

end Segarecomp.Psg

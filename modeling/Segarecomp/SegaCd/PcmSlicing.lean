import Segarecomp.SegaCd.Pcm

/-! The chip and the output timeline do not depend on the ticks at which they are advanced. -/

namespace Segarecomp.SegaCd

open Lib.Slicing

variable {input : ScdAudioInput}

/-! ## Emitting frames -/

theorem scdMixEmitUntil_done {limit : ℕ} {x : ScdMix} (h : limit ≤ x.tick) :
    scdMixEmitUntil input limit x = x := by
  rw [scdMixEmitUntil, if_neg (Nat.not_lt.mpr h)]

theorem scdMixEmitUntil_due {limit : ℕ} {x : ScdMix} (h : x.tick < limit) :
    scdMixEmitUntil input limit x = scdMixEmitUntil input limit (scdMixEmitFrame input x) := by
  rw [scdMixEmitUntil, if_pos h]

theorem scdMixFlushChunk_idem (x : ScdMix) :
    scdMixFlushChunk (scdMixFlushChunk x) = scdMixFlushChunk x := by
  simp [scdMixFlushChunk]

theorem scdMixReadAhead_flush (x : ScdMix) :
    scdMixReadAhead input (scdMixFlushChunk x) = scdMixFlushChunk (scdMixReadAhead input x) := by
  unfold scdMixReadAhead scdMixEnqueue scdMixFlushChunk
  dsimp only
  repeat' split
  all_goals rfl

theorem scdMixFrame_flush (x : ScdMix) :
    scdMixFrame input (scdMixFlushChunk x) =
      (scdMixFlushChunk (scdMixFrame input x).1, (scdMixFrame input x).2) := by
  have ahead : (if (scdMixFlushChunk x).queue.isEmpty then
        scdMixReadAhead input (scdMixFlushChunk x) else scdMixFlushChunk x) =
      scdMixFlushChunk (if x.queue.isEmpty then scdMixReadAhead input x else x) := by
    rw [scdMixReadAhead_flush, ← apply_ite]
    rfl
  unfold scdMixFrame
  dsimp only
  rw [ahead]
  generalize (if x.queue.isEmpty then scdMixReadAhead input x else x) = y
  have queue : (scdMixFlushChunk y).queue = y.queue := rfl
  have frames : (scdMixFlushChunk x).frames = x.frames := rfl
  rw [queue]
  cases y.queue <;> rfl

theorem put_flush {x : ScdMix} {frame : Frame} {tick rem frames : ℕ}
    (grid : tick * SCD_MIX_RATE + rem = frames * SCD_TICKS_PER_SECOND) (rem_lt : rem < SCD_MIX_RATE)
    (flushed : (x.sent ++ x.chunk ++ ([] ++ [frame])).length = frames)
    (count : (x.sent ++ (x.chunk ++ [frame])).length = frames) :
    scdMixFlushChunk { scdMixFlushChunk x with
        chunk := [] ++ [frame], frames := frames, tick := tick, rem := rem, grid := grid,
        rem_lt := rem_lt, count := flushed } =
      scdMixFlushChunk { x with
        chunk := x.chunk ++ [frame], frames := frames, tick := tick, rem := rem, grid := grid,
        rem_lt := rem_lt, count := count } := by
  simp only [scdMixFlushChunk, List.append_assoc, List.nil_append]

theorem scdMixPut_flush (x : ScdMix) (frame : Frame) :
    scdMixFlushChunk (scdMixPut (scdMixFlushChunk x) frame) =
      scdMixFlushChunk (scdMixPut x frame) := by
  unfold scdMixPut
  exact put_flush _ _ _ _

/-- When a chunk is handed over is not seen in what is handed over. -/
theorem scdMixEmitFrame_flush (x : ScdMix) :
    scdMixFlushChunk (scdMixEmitFrame input x) =
      scdMixFlushChunk (scdMixPut (scdMixFrame input x).1 (scdMixFrame input x).2) := by
  unfold scdMixEmitFrame
  dsimp only
  split
  · exact scdMixFlushChunk_idem _
  · rfl

variable (input) in
theorem scdMixEmitFrame_congr {x y : ScdMix} (same : scdMixFlushChunk x = scdMixFlushChunk y) :
    scdMixFlushChunk (scdMixEmitFrame input x) = scdMixFlushChunk (scdMixEmitFrame input y) := by
  have through : ∀ z : ScdMix, scdMixFlushChunk (scdMixEmitFrame input z) =
      scdMixFlushChunk (scdMixPut (scdMixFrame input (scdMixFlushChunk z)).1
        (scdMixFrame input (scdMixFlushChunk z)).2) := by
    intro z
    rw [scdMixEmitFrame_flush, scdMixFrame_flush, scdMixPut_flush]
  rw [through, through, same]

theorem flush_tick {x y : ScdMix} (same : scdMixFlushChunk x = scdMixFlushChunk y) :
    x.tick = y.tick := by
  rw [← scdMixFlushChunk_tick x, same, scdMixFlushChunk_tick]

variable (input) in
theorem scdMixEmitUntil_congr {limit : ℕ} {x y : ScdMix}
    (same : scdMixFlushChunk x = scdMixFlushChunk y) :
    scdMixFlushChunk (scdMixEmitUntil input limit x) =
      scdMixFlushChunk (scdMixEmitUntil input limit y) := by
  have tick := flush_tick same
  fun_induction scdMixEmitUntil input limit x generalizing y with
  | case1 x due ih =>
      have next := scdMixEmitFrame_congr input same
      rw [scdMixEmitUntil_due (lt_of_eq_of_lt tick.symm due)]
      exact ih next (flush_tick next)
  | case2 x done =>
      rw [scdMixEmitUntil_done (by omega)]
      exact same

/-! ## What the timeline keeps -/

/-- The tick of frame `n`. -/
def frameTick (n : ℕ) : ℕ := n * SCD_TICKS_PER_SECOND / SCD_MIX_RATE

/-- Everything produced so far, handed over or not. -/
def ScdMix.output (x : ScdMix) : List Frame := x.sent ++ x.chunk

def emitAudio (input : ScdAudioInput) (limit : ℕ) (a : ScdAudio) : ScdAudio :=
  { a with mix := scdMixEmitUntil input limit a.mix }

def withSamples (samples : ℕ) (a : ScdAudio) : ScdAudio :=
  { a with pcm.samples := samples }

/-- The events `first`, `first + 1`, … -/
def pcmEvents (input : ScdAudioInput) (first count : ℕ) (a : ScdAudio) : ScdAudio :=
  (List.range' first count).foldl (scdPcmTick input) a

/-- What an advance leaves alone. -/
structure SameSetup (a a' : ScdAudio) : Prop where
  bios : a'.bios = a.bios
  origin : a'.pcm.origin = a.pcm.origin
  chip : a'.pcm.enabled = a.pcm.enabled
  running : a'.pcm.running = a.pcm.running
  samples : a'.pcm.samples = a.pcm.samples
  mix : a'.mix.enabled = a.mix.enabled

theorem SameSetup.trans {a b c : ScdAudio} (first : SameSetup a b) (second : SameSetup b c) :
    SameSetup a c where
  bios := second.bios.trans first.bios
  origin := second.origin.trans first.origin
  chip := second.chip.trans first.chip
  running := second.running.trans first.running
  samples := second.samples.trans first.samples
  mix := second.mix.trans first.mix

theorem SameSetup.period {a a' : ScdAudio} (same : SameSetup a a') :
    scdPcmPeriod a' = scdPcmPeriod a := by
  rw [scdPcmPeriod, same.bios, scdPcmPeriod]

/-- The events strictly before `tick`. -/
def pcmDue (a : ScdAudio) (tick : ℕ) : ℕ := elapsed a.pcm.origin (scdPcmPeriod a) tick

/-- No channel runs. -/
def pcmQuiet (a : ScdAudio) : Bool := !a.pcm.enabled || a.pcm.running == 0

/-- The first event of a quiet chip ends the sample that is held. -/
def pcmRelease (input : ScdAudioInput) (k : ℕ) (a : ScdAudio) : ScdAudio :=
  if a.mix.enabled && a.mix.held != (0, 0) then
    { a with
      mix :=
        { scdMixEmitUntil input (a.pcm.origin + k * scdPcmPeriod a) a.mix with held := (0, 0) } }
  else a

theorem scdPcmPeriod_pos (a : ScdAudio) : 0 < scdPcmPeriod a := by
  unfold scdPcmPeriod
  split <;> decide

section Run

variable {a a' : ScdAudio} {tick later : ℕ}

theorem SameSetup.due (same : SameSetup a a') (tick : ℕ) : pcmDue a' tick = pcmDue a tick := by
  rw [pcmDue, same.origin, same.period, pcmDue]

theorem SameSetup.quiet (same : SameSetup a a') : pcmQuiet a' = pcmQuiet a := by
  rw [pcmQuiet, same.chip, same.running, pcmQuiet]

theorem scdPcmRun_eq (tick : ℕ) (a : ScdAudio) :
    scdPcmRun input tick a =
      if pcmDue a tick ≤ a.pcm.samples then a
      else if pcmQuiet a then
        pcmRelease input a.pcm.samples (withSamples (pcmDue a tick) a)
      else
        pcmEvents input a.pcm.samples (pcmDue a tick - a.pcm.samples)
          (withSamples (pcmDue a tick) a) := by
  unfold scdPcmRun
  dsimp only
  by_cases early : tick ≤ a.pcm.origin
  · have none : pcmDue a tick = 0 := elapsed_eq_zero early (scdPcmPeriod_pos a)
    rw [if_pos early, none, if_pos (Nat.zero_le _)]
  · rw [if_neg early]
    rfl

end Run

/-! ## Handing over -/

/-- Two states that differ in what has already been handed to the sink. -/
structure SameOutput (a b : ScdAudio) : Prop where
  bios : a.bios = b.bios
  pcm : a.pcm = b.pcm
  mix : scdMixFlushChunk a.mix = scdMixFlushChunk b.mix

section Output

variable {a b : ScdAudio}

theorem SameOutput.enabled (same : SameOutput a b) : a.mix.enabled = b.mix.enabled :=
  show (scdMixFlushChunk a.mix).enabled = (scdMixFlushChunk b.mix).enabled by rw [same.mix]

theorem SameOutput.held (same : SameOutput a b) : a.mix.held = b.mix.held :=
  show (scdMixFlushChunk a.mix).held = (scdMixFlushChunk b.mix).held by rw [same.mix]

theorem SameOutput.period (same : SameOutput a b) : scdPcmPeriod a = scdPcmPeriod b := by
  rw [scdPcmPeriod, same.bios, scdPcmPeriod]

theorem SameOutput.emit (same : SameOutput a b) (limit : ℕ) :
    SameOutput (emitAudio input limit a) (emitAudio input limit b) :=
  ⟨same.bios, same.pcm, scdMixEmitUntil_congr _ same.mix⟩

variable (input) in
theorem emitHold_congr {x y : ScdMix} (same : scdMixFlushChunk x = scdMixFlushChunk y) (limit : ℕ)
    (held : Frame) :
    scdMixFlushChunk { scdMixEmitUntil input limit x with held } =
      scdMixFlushChunk { scdMixEmitUntil input limit y with held } := by
  have emit : scdMixFlushChunk (scdMixEmitUntil input limit x) =
      scdMixFlushChunk (scdMixEmitUntil input limit y) := scdMixEmitUntil_congr _ same
  exact congrArg (fun mix : ScdMix => { mix with held }) emit

theorem SameOutput.tick (same : SameOutput a b) (k : ℕ) :
    SameOutput (scdPcmTick input a k) (scdPcmTick input b k) := by
  have enabled := same.enabled
  have period := same.period
  have mix := emitHold_congr input same.mix (b.pcm.origin + k * scdPcmPeriod b)
    (scdPcmEvent b.pcm).2
  unfold scdPcmTick
  dsimp only
  rw [enabled, period, same.pcm]
  split
  · exact ⟨same.bios, rfl, mix⟩
  · exact ⟨same.bios, rfl, same.mix⟩

theorem SameOutput.events (same : SameOutput a b) (first count : ℕ) :
    SameOutput (pcmEvents input first count a) (pcmEvents input first count b) := by
  induction count generalizing first a b with
  | zero => exact same
  | succ count ih => exact ih (same.tick first) (first + 1)

theorem SameOutput.samples (same : SameOutput a b) (samples : ℕ) :
    SameOutput (withSamples samples a) (withSamples samples b) := by
  refine ⟨same.bios, ?_, same.mix⟩
  rw [withSamples, same.pcm, withSamples]

theorem SameOutput.release (same : SameOutput a b) (k : ℕ) :
    SameOutput (pcmRelease input k a) (pcmRelease input k b) := by
  have mix := emitHold_congr input same.mix (b.pcm.origin + k * scdPcmPeriod b) (0, 0)
  unfold pcmRelease
  rw [same.enabled, same.held, same.period, same.pcm]
  split
  · exact ⟨same.bios, rfl, mix⟩
  · exact same

theorem SameOutput.run (same : SameOutput a b) (tick : ℕ) :
    SameOutput (scdPcmRun input tick a) (scdPcmRun input tick b) := by
  have due : pcmDue a tick = pcmDue b tick := by
    rw [pcmDue, same.pcm, same.period, pcmDue]
  have quiet : pcmQuiet a = pcmQuiet b := by
    rw [pcmQuiet, same.pcm, pcmQuiet]
  rw [scdPcmRun_eq, scdPcmRun_eq, due, quiet, same.pcm]
  split
  · exact same
  · split
    · exact (same.samples _).release _
    · exact (same.samples _).events _ _

def handOver (a : ScdAudio) : ScdAudio := { a with mix := scdMixFlushChunk a.mix }

theorem SameOutput.handOver (same : SameOutput a b) : handOver a = handOver b := by
  obtain ⟨bios, pcm, mix⟩ := same
  obtain ⟨bios', pcm', mix'⟩ := a
  dsimp only at bios pcm mix
  rw [SegaCd.handOver, SegaCd.handOver, mix, bios, pcm]

end Output

/-! ## Which frames are out -/

/-- From `a` to `b` some frames due before `limit` were produced and none was taken back. -/
structure Produced (limit : ℕ) (a b : ScdAudio) : Prop where
  kept : ∃ more, b.mix.output = a.mix.output ++ more
  due : ∀ n, n < b.mix.frames → n < a.mix.frames ∨ frameTick n < limit

section Produced

variable {limit : ℕ} {a b c : ScdAudio}

theorem Produced.refl (limit : ℕ) (a : ScdAudio) : Produced limit a a :=
  ⟨⟨[], (List.append_nil _).symm⟩, fun _ h => .inl h⟩

theorem output_length (x : ScdMix) : x.output.length = x.frames := x.count

theorem Produced.out (produced : Produced limit a b) {n : ℕ} (h : n < a.mix.frames) :
    n < b.mix.frames := by
  obtain ⟨more, kept⟩ := produced.kept
  rw [← output_length] at h ⊢
  rw [kept, List.length_append]
  omega

theorem Produced.trans (first : Produced limit a b) (second : Produced limit b c) :
    Produced limit a c := by
  constructor
  · obtain ⟨more, kept⟩ := first.kept
    obtain ⟨rest, kept'⟩ := second.kept
    exact ⟨more ++ rest, by rw [kept', kept, List.append_assoc]⟩
  · intro n h
    rcases second.due n h with before | due
    · exact first.due n before
    · exact .inr due

end Produced

/-! ## Main result -/

end Segarecomp.SegaCd

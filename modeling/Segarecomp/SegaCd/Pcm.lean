import Segarecomp.Lib.Slicing
import Segarecomp.SegaCd.Machine

/-! The PCM sound chip and the 44.1 kHz output timeline: the chip's sample events and the output
frames advance together, each frame holding the latest sample whose event lies before it. -/

namespace Segarecomp.SegaCd

def SCD_TICKS_PER_SECOND : ℕ := 26846587500000
def SCD_TIMER_UNIT_SUB_CYCLES : ℕ := 384
def SCD_MIX_RATE : ℕ := 44100
def SCD_MIX_QUEUE_FRAMES : ℕ := 2048
def SCD_MIX_CHUNK_FRAMES : ℕ := 1024
def SCD_CDDA_SECTOR_FRAMES : ℕ := 588

/-- A stereo frame, left and right. -/
abbrev Frame := ℤ × ℤ

structure ScdPcm where
  env : Fin 8 → Byte := fun _ => 0
  pan : Fin 8 → Byte := fun _ => 0xFF
  fd : Fin 8 → BitVec 16 := fun _ => 0
  ls : Fin 8 → BitVec 16 := fun _ => 0
  enabled : Bool := false
  running : Byte := 0
  addr : Fin 8 → BitVec 32 := fun _ => 0
  origin : ℕ := 0
  samples : ℕ := 0
  ram : BitVec 16 → Byte := fun _ => 0

/-- The output timeline. `sent` is everything the sink has been handed, in order; the next frame
is due at `tick`, which the fields keep on the exact grid. -/
structure ScdMix where
  enabled : Bool := false
  tick : ℕ := 0
  rem : ℕ := 0
  frames : ℕ := 0
  held : Frame := (0, 0)
  queue : List Frame := []
  cdActive : Bool := false
  cdNext : ℤ := 0
  cdEnd : ℤ := 0
  faderVolume : ℕ := 1024
  chunk : List Frame := []
  sent : List Frame := []
  grid : tick * SCD_MIX_RATE + rem = frames * SCD_TICKS_PER_SECOND := by simp
  rem_lt : rem < SCD_MIX_RATE := by decide
  count : (sent ++ chunk).length = frames := by simp

/-- What the timeline reads besides the chip: the audio sectors of the disc, the fader target,
and the FM and PSG part of an output frame where these devices are registered. -/
structure ScdAudioInput where
  readCdda : ℤ → Option (Fin SCD_CDDA_SECTOR_FRAMES → Frame)
  faderTarget : ℕ
  audioFrame : ℕ → Option Frame

structure ScdAudio where
  bios : Bool := false
  pcm : ScdPcm := {}
  mix : ScdMix := {}

/-- One channel event: the byte to output, none for a loop onto a loop marker. -/
def scdPcmStep (p : ScdPcm) (c : Fin 8) : ScdPcm × Option Byte :=
  let data := p.ram ((p.addr c >>> 11).setWidth 16)
  if data = 0xFF then
    let p' := { p with addr := Function.update p.addr c ((p.ls c).setWidth 32 <<< 11) }
    if p.ram (p.ls c) = 0xFF then (p', none) else (p', some (p.ram (p.ls c)))
  else
    let next := (p.addr c + (p.fd c).setWidth 32) &&& 0x7FFFFFF
    ({ p with addr := Function.update p.addr c next }, some data)

/-- Rounding toward minus infinity. -/
def scdPcmGain (product : ℤ) : ℤ :=
  if product ≥ 0 then product / 32 else -((-product + 31) / 32)

def scdMixClamp16 (v : ℤ) : ℤ :=
  if v < -32768 then -32768 else if v > 32767 then 32767 else v

/-- Bit 7 set is a positive sample. -/
def scdPcmMagnitude (data : Byte) : ℤ :=
  if data &&& 0x80 ≠ 0 then ((data &&& 0x7F).toNat : ℤ) else -((data &&& 0x7F).toNat : ℤ)

/-- One running channel's part of a sample event. -/
def scdPcmChannel (acc : ScdPcm × Frame) (c : Fin 8) : ScdPcm × Frame :=
  let (p, l, r) := acc
  if (p.running >>> c.val) &&& 1 = 0 then acc
  else
    match scdPcmStep p c with
    | (p', none) => (p', l, r)
    | (p', some data) =>
      let amplitude := scdPcmMagnitude data * ((p.env c).toNat : ℤ)
      (p', l + scdPcmGain (amplitude * ((p.pan c &&& 0x0F).toNat : ℤ)),
        r + scdPcmGain (amplitude * ((p.pan c >>> 4).toNat : ℤ)))

/-- A sample event of the chip and the sample it defines. -/
def scdPcmEvent (p : ScdPcm) : ScdPcm × Frame :=
  let (p, l, r) := (List.finRange 8).foldl scdPcmChannel (p, 0, 0)
  (p, scdMixClamp16 l, scdMixClamp16 r)

def scdCddaScale (sample : ℤ) (volume : ℕ) : ℤ :=
  let multiplier := if volume &&& 0x7FC ≠ 0 then volume &&& 0x7FC else volume &&& 0x03
  (sample * (multiplier : ℤ)).tdiv 1024

def scdMixFlushChunk (x : ScdMix) : ScdMix :=
  { x with
    sent := x.sent ++ x.chunk
    chunk := []
    count := by simpa using x.count }

def scdMixEnqueue (x : ScdMix) (raw : Fin SCD_CDDA_SECTOR_FRAMES → Frame) : ScdMix :=
  if SCD_CDDA_SECTOR_FRAMES > SCD_MIX_QUEUE_FRAMES - x.queue.length then x
  else { x with queue := x.queue ++ List.ofFn raw }

/-- The queue ran dry: queue the next contiguous sector of the track. -/
def scdMixReadAhead (input : ScdAudioInput) (x : ScdMix) : ScdMix :=
  if !x.cdActive || x.cdNext ≥ x.cdEnd then x
  else
    match input.readCdda x.cdNext with
    | none => { x with cdActive := false }
    | some raw => { scdMixEnqueue x raw with cdNext := x.cdNext + 1 }

def stepFader (volume target : ℕ) : ℕ :=
  if volume < target then volume + 1 else if volume > target then volume - 1 else volume

/-- The value of the next output frame, and the timeline with its CD frame taken. -/
def scdMixFrame (input : ScdAudioInput) (x : ScdMix) : ScdMix × Frame :=
  let (l, r) := x.held
  let x := if x.queue.isEmpty then scdMixReadAhead input x else x
  let (l, r) :=
    match input.audioFrame x.frames with
    | none => (l, r)
    | some (fl, fr) => (l + fl, r + fr)
  match x.queue with
  | [] => (x, scdMixClamp16 l, scdMixClamp16 r)
  | (ql, qr) :: queue =>
    let l := l + scdCddaScale ql x.faderVolume
    let r := r + scdCddaScale qr x.faderVolume
    ({ x with
        queue
        faderVolume := stepFader x.faderVolume input.faderTarget },
      scdMixClamp16 l, scdMixClamp16 r)

theorem rate_pos : 0 < SCD_MIX_RATE := by decide

/-- The tick the remainder has filled up. -/
def gridCarry (rem : ℕ) : ℕ := if rem ≥ SCD_MIX_RATE then 1 else 0

theorem gridCarry_le (rem : ℕ) : gridCarry rem * SCD_MIX_RATE ≤ rem := by
  unfold gridCarry
  split <;> omega

theorem gridCarry_lt {rem : ℕ} (lt : rem < SCD_MIX_RATE) :
    rem + SCD_TICKS_PER_SECOND % SCD_MIX_RATE -
      gridCarry (rem + SCD_TICKS_PER_SECOND % SCD_MIX_RATE) * SCD_MIX_RATE < SCD_MIX_RATE := by
  have step := Nat.mod_lt SCD_TICKS_PER_SECOND rate_pos
  unfold gridCarry
  split <;> omega

/-- One frame further on the grid. -/
theorem grid_step {tick rem frames : ℕ}
    (grid : tick * SCD_MIX_RATE + rem = frames * SCD_TICKS_PER_SECOND) (carry : ℕ)
    (le : carry * SCD_MIX_RATE ≤ rem + SCD_TICKS_PER_SECOND % SCD_MIX_RATE) :
    (tick + SCD_TICKS_PER_SECOND / SCD_MIX_RATE + carry) * SCD_MIX_RATE +
        (rem + SCD_TICKS_PER_SECOND % SCD_MIX_RATE - carry * SCD_MIX_RATE) =
      (frames + 1) * SCD_TICKS_PER_SECOND := by
  have second : SCD_TICKS_PER_SECOND / SCD_MIX_RATE * SCD_MIX_RATE +
      SCD_TICKS_PER_SECOND % SCD_MIX_RATE = SCD_TICKS_PER_SECOND := Nat.div_add_mod' _ _
  rw [Nat.add_mul, Nat.add_mul, Nat.succ_mul]
  omega

/-- The timeline with one frame more. -/
def scdMixPut (x : ScdMix) (frame : Frame) : ScdMix :=
  let rem := x.rem + SCD_TICKS_PER_SECOND % SCD_MIX_RATE
  { x with
    chunk := x.chunk ++ [frame]
    frames := x.frames + 1
    tick := x.tick + SCD_TICKS_PER_SECOND / SCD_MIX_RATE + gridCarry rem
    rem := rem - gridCarry rem * SCD_MIX_RATE
    grid := grid_step x.grid _ (gridCarry_le _)
    rem_lt := gridCarry_lt x.rem_lt
    count := by
      have count := x.count
      simp only [List.length_append, List.length_singleton] at count ⊢
      omega }

/-- One pass of the loop of `scdMixEmitUntil`: the frame due at `x.tick`. -/
def scdMixEmitFrame (input : ScdAudioInput) (x : ScdMix) : ScdMix :=
  let produced := scdMixFrame input x
  let x := scdMixPut produced.1 produced.2
  if x.chunk.length = SCD_MIX_CHUNK_FRAMES then scdMixFlushChunk x else x

/-- What the queue and the fader have no part in. -/
structure SameGrid (x x' : ScdMix) : Prop where
  enabled : x'.enabled = x.enabled
  tick : x'.tick = x.tick
  rem : x'.rem = x.rem
  frames : x'.frames = x.frames
  held : x'.held = x.held
  chunk : x'.chunk = x.chunk
  sent : x'.sent = x.sent

theorem scdMixReadAhead_grid (input : ScdAudioInput) (x : ScdMix) :
    SameGrid x (scdMixReadAhead input x) := by
  unfold scdMixReadAhead scdMixEnqueue
  repeat' split
  all_goals exact ⟨rfl, rfl, rfl, rfl, rfl, rfl, rfl⟩

theorem scdMixFrame_grid (input : ScdAudioInput) (x : ScdMix) :
    SameGrid x (scdMixFrame input x).1 := by
  have ahead : SameGrid x (if x.queue.isEmpty then scdMixReadAhead input x else x) := by
    split
    · exact scdMixReadAhead_grid input x
    · exact ⟨rfl, rfl, rfl, rfl, rfl, rfl, rfl⟩
  unfold scdMixFrame
  dsimp only
  generalize (if x.queue.isEmpty then scdMixReadAhead input x else x) = y at ahead ⊢
  split
  · exact ahead
  · exact ⟨ahead.enabled, ahead.tick, ahead.rem, ahead.frames, ahead.held, ahead.chunk, ahead.sent⟩

@[simp] theorem scdMixFlushChunk_tick (x : ScdMix) : (scdMixFlushChunk x).tick = x.tick := rfl

theorem scdMixPut_tick (x : ScdMix) (frame : Frame) : x.tick < (scdMixPut x frame).tick := by
  have step : 0 < SCD_TICKS_PER_SECOND / SCD_MIX_RATE := by decide
  simp only [scdMixPut]
  omega

theorem scdMixEmitFrame_tick (input : ScdAudioInput) (x : ScdMix) :
    x.tick < (scdMixEmitFrame input x).tick := by
  have put := scdMixPut_tick (scdMixFrame input x).1 (scdMixFrame input x).2
  rw [(scdMixFrame_grid input x).tick] at put
  unfold scdMixEmitFrame
  dsimp only
  split
  · rw [scdMixFlushChunk_tick]
    exact put
  · exact put

/-- Produce every output frame due before `limit`. -/
def scdMixEmitUntil (input : ScdAudioInput) (limit : ℕ) (x : ScdMix) : ScdMix :=
  if x.tick < limit then scdMixEmitUntil input limit (scdMixEmitFrame input x) else x
termination_by limit - x.tick
decreasing_by
  have := scdMixEmitFrame_tick input x
  omega

/-- The sample period of the chip. -/
def scdPcmPeriod (a : ScdAudio) : ℕ :=
  SCD_TIMER_UNIT_SUB_CYCLES * if a.bios then SCD_SUB_CYCLE_TICKS_LINE_LOCKED else SCD_SUB_CYCLE_TICKS

/-- One pass of the event loop of `scdPcmRun`: frames before the event still hold the previous
sample. -/
def scdPcmTick (input : ScdAudioInput) (a : ScdAudio) (k : ℕ) : ScdAudio :=
  let (pcm, sample) := scdPcmEvent a.pcm
  if a.mix.enabled then
    let mix := scdMixEmitUntil input (a.pcm.origin + k * scdPcmPeriod a) a.mix
    { a with pcm, mix := { mix with held := sample } }
  else { a with pcm }

/-- Bring the chip to `tick`: the events strictly before it. -/
def scdPcmRun (input : ScdAudioInput) (tick : ℕ) (a : ScdAudio) : ScdAudio :=
  let period := scdPcmPeriod a
  let p := a.pcm
  if tick ≤ p.origin then a
  else
    let due := (tick - p.origin + period - 1) / period
    if due ≤ p.samples then a
    else
      let k := p.samples
      let n := due - p.samples
      let a := { a with pcm.samples := due }
      if !p.enabled || p.running == 0 then
        if a.mix.enabled && a.mix.held != (0, 0) then
          let mix := scdMixEmitUntil input (p.origin + k * period) a.mix
          { a with mix := { mix with held := (0, 0) } }
        else a
      else (List.range' k n).foldl (scdPcmTick input) a

end Segarecomp.SegaCd

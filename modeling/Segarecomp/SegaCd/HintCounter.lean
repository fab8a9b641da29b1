import Segarecomp.Genesis.Schedule
import Mathlib.Dynamics.PeriodicPts.Defs

/-! The horizontal-interrupt counter of the Sega CD's VDP: one 8-bit counter and one pending latch
stepped once per scan line, brought up to date lazily, and the tick of the next line that latches. -/

namespace Segarecomp.SegaCd.HintCounter

open scoped Genesis.Schedule
open Genesis.Schedule (VdpState linesPerFrame vblankOnsetLine rasterMaxLines)
open Genesis.Z80Machine (masterTicksPerLine masterTicksPerFrame vblankOnsetTick)

def SCD_MASTER_TICK_TICKS : ℕ := 500000

def SCD_LINE_TICKS : ℕ := masterTicksPerLine * SCD_MASTER_TICK_TICKS

def SCD_FRAME_TICKS : ℕ := masterTicksPerFrame * SCD_MASTER_TICK_TICKS

def SCD_ONSET_TICKS : ℕ := vblankOnsetTick * SCD_MASTER_TICK_TICKS

def SCD_BIOS_FIRST_ONSET_MCLK : ℕ := 111858

def SCD_VINT_H40_MCLK : ℕ := 788

def SCD_VINT_H32_MCLK : ℕ := 770

def SCD_HINT_ANCHOR : ℕ := SCD_BIOS_FIRST_ONSET_MCLK * SCD_MASTER_TICK_TICKS

def SCD_HINT_BIAS : ℕ :=
  vblankOnsetLine * SCD_LINE_TICKS + SCD_FRAME_TICKS * (SCD_HINT_ANCHOR / SCD_FRAME_TICKS + 1) - SCD_HINT_ANCHOR

/-! ## The line grid, in 64-bit ticks -/

def scdHintLineOf (t : ℕ) : ℕ := (t + SCD_HINT_BIAS) % 2 ^ 64 / SCD_LINE_TICKS

def scdHintLineStart (line : ℕ) : ℕ := (line * SCD_LINE_TICKS + (2 ^ 64 - SCD_HINT_BIAS)) % 2 ^ 64

/-! ## The counter -/

/-- `hintAt` is 0 when no event is armed. -/
structure ScdHint where
  counter : BitVec 8
  pending : Bool
  next : ℕ
  hintAt : ℕ
  latched : BitVec 64
  deriving DecidableEq, Repr

/-- One line: the counter after it, and whether the line latches the request. -/
def scdHintStep (counter : BitVec 8) (frameLine : ℕ) (reload : BitVec 8) : BitVec 8 × Bool :=
  if frameLine < vblankOnsetLine then
    if counter = 0 then (reload, true) else (counter - 1, false)
  else if frameLine = vblankOnsetLine then (counter, counter == 0)
  else if frameLine = linesPerFrame - 1 then (reload, false)
  else (counter, false)

def scdHintLatch (h : ScdHint) : ScdHint :=
  if h.pending then h else { h with pending := true, latched := h.latched + 1 }

/-- The body of the loop for one line. -/
def scdHintLine (reload : BitVec 8) (h : ScdHint) : ScdHint :=
  let stepped := scdHintStep h.counter (h.next % linesPerFrame) reload
  let h := { h with counter := stepped.1 }
  let h := if stepped.2 then scdHintLatch h else h
  { h with next := h.next + 1 }

/-- Every turn passes a line, so the number of lines that have started is fuel enough. -/
def scdHintLoop (reload : BitVec 8) (target : ℕ) : ℕ → ScdHint → ScdHint
  | 0, h => h
  | fuel + 1, h =>
    if target < h.next then h
    -- whole frames at once: from line 0 with the counter at the reload value
    else if h.next % linesPerFrame = 0 ∧ h.counter = reload ∧ linesPerFrame ≤ target - h.next + 1 then
      let frames := (target - h.next + 1) / linesPerFrame
      let h := if reload.toNat ≤ vblankOnsetLine then scdHintLatch h else h
      scdHintLoop reload target fuel { h with next := h.next + frames * linesPerFrame }
    else scdHintLoop reload target fuel (scdHintLine reload h)

def scdHintSync (vdp : VdpState) (h : ScdHint) (t : ℕ) : ScdHint :=
  scdHintLoop vdp.register10 (scdHintLineOf t) (scdHintLineOf t + 1 - h.next) h

/-- The first of `count` lines from `line` on that latches. -/
def scdHintScan (reload : BitVec 8) : ℕ → BitVec 8 → ℕ → Option ℕ
  | 0, _, _ => none
  | count + 1, counter, line =>
    let stepped := scdHintStep counter (line % linesPerFrame) reload
    if stepped.2 then some line else scdHintScan reload count stepped.1 (line + 1)

def hintEnabled (vdp : VdpState) : Bool := vdp.registers 0 &&& 0x0010 ≠ 0

def scdHintArm (vdp : VdpState) (h : ScdHint) : ScdHint :=
  if hintEnabled vdp = false ∨ h.pending then { h with hintAt := 0 }
  else
    match scdHintScan vdp.register10 (2 * linesPerFrame) h.counter h.next with
    | some line => { h with hintAt := scdHintLineStart line }
    | none => { h with hintAt := 0 }

/-! ## The VDP of the machine -/

/-- `capture` holds the next active line to sample and its tick while a frame is sampled. -/
structure ScdVdp where
  vdp : VdpState
  hint : ScdHint
  vdpOnset : ℕ
  vdpFrames : ℕ
  vintAt : ℕ
  vintPending : Bool
  mainIrqDelay : ℕ
  capture : Option (ℕ × ℕ)

def scdVdpInit : ScdVdp where
  vdp := { registers := fun _ => 0, cram := fun _ => 0, vsram := fun _ => 0, vram := fun _ => 0 }
  hint := { counter := 0xFF, pending := false, next := scdHintLineOf 0, hintAt := 0, latched := 0 }
  vdpOnset := SCD_BIOS_FIRST_ONSET_MCLK * SCD_MASTER_TICK_TICKS
  vdpFrames := 0
  vintAt := 0
  vintPending := false
  mainIrqDelay := 0
  capture := none

/-- A control-port write: the counter is current before a register can change. `inner` is the
access itself, which the host may refuse. -/
def scdVdpAccess (now bytes : ℕ) (inner : VdpState × ℕ → Option (VdpState × ℕ)) (m : ScdVdp) : Option ScdVdp :=
  let m := { m with hint := scdHintSync m.vdp m.hint now }
  match inner (m.vdp, m.mainIrqDelay) with
  | none => none
  | some (vdp, delay) =>
    if vdp.registers 0 ≠ m.vdp.registers 0 ∨ vdp.registers 10 ≠ m.vdp.registers 10 then
      let delays := hintEnabled m.vdp = false ∧ hintEnabled vdp ∧ m.hint.pending ∧ bytes ≠ 4 ∧
        ¬(vdp.registers 1 &&& 0x20 ≠ 0 ∧ m.vintPending) ∧ m.vdp.registers 1 = vdp.registers 1
      some { m with
        vdp := vdp, mainIrqDelay := if delays then 1 else delay, hint := scdHintArm vdp m.hint }
    else some { m with vdp := vdp, mainIrqDelay := delay }

def scdVdpNextEvent (m : ScdVdp) : ℕ :=
  let next := m.vdpOnset
  let next := if m.vintAt ≠ 0 ∧ m.vintAt < next then m.vintAt else next
  let next :=
    match m.capture with
    | some (_, tick) => if tick < next then tick else next
    | none => next
  if m.hint.hintAt ≠ 0 ∧ m.hint.hintAt < next then m.hint.hintAt else next

/-- The first active line of a frame that has been sampled, or the next one. -/
def scdCaptureLine (capture : Option (ℕ × ℕ)) : Option (ℕ × ℕ) :=
  match capture with
  | some (line, tick) => if rasterMaxLines ≤ line + 1 then none else some (line + 1, tick + SCD_LINE_TICKS)
  | none => none

def beforeCapture (tick : ℕ) (capture : Option (ℕ × ℕ)) : Bool :=
  match capture with
  | some (_, line) => tick ≤ line
  | none => true

def captureDue (m : ScdVdp) : Bool :=
  match m.capture with
  | some (_, tick) => tick < m.vdpOnset ∧ (m.vintAt = 0 ∨ tick < m.vintAt)
  | none => false

/-- The event that is due. `sampled` tells which frames are captured or presented. -/
def scdVdpEvent (sampled : ℕ → Bool) (m : ScdVdp) : ScdVdp :=
  if m.hint.hintAt ≠ 0 ∧ m.hint.hintAt ≤ m.vdpOnset ∧ (m.vintAt = 0 ∨ m.hint.hintAt ≤ m.vintAt) ∧
      beforeCapture m.hint.hintAt m.capture then
    { m with hint := scdHintArm m.vdp (scdHintSync m.vdp m.hint m.hint.hintAt) }
  else if captureDue m then { m with capture := scdCaptureLine m.capture }
  else if m.vintAt ≠ 0 ∧ m.vintAt < m.vdpOnset then
    { m with
      vintAt := 0
      vintPending := true
      vdp := { m.vdp with statusRegister := m.vdp.statusRegister ||| 0x0080 } }
  else
    let delay := if m.vdp.registers 12 &&& 1 ≠ 0 then SCD_VINT_H40_MCLK else SCD_VINT_H32_MCLK
    let onset := m.vdpOnset + SCD_FRAME_TICKS
    { m with
      vdpOnset := onset
      vdpFrames := m.vdpFrames + 1
      vintAt := m.vdpOnset + delay * SCD_MASTER_TICK_TICKS
      capture := if sampled (m.vdpFrames + 2) then some (0, onset - SCD_ONSET_TICKS) else m.capture }

def scdMainInterruptAcknowledge (now level : ℕ) (m : ScdVdp) : ScdVdp :=
  if level = 6 then
    { m with
      vintPending := false
      vdp := { m.vdp with statusRegister := m.vdp.statusRegister &&& ~~~0x0080 } }
  else if level = 4 then
    let h := scdHintSync m.vdp m.hint now
    { m with hint := scdHintArm m.vdp { h with pending := false } }
  else m

end Segarecomp.SegaCd.HintCounter

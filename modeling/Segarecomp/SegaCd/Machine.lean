import Mathlib.Data.Nat.Bitwise
import Mathlib.Tactic

/-! The part of the Sega CD machine that works in Word RAM: the memory-mode register, the CDC's
DMA and the graphics unit. Ticks are the machine's integer clock and are not bounded here; the
registers keep the source's widths. -/

namespace Segarecomp.SegaCd

abbrev Byte := BitVec 8

def SCD_SUB_CYCLE_TICKS : ℕ := 2147727
def SCD_SUB_CYCLE_TICKS_LINE_LOCKED : ℕ := 2148241
def SCD_DMA_SUB_CYCLES_PER_BYTE : ℕ := 4
def SCD_GFX_CYCLES_PER_ACCESS : ℕ := 3

def SCD_MODE_RET : Byte := 0x01
def SCD_MODE_DMNA : Byte := 0x02
def SCD_MODE_1M : Byte := 0x04

inductive Cpu
  | main | sub
  deriving DecidableEq, Repr

structure ScdGateArray where
  ctl : Byte := 0
  subHalted : Bool := false
  subWait : Bool := false
  prgWindow : Bool := false
  prgBank : ℕ := 0
  mode : Byte := 0
  dmnaInt : Bool := false
  interruptEnable : Byte := 0
  pending : Byte := 0

inductive DmaState
  | none | running | halted
  deriving DecidableEq, Repr

inductive DmaTarget
  | twoM | bank0 | bank1
  deriving DecidableEq, Repr

structure ScdCdc where
  edt : Bool := false
  dsr : Bool := false
  dmaAddress : ℕ := 0
  ifstat : Byte := 0
  ifctrl : Byte := 0
  irq : Byte := 0
  dbc : ℕ := 0
  dac : ℕ := 0
  decoderEnd : ℕ := 0
  dmaState : DmaState := .none
  dmaTarget : DmaTarget := .twoM
  dmaBase : ℕ := 0
  dmaDone : ℕ := 0
  buffer : ℕ → Byte := fun _ => 0

/-- A running operation has a line cost: `scdGfxStart` is the only place that sets `busy`. -/
structure ScdGfx where
  busy : Bool := false
  ctl : Byte := 0
  mapBase : BitVec 16 := 0
  cellV : BitVec 16 := 0
  bufferOrigin : BitVec 16 := 0
  offset : BitVec 16 := 0
  hDots : BitVec 16 := 0
  tracePtr : BitVec 32 := 0
  mapPtr : BitVec 32 := 0
  dotMask : BitVec 32 := 0
  bufferOffset : BitVec 32 := 0
  bufferStart : BitVec 32 := 0
  stampShift : ℕ := 0
  mapShift : ℕ := 0
  linesLeft : ℕ := 0
  base : ℕ := 0
  lineTicks : ℕ := 0
  operations : ℕ := 0
  linesRendered : ℕ := 0
  cost : busy = true → 0 < lineTicks := by simp

structure ScdMachine where
  now : ℕ := 0
  bios : Bool := false
  subNext : ℕ := 0
  subStopped : Bool := false
  ga : ScdGateArray := {}
  cdc : ScdCdc := {}
  gfx : ScdGfx := {}
  wordRam : ℕ → Byte := fun _ => 0

def scdSubCycleTicks (m : ScdMachine) : ℕ :=
  if m.bios then SCD_SUB_CYCLE_TICKS_LINE_LOCKED else SCD_SUB_CYCLE_TICKS

theorem scdSubCycleTicks_pos (m : ScdMachine) : 0 < scdSubCycleTicks m := by
  unfold scdSubCycleTicks
  split <;> decide

def scdRaiseSubLevel (m : ScdMachine) (level : ℕ) : ScdMachine :=
  { m with ga.pending := m.ga.pending ||| (1#8 <<< level) }

/-- The 2M-layout offset of byte `offset` of a 1M bank. -/
def scdBankOffset (bank offset : ℕ) : ℕ := (offset >>> 1) * 4 + bank * 2 + (offset &&& 1)

end Segarecomp.SegaCd

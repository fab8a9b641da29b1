import Mathlib.Tactic

/-! The Genesis audio mixer. Each source is decimated on its own into the windows of the output
rate; a frame is put out when both sources have a decimated window waiting. Sums and counts of one
window stay far below the widths of the source and are not bounded here. -/

namespace Segarecomp.Genesis.Mixer

def GENESIS_NTSC_MASTER_TICKS_PER_SECOND : ℕ := 53693175
def GENESIS_MIXER_RATE_HZ : ℕ := 44100
def GENESIS_MIXER_PSG_SCALED_MAX : ℤ := 8192
def SN76489_FULL_SCALE : ℤ := 131068
def GENESIS_MIXER_PSG_TICK_MASTER : ℕ := 240
def GENESIS_MIXER_YM_SAMPLE_MASTER : ℕ := 1008
def GENESIS_MIXER_FIFO_WINDOWS : ℕ := 2048
def GENESIS_MIXER_RING_FRAMES : ℕ := 8192
def UINT64_MAX : ℕ := 2 ^ 64 - 1
def INT16_MAX : ℤ := 32767
def INT16_MIN : ℤ := -32768

abbrev Stereo := ℤ × ℤ

inductive Fault
  | none | sourceAhead | nonMonotonic | timeOverflow
  deriving DecidableEq, Repr

structure Source where
  window : ℕ := 0
  windowEnd : ℕ
  watermark : ℕ := 0
  sum : Stereo := (0, 0)
  count : ℕ := 0
  last : Stereo := (0, 0)
  fifo : List Stereo := []
  deriving DecidableEq, Repr

/-- What a frame is put into: the statistics, the bytes both digests have absorbed, the consumer's
ring (oldest frame first) and the frames handed to the sink. -/
structure Output where
  frames : ℕ := 0
  clipped : ℕ := 0
  changes : ℕ := 0
  minSample : ℤ := INT16_MAX
  maxSample : ℤ := INT16_MIN
  prev : Stereo := (0, 0)
  havePrev : Bool := false
  sha : List (BitVec 8) := []
  rangeSha : List (BitVec 8) := []
  rangeFirst : ℕ := 0
  rangeCount : ℕ := 0
  rangeFrames : ℕ := 0
  ring : List Stereo := []
  ringDropped : ℕ := 0
  sink : List (ℕ × Stereo) := []
  deriving DecidableEq, Repr

structure GenesisMixer where
  ym : Source
  psg : Source
  out : Output := {}
  fault : Fault := .none
  deriving DecidableEq, Repr

/-- `genesis_mixer_window_start`, in 64-bit arithmetic. -/
def windowStart (k : ℕ) : ℕ :=
  (k * GENESIS_NTSC_MASTER_TICKS_PER_SECOND % 2 ^ 64 + (GENESIS_MIXER_RATE_HZ - 1)) % 2 ^ 64 /
    GENESIS_MIXER_RATE_HZ

def windowInRange (k : ℕ) : Bool :=
  k < UINT64_MAX / GENESIS_NTSC_MASTER_TICKS_PER_SECOND - 2

def sourceInit : Source := { windowEnd := windowStart 1 }

def init : GenesisMixer := { ym := sourceInit, psg := sourceInit }

/-- The digest range, set before the first frame. -/
def setRange (m : GenesisMixer) (first count : ℕ) : GenesisMixer :=
  { m with out.rangeFirst := first, out.rangeCount := count }

def clip16 (value : ℤ) : ℤ :=
  if value > INT16_MAX then INT16_MAX else if value < INT16_MIN then INT16_MIN else value

def isClipped (value : ℤ) : Bool := decide (value > INT16_MAX) || decide (value < INT16_MIN)

def putLe16 (value : ℤ) : List (BitVec 8) :=
  [BitVec.ofInt 8 value, BitVec.ofInt 8 (value / 256)]

def emitFrame (out : Output) (ym psg : Stereo) : Output :=
  let index := out.frames
  let left := clip16 (ym.1 + psg.1)
  let right := clip16 (ym.2 + psg.2)
  let bytes := putLe16 left ++ putLe16 right
  let inRange : Bool := out.rangeCount ≠ 0 ∧ index ≥ out.rangeFirst ∧
    index - out.rangeFirst < out.rangeCount
  let full : Bool := out.ring.length = GENESIS_MIXER_RING_FRAMES
  { out with
    frames := index + 1
    clipped := out.clipped + (isClipped (ym.1 + psg.1)).toNat + (isClipped (ym.2 + psg.2)).toNat
    changes := out.changes + (out.havePrev && (left, right) != out.prev).toNat
    minSample := min (min out.minSample left) right
    maxSample := max (max out.maxSample left) right
    prev := (left, right)
    havePrev := true
    sha := out.sha ++ bytes
    rangeSha := if inRange then out.rangeSha ++ bytes else out.rangeSha
    rangeFrames := out.rangeFrames + inRange.toNat
    ring := (if full then out.ring.tail else out.ring) ++ [(left, right)]
    ringDropped := out.ringDropped + full.toNat
    sink := out.sink ++ [(index, (left, right))] }

/-- The loop of `pump`: a frame for each pair of waiting windows. -/
def pumpFifos : List Stereo → List Stereo → Output → List Stereo × List Stereo × Output
  | ym :: yms, psg :: psgs, out => pumpFifos yms psgs (emitFrame out ym psg)
  | yms, psgs, out => (yms, psgs, out)

def pump (m : GenesisMixer) : GenesisMixer :=
  if m.fault = .none then
    let (yms, psgs, out) := pumpFifos m.ym.fifo m.psg.fifo m.out
    { m with ym.fifo := yms, psg.fifo := psgs, out }
  else m

/-- The unipolar level scaled to 0..8192, equal in both channels. -/
def scalePsg (value : Stereo) : Stereo :=
  let level := value.1 * GENESIS_MIXER_PSG_SCALED_MAX / SN76489_FULL_SCALE
  (level, level)

def mean (sum : Stereo) (count : ℕ) : Stereo := (sum.1.tdiv count, sum.2.tdiv count)

def windowValue (isPsg : Bool) (s : Source) : Stereo :=
  if s.count ≠ 0 then
    if isPsg then scalePsg (mean s.sum s.count) else mean s.sum s.count
  else s.last

def closeWindow (isPsg : Bool) (s : Source) : Source × Fault :=
  let value := windowValue isPsg s
  let s := { s with last := value }
  if s.fifo.length = GENESIS_MIXER_FIFO_WINDOWS then (s, .sourceAhead)
  else
    let s := { s with fifo := s.fifo ++ [value], sum := (0, 0), count := 0, window := s.window + 1 }
    if windowInRange s.window then ({ s with windowEnd := windowStart (s.window + 1) }, .none)
    else (s, .timeOverflow)

/-- Closes every window that ends at or before `limit`. The room left in the FIFO bounds the loop. -/
def closeUpTo (isPsg : Bool) (limit : ℕ) : ℕ → Source → Source × Fault
  | 0, s => (s, .none)
  | fuel + 1, s =>
    if s.windowEnd ≤ limit then
      match closeWindow isPsg s with
      | (s, .none) => closeUpTo isPsg limit fuel s
      | stopped => stopped
    else (s, .none)

def closeFuel : ℕ := GENESIS_MIXER_FIFO_WINDOWS + 1

/-- `deliver` as far as it concerns the source alone. -/
def deliverSource (isPsg : Bool) (start period : ℕ) (value : Stereo) (s : Source) : Source × Fault :=
  if start < s.watermark then (s, .nonMonotonic)
  else
    match closeUpTo isPsg start closeFuel s with
    | (s, .none) =>
      let s :=
        { s with
          sum := (s.sum.1 + value.1, s.sum.2 + value.2)
          count := s.count + 1
          watermark := (start + period) % 2 ^ 64 }
      closeUpTo isPsg s.watermark closeFuel s
    | stopped => stopped

def deliver (m : GenesisMixer) (isPsg : Bool) (start period : ℕ) (value : Stereo) : GenesisMixer :=
  if m.fault = .none then
    let (s, fault) := deliverSource isPsg start period value (if isPsg then m.psg else m.ym)
    pump (if isPsg then { m with psg := s, fault } else { m with ym := s, fault })
  else m

structure YmNative where
  start : ℕ
  left : ℤ
  right : ℤ
  deriving DecidableEq, Repr

structure PsgNative where
  start : ℕ
  level : ℕ
  inScale : (level : ℤ) ≤ SN76489_FULL_SCALE := by decide

def pushYm (m : GenesisMixer) (n : YmNative) : GenesisMixer :=
  deliver m false n.start GENESIS_MIXER_YM_SAMPLE_MASTER (clip16 n.left, clip16 n.right)

def pushPsg (m : GenesisMixer) (n : PsgNative) : GenesisMixer :=
  deliver m true n.start GENESIS_MIXER_PSG_TICK_MASTER ((n.level : ℤ), (n.level : ℤ))

/-- Deliveries of both sources in the order they reach the mixer. -/
def push (m : GenesisMixer) : YmNative ⊕ PsgNative → GenesisMixer
  | .inl n => pushYm m n
  | .inr n => pushPsg m n

def run (m : GenesisMixer) (order : List (YmNative ⊕ PsgNative)) : GenesisMixer :=
  order.foldl push m

end Segarecomp.Genesis.Mixer

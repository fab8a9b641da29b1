import Mathlib.Tactic

/-! The SN76489-family sound generator: tone and noise channels, register writes, and the stream that
decimates the tick levels to PCM samples. -/

namespace Segarecomp.Psg

abbrev Byte := BitVec 8

abbrev Word := BitVec 16

/-! ## The chip -/

structure Sn76489Config where
  noiseTaps : Word
  lfsrBits : ℕ
  divider : ℕ
  /-- The sixteen levels by attenuation. -/
  levels : ℕ → Word

structure Sn76489 where
  config : Sn76489Config
  tonePeriod : Fin 3 → Word
  toneCounter : Fin 3 → Word
  toneOutput : Fin 3 → Byte
  attenuation : Fin 4 → Byte
  noiseControl : Byte
  noiseCounter : Word
  noiseFlip : Byte
  lfsr : Word
  /-- The latched register, channel × 2 plus one for an attenuation; `none` before the first latch byte. -/
  latch : Option ℕ
  ticks : ℕ

namespace Sn76489

def lfsrSeed (config : Sn76489Config) : Word := 1#16 <<< (config.lfsrBits - 1)

def reset (config : Sn76489Config) : Sn76489 where
  config := config
  tonePeriod _ := 0
  toneCounter _ := 0
  toneOutput _ := 0
  attenuation _ := 0x0F
  noiseControl := 0
  noiseCounter := 0
  noiseFlip := 0
  lfsr := lfsrSeed config
  latch := none
  ticks := 0

/-- The configurations a chip can be built from. -/
def init (config : Sn76489Config) : Option Sn76489 :=
  if config.lfsrBits < 2 ∨ 16 < config.lfsrBits ∨ config.divider = 0 then none else some (reset config)

def channelLevel (chip : Sn76489) (channel : Fin 4) : ℕ :=
  (chip.config.levels (chip.attenuation channel &&& 15).toNat).toNat

def toneLevel (chip : Sn76489) (i : Fin 3) : ℕ :=
  if chip.toneOutput i ≠ 0 then chip.channelLevel i.castSucc else 0

def level (chip : Sn76489) : ℕ :=
  chip.toneLevel 0 + chip.toneLevel 1 + chip.toneLevel 2 +
    (if chip.lfsr &&& 1 ≠ 0 then chip.channelLevel (Fin.last 3) else 0)

/-- The parity of a word, folded into its lowest bit. -/
def parity (w : Word) : Word :=
  let w := w ^^^ (w >>> 8)
  let w := w ^^^ (w >>> 4)
  let w := w ^^^ (w >>> 2)
  let w := w ^^^ (w >>> 1)
  w &&& 1

def shiftLfsr (chip : Sn76489) : Sn76489 :=
  let feedback :=
    if chip.noiseControl &&& 4 ≠ 0 then parity (chip.lfsr &&& chip.config.noiseTaps) else chip.lfsr &&& 1
  { chip with lfsr := (chip.lfsr >>> 1) ||| (feedback <<< (chip.config.lfsrBits - 1)) }

/-- A counter runs out at zero and at one. -/
def expires (counter : Word) : Bool := counter = 0 ∨ counter - 1 = 0

def tickTone (chip : Sn76489) (i : Fin 3) : Word × Byte :=
  if expires (chip.toneCounter i) then (chip.tonePeriod i, chip.toneOutput i ^^^ 1)
  else (chip.toneCounter i - 1, chip.toneOutput i)

def noiseReload (chip : Sn76489) : Word :=
  let rate := (chip.noiseControl &&& 3).toNat
  if rate = 3 then chip.tonePeriod 2 else 0x10#16 <<< rate

def tickNoise (chip : Sn76489) : Sn76489 :=
  if expires chip.noiseCounter then
    let flipped := { chip with noiseCounter := chip.noiseReload, noiseFlip := chip.noiseFlip ^^^ 1 }
    if flipped.noiseFlip ≠ 0 then flipped.shiftLfsr else flipped
  else { chip with noiseCounter := chip.noiseCounter - 1 }

/-- One tick without a PCM stream; its level is the level of the chip it leaves. -/
def tick (chip : Sn76489) : Sn76489 :=
  let toned := { chip with
    toneCounter := fun i => (chip.tickTone i).1
    toneOutput := fun i => (chip.tickTone i).2 }
  let noised := toned.tickNoise
  { noised with ticks := (noised.ticks + 1) % 2 ^ 64 }

def writeNoiseControl (chip : Sn76489) (value : Byte) : Sn76489 :=
  { chip with noiseControl := value &&& 7, lfsr := lfsrSeed chip.config }

/-- The register a latch names takes a value; `period` is what the byte makes of a tone period. -/
def writeRegister (chip : Sn76489) (latch : ℕ) (value : Byte) (period : Word → Word) : Sn76489 :=
  let channel := latch / 2
  if latch % 2 = 1 then
    { chip with attenuation := fun i => if i.val = channel then value &&& 15 else chip.attenuation i }
  else if channel < 3 then
    { chip with tonePeriod := fun i => if i.val = channel then period (chip.tonePeriod i) else chip.tonePeriod i }
  else chip.writeNoiseControl value

/-- A byte on the data port. A data byte before any latch byte leaves the chip as it is. -/
def write (chip : Sn76489) (value : Byte) : Sn76489 :=
  if value &&& 0x80 ≠ 0 then
    let latch := ((value >>> 4) &&& 7).toNat
    { chip with latch := some latch }.writeRegister latch value fun period =>
      (period &&& 0x3F0) ||| (value &&& 15).setWidth 16
  else
    match chip.latch with
    | none => chip
    | some latch =>
        chip.writeRegister latch value fun period =>
          (period &&& 0x00F) ||| ((value &&& 0x3F).setWidth 16 <<< 4)

end Sn76489

/-! ## The PCM stream -/

structure PcmConfig where
  rateNum : ℕ
  rateDen : ℕ
  fullScale : ℕ

def SN76489_PCM_BATCH : ℕ := 64

/-- A call of the sink. -/
structure Delivery where
  firstIndex : ℕ
  samples : List Word
deriving DecidableEq

structure Pcm where
  config : PcmConfig
  index : ℕ
  boundary : ℕ
  sum : ℕ
  count : ℕ
  lastMean : ℕ
  batchFirst : ℕ
  /-- The filled part of the batch. -/
  batch : List Word
  /-- What the sink was called with, in order. -/
  delivered : List Delivery

namespace Pcm

/-- The product is formed in 64 bits. -/
def sampleStart (config : PcmConfig) (k : ℕ) : ℕ :=
  let product := k * config.rateNum % 2 ^ 64
  product / config.rateDen + (if product % config.rateDen = 0 then 0 else 1)

def init (config : PcmConfig) : Pcm where
  config := config
  index := 0
  boundary := sampleStart config 1
  sum := 0
  count := 0
  lastMean := 0
  batchFirst := 0
  batch := []
  delivered := []

def flush (pcm : Pcm) : Pcm :=
  { pcm with
    delivered := if pcm.batch = [] then pcm.delivered else pcm.delivered ++ [⟨pcm.batchFirst, pcm.batch⟩]
    batchFirst := (pcm.batchFirst + pcm.batch.length) % 2 ^ 64
    batch := [] }

/-- A mean as the sample it is put out as. -/
def sampleOf (fullScale mean : ℕ) : Word :=
  (BitVec.ofNat 32 (mean * 65535 / fullScale) - 32768#32).setWidth 16

def mean (pcm : Pcm) : ℕ := if pcm.count ≠ 0 then pcm.sum / pcm.count % 2 ^ 32 else pcm.lastMean

/-- The sample of the open window goes into the batch, and the next window opens. -/
def putSample (pcm : Pcm) : Pcm :=
  { pcm with
    batch := pcm.batch ++ [sampleOf pcm.config.fullScale pcm.mean]
    lastMean := pcm.mean
    sum := 0
    count := 0
    index := (pcm.index + 1) % 2 ^ 64
    boundary := sampleStart pcm.config ((pcm.index + 1) % 2 ^ 64 + 1) }

def emitSample (pcm : Pcm) : Pcm :=
  if pcm.putSample.batch.length = SN76489_PCM_BATCH then pcm.putSample.flush else pcm.putSample

/-- `while (end >= boundary) emit_sample`; `none` when the loop is still going after `fuel` rounds. -/
def emitUntil (stop : ℕ) : ℕ → Pcm → Option Pcm
  | 0, _ => none
  | fuel + 1, pcm => if pcm.boundary ≤ stop then emitUntil stop fuel pcm.emitSample else some pcm

def pushTick (fuel : ℕ) (pcm : Pcm) (stop level : ℕ) : Option Pcm :=
  emitUntil stop fuel { pcm with sum := (pcm.sum + level) % 2 ^ 64, count := (pcm.count + 1) % 2 ^ 32 }

end Pcm

/-! ## The chip with its stream -/

structure Player where
  chip : Sn76489
  pcm : Pcm

namespace Player

def tick (fuel : ℕ) (player : Player) : Option Player := do
  let chip := player.chip.tick
  let pcm ← player.pcm.pushTick fuel (chip.ticks * chip.config.divider % 2 ^ 64) chip.level
  pure { chip := chip, pcm := pcm }

def tickTimes (fuel : ℕ) : ℕ → Player → Option Player
  | 0, player => some player
  | n + 1, player => do tickTimes fuel n (← player.tick fuel)

/-- Every tick that ends at or before `cycles`; each tick of the loop brings the count one nearer to
its target, so the rounds are the difference. -/
def advance (fuel : ℕ) (cycles : BitVec 64) (player : Player) : Option Player :=
  tickTimes fuel (cycles.toNat / player.chip.config.divider - player.chip.ticks) player

inductive Event where
  | write (value : Byte)
  | advance (cycles : BitVec 64)
  | flush

def step (fuel : ℕ) (player : Player) : Event → Option Player
  | .write value => some { player with chip := player.chip.write value }
  | .advance cycles => player.advance fuel cycles
  | .flush => some { player with pcm := player.pcm.flush }

def run (fuel : ℕ) (player : Player) : List Event → Option Player
  | [] => some player
  | event :: rest => do run fuel (← player.step fuel event) rest

def start (chip : Sn76489Config) (pcm : PcmConfig) : Player := ⟨Sn76489.reset chip, Pcm.init pcm⟩

end Player

end Segarecomp.Psg

import Segarecomp.Genesis.Schedule

/-! The VDP as the 68000 reaches it: the control-port command protocol, the data port, the VRAM
fill and the memory-to-VDP transfer engine. A refused access answers `none`; what it did before is
kept beside the answer. -/

namespace Segarecomp.Genesis.VdpPort

open Schedule
open Z80Machine (masterTicksPerLine masterTicksPerFrame vblankOnsetTick)

variable {F : Type}

inductive Width
  | byte | word | long
  deriving DecidableEq, Repr

def Width.bytes : Width → ℕ
  | .byte => 1
  | .word => 2
  | .long => 4

inductive Direction
  | read | write
  deriving DecidableEq, Repr

structure Access where
  address : BitVec 32
  width : Width
  direction : Direction
  value : BitVec 32 := 0
  deriving DecidableEq, Repr

def deviceStop : RuntimeStop := .guest .unsupported_device_access .unsupported_device_region_vdp

/-! ## Storage -/

inductive Target
  | vram | cram | vsram
  deriving DecidableEq, Repr

def Target.size : Target → ℕ
  | .vram => 65536
  | .cram => 128
  | .vsram => 80

def writeTarget (writeCode : Byte) : Option Target :=
  if writeCode = 0x01 then some .vram
  else if writeCode = 0x03 then some .cram
  else if writeCode = 0x05 then some .vsram
  else none

def readTarget (readCode : Byte) : Option Target :=
  if readCode = 0x00 then some .vram
  else if readCode = 0x04 then some .vsram
  else if readCode = 0x08 then some .cram
  else none

def storedByte (vdp : VdpState) (target : Target) (address : ℕ) : Byte :=
  match target with
  | .vram => vdp.vram (Fin.ofNat 65536 address)
  | .cram => vdp.cram (Fin.ofNat 128 address)
  | .vsram => vdp.vsram (Fin.ofNat 80 address)

def storeByte (vdp : VdpState) (target : Target) (address : ℕ) (value : Byte) : VdpState :=
  match target with
  | .vram => { vdp with vram := Function.update vdp.vram (Fin.ofNat 65536 address) value }
  | .cram => { vdp with cram := Function.update vdp.cram (Fin.ofNat 128 address) value }
  | .vsram => { vdp with vsram := Function.update vdp.vsram (Fin.ofNat 80 address) value }

/-- VRAM bytes written during the active display are journaled while the frame's journal is open;
a full journal is abandoned. -/
def journalVram (s : Screen F) (address : ℕ) (value : Byte) : Screen F :=
  match s.liveRaster with
  | none => s
  | some capture =>
      let line := s.raster.lastLine % linesPerFrame
      if capture.frame.hasVramJournal = false ∨ rasterMaxLines ≤ line then s
      else
        let frame :=
          if h : capture.frame.vramWriteCount.toNat < 8192 then
            { capture.frame with
              vramWrites := Function.update capture.frame.vramWrites ⟨capture.frame.vramWriteCount.toNat, h⟩
                { address := BitVec.ofNat 16 address, value := value, line := BitVec.ofNat 8 line }
              vramWriteCount := capture.frame.vramWriteCount + 1 }
          else { capture.frame with hasVramJournal := false }
        let overflows :=
          if capture.frame.vramWriteCount.toNat < 8192 then capture.vramJournalOverflows
          else capture.vramJournalOverflows + 1
        { s with liveRaster := some { capture with frame := frame, vramJournalOverflows := overflows } }

def highByte (halfword : BitVec 16) : Byte := (halfword >>> 8).setWidth 8

def lowByte (halfword : BitVec 16) : Byte := halfword.setWidth 8

/-- Two bytes at an address and the next one, modulo the size of the target. -/
def storeHalfword (s : Screen F) (target : Target) (destination : ℕ) (first second : Byte) : Screen F :=
  let next := (destination + 1) % target.size
  let s := { s with vdp := storeByte (storeByte s.vdp target destination first) target next second }
  if target = .vram then journalVram (journalVram s destination first) next second else s

/-! ## The control port -/

def commandCode (first word : BitVec 16) : Byte :=
  let cd1 := (first >>> 15) &&& 1
  let cd0 := (first >>> 14) &&& 1
  let cd5 := (word >>> 7) &&& 1
  let cd4 := (word >>> 6) &&& 1
  let cd3 := (word >>> 5) &&& 1
  let cd2 := (word >>> 4) &&& 1
  (cd5 <<< 5 ||| cd4 <<< 4 ||| cd3 <<< 3 ||| cd2 <<< 2 ||| cd1 <<< 1 ||| cd0).setWidth 8

def commandAddress (first word : BitVec 16) : ℕ := ((word &&& 3) <<< 14 ||| (first &&& 0x3FFF)).toNat

def dmaLength (vdp : VdpState) : ℕ :=
  ((vdp.registers 19 &&& 0xFF) ||| (vdp.registers 20 &&& 0xFF) <<< 8).toNat

/-- A programmed length of zero is 65536. -/
def dmaCount (vdp : VdpState) : ℕ := if dmaLength vdp = 0 then 65536 else dmaLength vdp

def dmaSource (vdp : VdpState) : BitVec 32 :=
  (vdp.registers 23 &&& 0x7F).setWidth 32 <<< 17 ||| (vdp.registers 22 &&& 0xFF).setWidth 32 <<< 9 |||
    (vdp.registers 21 &&& 0xFF).setWidth 32 <<< 1

def dmaEnabled (vdp : VdpState) : Bool := vdp.registers 1 &&& 0x10 ≠ 0

def commandDone (vdp : VdpState) : VdpState :=
  { vdp with controlPortAwaitingSecondWord := false, controlPortFirstWord := 0 }

def selectTarget (vdp : VdpState) (address : ℕ) (code : Byte) : VdpState :=
  commandDone { vdp with
    addressedPointer := address, dataPortTransferCode := code, dataPortTransferCodeValid := true }

/-- A command with CD5 set while DMA is enabled. -/
def armDma (vdp : VdpState) (address : ℕ) (code : Byte) : Option VdpState :=
  let fillMode := vdp.registers 23 &&& 0xC0 = 0x80
  let memoryMode := vdp.registers 23 &&& 0x80 = 0
  let writeTargetCode := code &&& 0x1F
  if (writeTarget writeTargetCode).isNone then none
  else if fillMode ∧ writeTargetCode ≠ 0x01 then none
  else if ¬ memoryMode ∧ ¬ fillMode then none
  else
    some (commandDone { vdp with
      addressedPointer := address
      dma :=
        { phase := .busy
          kind := if fillMode then .vram_fill else .memory_to_vram
          sourceAddress := if memoryMode then dmaSource vdp else 0
          remainingLength := if memoryMode then dmaCount vdp else 0
          fillByteCount := if fillMode then dmaCount vdp else 0
          transferAccessCount := 0
          writeTargetCode := writeTargetCode }
      dataPortTransferCode := 0
      dataPortTransferCodeValid := false })

def secondWord (vdp : VdpState) (word : BitVec 16) : Option VdpState :=
  let first := vdp.controlPortFirstWord
  let code := commandCode first word
  let address := commandAddress first word
  let cd5 := (word >>> 7) &&& 1 ≠ 0
  if (word >>> 8) &&& 0xFF ≠ 0 ∨ (word >>> 2) &&& 3 ≠ 0 then none
  else if cd5 ∧ dmaEnabled vdp = false then
    let plainCode := code &&& 0x1F
    if (writeTarget plainCode).isNone then none else some (selectTarget vdp address plainCode)
  else if cd5 then armDma vdp address code
  else if code ∉ ([0x00, 0x01, 0x03, 0x04, 0x05, 0x08] : List Byte) then none
  else some (selectTarget vdp address code)

def setRegister (vdp : VdpState) (word : BitVec 16) : Option VdpState :=
  let reg := ((word >>> 8) &&& 0x1F).toNat
  let data := word &&& 0xFF
  if h : reg < 24 then
    some { vdp with
      registers := Function.update vdp.registers ⟨reg, h⟩ data
      autoIncrementValue := if reg = 15 then data else vdp.autoIncrementValue }
  else none

/-- The low halves of the address and of a selected code take effect with the first word. -/
def firstWord (vdp : VdpState) (word : BitVec 16) : VdpState :=
  { vdp with
    controlPortFirstWord := word
    controlPortAwaitingSecondWord := true
    addressedPointer := vdp.addressedPointer &&& 0xC000 ||| (word &&& 0x3FFF).toNat
    dataPortTransferCode :=
      if vdp.dataPortTransferCodeValid then
        vdp.dataPortTransferCode &&& 0x3C ||| ((word >>> 14) &&& 3).setWidth 8
      else vdp.dataPortTransferCode }

def controlPortWriteWord (vdp : VdpState) (word : BitVec 16) : Option VdpState :=
  if vdp.controlPortAwaitingSecondWord then secondWord vdp word
  else if word &&& 0xE000 = 0x8000 then setRegister vdp word
  else some (firstWord vdp word)

/-! ## The memory-to-VDP transfer engine -/

def inWorkRam (address : BitVec 32) (bytes : ℕ) : Bool :=
  bytes ≠ 0 ∧ bytes ≤ 0x10000 ∧ 0xFF0000 ≤ address.toNat ∧ address.toNat + bytes ≤ 0x1000000

def dmaSourceIsRoutable (address : BitVec 32) : Bool := address.toNat < 0x400000 || inWorkRam address 2

/-- The routed WORD read of a source address. -/
abbrev SourceRead := BitVec 32 → Except RuntimeStop (BitVec 32)

def transferWord (s : Screen F) (target : Target) (value : BitVec 32) : Screen F :=
  let destination := s.vdp.addressedPointer % target.size
  let s := storeHalfword s target destination ((value >>> 8).setWidth 8) (value.setWidth 8)
  let dma := s.vdp.dma
  let remaining := (dma.remainingLength + 2 ^ 32 - 1) % 2 ^ 32
  let vdp :=
    { s.vdp with
      addressedPointer := (destination + s.vdp.autoIncrementValue.toNat) % target.size
      dma := { dma with
        sourceAddress := (dma.sourceAddress + 2) &&& 0x00FFFFFE
        remainingLength := remaining
        transferAccessCount := dma.transferAccessCount + 1
        phase := if remaining = 0 then .idle else dma.phase } }
  { s with
    vdp :=
      if remaining = 0 then
        { vdp with dataPortTransferCode := dma.writeTargetCode, dataPortTransferCodeValid := true }
      else vdp }

/-- One word of a busy memory-to-VDP transfer; a step that fails changes nothing. -/
def progressDma (read : SourceRead) (s : Screen F) : Except RuntimeStop (Screen F) :=
  let dma := s.vdp.dma
  if dma.phase ≠ .busy then .ok s
  else if dma.kind = .vram_fill then .ok s
  else
    match writeTarget dma.writeTargetCode with
    | none => .error deviceStop
    | some target =>
        if dmaSourceIsRoutable dma.sourceAddress = false then
          .error (.guest .unsupported_memory_region .unmapped_data_access)
        else
          match read dma.sourceAddress with
          | .error stop => .error stop
          | .ok value =>
              if target ≠ .vram ∧ s.vdp.addressedPointer % target.size % 2 ≠ 0 then .error deviceStop
              else .ok (transferWord s target value)

def drainLoop (read : SourceRead) : ℕ → Screen F → Except RuntimeStop Unit × Screen F
  | 0, s => (.ok (), s)
  | steps + 1, s =>
      if s.vdp.dma.phase ≠ .busy then (.ok (), s)
      else
        match progressDma read s with
        | .error stop => (.error stop, s)
        | .ok s => drainLoop read steps s

/-- The steps until the 32-bit count of remaining words reaches zero. -/
def wordsLeft (dma : DmaState) : ℕ := if dma.remainingLength = 0 then 2 ^ 32 else dma.remainingLength

def drainMemoryToVdpDma (read : SourceRead) (s : Screen F) : Except RuntimeStop Unit × Screen F :=
  if s.vdp.dma.phase ≠ .busy ∨ s.vdp.dma.kind ≠ .memory_to_vram then (.ok (), s)
  else drainLoop read (wordsLeft s.vdp.dma) s

/-- A control word and the transfer it may arm. A rejected word is a stop of its own. -/
def controlPortWriteWordAndSuspend (read : SourceRead) (s : Screen F) (word : BitVec 16) :
    Except RuntimeStop Unit × Screen F :=
  match controlPortWriteWord s.vdp word with
  | none => (.error deviceStop, s)
  | some vdp => drainMemoryToVdpDma read { s with vdp := vdp }

/-! ## The data port -/

def fillStep (increment : ℕ) (high : Byte) (s : Screen F × ℕ) : Screen F × ℕ :=
  ({ s.1 with vdp := storeByte s.1.vdp .vram s.2 high } |> (journalVram · s.2 high),
    (s.2 + increment) % 65536)

/-- The one source WORD of an armed fill. -/
def dataPortFillWrite (s : Screen F) (value : BitVec 16) : Bool × Screen F :=
  let pointer := s.vdp.addressedPointer
  let increment := s.vdp.autoIncrementValue.toNat
  let dma := s.vdp.dma
  if dma.phase ≠ .busy ∨ dma.kind ≠ .vram_fill ∨ dma.fillByteCount = 0 ∨ 65536 ≤ pointer ∨ pointer % 2 ≠ 0 then
    (false, s)
  else
    let s := storeHalfword s .vram pointer (lowByte value) (highByte value)
    let filled := (fillStep increment (highByte value))^[dma.fillByteCount] (s, (pointer + increment) % 65536)
    (true, { filled.1 with
      vdp := { filled.1.vdp with
        addressedPointer := filled.2
        dma := { filled.1.vdp.dma with fillByteCount := 0, phase := .idle } } })

def advancePointer (vdp : VdpState) (target : Target) : VdpState :=
  { vdp with addressedPointer := (vdp.addressedPointer + vdp.autoIncrementValue.toNat) % target.size }

/-- One 16-bit write into the selected target; at an odd VRAM address the bytes are exchanged. -/
def dataPortTargetWriteHalfword (s : Screen F) (target : Target) (halfword : BitVec 16) : Bool × Screen F :=
  let destination := s.vdp.addressedPointer % target.size
  if destination % 2 ≠ 0 then
    if target ≠ .vram then (false, s)
    else
      let s := storeHalfword s target (destination - 1) (lowByte halfword) (highByte halfword)
      (true, { s with vdp := advancePointer s.vdp target })
  else
    let s := storeHalfword s target destination (highByte halfword) (lowByte halfword)
    (true, { s with vdp := advancePointer s.vdp target })

/-- Any data-port access ends a half-written command. -/
def cancelCommand (vdp : VdpState) : VdpState :=
  if vdp.controlPortAwaitingSecondWord then commandDone vdp else vdp

def halfHigh (value : BitVec 32) : BitVec 16 := (value >>> 16).setWidth 16

def halfLow (value : BitVec 32) : BitVec 16 := value.setWidth 16

def mirrored (value : BitVec 32) : BitVec 16 :=
  (value.setWidth 8).setWidth 16 <<< 8 ||| (value.setWidth 8).setWidth 16

def dataPortCpuWrite (s : Screen F) (width : Width) (value : BitVec 32) : Bool × Screen F :=
  if s.vdp.dma.phase ≠ .idle then (false, s)
  else
    let s := { s with vdp := cancelCommand s.vdp }
    if s.vdp.dataPortTransferCodeValid = false then (false, s)
    else
      match writeTarget s.vdp.dataPortTransferCode with
      | none => (false, s)
      | some target =>
          match width with
          | .long =>
              let first := dataPortTargetWriteHalfword s target (halfHigh value)
              if first.1 then dataPortTargetWriteHalfword first.2 target (halfLow value) else (false, first.2)
          | .word => dataPortTargetWriteHalfword s target (halfLow value)
          | .byte => dataPortTargetWriteHalfword s target (mirrored value)

def dataPortTargetReadHalfword (s : Screen F) (target : Target) : Option (BitVec 16) × Screen F :=
  let destination := s.vdp.addressedPointer % target.size
  let pair (high low : Byte) : BitVec 16 := high.setWidth 16 <<< 8 ||| low.setWidth 16
  if destination % 2 ≠ 0 then
    if target ≠ .vram then (none, s)
    else
      let base := destination - 1
      (some (pair (storedByte s.vdp target (base + 1)) (storedByte s.vdp target base)),
        { s with vdp := advancePointer s.vdp target })
  else
    (some (pair (storedByte s.vdp target destination)
        (storedByte s.vdp target ((destination + 1) % target.size))),
      { s with vdp := advancePointer s.vdp target })

def dataPortCpuRead (s : Screen F) (width : Width) : Option (BitVec 32) × Screen F :=
  if s.vdp.dma.phase ≠ .idle then (none, s)
  else
    let s := { s with vdp := cancelCommand s.vdp }
    if s.vdp.dataPortTransferCodeValid = false then (none, s)
    else
      match readTarget s.vdp.dataPortTransferCode with
      | none => (none, s)
      | some target =>
          let first := dataPortTargetReadHalfword s target
          match width with
          | .byte => (none, s)
          | .word => (first.1.map (BitVec.setWidth 32), first.2)
          | .long =>
              match first.1 with
              | none => (none, first.2)
              | some high =>
                  let second := dataPortTargetReadHalfword first.2 target
                  (second.1.map fun low => high.setWidth 32 <<< 16 ||| low.setWidth 32, second.2)

/-! ## Status and counters -/

def isStatusReadShape (a : Access) : Bool :=
  match a.direction, a.width with
  | .read, .word => a.address = 0xC00004
  | .read, .byte => a.address = 0xC00004 ∨ a.address = 0xC00005
  | _, _ => false

/-- VBlank, HBlank and the odd field are functions of the guest time. -/
def statusRead (s : Screen F) : BitVec 16 :=
  let inLine := s.masterTicks % masterTicksPerLine
  let h40 := s.vdp.registers 12 &&& 0x0081 = 0x0081
  let blankStart := if h40 then 228 else 280
  let blankEnd := if h40 then 872 else 860
  let status := s.vdp.statusRegister &&& ~~~(0x0008 ||| 0x0004 ||| 0x0010)
  let status := if vblankOnsetTick ≤ s.masterTicks % masterTicksPerFrame then status ||| 0x0008 else status
  let status := if blankStart ≤ inLine ∧ inLine < blankEnd then status ||| 0x0004 else status
  if s.vdp.registers 12 &&& 0x0002 ≠ 0 ∧ s.masterTicks / masterTicksPerFrame % 2 ≠ 0 then status ||| 0x0010
  else status

def hvH40SlowSpan : List ℕ := [8, 8, 16, 17, 20, 20, 20, 18, 20, 20, 20, 19, 19, 20, 20, 20, 18, 20, 20, 20, 17]

def hvH40Step : ℕ → (step remaining : ℕ) → ℕ
  | 0, step, _ => step
  | fuel + 1, step, remaining =>
      let hold := if 17 ≤ step ∧ step < 38 then hvH40SlowSpan.getD (step - 17) 0 else 16
      if remaining < hold ∨ step = 210 then step else hvH40Step fuel (step + 1) (remaining - hold)

def hvHCounter (inLine : ℕ) (h40 : Bool) : ℕ :=
  if h40 then
    let step := hvH40Step 211 0 inLine
    if step ≤ 17 then 0xA5 + step else if step ≤ 45 then 0xE4 + (step - 18) else step - 46
  else
    let step := inLine / 20
    if step ≤ 14 then 0x85 + step else if step ≤ 37 then 0xE9 + (step - 15) else step - 38

def hvCounterRead (s : Screen F) : Option (BitVec 16) :=
  let width := s.vdp.registers 12 &&& 0x0081
  let line := s.masterTicks % masterTicksPerFrame / masterTicksPerLine
  let v := if line ≤ 0xEA then line else line - 6
  if s.vdp.registers 0 &&& 0x0002 ≠ 0 ∨ s.vdp.registers 12 &&& 0x0026 ≠ 0 ∨
      s.vdp.registers 1 &&& 0x0008 ≠ 0 ∨ s.vdp.registers 1 &&& 0x0004 = 0 ∨
      (width ≠ 0 ∧ width ≠ 0x0081) then none
  else some (BitVec.ofNat 16 (v * 256 + hvHCounter (s.masterTicks % masterTicksPerLine) (width = 0x0081)))

/-- The byte of a counter or status word a BYTE access takes. -/
def byteLane (a : Access) (word : BitVec 16) : BitVec 32 :=
  if a.width = .word then word.setWidth 32
  else if a.address &&& 1 ≠ 0 then (word &&& 0xFF).setWidth 32
  else (word >>> 8).setWidth 32

def armedFill (vdp : VdpState) : Bool := vdp.dma.phase = .busy ∧ vdp.dma.kind = .vram_fill

def vdpRead (s : Screen F) (a : Access) : Option (BitVec 32) × Screen F :=
  if isStatusReadShape a then (some (byteLane a (statusRead s)), { s with vdp := commandDone s.vdp })
  else if 0xC00008 ≤ a.address ∧ a.address ≤ 0xC0000F ∧
      (a.width = .byte ∨ (a.width = .word ∧ a.address &&& 1 = 0)) then
    ((hvCounterRead s).map (byteLane a), s)
  else if a.address = 0xC00000 ∧ (a.width = .word ∨ a.width = .long) then dataPortCpuRead s a.width
  else (none, s)

/-- A WORD control write is `controlPortWriteWord`; a LONG one is routed before this point. -/
def vdpWrite (s : Screen F) (a : Access) : Bool × Screen F :=
  if a.address = 0xC00000 ∨ (a.address = 0xC00001 ∧ a.width = .byte ∧ armedFill s.vdp) then
    if armedFill s.vdp then
      match a.width with
      | .byte => dataPortFillWrite s (mirrored a.value)
      | .word => dataPortFillWrite s (halfLow a.value)
      | .long => (false, s)
    else dataPortCpuWrite s a.width a.value
  else if a.width = .word ∧ a.address = 0xC00004 then
    match controlPortWriteWord s.vdp (halfLow a.value) with
    | none => (false, s)
    | some vdp => (true, { s with vdp := vdp })
  else (false, s)

end Segarecomp.Genesis.VdpPort

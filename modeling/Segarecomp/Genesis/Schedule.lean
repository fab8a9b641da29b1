import Mathlib
import Segarecomp.Genesis.Z80Machine
import Segarecomp.M68k.ExceptionCore

/-! The guest-time schedule of the Genesis: the scanline schedule with its H-interrupt counter and
per-line capture, the frame boundary, and the admission of the VBlank and H interrupts at a
retirement boundary. The log of a call is not state of the runtime. -/

namespace Segarecomp.Genesis.Schedule

open M68k.ExceptionCore
open Z80Machine (masterTicksPerLine masterTicksPerFrame vblankOnsetTick)

abbrev Byte := BitVec 8

def m68kCycleMasterTicks : ℕ := 7
def linesPerFrame : ℕ := 262
def vblankOnsetLine : ℕ := 224
def rasterMaxLines : ℕ := 224

inductive StopClass
  | unsupported_interrupt_or_scheduling_event | internal_dispatch_inconsistency
  | unsupported_cpu_form | unsupported_cpu_exception
  | unsupported_memory_region | unsupported_device_access
  deriving DecidableEq, Repr

inductive Diagnostic
  | unaccounted_instruction_timing | virtual_time_overflow | hint_handler_not_installed
  | irq6_vector_in_work_ram | unsupported_interrupt_or_scheduling_event
  | internal_dispatch_inconsistency | stopped_without_wake_source
  | unsupported_divide_by_zero_exception | unsupported_privilege_violation_exception
  | unsupported_software_exception
  | unmapped_data_access | effective_address_not_24bit | odd_effective_address | rom_write_prohibited
  | unsupported_cartridge_sram_layout | unsupported_cartridge_sram_access
  | unsupported_device_region_vdp | unsupported_device_region (region : ℕ)
  deriving DecidableEq, Repr

inductive RuntimeStop
  | guest (stopClass : StopClass) (diagnostic : Diagnostic)
  | z80 (stop : Z80Machine.RuntimeStop)
  deriving DecidableEq, Repr

def schedulingStop (diagnostic : Diagnostic) : RuntimeStop :=
  .guest .unsupported_interrupt_or_scheduling_event diagnostic

def internalStop : RuntimeStop :=
  .guest .internal_dispatch_inconsistency .internal_dispatch_inconsistency

/-! ## State -/

inductive DmaPhase
  | idle | busy
  deriving DecidableEq, Repr

inductive DmaKind
  | memory_to_vram | vram_fill
  deriving DecidableEq, Repr

structure DmaState where
  phase : DmaPhase := .idle
  kind : DmaKind := .memory_to_vram
  sourceAddress : BitVec 32 := 0
  remainingLength : ℕ := 0
  fillByteCount : ℕ := 0
  transferAccessCount : BitVec 32 := 0
  writeTargetCode : Byte := 0
  deriving DecidableEq, Repr

scoped instance registers_nonempty : NeZero 24 := ⟨by decide⟩

scoped instance cram_nonempty : NeZero 128 := ⟨by decide⟩

scoped instance vsram_nonempty : NeZero 80 := ⟨by decide⟩

scoped instance vram_nonempty : NeZero 65536 := ⟨by decide⟩

structure VdpState where
  registers : Fin 24 → BitVec 16
  cram : Fin 128 → Byte
  vsram : Fin 80 → Byte
  vram : Fin 65536 → Byte
  controlPortAwaitingSecondWord : Bool := false
  controlPortFirstWord : BitVec 16 := 0
  addressedPointer : ℕ := 0
  autoIncrementValue : BitVec 16 := 0
  statusRegister : BitVec 16 := 0
  dataPortTransferCode : Byte := 0
  dataPortTransferCodeValid : Bool := false
  dma : DmaState := {}

structure InterruptLatch where
  vblankPending : Bool := false
  vblankTransitionCount : BitVec 32 := 0
  deriving DecidableEq, Repr

structure RasterScheduler where
  initialized : Bool := false
  lastLine : ℕ := 0
  nextLineTick : ℕ := 0
  hintCounter : Byte := 0
  hintPending : Bool := false
  hintStrict : Bool := false
  hintUndelivered : BitVec 64 := 0
  deriving DecidableEq, Repr

structure RasterLine where
  registers : Fin 24 → BitVec 16
  cram : Fin 128 → Byte
  vsram : Fin 80 → Byte

structure RasterVramWrite where
  address : BitVec 16
  value : Byte
  line : Byte

structure RasterFrameState where
  lines : Fin 224 → RasterLine
  hasVramJournal : Bool
  vramWriteCount : BitVec 16
  vramWrites : Fin 8192 → RasterVramWrite
  vramStart : Fin 65536 → Byte

/-- The host-owned capture. A producer that fails answers `none`; `F` is a rendered frame. -/
structure RasterCapture (F : Type) where
  producer : Option ((Fin 65536 → Byte) → RasterFrameState → Option F)
  frame : RasterFrameState
  captured : Fin 224 → Bool
  renderRejections : BitVec 64
  vramJournalOverflows : BitVec 64

/-- `latest` is `none` for a null pointer. -/
structure LiveFrameObserver (F : Type) where
  producer : Option ((vram : Fin 65536 → Byte) → (vsram : Fin 80 → Byte) → (cram : Fin 128 → Byte) →
    (registers : Fin 24 → BitVec 16) → Option F)
  latest : Option F
  sequence : BitVec 64

/-- The part of the runtime that guest time and the picture are made of. -/
structure Screen (F : Type) where
  masterTicks : ℕ := 0
  vdp : VdpState
  interrupt : InterruptLatch := {}
  raster : RasterScheduler := {}
  virtualFrameCount : BitVec 64 := 0
  liveFrameObserver : Option (LiveFrameObserver F) := none
  liveRaster : Option (RasterCapture F) := none

/-- `rest` is the machine the schedule does not look into: work RAM, the Z80, the sound devices and
the bookkeeping of exception frames. A handler that is not present is `none`. -/
structure GenesisRuntime (R F : Type) extends Screen F where
  a7 : BitVec 32
  usp : BitVec 32
  sr : BitVec 16
  pc : BitVec 32
  m68kInterrupt : InterruptState := {}
  irq6Handler : Option (BitVec 32) := none
  irq6VectorInWorkRam : Bool := false
  divideByZeroHandler : Option (BitVec 32) := none
  privilegeViolationHandler : Option (BitVec 32) := none
  softwareExceptionHandler : ℕ → Option (BitVec 32) := fun _ => none
  z80SyncedTicks : ℕ := 0
  z80SyncQuantum : ℕ := 0
  rest : R

/-- The routed accesses and the Z80 hook the runtime is attached to. `frameWrite` also says whether
the routed write failed. -/
structure Board (R : Type) where
  z80RunTo : Option (R → (masterTicks : ℕ) → R × Option Z80Machine.RuntimeStop) := none
  stackRead : R → (address size : BitVec 32) → Option (BitVec 32) × R
  frameWrite : R → (address size value : BitVec 32) → R × Bool
  noteIrq6ExceptionFrame : R → (physicalBase : BitVec 32) → R

variable {R F : Type}

/-! ## The scanline schedule -/

def rasterCaptureState (vdp : VdpState) : RasterLine :=
  { registers := vdp.registers, cram := vdp.cram, vsram := vdp.vsram }

def VdpState.register10 (vdp : VdpState) : Byte := (vdp.registers 10 &&& 0x00FF).setWidth 8

def rasterCaptureLine (observer : Option (LiveFrameObserver F)) (vdp : VdpState)
    (liveRaster : Option (RasterCapture F)) (line : Fin 224) : Option (RasterCapture F) :=
  match observer, liveRaster with
  | some _, some capture =>
      if capture.producer.isNone then some capture
      else
        let frame :=
          { capture.frame with
            lines := Function.update capture.frame.lines line (rasterCaptureState vdp) }
        let frame :=
          if line.val = 0 then
            { frame with vramStart := vdp.vram, vramWriteCount := 0, hasVramJournal := true }
          else frame
        some { capture with frame := frame, captured := Function.update capture.captured line true }
  | _, liveRaster => liveRaster

/-- The capture at the start of a line: line 0 begins a frame. -/
def captureAt (observer : Option (LiveFrameObserver F)) (vdp : VdpState)
    (liveRaster : Option (RasterCapture F)) (line : ℕ) : Option (RasterCapture F) :=
  let liveRaster :=
    if line = 0 then liveRaster.map fun capture => { capture with captured := fun _ => false }
    else liveRaster
  if h : line < 224 then rasterCaptureLine observer vdp liveRaster ⟨line, h⟩ else liveRaster

/-- The H-interrupt counter at the start of a line. -/
def RasterScheduler.stepHint (raster : RasterScheduler) (register10 : Byte) (line : ℕ) : RasterScheduler :=
  if line < rasterMaxLines then
    if raster.hintCounter = 0 then { raster with hintCounter := register10, hintPending := true }
    else { raster with hintCounter := raster.hintCounter - 1 }
  else if line = vblankOnsetLine then
    if raster.hintCounter = 0 then { raster with hintPending := true } else raster
  else if line = linesPerFrame - 1 then { raster with hintCounter := register10 }
  else raster

namespace Screen

def ie0 (s : Screen F) : Bool := s.vdp.registers 1 &&& 0x0020 ≠ 0

def hintEnabled (s : Screen F) : Bool := s.vdp.registers 0 &&& 0x0010 ≠ 0

def rasterEnterLine (s : Screen F) (absoluteLine : ℕ) : Screen F :=
  { s with
    liveRaster := captureAt s.liveFrameObserver s.vdp s.liveRaster (absoluteLine % linesPerFrame)
    raster := s.raster.stepHint s.vdp.register10 (absoluteLine % linesPerFrame) }

def rasterEnterLines (s : Screen F) (line count : ℕ) : Screen F :=
  (List.range' line count).foldl rasterEnterLine s

def rasterAdvance (s : Screen F) (nowTicks : ℕ) : Screen F :=
  if s.raster.initialized = true ∧ nowTicks < s.raster.nextLineTick then s
  else
    let lineNow := nowTicks / masterTicksPerLine
    let nextLineTick := (lineNow + 1) * masterTicksPerLine % 2 ^ 64
    if s.raster.initialized = false then
      { s with
        raster := { s.raster with
          nextLineTick := nextLineTick
          initialized := true
          hintCounter := s.vdp.register10
          lastLine := lineNow } }.rasterEnterLine lineNow
    else
      let s := { s with raster := { s.raster with nextLineTick := nextLineTick } }
      if lineNow ≤ s.raster.lastLine then s
      else
        let line := s.raster.lastLine + 1
        -- a long STOP skip: only the most recent two frames' lines can matter
        let line := if lineNow - line > 2 * linesPerFrame then lineNow - 2 * linesPerFrame else line
        let s := s.rasterEnterLines line (lineNow + 1 - line)
        { s with raster := { s.raster with lastLine := lineNow } }

end Screen

/-! ## The frame boundary -/

/-- A line whose start was not observed takes the previous line's state, or the current one. -/
def inheritLine (current : RasterLine) (capture : RasterCapture F) (line : Fin 224) : RasterCapture F :=
  if capture.captured line then capture
  else
    let state := if line.val = 0 then current else capture.frame.lines (line - 1)
    { capture with
      frame := { capture.frame with lines := Function.update capture.frame.lines line state }
      captured := Function.update capture.captured line true }

def inheritLines (current : RasterLine) (capture : RasterCapture F) : RasterCapture F :=
  (List.finRange 224).foldl (inheritLine current) capture

/-- The observer and the capture after a frame boundary, and the line states of the frame it
publishes. -/
structure Publication (F : Type) where
  observer : Option (LiveFrameObserver F)
  liveRaster : Option (RasterCapture F)
  frames : List RasterFrameState := []

def LiveFrameObserver.publish (observer : LiveFrameObserver F) (produced : F) : LiveFrameObserver F :=
  { observer with latest := some produced, sequence := observer.sequence + 1 }

def RasterCapture.reject (capture : RasterCapture F) : RasterCapture F :=
  { capture with renderRejections := capture.renderRejections + 1 }

def publishRaster (vdp : VdpState) (observer : LiveFrameObserver F) (capture : RasterCapture F)
    (producer : (Fin 65536 → Byte) → RasterFrameState → Option F) : Publication F :=
  let capture := inheritLines (rasterCaptureState vdp) capture
  let closed := { capture with frame := { capture.frame with hasVramJournal := false } }
  match producer vdp.vram capture.frame with
  | some produced =>
      { observer := some (observer.publish produced), liveRaster := some closed, frames := [capture.frame] }
  | none => { observer := some observer, liveRaster := some closed.reject }

def publishSnapshot (vdp : VdpState) (observer : LiveFrameObserver F) (liveRaster : Option (RasterCapture F)) :
    Publication F :=
  match observer.producer with
  | none => { observer := some observer, liveRaster := liveRaster }
  | some producer =>
      match producer vdp.vram vdp.vsram vdp.cram vdp.registers with
      | some produced => { observer := some (observer.publish produced), liveRaster := liveRaster }
      | none => { observer := some observer, liveRaster := liveRaster.map RasterCapture.reject }

def publishLiveFrame (vdp : VdpState) (liveFrameObserver : Option (LiveFrameObserver F))
    (liveRaster : Option (RasterCapture F)) : Publication F :=
  match liveFrameObserver with
  | none => { observer := none, liveRaster := liveRaster }
  | some observer =>
      if observer.latest.isNone ∨ observer.sequence = BitVec.allOnes 64 then
        { observer := some observer, liveRaster := liveRaster }
      else
        match liveRaster with
        | none => publishSnapshot vdp observer none
        | some capture =>
            match capture.producer with
            | some producer => publishRaster vdp observer capture producer
            | none => publishSnapshot vdp observer (some capture)

/-- VDP register 1 bit 5 gates the 0 to 1 edge of the request. -/
def InterruptLatch.latchVblank (interrupt : InterruptLatch) (ie0 : Bool) : InterruptLatch :=
  if ie0 = true ∧ interrupt.vblankPending = false then
    { vblankPending := true, vblankTransitionCount := interrupt.vblankTransitionCount + 1 }
  else interrupt

def Screen.crossOnset (s : Screen F) : Screen F × List RasterFrameState :=
  let published := publishLiveFrame s.vdp s.liveFrameObserver s.liveRaster
  ({ s with
      virtualFrameCount := s.virtualFrameCount + 1
      liveFrameObserver := published.observer
      liveRaster := published.liveRaster
      interrupt := s.interrupt.latchVblank s.ie0 }, published.frames)

def crossesOnset (before delta : ℕ) : Bool :=
  if before < vblankOnsetTick then vblankOnsetTick ≤ before + delta
  else
    (before - vblankOnsetTick) / masterTicksPerFrame ≠
      (before + delta - vblankOnsetTick) / masterTicksPerFrame

/-- The screen once its clock is `delta` further: the lines entered, then the frame boundary. -/
def Screen.advance (s : Screen F) (delta : ℕ) : Screen F × List RasterFrameState :=
  let entered := { s with masterTicks := s.masterTicks + delta }.rasterAdvance (s.masterTicks + delta)
  if crossesOnset s.masterTicks delta then entered.crossOnset else (entered, [])

/-! ## The log of a call -/

/-- A pass of the scheduler that did not stop: the master times before and after it, and IE0 and
the VBlank latch before it. -/
structure Charge where
  before : ℕ
  after : ℕ
  ie0 : Bool
  pending : Bool
  deriving DecidableEq, Repr

inductive Event
  | charge (c : Charge)
  | published (frame : RasterFrameState)
  | entered (level : ℕ)
  | undelivered

inductive Admission
  | none
  | delivered (handler : BitVec 32)
  | stopped (stop : RuntimeStop)
  deriving DecidableEq, Repr

structure Boundary (R F : Type) where
  runtime : GenesisRuntime R F
  admission : Admission := .none
  log : List Event := []

/-! ## The exception core bound to the runtime -/

def workRamContains (address width : BitVec 32) : Bool :=
  width ≠ 0 ∧ width ≤ 0x10000 ∧ 0xFF0000 ≤ address ∧ address ≤ 0x1000000 - width

def vectorZeroDivide : BitVec 32 := 5
def vectorPrivilegeViolation : BitVec 32 := 8
def vectorLevel4Autovector : BitVec 32 := 28
def vectorLevel6Autovector : BitVec 32 := 30

def isSoftwareExceptionVector (vector : BitVec 32) : Bool :=
  vector = 4 ∨ vector = 6 ∨ vector = 7 ∨ vector = 10 ∨ vector = 11 ∨ (32 ≤ vector ∧ vector ≤ 47)

def resolveVector (r : GenesisRuntime R F) (vector : BitVec 32) : Option (BitVec 32) :=
  if vector = vectorZeroDivide then r.divideByZeroHandler
  else if vector = vectorPrivilegeViolation then r.privilegeViolationHandler
  else if vector = vectorLevel6Autovector then r.irq6Handler
  else if vector = vectorLevel4Autovector then r.softwareExceptionHandler vector.toNat
  else if isSoftwareExceptionVector vector then r.softwareExceptionHandler vector.toNat
  else none

/-- The hooks over the machine and the record of a frame write that failed. -/
def exceptionHooks (board : Board R) (r : GenesisRuntime R F) : MachineHooks (R × Bool) where
  validateStackExtent m base length _ :=
    (base &&& 1 = 0 ∧ workRamContains (base &&& 0x00FFFFFF) length, m)
  stackRead m address size :=
    let answer := board.stackRead m.1 (address &&& 0x00FFFFFF) size
    (answer.1, answer.2, m.2)
  frameWrite m address size value :=
    let written := board.frameWrite m.1 (address &&& 0x00FFFFFF) size value
    (written.1, m.2 || written.2)
  resolveVector m vector :=
    match resolveVector r vector with
    | none => (.not_installed, 0, m)
    | some entry => (.handler, entry, m)
  onExceptionEntry := some fun m vector frameBase _ =>
    if vector = vectorLevel6Autovector then
      (board.noteIrq6ExceptionFrame m.1 (frameBase &&& 0x00FFFFFF), m.2)
    else m

def m68kCpuBinding (r : GenesisRuntime R F) : State (R × Bool) :=
  { sr := r.sr, activeSp := r.a7, inactiveSp := r.usp, pc := r.pc, irq := r.m68kInterrupt
    machine := (r.rest, false) }

def GenesisRuntime.bound (r : GenesisRuntime R F) (s : State (R × Bool)) : GenesisRuntime R F :=
  { r with
    sr := s.sr, a7 := s.activeSp, usp := s.inactiveSp, pc := s.pc, m68kInterrupt := s.irq
    rest := s.machine.1 }

def finishExceptionEntry (out : Outcome (R × Bool)) (failStop : RuntimeStop) :
    Except RuntimeStop (BitVec 32) :=
  if out.status ≠ .ok ∨ out.state.machine.2 = true then
    if out.state.machine.2 = true ∨ (out.status ≠ .stack_invalid ∧ out.status ≠ .vector_unavailable) then
      .error internalStop
    else .error failStop
  else .ok (out.out.getD 0)

def constructExceptionFrameAndTransfer (board : Board R) (r : GenesisRuntime R F)
    (vector returnPc : BitVec 32) (srKeepMask srForcedBits : BitVec 16) (failStop : RuntimeStop) :
    Except RuntimeStop (BitVec 32) × GenesisRuntime R F :=
  let out := exceptionEnter (exceptionHooks board r) (m68kCpuBinding r) vector returnPc srKeepMask srForcedBits
  (finishExceptionEntry out failStop, r.bound out.state)

def acceptInterrupt (board : Board R) (r : GenesisRuntime R F) (level nextPc : BitVec 32) :
    Except RuntimeStop (BitVec 32) × GenesisRuntime R F :=
  let out := interruptEnter (exceptionHooks board r) (m68kCpuBinding r) level
    (interruptVector .autovector level 0) nextPc
  (finishExceptionEntry out (schedulingStop .unsupported_interrupt_or_scheduling_event), r.bound out.state)

def exceptionEntryCycles (vector : BitVec 32) : ℕ :=
  if vector = 2 ∨ vector = 3 then 50
  else if vector = 4 then 34
  else if vector = 5 then 38
  else if vector = 6 then 40
  else if vector = 7 then 34
  else if vector = 8 then 34
  else if vector = 9 then 34
  else if vector = 10 ∨ vector = 11 then 34
  else if vector = 15 ∨ (24 ≤ vector ∧ vector ≤ 31) ∨ (64 ≤ vector ∧ vector ≤ 255) then 44
  else if 32 ≤ vector ∧ vector ≤ 47 then 34
  else 0

/-! ## The scheduler -/

/-- The Z80 follows once the clock is a quantum past the last synchronization. -/
def z80Follow (board : Board R) (r : GenesisRuntime R F) (masterTicks : ℕ) :
    GenesisRuntime R F × Option Z80Machine.RuntimeStop :=
  match board.z80RunTo with
  | none => (r, none)
  | some runTo =>
      let quantum := if r.z80SyncQuantum ≠ 0 then r.z80SyncQuantum else 512
      if quantum ≤ (masterTicks + 2 ^ 64 - r.z80SyncedTicks) % 2 ^ 64 then
        let ran := runTo r.rest masterTicks
        ({ r with z80SyncedTicks := masterTicks, rest := ran.1 }, ran.2)
      else (r, none)

def requestLevel (s : Screen F) : BitVec 32 :=
  if s.interrupt.vblankPending then 6 else if s.raster.hintPending && s.hintEnabled then 4 else 0

/-- The scheduler up to the sample of the request level: all of it when no interrupt is to be
admitted. -/
def schedulerAdvance (board : Board R) (r : GenesisRuntime R F) (m68kCycles : ℕ) : Boundary R F :=
  let before := r.masterTicks
  let delta := m68kCycles * m68kCycleMasterTicks
  if m68kCycles = 0 then
    { runtime := r, admission := .stopped (schedulingStop .unaccounted_instruction_timing) }
  else if 2 ^ 64 - 1 - before < delta then
    { runtime := r, admission := .stopped (schedulingStop .virtual_time_overflow) }
  else if crossesOnset before delta = true ∧ r.ie0 = true ∧ r.interrupt.vblankPending = false ∧
      r.interrupt.vblankTransitionCount = BitVec.allOnes 32 then
    { runtime := r, admission := .stopped (schedulingStop .virtual_time_overflow) }
  else
    let followed := z80Follow board r (before + delta)
    match followed.2 with
    | some stop =>
        { runtime := { followed.1 with masterTicks := before + delta }, admission := .stopped (.z80 stop) }
    | none =>
        let advanced := followed.1.toScreen.advance delta
        { runtime := { followed.1 with
            toScreen := advanced.1
            m68kInterrupt := interruptSample followed.1.m68kInterrupt (requestLevel advanced.1) }
          log :=
            .charge { before := before, after := before + delta, ie0 := r.ie0
                      pending := r.interrupt.vblankPending } :: advanced.2.map .published }

/-- After an entry committed its own cost advances the same scheduler; nothing is admitted there. -/
def chargeEntry (board : Board R) (b : Boundary R F) (level handler : BitVec 32) : Boundary R F :=
  let charge := schedulerAdvance board b.runtime
    (exceptionEntryCycles (interruptVector .autovector level 0))
  { charge with
    admission := match charge.admission with
      | .stopped stop => .stopped stop
      | _ => .delivered handler
    log := b.log ++ charge.log }

def setHintPending (r : GenesisRuntime R F) (value : Bool) : GenesisRuntime R F :=
  { r with raster := { r.raster with hintPending := value } }

def clearVblankPending (r : GenesisRuntime R F) : GenesisRuntime R F :=
  { r with interrupt := { r.interrupt with vblankPending := false } }

/-- The request is cleared and counted: nothing can deliver it. -/
def dropHint (r : GenesisRuntime R F) : GenesisRuntime R F :=
  { r with raster := { r.raster with
      hintPending := false, hintUndelivered := r.raster.hintUndelivered + 1 } }

/-- Takes the recognized level; `rearm` clears its latch once the entry has committed. -/
def enterInterrupt (board : Board R) (b : Boundary R F) (level nextPc : BitVec 32)
    (rearm : GenesisRuntime R F → GenesisRuntime R F) : Boundary R F :=
  match acceptInterrupt board b.runtime level nextPc with
  | (.error stop, r) => { b with runtime := r, admission := .stopped stop }
  | (.ok handler, r) =>
      chargeEntry board { runtime := rearm r, log := b.log ++ [.entered level.toNat] } level handler

def admitHint (board : Board R) (b : Boundary R F) (level nextPc : BitVec 32) : Boundary R F :=
  if (b.runtime.softwareExceptionHandler vectorLevel4Autovector.toNat).isNone then
    if b.runtime.raster.hintStrict then
      { b with admission := .stopped (schedulingStop .hint_handler_not_installed) }
    else
      { b with runtime := dropHint b.runtime, log := b.log ++ [.undelivered] }
  else enterInterrupt board b level nextPc (setHintPending · false)

def admitVblank (board : Board R) (b : Boundary R F) (level nextPc : BitVec 32) : Boundary R F :=
  if b.runtime.irq6Handler.isNone then
    if b.runtime.irq6VectorInWorkRam then
      { b with admission := .stopped (schedulingStop .irq6_vector_in_work_ram) }
    else b
  else enterInterrupt board b level nextPc clearVblankPending

def admitRecognized (board : Board R) (b : Boundary R F) (nextPc : BitVec 32) : Boundary R F :=
  let level := interruptRecognizedLevel b.runtime.m68kInterrupt b.runtime.sr
  if level = 0 then b
  else if level = 4 then admitHint board b level nextPc
  else admitVblank board b level nextPc

def schedulerAndAdmit (board : Board R) (r : GenesisRuntime R F) (m68kCycles : ℕ) (admitInterrupt : Bool)
    (nextPc : BitVec 32) : Boundary R F :=
  let advanced := schedulerAdvance board r m68kCycles
  match advanced.admission with
  | .none => if admitInterrupt then admitRecognized board advanced nextPc else advanced
  | _ => advanced

/-! ## Retirement -/

def stopWakePossible (state : InterruptState) (maxRequestLevel : BitVec 32) (sr : BitVec 16) : Bool :=
  let mask := ((sr &&& srInterruptMask) >>> 8).setWidth 32
  if state.level7EdgePending then true
  else maxRequestLevel &&& 7 = 7 ∨ maxRequestLevel &&& 7 > mask

def vblankSource (r : GenesisRuntime R F) : Bool :=
  (r.irq6Handler.isSome || r.irq6VectorInWorkRam) && (r.interrupt.vblankPending || r.ie0)

def hintSource (r : GenesisRuntime R F) : Bool :=
  r.hintEnabled &&
    ((r.softwareExceptionHandler vectorLevel4Autovector.toNat).isSome || r.raster.hintStrict)

def ceilCycles (ticks : ℕ) : ℕ := (ticks + m68kCycleMasterTicks - 1) / m68kCycleMasterTicks

/-- One scanline at a time until a request is accepted. -/
def waitLines (board : Board R) (nextPc : BitVec 32) : ℕ → Boundary R F → Boundary R F
  | 0, b => { b with admission := .stopped (schedulingStop .stopped_without_wake_source) }
  | steps + 1, b =>
      let clock := b.runtime.masterTicks
      let lineTicks := (clock / masterTicksPerLine + 1) * masterTicksPerLine - clock
      let next := schedulerAndAdmit board b.runtime (ceilCycles lineTicks) true nextPc
      let next := { next with log := b.log ++ next.log }
      match next.admission with
      | .none => waitLines board nextPc steps next
      | _ => next

def nextOnset (now : ℕ) : ℕ :=
  if now < vblankOnsetTick then vblankOnsetTick
  else vblankOnsetTick + ((now - vblankOnsetTick) / masterTicksPerFrame + 1) * masterTicksPerFrame

/-- One jump to the first whole cycle at or after the next onset. -/
def waitOnset (board : Board R) (b : Boundary R F) (nextPc : BitVec 32) : Boundary R F :=
  let now := b.runtime.masterTicks
  let next := schedulerAndAdmit board b.runtime (ceilCycles (nextOnset now - now)) true nextPc
  let next := { next with log := b.log ++ next.log }
  match next.admission with
  | .none => { next with admission := .stopped internalStop }
  | _ => next

def wakeLevel (r : GenesisRuntime R F) : BitVec 32 :=
  if vblankSource r then 6 else if hintSource r then 4 else 0

def hintWakes (r : GenesisRuntime R F) : Bool := hintSource r && decide ((r.sr >>> 8) &&& 7 < 4)

def waitWhileStopped (board : Board R) (b : Boundary R F) (nextPc : BitVec 32) : Boundary R F :=
  if stopWakePossible b.runtime.m68kInterrupt (wakeLevel b.runtime) b.runtime.sr = false then
    { b with admission := .stopped (schedulingStop .stopped_without_wake_source) }
  else if hintWakes b.runtime then waitLines board nextPc (2 * linesPerFrame + 4) b
  else waitOnset board b nextPc

inductive Transfer
  | continueAt (pc : BitVec 32)
  | stop (stop : RuntimeStop)
  deriving DecidableEq, Repr

structure Retired (R F : Type) where
  runtime : GenesisRuntime R F
  transfer : Transfer
  log : List Event

def Boundary.transfer (b : Boundary R F) (nextPc : BitVec 32) : Transfer :=
  match b.admission with
  | .none => .continueAt nextPc
  | .delivered handler => .continueAt handler
  | .stopped stop => .stop stop

def Boundary.continues (b : Boundary R F) : Bool :=
  match b.admission with
  | .stopped _ => false
  | _ => true

/-- `pendingStop` is the stop the retired instruction itself ends with. -/
def Boundary.finish (b : Boundary R F) (nextPc : BitVec 32) (pendingStop : Option RuntimeStop) : Transfer :=
  match pendingStop with
  | some stop => if b.continues then .stop stop else b.transfer nextPc
  | none => b.transfer nextPc

def retireBoundary (board : Board R) (r : GenesisRuntime R F) (m68kCycles : ℕ) (nextPc : BitVec 32)
    (pendingStop : Option RuntimeStop) : Boundary R F :=
  let b := schedulerAndAdmit board { r with pc := nextPc } m68kCycles pendingStop.isNone nextPc
  if pendingStop.isNone = true ∧ b.continues = true ∧ b.runtime.m68kInterrupt.stopped = true then
    waitWhileStopped board b nextPc
  else b

/-- A retirement, at `m68kCycles` of cost and with `nextPc` as its successor. -/
def retireM68kInstruction (board : Board R) (r : GenesisRuntime R F) (m68kCycles : ℕ)
    (nextPc : BitVec 32) (pendingStop : Option RuntimeStop) : Retired R F :=
  let b := retireBoundary board r m68kCycles nextPc pendingStop
  { runtime := b.runtime, transfer := b.finish nextPc pendingStop, log := b.log }

/-- A synchronous exception: never scheduled, never masked; its entry cost is charged and admits
nothing. -/
def raiseSynchronousException (board : Board R) (r : GenesisRuntime R F) (vector stackedPc : BitVec 32)
    (entryCycles : ℕ) (failStop : RuntimeStop) : Retired R F :=
  if entryCycles = 0 then
    { runtime := r, transfer := .stop (schedulingStop .unaccounted_instruction_timing), log := [] }
  else
    match constructExceptionFrameAndTransfer board r vector stackedPc 0x7FFF 0x2000 failStop with
    | (.error stop, r) => { runtime := r, transfer := .stop stop, log := [] }
    | (.ok handler, r) =>
        let charge := schedulerAdvance board r entryCycles
        { runtime := charge.runtime
          transfer := match charge.admission with
            | .stopped stop => .stop stop
            | _ => .continueAt handler
          log := charge.log }

def raiseDivideByZero (board : Board R) (r : GenesisRuntime R F) (faultPc : BitVec 32) (entryCycles : ℕ) :
    Retired R F :=
  raiseSynchronousException board r vectorZeroDivide faultPc entryCycles
    (.guest .unsupported_cpu_form .unsupported_divide_by_zero_exception)

def raisePrivilegeViolation (board : Board R) (r : GenesisRuntime R F) (faultPc : BitVec 32)
    (entryCycles : ℕ) : Retired R F :=
  raiseSynchronousException board r vectorPrivilegeViolation faultPc entryCycles
    (.guest .unsupported_cpu_exception .unsupported_privilege_violation_exception)

def raiseSoftwareException (board : Board R) (r : GenesisRuntime R F) (vector stackedPc : BitVec 32)
    (entryCycles : ℕ) : Retired R F :=
  if isSoftwareExceptionVector vector then
    raiseSynchronousException board r vector stackedPc entryCycles
      (.guest .unsupported_cpu_exception .unsupported_software_exception)
  else { runtime := r, transfer := .stop internalStop, log := [] }

end Segarecomp.Genesis.Schedule

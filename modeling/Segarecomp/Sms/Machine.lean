import Segarecomp.Sms.Memory

/-! The Master System machine: scanline events, the host callbacks and the run loop. The devices
are parameters, reached through the seams that the machine composes. -/

namespace Segarecomp.Sms

open Z80 Z80.Runtime

def cyclesPerLine : ℕ := 228
def linesPerFrame : ℕ := 262
def cyclesPerFrame : ℕ := 59736

structure InputState where
  p1 : Byte := 0
  p2 : Byte := 0
  pause : Byte := 0
  deriving DecidableEq, Repr

structure InputEvent where
  frame : ℕ
  p1 : Byte
  p2 : Byte
  pause : Byte
  deriving DecidableEq, Repr

/-- A typed error that a device reports through the machine's latch. -/
structure DeviceError where
  error : SmsError
  address : Addr
  value : Byte
  deriving DecidableEq, Repr

/-- A port device; a missing direction fails closed. The controllers see the input state. -/
structure PortDevice (D : Type) where
  read : Option (D → InputState → PortClass → ℕ → Byte × D × Option DeviceError) := none
  write : Option (D → PortClass → Byte → ℕ → D × Option DeviceError) := none

/-- What is attached to the machine, and the scripted input. -/
structure Board (D : Type) where
  vdp : PortDevice D := {}
  scanline : Option (D → ℕ → ℕ → ℕ → D × Option DeviceError) := none
  irqSources : Option (D → Byte) := none
  psg : PortDevice D := {}
  pad : PortDevice D := {}
  inputEvents : List InputEvent := []
  stopOnHaltIdle : Bool := false

/-- A scanline event or a memory or port access, in the order in which the machine did them. -/
inductive Happening
  | scanline (line : ℕ)
  | access (cycles : ℕ)
  deriving DecidableEq, Repr

/-- The machine around the processor. -/
structure Context (D : Type) where
  mem : Memory
  ioControl : Byte := 0xFF
  devices : D
  input : InputState := {}
  inputNext : ℕ := 0
  nextLine : ℕ := 0
  irqMask : Byte := 0
  happened : List Happening := []

variable {D : Type}

namespace Context

def failed (c : Context D) : Bool := c.mem.error.isSome

def nextEventCycles (c : Context D) : ℕ := c.nextLine * cyclesPerLine

def note (c : Context D) (happening : Happening) : Context D :=
  { c with happened := c.happened ++ [happening] }

def latch (c : Context D) (cycles : ℕ) : Option DeviceError → Context D
  | none => c
  | some e => { c with mem := c.mem.latchError ⟨e.error, e.address, e.value, cycles⟩ }

end Context

/-! ## Interrupt wiring and scanline events -/

def irqSourceMask (board : Board D) (devices : D) : Byte :=
  match board.irqSources with
  | some sources => sources devices &&& 0x03
  | none => 0

def sampleIrq (board : Board D) (c : Context D) : Context D × Bool :=
  let mask := irqSourceMask board c.devices
  ({ c with irqMask := mask }, mask ≠ 0)

def applyInputAtFrameStart (board : Board D) (frame : ℕ) : ℕ → Context D × Bool → Context D × Bool
  | 0, state => state
  | fuel + 1, (c, nmi) =>
      match board.inputEvents[c.inputNext]? with
      | none => (c, nmi)
      | some ev =>
          if ev.frame ≤ frame then
            let pressed := c.input.pause = 0 ∧ ev.pause ≠ 0
            applyInputAtFrameStart board frame fuel
              ({ c with inputNext := c.inputNext + 1, input := ⟨ev.p1, ev.p2, ev.pause⟩ },
                nmi || decide pressed)
          else (c, nmi)

/-- The context after scanline events, with the INT level they drove and the NMI they raised. -/
structure Driven (D : Type) where
  context : Context D
  intLine : Option Bool := none
  nmi : Bool := false

def beginLine (board : Board D) (c : Context D) (nmi : Bool) : Context D × Bool :=
  if c.nextLine % linesPerFrame = 0 then
    applyInputAtFrameStart board (c.nextLine / linesPerFrame)
      (board.inputEvents.length - c.inputNext) (c, nmi)
  else (c, nmi)

def scanDevice (board : Board D) (c : Context D) : Context D :=
  match board.scanline with
  | none => c
  | some scanline =>
      let t := c.nextEventCycles
      let (devices, error) :=
        scanline c.devices (c.nextLine / linesPerFrame) (c.nextLine % linesPerFrame) t
      { c with devices := devices }.latch t error

def scanlineEvent (board : Board D) (driven : Driven D) : Driven D :=
  let (c, nmi) := beginLine board driven.context driven.nmi
  let (c, level) := sampleIrq board (scanDevice board c)
  { context := { c with nextLine := c.nextLine + 1 }.note (.scanline c.nextLine)
    intLine := some level
    nmi := nmi }

def advanceLoop (board : Board D) (cycles : ℕ) : ℕ → Driven D → Driven D
  | 0, driven => driven
  | fuel + 1, driven =>
      if driven.context.failed = false ∧ driven.context.nextEventCycles ≤ cycles then
        advanceLoop board cycles fuel (scanlineEvent board driven)
      else driven

/-- Every scanline event due at `cycles`, in time order. -/
def advanceEvents (board : Board D) (c : Context D) (cycles : ℕ) : Driven D :=
  advanceLoop board cycles (cycles / cyclesPerLine + 1 - c.nextLine) { context := c }

/-! ## Host callbacks -/

def accessRead (c : Context D) (address : Addr) (cycles : ℕ) : Reply (Context D) :=
  let (value, mem) := c.mem.read address cycles
  { host := { c with mem := mem }.note (.access cycles), value := value, stop := mem.error.isSome }

def accessWrite (c : Context D) (address : Addr) (value : Byte) (cycles : ℕ) : Reply (Context D) :=
  let mem := c.mem.write address value cycles
  { host := { c with mem := mem }.note (.access cycles), stop := mem.error.isSome }

def unimplemented (c : Context D) (port : Addr) (value : Byte) (cycles : ℕ) : Reply (Context D) :=
  { host := { c with mem := c.mem.latchError ⟨.port_unimplemented, port, value, cycles⟩ }, stop := true }

def deviceFor (board : Board D) : PortOwner → PortDevice D
  | .vdp => board.vdp
  | .psg => board.psg
  | .pad => board.pad
  | _ => {}

def accessIoIn (board : Board D) (c : Context D) (port : Addr) (cycles : ℕ) : Reply (Context D) :=
  let cls := portDecode port false
  let owner := portOwner cls
  let c := c.note (.access cycles)
  if c.failed then { host := c }
  else if owner = .none then { host := c }
  else if owner = .pad ∧ c.mem.ioDisabled then { host := c }
  else
    match (deviceFor board owner).read with
    | none => unimplemented c port 0xFF cycles
    | some read =>
        let (value, devices, error) := read c.devices c.input cls cycles
        let c := { c with devices := devices }.latch cycles error
        let (c, level) := sampleIrq board c
        { host := c, value := value, stop := c.failed, intLine := some level }

def accessIoOut (board : Board D) (c : Context D) (port : Addr) (value : Byte) (cycles : ℕ) :
    Reply (Context D) :=
  let cls := portDecode port true
  let owner := portOwner cls
  let c := c.note (.access cycles)
  if c.failed then { host := c }
  else if owner = .none then { host := c }
  else if owner = .memory then
    let mem := c.mem.controlWrite port value cycles
    { host := { c with mem := mem }, stop := mem.error.isSome }
  else
    match (deviceFor board owner).write with
    | none => unimplemented c port value cycles
    | some write =>
        let c := if cls = .io_control then { c with ioControl := value } else c
        let (devices, error) := write c.devices cls value cycles
        let c := { c with devices := devices }.latch cycles error
        let (c, level) := sampleIrq board c
        { host := c, stop := c.failed, intLine := some level }

/-- A callback: the events that are due come first. -/
def afterEvents (board : Board D) (c : Context D) (cycles : ℕ)
    (access : Context D → Reply (Context D)) : Reply (Context D) :=
  let driven := advanceEvents board c cycles
  let reply := access driven.context
  { reply with intLine := reply.intLine.or driven.intLine, nmi := reply.nmi || driven.nmi }

abbrev CodeView := Addr → Option CodeImage

def z80Host (board : Board D) : Z80Host (Context D) CodeView where
  read c address cycles := afterEvents board c cycles fun c => accessRead c address cycles
  write c address value cycles := afterEvents board c cycles fun c => accessWrite c address value cycles
  ioIn c port cycles := afterEvents board c cycles fun c => accessIoIn board c port cycles
  ioOut c port value cycles := afterEvents board c cycles fun c => accessIoOut board c port value cycles
  interruptAcknowledge c cycles := afterEvents board c cycles fun c => { host := c }
  code c := c.mem.codeImage

/-! ## The run loop -/

inductive StopKind
  | cycle | frame | halt_idle | cycle_budget | z80_error | platform_error
  deriving DecidableEq, Repr

structure SmsStop where
  kind : StopKind
  cycles : ℕ
  frame : ℕ
  pc : Addr
  imageIdentity : ℕ
  z80Outcome : Z80Outcome
  smsError : Option Latch
  deriving DecidableEq, Repr

/-- A dead machine keeps its permanent stop. -/
structure Machine (D : Type) where
  rt : Z80Runtime (Context D)
  dead : Option SmsStop := none

namespace Machine

def reset (mem : Memory) (devices : D) (board : Board D) : Machine D :=
  let (c, level) := sampleIrq board { mem := mem, devices := devices }
  { rt := { state := { z80Reset with intLine := level }, host := c } }

def makeStop (m : Machine D) (kind : StopKind) : SmsStop where
  kind := kind
  cycles := m.rt.state.cycles
  frame := m.rt.state.cycles / cyclesPerFrame
  pc := m.rt.state.pc
  imageIdentity := ((m.rt.host.mem.mapperCodeImage m.rt.state.pc).map (·.identity)).getD 0
  z80Outcome := m.rt.outcome
  smsError := m.rt.host.mem.error

def die (m : Machine D) (kind : StopKind) : Machine D := { m with dead := some (m.makeStop kind) }

def applyEvents (board : Board D) (m : Machine D) : Machine D :=
  let driven := advanceEvents board m.rt.host m.rt.state.cycles
  { m with rt := { m.rt with
      host := driven.context
      state := { m.rt.state with
        intLine := driven.intLine.getD m.rt.state.intLine
        nmiPending := m.rt.state.nmiPending || driven.nmi } } }

/-- The events due now; a latched device error is a permanent stop. -/
def arrive (board : Board D) (m : Machine D) : Machine D :=
  let m := m.applyEvents board
  if m.rt.host.failed then m.die .platform_error else m

/-- What `run_slice` makes of the state that `z80_run` left. -/
def leave (m : Machine D) : Machine D :=
  if m.rt.host.failed then m.die .platform_error
  else if m.rt.outcome.isError then m.die .z80_error
  else m

def haltIdle (board : Board D) (m : Machine D) : Bool :=
  board.stopOnHaltIdle && m.rt.state.halted && !m.rt.state.iff1 && !m.rt.state.nmiPending &&
    decide (board.inputEvents.length ≤ m.rt.host.inputNext)

def sliceDeadline (m : Machine D) (tState : ℕ) : ℕ := min m.rt.host.nextEventCycles tState

def runSlice (program : Program CodeView) (board : Board D) (m : Machine D) (deadline : ℕ) :
    Machine D :=
  { m with rt := z80Run program (z80Host board) m.rt deadline }.leave

def runLoop (program : Program CodeView) (board : Board D) :
    ℕ → Machine D → ℕ → Machine D × SmsStop
  | 0, m, _ => (m, m.makeStop .cycle)
  | fuel + 1, m, tState =>
      let m := m.arrive board
      match m.dead with
      | some stop => (m, stop)
      | none =>
          if tState ≤ m.rt.state.cycles then (m, m.makeStop .cycle)
          else
            let m := m.runSlice program board (m.sliceDeadline tState)
            match m.dead with
            | some stop => (m, stop)
            | none =>
                if m.haltIdle board then (m, m.makeStop .halt_idle)
                else runLoop program board fuel m tState

/-- `sms_run_until_cycle`: every slice but the last takes a T-state at least. -/
def runUntilCycle (program : Program CodeView) (board : Board D) (m : Machine D) (tState : ℕ) :
    Machine D × SmsStop :=
  match m.dead with
  | some stop => (m, stop)
  | none => runLoop program board (tState - m.rt.state.cycles + 1) m tState

end Machine

end Segarecomp.Sms

import Segarecomp.Z80.Runtime

/-! The Z80 as a secondary processor of the Genesis: its view of the machine and the scheduler
that runs it to a master time. The sound devices are parameters: the YM2612 and the PSG are
reached through hooks. -/

namespace Segarecomp.Genesis.Z80Machine

open Z80 Z80.Runtime

def clockDivider : ℕ := 15
def busWaitCycles : ℕ := 3
def masterTicksPerLine : ℕ := 3420
def masterTicksPerFrame : ℕ := 896040
def vblankOnsetTick : ℕ := 766080

inductive Diagnostic
  | z80_view_unmapped_access | z80_bank_target_unsupported | z80_code_mismatch | z80_unknown_image
  | z80_mutable_code | z80_unresolved_fetch_mapping | z80_unsupported_acknowledge | z80_no_owner
  deriving DecidableEq, Repr

inductive StopClass
  | unsupported_device_access | unsupported_z80_execution
  deriving DecidableEq, Repr

structure RuntimeStop where
  stopClass : StopClass
  diagnostic : Diagnostic
  deriving DecidableEq, Repr

/-! ## The Z80's view of the machine -/

structure OwnedRegion where
  start : ℕ
  stop : ℕ
  length : ℕ
  data : ℕ → Byte

/-- The sound devices behind the ports. A refused access answers `none` or `false`. -/
structure SoundPorts (D : Type) where
  ymRead : D → ℕ → ℕ → Option Byte × D
  ymWrite : D → ℕ → Byte → ℕ → Bool × D
  psgWrite : D → Byte → ℕ → Bool × D

/-- A 68000-side view other than the Genesis one. It has no effect on an unsupported access. -/
structure BankView (D : Type) where
  read : D → ℕ → Option (Byte × D)
  write : D → ℕ → Byte → Option D

/-- What a view is built from: fixed for a machine. -/
structure Board (D : Type) where
  ports : SoundPorts D
  ownedRegions : List OwnedRegion := []
  bankView : Option (BankView D) := none

inductive DeviceAccess
  | ym_read (port : ℕ)
  | ym_write (port : ℕ) (value : Byte)
  | psg_write (value : Byte)
  | bank_read (target : ℕ)
  | bank_write (target : ℕ) (value : Byte)
  deriving DecidableEq, Repr

structure Counts where
  bankWrites : ℕ := 0
  bankedReads : ℕ := 0
  ymWrites : ℕ := 0
  ymReads : ℕ := 0
  psgWrites : ℕ := 0
  deriving DecidableEq, Repr

/-- The part of the machine and of the runtime that the host callbacks reach; `accesses` records
the device accesses with their master ticks. -/
structure View (D : Type) where
  z80Ram : BitVec 13 → Byte
  bank : BitVec 16 := 0
  devices : D
  workRam : BitVec 16 → Byte
  cycleBase : ℕ := 0
  viewStop : Option Diagnostic := none
  boundOrdinal : ℕ := 0
  counts : Counts := {}
  accesses : List (ℕ × DeviceAccess) := []

variable {D : Type}

def View.ticks (v : View D) (cycles : ℕ) : ℕ := v.cycleBase + cycles * clockDivider

def View.note (v : View D) (ticks : ℕ) (access : DeviceAccess) : View D :=
  { v with accesses := v.accesses ++ [(ticks, access)] }

/-- The first stop is kept; the Z80 stops at the next boundary. -/
def latchStop (v : View D) (diagnostic : Diagnostic) (wait : ℕ) : Reply (View D) :=
  { host := { v with viewStop := v.viewStop.or (some diagnostic) }, stop := true, wait := wait }

def bankedAddress (v : View D) (address : Addr) : ℕ :=
  v.bank.toNat * 32768 + address.toNat % 32768

def bankRomRead (regions : List OwnedRegion) (address24 : ℕ) : Option Byte :=
  if 0x400000 ≤ address24 then none
  else
    (regions.find? fun region =>
      decide (region.start < region.stop) && region.length == region.stop - region.start &&
        decide (region.start ≤ address24) && decide (address24 < region.stop)).map
      fun region => region.data (address24 - region.start)

def bankRead (board : Board D) (v : View D) (target : ℕ) : Option (Byte × D) :=
  match board.bankView with
  | some view => view.read v.devices target
  | none => (bankRomRead board.ownedRegions target).map fun value => (value, v.devices)

def z80ViewRead (board : Board D) (v : View D) (address : Addr) (cycles : ℕ) : Reply (View D) :=
  let a := address.toNat
  if a < 0x4000 then { host := v, value := v.z80Ram (address.setWidth 13) }
  else if a < 0x6000 then
    let ticks := v.ticks cycles
    let v := { v with counts := { v.counts with ymReads := v.counts.ymReads + 1 } }
    let v := v.note ticks (.ym_read (a % 4))
    match board.ports.ymRead v.devices (a % 4) ticks with
    | (none, d) => latchStop { v with devices := d } .z80_view_unmapped_access 0
    | (some value, d) => { host := { v with devices := d }, value := value }
  else if a < 0x8000 then latchStop v .z80_view_unmapped_access 0
  else
    let target := bankedAddress v address
    let v := { v with counts := { v.counts with bankedReads := v.counts.bankedReads + 1 } }
    let v := v.note (v.ticks (cycles + busWaitCycles)) (.bank_read target)
    match bankRead board v target with
    | none => latchStop v .z80_bank_target_unsupported busWaitCycles
    | some (value, d) => { host := { v with devices := d }, value := value, wait := busWaitCycles }

def bankWrite (board : Board D) (v : View D) (target : ℕ) (value : Byte) : Option (View D) :=
  match board.bankView with
  | some view => (view.write v.devices target value).map fun d => { v with devices := d }
  | none =>
      if 0xE00000 ≤ target then
        some { v with workRam := Function.update v.workRam (BitVec.ofNat 16 target) value }
      else none

def z80ViewWrite (board : Board D) (v : View D) (address : Addr) (value : Byte) (cycles : ℕ) :
    Reply (View D) :=
  let a := address.toNat
  if a < 0x4000 then
    { host := { v with z80Ram := Function.update v.z80Ram (address.setWidth 13) value } }
  else if a < 0x6000 then
    let ticks := v.ticks cycles
    let v := { v with counts := { v.counts with ymWrites := v.counts.ymWrites + 1 } }
    let v := v.note ticks (.ym_write (a % 4) value)
    match board.ports.ymWrite v.devices (a % 4) value ticks with
    | (false, d) => latchStop { v with devices := d } .z80_view_unmapped_access 0
    | (true, d) => { host := { v with devices := d } }
  else if a < 0x6100 then
    { host := { v with
        bank := (value.setWidth 16 &&& 1) <<< 8 ||| v.bank >>> 1
        counts := { v.counts with bankWrites := v.counts.bankWrites + 1 } } }
  else if 0x7F00 ≤ a ∧ a < 0x8000 then
    if a % 256 < 0x11 ∨ 0x17 < a % 256 ∨ a % 2 = 0 then
      latchStop v .z80_view_unmapped_access busWaitCycles
    else
      let ticks := v.ticks (cycles + busWaitCycles)
      let v := v.note ticks (.psg_write value)
      match board.ports.psgWrite v.devices value ticks with
      | (false, d) => latchStop { v with devices := d } .z80_view_unmapped_access busWaitCycles
      | (true, d) =>
          { host := { v with
              devices := d
              counts := { v.counts with psgWrites := v.counts.psgWrites + 1 } }
            wait := busWaitCycles }
  else if a < 0x8000 then latchStop v .z80_view_unmapped_access 0
  else
    let target := bankedAddress v address
    let v := v.note (v.ticks (cycles + busWaitCycles)) (.bank_write target value)
    match bankWrite board v target value with
    | none => latchStop v .z80_bank_target_unsupported busWaitCycles
    | some v => { host := v, wait := busWaitCycles }

/-- What the code-image query and the code fetch show: the bound image and the sound RAM. -/
abbrev CodeView := ℕ × (BitVec 13 → Byte)

def z80Host (board : Board D) : Z80Host (View D) CodeView where
  read := z80ViewRead board
  write := z80ViewWrite board
  ioIn v _ _ := { host := v }
  ioOut v _ _ _ := { host := v }
  interruptAcknowledge v _ := { host := v }
  code v := (v.boundOrdinal, v.z80Ram)

/-! ## The scheduler -/

structure Machine (D : Type) where
  cpu : Z80Runtime (View D)
  lastBound : ℕ := 0
  soundFault : Option Diagnostic := none
  soundFaultEpoch : ℕ := 0
  soundFaultMasterTicks : ℕ := 0
  isolateViewStops : Bool := false
  resetReleased : Bool := true
  busRequested : Bool := false
  epochCount : ℕ := 0

def Machine.masterTicks (m : Machine D) : ℕ := m.cpu.host.ticks m.cpu.state.cycles

def diagnosticOfOutcome : Z80Error → Diagnostic
  | .code_mismatch => .z80_code_mismatch
  | .unknown_image_identity => .z80_unknown_image
  | .mutable_code => .z80_mutable_code
  | .unresolved_fetch_mapping => .z80_unresolved_fetch_mapping
  | .im0_unsupported_acknowledge_byte => .z80_unsupported_acknowledge
  | _ => .z80_no_owner

/-- The INT line is high during the VBlank onset scanline only. -/
def intLevelAt (masterTicks : ℕ) : Bool :=
  let phase := masterTicks % masterTicksPerFrame
  decide (vblankOnsetTick ≤ phase) && decide (phase < vblankOnsetTick + masterTicksPerLine)

def nextIntEdge (masterTicks : ℕ) : ℕ :=
  let phase := masterTicks % masterTicksPerFrame
  let base := masterTicks - phase
  if phase < vblankOnsetTick then base + vblankOnsetTick
  else if phase < vblankOnsetTick + masterTicksPerLine then
    base + vblankOnsetTick + masterTicksPerLine
  else base + masterTicksPerFrame + vblankOnsetTick

def Machine.runnable (m : Machine D) : Bool :=
  m.resetReleased && !m.busRequested && m.cpu.host.boundOrdinal != 0

/-- The sound CPU is isolated: no image is bound any more. -/
def Machine.isolate (m : Machine D) (fault : Diagnostic) : Machine D :=
  { m with
    soundFault := some fault
    soundFaultEpoch := m.epochCount
    soundFaultMasterTicks := m.masterTicks
    cpu := { m.cpu with host := { m.cpu.host with boundOrdinal := 0 } } }

/-- What `run_to` makes of the state and the outcome that `z80_run` left. -/
def Machine.afterRun (m : Machine D) : Machine D × Option RuntimeStop :=
  match m.cpu.host.viewStop with
  | some fault =>
      if m.isolateViewStops then (m.isolate fault, none)
      else (m, some ⟨.unsupported_device_access, fault⟩)
  | none =>
      match m.cpu.outcome with
      | .error .code_mismatch => (m.isolate .z80_code_mismatch, none)
      | .error e => (m, some ⟨.unsupported_z80_execution, diagnosticOfOutcome e⟩)
      | _ => (m, none)

def Machine.sampled (m : Machine D) : Machine D :=
  { m with cpu := { m.cpu with state := { m.cpu.state with intLine := intLevelAt m.masterTicks } } }

def segmentEnd (m : Machine D) (masterTicks : ℕ) : ℕ := min (nextIntEdge m.masterTicks) masterTicks

def runSegment (program : Program CodeView) (board : Board D) (m : Machine D) (masterTicks : ℕ) :
    Machine D × Option RuntimeStop :=
  let steps := (segmentEnd m masterTicks - m.masterTicks + clockDivider - 1) / clockDivider
  let m := m.sampled
  { m with cpu := z80Run program (z80Host board) m.cpu (m.cpu.state.cycles + steps) }.afterRun

def runLoop (program : Program CodeView) (board : Board D) :
    ℕ → Machine D → ℕ → Machine D × Option RuntimeStop
  | 0, m, _ => (m, none)
  | fuel + 1, m, masterTicks =>
      if masterTicks ≤ m.masterTicks then (m, none)
      else
        let (m, stop) := runSegment program board m masterTicks
        if stop.isSome || m.soundFault.isSome then (m, stop)
        else runLoop program board fuel m masterTicks

/-- `genesis_z80_machine_run_to`: every segment takes a tick at least. -/
def runTo (program : Program CodeView) (board : Board D) (m : Machine D) (masterTicks : ℕ) :
    Machine D × Option RuntimeStop :=
  if m.soundFault.isSome || !m.runnable then (m, none)
  else runLoop program board (masterTicks - m.masterTicks + 1) m masterTicks

end Segarecomp.Genesis.Z80Machine

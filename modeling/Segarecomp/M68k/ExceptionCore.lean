import Mathlib.Tactic

/-! The MC68000 exception-entry and RTE core. Hooks may change the machine they are bound to; the
CPU fields are the bound registers. `out` is what the optional output pointer receives. -/

namespace Segarecomp.M68k.ExceptionCore

def srTrace : BitVec 16 := 0x8000
def srSupervisor : BitVec 16 := 0x2000
def srInterruptMask : BitVec 16 := 0x0700
def srImplemented : BitVec 16 := 0xA71F
def exceptionFrameBytes : BitVec 32 := 6

inductive ExceptionStatus
  | ok | stack_invalid | vector_unavailable | access_failed | trace_deferred | bad_binding
  deriving DecidableEq, Repr

inductive VectorResolution
  | handler | not_installed | unrepresentable
  deriving DecidableEq, Repr

inductive StackDirection
  | read | write
  deriving DecidableEq, Repr

/-- The machine hooks over a machine of type `M`. `bound` is false when the hook set, the binding
or a required pointer in them is null. -/
structure MachineHooks (M : Type) where
  bound : Bool := true
  validateStackExtent : M → (base length : BitVec 32) → StackDirection → Bool × M
  stackRead : M → (address size : BitVec 32) → Option (BitVec 32) × M
  frameWrite : M → (address size value : BitVec 32) → M
  resolveVector : M → (vector : BitVec 32) → VectorResolution × BitVec 32 × M
  onExceptionEntry : Option (M → (vector frameBase handlerEntry : BitVec 32) → M) := none
  onExceptionReturn : Option (M → (frameBase : BitVec 32) → M) := none

structure InterruptState where
  sampledLevel : BitVec 8 := 0
  level7EdgePending : Bool := false
  stopped : Bool := false
  deriving DecidableEq, Repr

structure State (M : Type) where
  sr : BitVec 16
  activeSp : BitVec 32
  inactiveSp : BitVec 32
  pc : BitVec 32
  irq : InterruptState := {}
  machine : M

structure Outcome (M : Type) where
  status : ExceptionStatus
  state : State M
  out : Option (BitVec 32) := none

variable {M : Type}

def supervisor (sr : BitVec 16) : Bool := sr &&& srSupervisor ≠ 0

/-- The frame goes on the SSP: the active stack pointer when S = 1, else the inactive one. -/
def entrySsp (s : State M) : BitVec 32 := if supervisor s.sr then s.activeSp else s.inactiveSp

/-- The frame writes and the entry notification. -/
def writeFrame (hooks : MachineHooks M) (m : M) (vector frameBase handlerEntry : BitVec 32) (savedSr : BitVec 16)
    (stackedPc : BitVec 32) : M :=
  let m := hooks.frameWrite m frameBase 2 (savedSr.setWidth 32)
  let m := hooks.frameWrite m (frameBase + 2) 4 stackedPc
  match hooks.onExceptionEntry with
  | none => m
  | some notify => notify m vector frameBase handlerEntry

def exceptionEnter (hooks : MachineHooks M) (s : State M) (vector stackedPc : BitVec 32)
    (srKeepMask srForcedBits : BitVec 16) : Outcome M :=
  let frameBase := entrySsp s - exceptionFrameBytes
  let validated := hooks.validateStackExtent s.machine frameBase exceptionFrameBytes .write
  let resolved := hooks.resolveVector validated.2 vector
  if !hooks.bound then { status := .bad_binding, state := s }
  else if entrySsp s &&& 1 ≠ 0 then { status := .stack_invalid, state := s }
  else if !validated.1 then { status := .stack_invalid, state := { s with machine := validated.2 } }
  else if resolved.1 ≠ .handler then
    { status := .vector_unavailable, state := { s with machine := resolved.2.2 } }
  else
    { status := .ok
      state := { s with
        inactiveSp := if supervisor s.sr then s.inactiveSp else s.activeSp
        activeSp := frameBase
        sr := ((s.sr &&& srKeepMask) ||| srForcedBits) &&& srImplemented
        pc := resolved.2.1
        machine := writeFrame hooks resolved.2.2 vector frameBase resolved.2.1 s.sr stackedPc }
      out := some resolved.2.1 }

/-- The two frame reads of RTE and RTR: the word at `sp`, then the long at `sp + 2`. -/
def readFrame (hooks : MachineHooks M) (m : M) (sp : BitVec 32) : Option (BitVec 32 × BitVec 32) × M :=
  let word := hooks.stackRead m sp 2
  match word.1 with
  | none => (none, word.2)
  | some savedSr =>
      let long := hooks.stackRead word.2 (sp + 2) 4
      match long.1 with
      | none => (none, long.2)
      | some savedPc => (some (savedSr, savedPc), long.2)

/-- The checks RTE and RTR share, then `commit` with the frame they read. -/
def popFrame (hooks : MachineHooks M) (s : State M) (commit : M → (savedWord savedPc : BitVec 32) → Outcome M) :
    Outcome M :=
  let validated := hooks.validateStackExtent s.machine s.activeSp exceptionFrameBytes .read
  let frame := readFrame hooks validated.2 s.activeSp
  if !hooks.bound then { status := .bad_binding, state := s }
  else if s.activeSp &&& 1 ≠ 0 then { status := .stack_invalid, state := s }
  else if !validated.1 then { status := .stack_invalid, state := { s with machine := validated.2 } }
  else
    match frame.1 with
    | none => { status := .access_failed, state := { s with machine := frame.2 } }
    | some (savedWord, savedPc) => commit frame.2 savedWord savedPc

def exceptionReturn (hooks : MachineHooks M) (s : State M) : Outcome M :=
  popFrame hooks s fun m savedSr savedPc =>
    let restoredSr := savedSr.setWidth 16 &&& srImplemented
    if restoredSr &&& srTrace ≠ 0 then { status := .trace_deferred, state := { s with machine := m } }
    else
      let next := s.activeSp + exceptionFrameBytes
      { status := .ok
        state := { s with
          activeSp := if supervisor restoredSr then next else s.inactiveSp
          inactiveSp := if supervisor restoredSr then s.inactiveSp else next
          sr := restoredSr
          pc := savedPc
          machine := match hooks.onExceptionReturn with
            | none => m
            | some notify => notify m s.activeSp }
        out := some savedPc }

def returnRestoreCcr (hooks : MachineHooks M) (s : State M) : Outcome M :=
  popFrame hooks s fun m savedCcr savedPc =>
    { status := .ok
      state := { s with
        sr := (s.sr &&& 0xFF00) ||| (savedCcr.setWidth 16 &&& 0x1F)
        activeSp := s.activeSp + exceptionFrameBytes
        pc := savedPc
        machine := m }
      out := some savedPc }

/-! Interrupts. -/

def vectorUninitializedInterrupt : BitVec 32 := 15
def vectorSpuriousInterrupt : BitVec 32 := 24

def interruptSample (state : InterruptState) (requestLevel : BitVec 32) : InterruptState :=
  let level := (requestLevel &&& 7).setWidth 8
  { state with
    level7EdgePending := if level = 7 ∧ state.sampledLevel ≠ 7 then true else state.level7EdgePending
    sampledLevel := level }

/-- The level recognized at this boundary under `sr`, 0 for none. -/
def interruptRecognizedLevel (state : InterruptState) (sr : BitVec 16) : BitVec 32 :=
  let mask := ((sr &&& srInterruptMask) >>> 8).setWidth 32
  if state.level7EdgePending then 7
  else if state.sampledLevel.setWidth 32 > mask then state.sampledLevel.setWidth 32
  else 0

inductive InterruptAcknowledge
  | autovector | supplied_vector | spurious | uninitialized
  deriving DecidableEq, Repr

/-- The vector of the machine's acknowledge answer, 0 when it is refused. -/
def interruptVector (acknowledge : InterruptAcknowledge) (level suppliedVector : BitVec 32) : BitVec 32 :=
  if level < 1 ∨ level > 7 then 0
  else
    match acknowledge with
    | .autovector => vectorSpuriousInterrupt + level
    | .supplied_vector => if suppliedVector ≥ 64 ∧ suppliedVector ≤ 255 then suppliedVector else 0
    | .spurious => vectorSpuriousInterrupt
    | .uninitialized => vectorUninitializedInterrupt

def interruptEnter (hooks : MachineHooks M) (s : State M) (level vector stackedPc : BitVec 32) : Outcome M :=
  if level < 1 ∨ level > 7 then { status := .bad_binding, state := s }
  else if vector = 0 then { status := .vector_unavailable, state := s }
  else
    let entered := exceptionEnter hooks s vector stackedPc (0xFFFF &&& ~~~(srTrace ||| srInterruptMask))
      (srSupervisor ||| (level <<< 8).setWidth 16)
    if entered.status ≠ .ok then entered
    else
      { entered with
        state := { entered.state with
          irq := { entered.state.irq with
            level7EdgePending := if level = 7 then false else entered.state.irq.level7EdgePending
            stopped := false } } }

end Segarecomp.M68k.ExceptionCore

import Mathlib.Data.BitVec
import Segarecomp.Z80.Decode

/-! The Z80 runtime that hosts a generated program: the state record, the host callbacks, the
instruction boundary and the dispatcher `z80_run`. An instruction body is a tree of bus accesses,
so that the host sees every access in order and at its cycle count. -/

namespace Segarecomp.Z80.Runtime

abbrev Byte := BitVec 8

inductive Z80Error
  | no_owner | mutable_code | unresolved_fetch_mapping | unknown_image_identity | excluded_form
  | im0_unsupported_acknowledge_byte | code_mismatch | unadmitted_pc
  deriving DecidableEq, Repr

inductive Z80Outcome
  | none | deadline | halted | prefix_lock
  | error (e : Z80Error)
  deriving DecidableEq, Repr

def Z80Outcome.isError : Z80Outcome → Bool
  | .error _ => true
  | _ => false

/-- The part of the state that instruction bodies read and write. -/
structure Core where
  a : Byte := 0xFF
  f : Byte := 0xFF
  b : Byte := 0xFF
  c : Byte := 0xFF
  d : Byte := 0xFF
  e : Byte := 0xFF
  h : Byte := 0xFF
  l : Byte := 0xFF
  a2 : Byte := 0xFF
  f2 : Byte := 0xFF
  b2 : Byte := 0xFF
  c2 : Byte := 0xFF
  d2 : Byte := 0xFF
  e2 : Byte := 0xFF
  h2 : Byte := 0xFF
  l2 : Byte := 0xFF
  ix : Addr := 0xFFFF
  iy : Addr := 0xFFFF
  sp : Addr := 0xFFFF
  pc : Addr := 0
  wz : Addr := 0xFFFF
  i : Byte := 0
  r : Byte := 0
  im : Byte := 0
  iff1 : Bool := false
  iff2 : Bool := false
  q : Byte := 0
  halted : Bool := false
  intDeferral : Bool := false
  ldAIr : Bool := false
  deriving DecidableEq, Repr

/-- The defaults are the contract's reset state. -/
structure Z80State extends Core where
  inPrefixRun : Bool := false
  intLine : Bool := false
  nmiPending : Bool := false
  nmiReject : Bool := false
  cycles : ℕ := 0
  deadline : ℕ := 0
  deriving DecidableEq, Repr

def z80Reset : Z80State := {}

/-! ## Host -/

inductive Access
  | read (address : Addr)
  | write (address : Addr) (value : Byte)
  | io_in (port : Addr)
  | io_out (port : Addr) (value : Byte)
  | interrupt_acknowledge
  deriving DecidableEq, Repr

/-- What a callback does to the processor besides answering: wait states, a stop at the next
boundary (the deadline lowered to 0), the INT level driven, an NMI edge raised. -/
structure Reply (H : Type) where
  host : H
  value : Byte := 0xFF
  wait : ℕ := 0
  stop : Bool := false
  intLine : Option Bool := none
  nmi : Bool := false

/-- `code` is what the code-image query and the code fetch show: all of the host that the
choice of a generated entry depends on. -/
structure Z80Host (H C : Type) where
  read : H → Addr → ℕ → Reply H
  write : H → Addr → Byte → ℕ → Reply H
  ioIn : H → Addr → ℕ → Reply H
  ioOut : H → Addr → Byte → ℕ → Reply H
  interruptAcknowledge : H → ℕ → Reply H
  code : H → C

def Z80Host.serve {H C : Type} (host : Z80Host H C) (h : H) (cycles : ℕ) : Access → Reply H
  | .read address => host.read h address cycles
  | .write address value => host.write h address value cycles
  | .io_in port => host.ioIn h port cycles
  | .io_out port value => host.ioOut h port value cycles
  | .interrupt_acknowledge => host.interruptAcknowledge h cycles

/-- An instruction that begins executing, as an execution observer finds it. -/
structure Start where
  pc : Addr
  cycles : ℕ
  intLine : Bool
  deriving DecidableEq, Repr

structure Z80Runtime (H : Type) where
  state : Z80State
  host : H
  outcome : Z80Outcome := .none
  observed : List Start := []
  deriving DecidableEq

inductive Bus (α : Type)
  | done (result : α)
  | access (request : Access) (next : Byte → Bus α)

variable {H C α : Type}

def Reply.apply (reply : Reply H) (rt : Z80Runtime H) : Z80Runtime H :=
  let s := rt.state
  { rt with
    host := reply.host
    state := { s with
      cycles := s.cycles + reply.wait
      deadline := if reply.stop then 0 else s.deadline
      intLine := reply.intLine.getD s.intLine
      nmiPending := s.nmiPending || reply.nmi } }

def Bus.run (host : Z80Host H C) : Bus α → Z80Runtime H → α × Z80Runtime H
  | .done result, rt => (result, rt)
  | .access request next, rt =>
      let reply := host.serve rt.host rt.state.cycles request
      (next reply.value).run host (reply.apply rt)

/-! ## Generated programs -/

abbrev TStates := { n : ℕ // 0 < n }

abbrev Instruction := Core → Bus (Core × TStates)

/-- What the dispatcher finds at a program counter: no owner, an entry that is a typed stub (of
a RAM-backed image or not), an endless prefix run, or an instruction. -/
inductive Entry
  | reject (e : Z80Error)
  | stub (live : Bool) (e : Z80Error)
  | lock
  | instr (body : Instruction)

/-- A prefix lock is an endless run of prefixes, so its next fetch is in it as well. -/
structure Program (C : Type) where
  entry : C → Addr → Entry
  lock_next : ∀ c pc, entry c pc = .lock → entry c (pc + 1) = .lock

/-! ## The instruction boundary -/

def z80RAdd (r : Byte) (count : ℕ) : Byte :=
  (r &&& 0x80) ||| ((r + BitVec.ofNat 8 count) &&& 0x7F)

def flagPv : Byte := 0x04

def z80OwnerBoundary (s : Z80State) : Bool :=
  decide (s.deadline ≤ s.cycles) || s.nmiPending || s.nmiReject ||
    (s.intLine && s.iff1 && !s.intDeferral)

def z80OwnerBegin (s : Z80State) : Z80State := { s with intDeferral := false, ldAIr := false }

/-- The rest of the owner prologue: the observer is told, the one-boundary bits are cleared. -/
def z80OwnerStart (rt : Z80Runtime H) : Z80Runtime H :=
  let s := rt.state
  { rt with state := z80OwnerBegin s, observed := rt.observed ++ [⟨s.pc, s.cycles, s.intLine⟩] }

/-- One prefix per 4 T-states and one M1 each, until the deadline. -/
def z80LockRun (rt : Z80Runtime H) : Z80Runtime H :=
  let s := rt.state
  let count := (s.deadline - s.cycles + 3) / 4
  { rt with
    state := { s with
      cycles := s.cycles + 4 * count
      r := z80RAdd s.r count
      pc := s.pc + BitVec.ofNat 16 count }
    outcome := .prefix_lock }

def z80AcceptCommon (c : Core) : Core :=
  { c with halted := false, intDeferral := false, ldAIr := false, q := 0, r := z80RAdd c.r 1 }

/-- The high byte at SP - 1 first, then the low byte at SP - 2. -/
def z80Push16 (c : Core) (value : Addr) (next : Core → Bus α) : Bus α :=
  let c := { c with sp := c.sp - 2 }
  .access (.write (c.sp + 1) (value.extractLsb' 8 8)) fun _ =>
    .access (.write c.sp (value.extractLsb' 0 8)) fun _ => next c

def z80Read16 (address : Addr) (next : Addr → Bus α) : Bus α :=
  .access (.read address) fun low =>
    .access (.read (address + 1)) fun high => next (high ++ low)

def nmiResponse : Instruction := fun c =>
  z80Push16 (z80AcceptCommon { c with iff1 := false }) c.pc fun c =>
    .done ({ c with pc := 0x0066, wz := 0x0066 }, ⟨11, by decide⟩)

/-- Every mode performs the acknowledge; IM0 admits the eight RST opcodes only. -/
def intResponse (c : Core) : Bus (Option (Core × TStates)) :=
  .access .interrupt_acknowledge fun byte =>
    if c.im = 0 ∧ byte &&& 0xC7 ≠ 0xC7 then .done none
    else
      let f := if c.ldAIr then c.f &&& ~~~flagPv else c.f
      let taken := z80AcceptCommon { c with iff1 := false, iff2 := false, f := f }
      z80Push16 taken c.pc fun c =>
        if c.im = 1 then .done (some ({ c with pc := 0x0038, wz := 0x0038 }, ⟨13, by decide⟩))
        else if c.im = 2 then
          z80Read16 (c.i ++ byte) fun target =>
            .done (some ({ c with pc := target, wz := target }, ⟨19, by decide⟩))
        else
          let target : Addr := (byte &&& 0x38).setWidth 16
          .done (some ({ c with pc := target, wz := target }, ⟨13, by decide⟩))

def finish (rt : Z80Runtime H) (result : Core × TStates) : Z80Runtime H :=
  { rt with state := { rt.state with toCore := result.1, cycles := rt.state.cycles + result.2.1 } }

def perform (host : Z80Host H C) (rt : Z80Runtime H) (body : Instruction) : Z80Runtime H :=
  let (result, rt) := (body rt.state.toCore).run host rt
  finish rt result

def z80AcceptNmi (host : Z80Host H C) (rt : Z80Runtime H) : Z80Runtime H :=
  perform host { rt with state := { rt.state with nmiPending := false, nmiReject := true } } nmiResponse

/-- What `z80_boundary` answers: `leave` returns from `z80_run`, `again` re-evaluates the
boundary after an interrupt response, `enter` runs the owner at the program counter. -/
inductive Boundary
  | leave | again | enter
  deriving DecidableEq, Repr

def z80AcceptInt (host : Z80Host H C) (rt : Z80Runtime H) : Boundary × Z80Runtime H :=
  match (intResponse rt.state.toCore).run host rt with
  | (none, rt) => (.leave, { rt with outcome := .error .im0_unsupported_acknowledge_byte })
  | (some result, rt) => (.again, finish rt result)

def z80HaltRun (rt : Z80Runtime H) : Z80Runtime H :=
  let s := rt.state
  let count := (s.deadline - s.cycles + 3) / 4
  { rt with
    state := { s with cycles := s.cycles + 4 * count, r := z80RAdd s.r count }
    outcome := .halted }

/-- The outcome of a run that ends at a boundary because of its deadline. -/
def idleOutcome (s : Z80State) : Z80Outcome :=
  if s.inPrefixRun then .prefix_lock else if s.halted then .halted else .deadline

def z80Boundary (host : Z80Host H C) (rt : Z80Runtime H) : Boundary × Z80Runtime H :=
  let s := rt.state
  let halt (rt : Z80Runtime H) : Boundary × Z80Runtime H :=
    if rt.state.halted then (.leave, z80HaltRun rt) else (.enter, rt)
  if s.deadline ≤ s.cycles then (.leave, { rt with outcome := idleOutcome s })
  else if s.inPrefixRun then (.enter, rt)
  else if s.nmiReject then
    halt { rt with state := { s with nmiReject := false, nmiPending := false } }
  else if s.nmiPending then (.again, z80AcceptNmi host rt)
  else if s.intLine && s.iff1 && !s.intDeferral then z80AcceptInt host rt
  else halt rt

/-! ## The dispatcher -/

def z80LockEnter (rt : Z80Runtime H) : Z80Runtime H :=
  let s := rt.state
  if s.inPrefixRun then if s.cycles < s.deadline then z80LockRun rt else rt
  else if z80OwnerBoundary s then rt
  else
    let rt := z80OwnerStart rt
    z80LockRun { rt with state := { rt.state with inPrefixRun := true } }

def z80Dispatch (program : Program C) (host : Z80Host H C) (rt : Z80Runtime H) : Z80Runtime H :=
  let s := rt.state
  match program.entry (host.code rt.host) s.pc with
  | .reject e => { rt with outcome := .error e }
  | .stub live e =>
      if z80OwnerBoundary s then rt
      else { (if live then rt else z80OwnerStart rt) with outcome := .error e }
  | .lock => z80LockEnter rt
  | .instr body =>
      if z80OwnerBoundary s then rt
      else perform host (z80OwnerStart rt) body

/-- One turn of the loop of `z80_run`, and whether the loop goes on. -/
def z80Turn (program : Program C) (host : Z80Host H C) (rt : Z80Runtime H) :
    Z80Runtime H × Bool :=
  match z80Boundary host rt with
  | (.leave, rt) => (rt, false)
  | (.again, rt) => (rt, true)
  | (.enter, rt) =>
      let rt := z80Dispatch program host rt
      (rt, decide (rt.outcome = .none))

def z80Loop (program : Program C) (host : Z80Host H C) : ℕ → Z80Runtime H → Z80Runtime H
  | 0, rt => rt
  | fuel + 1, rt =>
      match z80Turn program host rt with
      | (rt, true) => z80Loop program host fuel rt
      | (rt, false) => rt

def Z80Runtime.until (rt : Z80Runtime H) (deadline : ℕ) : Z80Runtime H :=
  { rt with state := { rt.state with deadline := deadline }, outcome := .none }

/-- A turn takes a T-state at least, or drops an NMI edge before one that does: twice the
distance to the deadline bounds the turns. -/
def z80Run (program : Program C) (host : Z80Host H C) (rt : Z80Runtime H) (deadline : ℕ) :
    Z80Runtime H :=
  z80Loop program host (2 * (deadline - rt.state.cycles) + 2) (rt.until deadline)

def nop : Instruction := fun c =>
  .done ({ c with r := z80RAdd c.r 1, pc := c.pc + 1, q := 0 }, ⟨4, by decide⟩)

end Segarecomp.Z80.Runtime

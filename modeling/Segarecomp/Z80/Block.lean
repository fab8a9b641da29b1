import Segarecomp.Z80.RuntimeRun

/-! The block transfer, search and I/O instructions. A repeating form executes one iteration per owner run and
sets the program counter back until its last. -/

namespace Segarecomp.Z80.Runtime

def Core.bc (s : Core) : Addr := s.b ++ s.c
def Core.de (s : Core) : Addr := s.d ++ s.e
def Core.hl (s : Core) : Addr := s.h ++ s.l

def Core.setBc (s : Core) (pv : Addr) : Core := { s with b := pv.extractLsb' 8 8, c := pv.extractLsb' 0 8 }
def Core.setDe (s : Core) (pv : Addr) : Core := { s with d := pv.extractLsb' 8 8, e := pv.extractLsb' 0 8 }
def Core.setHl (s : Core) (pv : Addr) : Core := { s with h := pv.extractLsb' 8 8, l := pv.extractLsb' 0 8 }

/-! ## The forms -/

def blockIncrement (m : Mnemonic) : Bool :=
  m == .ldi || m == .ldir || m == .cpi || m == .cpir || m == .ini || m == .inir || m == .outi || m == .otir

def blockRepeat (m : Mnemonic) : Bool :=
  m == .ldir || m == .lddr || m == .cpir || m == .cpdr || m == .inir || m == .indr || m == .otir || m == .otdr

def blockTransfer (m : Mnemonic) : Bool := m == .ldi || m == .ldd || m == .ldir || m == .lddr

def blockSearch (m : Mnemonic) : Bool := m == .cpi || m == .cpd || m == .cpir || m == .cpdr

def blockInput (m : Mnemonic) : Bool := m == .ini || m == .ind || m == .inir || m == .indr

/-- The increment or decrement of a form. -/
def blockStep (m : Mnemonic) {w : ℕ} (v : BitVec w) : BitVec w := if blockIncrement m then v + 1 else v - 1

/-- P/V set by an even number of ones. -/
def parityFlag (value : Byte) : Byte :=
  let pp := value ^^^ (value >>> 4)
  let pp := pp ^^^ (pp >>> 2)
  let pp := pp ^^^ (pp >>> 1)
  if pp &&& 1 ≠ 0 then 0 else 0x04

/-- Bits 5 and 3 of a repeating iteration: the high byte of the restart address. -/
def restartXy (restart : Addr) : Byte := restart.extractLsb' 8 8 &&& 0x28

/-- Bits 5 and 3 of an iteration that ends: bits 1 and 3 of a value. -/
def valueXy (value : Byte) : Byte := ((value &&& 2) <<< 4) ||| (value &&& 8)

/-! ## Flags and flow

What follows the bus accesses: `v` is the byte that was moved, `next` the address after the instruction. -/

def transferTail (m : Mnemonic) (next : Addr) (v : Byte) (s : Core) : Core :=
  let restart := next - 2
  let n := v + s.a
  let bcnz := s.b ||| s.c ≠ 0
  if blockRepeat m then
    if bcnz then { s with f := (s.f &&& 0xC1) ||| restartXy restart ||| 0x04, wz := restart + 1, pc := restart }
    else { s with f := (s.f &&& 0xC1) ||| valueXy n, pc := next }
  else { s with f := (s.f &&& 0xC1) ||| valueXy n ||| (if bcnz then 0x04 else 0), pc := next }

def searchTail (m : Mnemonic) (next : Addr) (v : Byte) (s : Core) : Core :=
  let restart := next - 2
  let t0 := s.a - v
  let hf := (s.a ^^^ v ^^^ t0) &&& 0x10
  let t1 := t0 - (hf >>> 4)
  let bcnz := s.b ||| s.c ≠ 0
  let f := (t0 &&& 0x80) ||| (if t0 = 0 then 0x40 else 0) ||| hf ||| (if bcnz then 0x04 else 0) ||| 0x02 |||
    (s.f &&& 0x01)
  if blockRepeat m then
    if t0 ≠ 0 ∧ bcnz then { s with f := f ||| restartXy restart, wz := restart + 1, pc := restart }
    else { s with f := f ||| valueXy t1, wz := blockStep m s.wz, pc := next }
  else { s with f := f ||| valueXy t1, wz := blockStep m s.wz, pc := next }

/-- `tt` is the nine-bit sum that the carry and the parity come from. -/
def ioTail (m : Mnemonic) (next : Addr) (v : Byte) (tt : ℕ) (s : Core) : Core :=
  let restart := next - 2
  let b := s.b
  let nf := (v >>> 6) &&& 2
  let hcf := 255 < tt
  let p := (BitVec.ofNat 8 tt &&& 7) ^^^ b
  if blockRepeat m then
    if b ≠ 0 then
      let f := (b &&& 0x80) ||| restartXy restart ||| nf
      let f :=
        if hcf then
          if nf ≠ 0 then
            f ||| 0x01 ||| (if b &&& 0x0F = 0 then 0x10 else 0) ||| parityFlag (p ^^^ ((b - 1) &&& 7))
          else f ||| 0x01 ||| (if b &&& 0x0F = 0x0F then 0x10 else 0) ||| parityFlag (p ^^^ ((b + 1) &&& 7))
        else f ||| parityFlag (p ^^^ (b &&& 7))
      { s with f := f, wz := restart + 1, pc := restart }
    else { s with f := 0x40 ||| (if hcf then 0x11 else 0) ||| parityFlag p ||| nf, pc := next }
  else
    { s with
      f := (b &&& 0xA8) ||| (if b = 0 then 0x40 else 0) ||| parityFlag p ||| (if hcf then 0x11 else 0) ||| nf
      pc := next }

/-! ## The owners -/

/-- Q, and the T-states of the path taken. -/
def blockDone (m : Mnemonic) (extra : ℕ) (next : Addr) (s : Core) : Bus (Core × TStates) :=
  .done ({ s with q := s.f },
    if blockRepeat m ∧ s.pc ≠ next then ⟨21 + 4 * extra, by omega⟩ else ⟨16 + 4 * extra, by omega⟩)

/-- The owner of a block instruction with `extra` ignored prefixes before it. -/
def lowerBlock (m : Mnemonic) (extra : ℕ) : Instruction := fun s =>
  let next := s.pc + BitVec.ofNat 16 (extra + 2)
  let s := { s with r := z80RAdd s.r (extra + 2) }
  if blockTransfer m then
    .access (.read s.hl) fun v =>
      .access (.write s.de v) fun _ =>
        let s := ((s.setHl (blockStep m s.hl)).setDe (blockStep m s.de)).setBc (s.bc - 1)
        blockDone m extra next (transferTail m next v s)
  else if blockSearch m then
    .access (.read s.hl) fun v =>
      let s := (s.setHl (blockStep m s.hl)).setBc (s.bc - 1)
      blockDone m extra next (searchTail m next v s)
  else if blockInput m then
    let port := s.bc
    .access (.io_in port) fun v =>
      let tt := v.toNat + (blockStep m s.c).toNat
      .access (.write s.hl v) fun _ =>
        let s := { s.setHl (blockStep m s.hl) with wz := blockStep m port, b := s.b - 1 }
        blockDone m extra next (ioTail m next v tt s)
  else
    .access (.read s.hl) fun v =>
      let s := s.setHl (blockStep m s.hl)
      let tt := v.toNat + s.l.toNat
      let s := { s with b := s.b - 1 }
      let port := s.bc
      .access (.io_out port v) fun _ => blockDone m extra next (ioTail m next v tt { s with wz := blockStep m port })

end Segarecomp.Z80.Runtime

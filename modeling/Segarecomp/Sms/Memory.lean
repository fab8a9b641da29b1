import Mathlib.Logic.Function.Basic
import Segarecomp.Z80.Runtime

/-! The Master System memory map, mapper and port decode. -/

namespace Segarecomp.Sms

open Z80 Z80.Runtime

inductive SmsError
  | control_bit_unsupported | unmapped_read | port_unimplemented | vdp_mode_unsupported
  | hcounter_unresolved | psg_data_before_latch
  deriving DecidableEq, Repr

/-- The first error and the access that caused it. -/
structure Latch where
  error : SmsError
  address : Addr
  value : Byte
  cycles : ℕ
  deriving DecidableEq, Repr

inductive MapperFamily
  | sega | rom_only
  deriving DecidableEq, Repr

structure Slot where
  windowBase : ℕ
  firstOffset : ℕ
  length : ℕ
  bankRegister : Fin 4
  deriving DecidableEq, Repr

def bankSize : ℕ := 0x4000

def slot0 : Slot := ⟨0x0000, 0x0400, 0x3C00, 1⟩
def slot1 : Slot := ⟨0x4000, 0x0000, 0x4000, 2⟩
def slot2 : Slot := ⟨0x8000, 0x0000, 0x4000, 3⟩

def segaSlots : List Slot := [slot0, slot1, slot2]

def Slot.holds (slot : Slot) (address : ℕ) : Bool :=
  decide (slot.windowBase ≤ address) &&
    decide (address < slot.windowBase + slot.firstOffset + slot.length)

structure CodeImage where
  identity : ℕ
  windowBase : Addr
  deriving DecidableEq, Repr

structure Memory where
  rom : ℕ → Byte
  romSize : ℕ
  family : MapperFamily
  ram : BitVec 13 → Byte
  cartRam : BitVec 15 → Byte
  mapperRegs : Fin 4 → Byte
  memoryControl : Byte := 0xAB
  error : Option Latch := none

namespace Memory

def latchError (m : Memory) (latch : Latch) : Memory :=
  { m with error := m.error.or (some latch) }

def bankSelect (m : Memory) (value : Byte) : ℕ := value.toNat &&& (m.romSize / bankSize - 1)

def cartRamInSlot2 (m : Memory) : Bool := m.mapperRegs 0 &&& 0x08 ≠ 0

def segaRomOffset (m : Memory) (address : ℕ) : Option ℕ :=
  if address < 0x400 then some address
  else if 0xC000 ≤ address then none
  else
    match segaSlots.find? (·.holds address) with
    | none => none
    | some slot =>
        if slot = slot2 ∧ m.cartRamInSlot2 then none
        else some (m.bankSelect (m.mapperRegs slot.bankRegister) * bankSize + (address - slot.windowBase))

def cartRamOffset (m : Memory) (address : Addr) : BitVec 15 :=
  BitVec.ofNat 15 ((if m.mapperRegs 0 &&& 0x04 ≠ 0 then bankSize else 0) + (address.toNat - 0x8000))

def read (m : Memory) (address : Addr) (cycles : ℕ) : Byte × Memory :=
  if m.error.isSome then (0xFF, m)
  else if 0xC000 ≤ address.toNat then (m.ram (address.setWidth 13), m)
  else
    match m.family with
    | .rom_only =>
        if address.toNat < 0x8000 then (m.rom address.toNat, m)
        else (0xFF, m.latchError ⟨.unmapped_read, address, 0xFF, cycles⟩)
    | .sega =>
        match m.segaRomOffset address.toNat with
        | none => (m.cartRam (m.cartRamOffset address), m)
        | some offset => (m.rom offset, m)

def writeRam (m : Memory) (address : Addr) (value : Byte) : Memory :=
  { m with ram := Function.update m.ram (address.setWidth 13) value }

def write (m : Memory) (address : Addr) (value : Byte) (cycles : ℕ) : Memory :=
  if m.error.isSome then m
  else if 0xC000 ≤ address.toNat then
    if m.family = .sega ∧ 0xFFFC ≤ address.toNat then
      if address.toNat = 0xFFFC ∧ (value &&& 0x10 ≠ 0 ∨ value &&& 0x03 ≠ 0) then
        m.latchError ⟨.control_bit_unsupported, address, value, cycles⟩
      else
        let register := Fin.ofNat 4 (address.toNat - 0xFFFC)
        { m with mapperRegs := Function.update m.mapperRegs register value }.writeRam address value
    else m.writeRam address value
  else if m.family = .sega ∧ 0x8000 ≤ address.toNat ∧ m.cartRamInSlot2 then
    { m with cartRam := Function.update m.cartRam (m.cartRamOffset address) value }
  else m

def mapperCodeImage (m : Memory) (address : Addr) : Option CodeImage :=
  match m.family with
  | .rom_only => if 0x8000 ≤ address.toNat then none else some ⟨1, 0⟩
  | .sega =>
      if 0xC000 ≤ address.toNat then none
      else if address.toNat < 0x400 then some ⟨1, 0⟩
      else
        match segaSlots.find? (·.holds address.toNat) with
        | none => none
        | some slot =>
            if slot = slot2 ∧ m.cartRamInSlot2 then none
            else some ⟨2 + m.bankSelect (m.mapperRegs slot.bankRegister), BitVec.ofNat 16 slot.windowBase⟩

def codeImage (m : Memory) (address : Addr) : Option CodeImage :=
  if m.error.isSome then none else m.mapperCodeImage address

/-- Port $3E: the cartridge and the work RAM enabled, the BIOS disabled, or a latched error. -/
def controlWrite (m : Memory) (port : Addr) (value : Byte) (cycles : ℕ) : Memory :=
  if m.error.isSome then m
  else if value &&& 0x40 ≠ 0 ∨ value &&& 0x10 ≠ 0 ∨ value &&& 0x08 = 0 then
    m.latchError ⟨.control_bit_unsupported, port, value, cycles⟩
  else { m with memoryControl := value }

def ioDisabled (m : Memory) : Bool := m.memoryControl &&& 0x04 ≠ 0

end Memory

/-! ## Ports -/

inductive PortClass
  | open_read | ignored_write | memory_control | io_control | psg | v_counter | h_counter
  | vdp_data | vdp_control | vdp_status | pad_dc | pad_dd
  deriving DecidableEq, Repr

inductive PortOwner
  | none | memory | vdp | psg | pad
  deriving DecidableEq, Repr

/-- Only A7, A6 and A0 matter. -/
def portDecode (port : Addr) (isWrite : Bool) : PortClass :=
  let row := port.toNat / 64 % 4
  let odd := port.toNat % 2 = 1
  if row = 0 then
    if isWrite then if odd then .io_control else .memory_control
    else .open_read
  else if row = 1 then
    if isWrite then .psg
    else if odd then .h_counter else .v_counter
  else if row = 2 then
    if odd then if isWrite then .vdp_control else .vdp_status
    else .vdp_data
  else if isWrite then .ignored_write
  else if odd then .pad_dd else .pad_dc

def portOwner : PortClass → PortOwner
  | .open_read | .ignored_write => .none
  | .memory_control => .memory
  | .io_control | .pad_dc | .pad_dd => .pad
  | .psg => .psg
  | .v_counter | .h_counter | .vdp_data | .vdp_control | .vdp_status => .vdp

end Segarecomp.Sms

import Segarecomp.Genesis.Route

/-! The serial EEPROM of a cartridge: two lines that BYTE accesses to one location set and read,
and what the device does at each change of them. -/

namespace Segarecomp.Genesis.Eeprom

open Schedule VdpPort Route

/-! ## The device -/

inductive Phase
  | idle
  /-- A read that the master has ended: nothing counts before STOP. -/
  | wait_stop
  | address | write | read
  deriving DecidableEq, Repr

def Phase.ordinal : Phase → ℕ
  | .idle => 0
  | .wait_stop => 1
  | .address => 2
  | .write => 3
  | .read => 4

structure SerialEepromState where
  sda : Bool
  scl : Bool
  oldSda : Bool
  oldScl : Bool
  phase : Phase
  cycles : ℕ
  read : Bool
  address : Byte
  buffer : Byte
  deriving DecidableEq, Repr

structure Device where
  eeprom : SerialEepromState
  storage : ℕ → Byte

def pageMask : Byte := 0x03

/-- The cell that an address register selects. -/
def cell (address : Byte) : ℕ := (address &&& 0x7F).toNat

def levelAt (sda : Bool) (place : ℕ) : Byte := (if sda then 1 else 0) <<< place

def sdaOut (d : Device) : Bool :=
  let e := d.eeprom
  if e.phase = .read then
    if e.cycles < 9 then (d.storage (cell e.address)).getLsbD (8 - e.cycles) else e.sda
  else if e.cycles = 9 ∧ (e.phase = .address ∨ e.phase = .write) then false
  else e.sda

/-- SCL falls: the bit counter advances. -/
def SerialEepromState.fall (e : SerialEepromState) : SerialEepromState :=
  if e.cycles < 9 then { e with cycles := e.cycles + 1 }
  else if e.phase = .address then
    { e with cycles := 1, phase := if e.read then .read else .write, buffer := 0 }
  else { e with cycles := 1 }

def Device.store (d : Device) : Device :=
  let e := d.eeprom
  { eeprom := { e with buffer := 0, address := e.address &&& ~~~pageMask ||| (e.address + 1) &&& pageMask },
    storage := Function.update d.storage (cell e.address) e.buffer }

/-- SCL rises: SDA is sampled. -/
def Device.rise (d : Device) : Device :=
  let e := d.eeprom
  match e.phase with
  | .address =>
      if e.cycles < 8 then { d with eeprom := { e with address := e.address ||| levelAt e.sda (7 - e.cycles) } }
      else if e.cycles = 8 then { d with eeprom := { e with read := e.sda } }
      else d
  | .write =>
      if e.cycles < 9 then { d with eeprom := { e with buffer := e.buffer ||| levelAt e.sda (8 - e.cycles) } }
      else d.store
  | .read =>
      if e.cycles = 9 then
        if e.sda then { d with eeprom := { e with phase := .wait_stop } }
        else { d with eeprom := { e with address := (e.address + 1) &&& 0x7F } }
      else d
  | _ => d

def Device.react (d : Device) : Device :=
  let e := d.eeprom
  let sclHigh := e.oldScl && e.scl
  if sclHigh && e.oldSda && !e.sda then
    -- START, but not while a STOP is waited for
    if e.phase ≠ .wait_stop then { d with eeprom := { e with cycles := 0, address := 0, phase := .address } } else d
  else if sclHigh && !e.oldSda && e.sda then { d with eeprom := { e with phase := .idle } }
  else if Phase.address.ordinal ≤ e.phase.ordinal then
    if e.oldScl && !e.scl then { d with eeprom := e.fall }
    else if !e.oldScl && e.scl then d.rise
    else d
  else d

def Device.update (d : Device) : Device :=
  let after := d.react
  { after with eeprom := { after.eeprom with oldScl := after.eeprom.scl, oldSda := after.eeprom.sda } }

/-- A BYTE access to the location: SDA on bit 0 both ways, SCL on bit 1. -/
def Device.access (d : Device) (a : Access) : BitVec 32 × Device :=
  match a.direction with
  | .read => ((if sdaOut d then 1 else 0) &&& 0x01, d)
  | .write =>
      (a.value, { d with eeprom := { d.eeprom with
        sda := decide (a.value &&& 0x01 ≠ 0), scl := decide (a.value &&& 0x02 ≠ 0) } }.update)

/-- The device at the place that the router keeps for it. -/
def attached {D : Type} (devices : SerialEepromState × D) (storage : ℕ → Byte) (a : Access) :
    BitVec 32 × (SerialEepromState × D) × (ℕ → Byte) :=
  let out := Device.access ⟨devices.1, storage⟩ a
  (out.1, (out.2.eeprom, devices.2), out.2.storage)

/-- What the router makes of a BYTE access to the declared location. -/
theorem sramAccess_attached {D : Type} (machine : Machine (SerialEepromState × D)) (sram : CartridgeSramConfig)
    (rest : Rest (SerialEepromState × D)) (a : Access) (storage : ℕ → Byte) (fitted : machine.eeprom = attached)
    (supported : sram.layoutSupported = true) (serial : sram.kind = .eeprom_x24c01)
    (placed : sram.classify a = .byte) (present : rest.cartridgeSramStorage = some storage) :
    sramAccess machine sram rest a =
      (.ok (Device.access ⟨rest.devices.1, storage⟩ a).1,
        { rest with
          devices := ((Device.access ⟨rest.devices.1, storage⟩ a).2.eeprom, rest.devices.2)
          cartridgeSramStorage := some (Device.access ⟨rest.devices.1, storage⟩ a).2.storage }) := by
  have declared : ¬sram.layoutSupported = false := by simp [supported]
  simp only [sramAccess, if_neg declared, placed, present, serial, fitted, attached]

/-! ## The lines -/

structure Lines where
  sda : Bool
  scl : Bool
  deriving DecidableEq, Repr

def Lines.value (l : Lines) : BitVec 32 := (if l.scl then 2 else 0) ||| (if l.sda then 1 else 0)

def sample (d : Device) : Bool := decide ((d.access { address := 0, width := .byte, direction := .read }).1 = 1)

def drive (d : Device) (l : Lines) : Device :=
  (d.access { address := 0, width := .byte, direction := .write, value := l.value }).2

theorem sample_eq (d : Device) : sample d = sdaOut d := by
  rw [sample, Device.access]
  cases sdaOut d <;> rfl

/-- What the device keeps besides the levels of its lines. -/
structure Core where
  phase : Phase
  cycles : ℕ
  read : Bool
  address : Byte
  buffer : Byte
  storage : ℕ → Byte

def Core.on (c : Core) (l : Lines) : Device :=
  ⟨⟨l.sda, l.scl, l.sda, l.scl, c.phase, c.cycles, c.read, c.address, c.buffer⟩, c.storage⟩

def Device.core (d : Device) : Core :=
  ⟨d.eeprom.phase, d.eeprom.cycles, d.eeprom.read, d.eeprom.address, d.eeprom.buffer, d.storage⟩

/-! ## What each change of the lines does -/

def Core.rise (c : Core) (sda : Bool) : Core := (c.on ⟨sda, true⟩).rise.core

def Core.fall (c : Core) : Core :=
  if Phase.address.ordinal ≤ c.phase.ordinal then
    Device.core ⟨(c.on ⟨false, false⟩).eeprom.fall, c.storage⟩
  else c

theorem value_sda (l : Lines) : decide (l.value &&& 0x01 ≠ 0) = l.sda := by
  rcases l with ⟨sda, scl⟩
  cases sda <;> cases scl <;> rfl

theorem value_scl (l : Lines) : decide (l.value &&& 0x02 ≠ 0) = l.scl := by
  rcases l with ⟨sda, scl⟩
  cases sda <;> cases scl <;> rfl

theorem drive_eq (d : Device) (l : Lines) :
    drive d l = { d with eeprom := { d.eeprom with sda := l.sda, scl := l.scl } }.update := by
  simp only [drive, Device.access, value_sda, value_scl]

theorem core_on (c : Core) (l : Lines) : (c.on l).core = c := rfl

theorem drive_low (c : Core) (x y : Bool) : drive (c.on ⟨x, false⟩) ⟨y, false⟩ = c.on ⟨y, false⟩ := by
  simp [drive_eq, Device.update, Device.react, Core.on]

theorem drive_held (c : Core) (x : Bool) : drive (c.on ⟨x, true⟩) ⟨x, true⟩ = c.on ⟨x, true⟩ := by
  cases x <;> simp [drive_eq, Device.update, Device.react, Core.on]

theorem drive_rise (c : Core) (x y : Bool) : drive (c.on ⟨x, false⟩) ⟨y, true⟩ = (c.rise y).on ⟨y, true⟩ := by
  rcases c with ⟨phase, cycles, read, address, buffer, storage⟩
  cases phase with
  | idle => cases y <;> rfl
  | wait_stop => cases y <;> rfl
  | address =>
    simp only [drive_eq, Device.update, Device.react, Core.on, Core.rise, Device.rise, Device.core, Phase.ordinal]
    by_cases early : cycles < 8
    · simp [early]
    · by_cases last : cycles = 8 <;> simp [early, last]
  | write =>
    simp only [drive_eq, Device.update, Device.react, Core.on, Core.rise, Device.rise, Device.core, Phase.ordinal,
      Device.store]
    by_cases early : cycles < 9 <;> simp [early]
  | read =>
    simp only [drive_eq, Device.update, Device.react, Core.on, Core.rise, Device.rise, Device.core, Phase.ordinal]
    by_cases last : cycles = 9
    · cases y <;> simp [last]
    · simp [last]

theorem drive_fall (c : Core) (x y : Bool) : drive (c.on ⟨x, true⟩) ⟨y, false⟩ = c.fall.on ⟨y, false⟩ := by
  rcases c with ⟨phase, cycles, read, address, buffer, storage⟩
  simp only [drive_eq, Device.update, Device.react, Core.on, Core.fall, SerialEepromState.fall, Device.core]
  by_cases early : cycles < 9
  · cases phase <;> simp [early, Phase.ordinal]
  · cases phase <;> cases read <;> simp [early, Phase.ordinal]

theorem drive_start (c : Core) (ready : c.phase ≠ .wait_stop) :
    drive (c.on ⟨true, true⟩) ⟨false, true⟩ =
      Core.on { c with cycles := 0, address := 0, phase := .address } ⟨false, true⟩ := by
  simp [drive_eq, Device.update, Device.react, Core.on, ready]

theorem drive_stop (c : Core) :
    drive (c.on ⟨false, true⟩) ⟨true, true⟩ = Core.on { c with phase := .idle } ⟨true, true⟩ := by
  simp [drive_eq, Device.update, Device.react, Core.on]

/-- Before a START an idle device follows the lines without a change. -/
theorem drive_idle (d : Device) (l : Lines) (idle : d.eeprom.phase = .idle) (quiet : l.sda = true ∨ l.scl = false) :
    drive d l = d.core.on l := by
  rcases d with ⟨⟨sda, scl, oldSda, oldScl, phase, cycles, read, address, buffer⟩, storage⟩
  rcases l with ⟨data, clock⟩
  subst idle
  rw [drive_eq]
  cases data <;> cases clock <;> cases oldSda <;> cases oldScl <;> first | rfl | simp at quiet

end Segarecomp.Genesis.Eeprom

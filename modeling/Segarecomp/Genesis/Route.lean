import Segarecomp.Genesis.VdpPort

/-! The access router of the 68000: work RAM, the cartridge with its save memory, the VDP and the
other devices, which are a parameter. A WORD read of memory is what a transfer's source read is. -/

namespace Segarecomp.Genesis.Route

open Schedule VdpPort
open Z80Machine (OwnedRegion)

variable {D F : Type}

/-! ## Routes and their recorders -/

inductive Region
  | controller_io | psg | ym2612 | vdp | z80_bus | z80_ram_window
  deriving DecidableEq, Repr

structure Effect where
  width : Width
  address : BitVec 32
  value : BitVec 32
  deriving DecidableEq, Repr

structure M68kCheckpoint where
  enabled : Bool := false
  effects : List Effect := []
  unsupportedForComparison : Bool := false
  deriving DecidableEq, Repr

structure DeviceCheckpoint where
  enabled : Bool := false
  memDirty : Bool := false
  events : List (Region × Effect) := []
  unsupportedForComparison : Bool := false
  deriving DecidableEq, Repr

structure ExecutionHistory where
  detailEnabled : Bool := false
  accesses : List (Region × Width × Direction) := []
  deriving DecidableEq, Repr

structure Recorders where
  m68kCheckpoint : M68kCheckpoint := {}
  deviceCheckpoint : DeviceCheckpoint := {}
  executionHistory : ExecutionHistory := {}
  deriving DecidableEq, Repr

inductive CartridgeKind
  | sram | eeprom_x24c01
  deriving DecidableEq, Repr

structure CartridgeSramConfig where
  start : BitVec 32
  stop : BitVec 32
  laneOdd : Bool
  storageBytes : ℕ
  layoutSupported : Bool
  alwaysMapped : Bool
  kind : CartridgeKind
  deriving DecidableEq, Repr

/-- The machine behind the screen; `devices` is what the router does not look into. -/
structure Rest (D : Type) where
  workRam : BitVec 16 → Byte
  cartridgeSramControl : Byte := 0
  cartridgeSramStorage : Option (ℕ → Byte) := none
  vblankStatusReadCount : BitVec 32 := 0
  recorders : Recorders := {}
  devices : D

abbrev Runtime (D F : Type) := GenesisRuntime (Rest D) F

abbrev Answer := Except RuntimeStop (BitVec 32)

/-- What a program is built with and what it is attached to. `eeprom` answers the BYTE accesses of
a serial EEPROM; `device` answers every address that is neither memory nor the VDP and may run the
Z80 up to the time of the access, which the last part of its answer is. -/
structure Machine (D : Type) where
  ownedRegions : List OwnedRegion := []
  emptyUpperSlot : Bool := false
  cartridgeSram : Option CartridgeSramConfig := none
  eeprom : D → (storage : ℕ → Byte) → Access → BitVec 32 × D × (ℕ → Byte)
  device : Rest D → (masterTicks z80SyncedTicks : ℕ) → Access → Answer × Rest D × ℕ

def memoryStop (diagnostic : Diagnostic) : RuntimeStop := .guest .unsupported_memory_region diagnostic

def sramStop (diagnostic : Diagnostic) : RuntimeStop := .guest .unsupported_device_access diagnostic

/-! ## Memory -/

def workRamRead (ram : BitVec 16 → Byte) (address : BitVec 32) (bytes : ℕ) : BitVec 32 :=
  (List.range bytes).foldl
    (fun result index => result <<< 8 ||| (ram (address.setWidth 16 + BitVec.ofNat 16 index)).setWidth 32) 0

def workRamWrite (ram : BitVec 16 → Byte) (address value : BitVec 32) (bytes : ℕ) : BitVec 16 → Byte :=
  (List.range bytes).foldl
    (fun ram index =>
      Function.update ram (address.setWidth 16 + BitVec.ofNat 16 (bytes - 1 - index))
        ((value >>> (index * 8)).setWidth 8)) ram

inductive SramAccess
  | outside | byte | rejected
  deriving DecidableEq, Repr

def CartridgeSramConfig.classify (sram : CartridgeSramConfig) (a : Access) : SramAccess :=
  if sram.stop < a.address ∨ a.address.toNat + a.width.bytes ≤ sram.start.toNat then .outside
  else if a.width ≠ .byte ∨ a.address < sram.start ∨ (a.address &&& 1 ≠ 0) ≠ (sram.laneOdd = true) then .rejected
  else .byte

/-- The save memory that answers an access instead of the cartridge beneath it. -/
def overlay (machine : Machine D) (rest : Rest D) (a : Access) : Option CartridgeSramConfig :=
  machine.cartridgeSram.filter fun sram =>
    decide (0x200000 ≤ a.address) && decide (sram.classify a ≠ .outside) &&
      (sram.alwaysMapped || decide (rest.cartridgeSramControl &&& 0x01 ≠ 0) || !sram.layoutSupported)

def sramAccess (machine : Machine D) (sram : CartridgeSramConfig) (rest : Rest D) (a : Access) :
    Answer × Rest D :=
  if sram.layoutSupported = false then (.error (sramStop .unsupported_cartridge_sram_layout), rest)
  else
    match sram.classify a, rest.cartridgeSramStorage with
    | .byte, some storage =>
        match sram.kind with
        | .eeprom_x24c01 =>
            let out := machine.eeprom rest.devices storage a
            (.ok out.1, { rest with devices := out.2.1, cartridgeSramStorage := some out.2.2 })
        | .sram =>
            let index := (a.address.toNat - sram.start.toNat) / 2
            if sram.storageBytes ≤ index then (.error (sramStop .unsupported_cartridge_sram_access), rest)
            else
              match a.direction with
              | .read => (.ok ((storage index).setWidth 32), rest)
              | .write =>
                  -- a write-protected store is ignored
                  if rest.cartridgeSramControl &&& 0x02 ≠ 0 then (.ok a.value, rest)
                  else
                    (.ok a.value, { rest with
                      cartridgeSramStorage := some (Function.update storage index (a.value.setWidth 8)) })
    | _, _ => (.error (sramStop .unsupported_cartridge_sram_access), rest)

def regionRead (region : OwnedRegion) (address bytes : ℕ) : BitVec 32 :=
  (List.range bytes).foldl
    (fun result index => result <<< 8 ||| (region.data (address - region.start + index)).setWidth 32) 0

def slotRead (bytes : ℕ) : BitVec 32 := (List.range bytes).foldl (fun result _ => result <<< 8 ||| 0xFF) 0

/-- A read of the cartridge: an embedded data region, or the empty upper slot. -/
def cartridgeRead (machine : Machine D) (address bytes : ℕ) : Option (BitVec 32) :=
  match machine.ownedRegions.find? fun region =>
      decide (region.start < region.stop) && region.length == region.stop - region.start &&
        decide (region.start ≤ address) && decide (address < region.stop) &&
        decide (bytes ≤ region.stop - address) with
  | some region => some (regionRead region address bytes)
  | none =>
      if machine.emptyUpperSlot ∧ 0x200000 ≤ address ∧ address < 0x400000 ∧ bytes ≤ 0x400000 - address then
        some (slotRead bytes)
      else none

def cartridgeAccess (machine : Machine D) (rest : Rest D) (a : Access) : Answer × Rest D :=
  match overlay machine rest a with
  | some sram => sramAccess machine sram rest a
  | none =>
      match a.direction with
      | .write => (.error (memoryStop .rom_write_prohibited), rest)
      | .read =>
          match cartridgeRead machine a.address.toNat a.width.bytes with
          | some value => (.ok value, rest)
          | none => (.error internalStop, rest)

def isMemory (a : Access) : Bool := inWorkRam a.address a.width.bytes || decide (a.address.toNat < 0x400000)

/-- The memory half of the router. -/
def memoryAccess (machine : Machine D) (rest : Rest D) (a : Access) : Answer × Rest D :=
  if inWorkRam a.address a.width.bytes then
    match a.direction with
    | .read => (.ok (workRamRead rest.workRam a.address a.width.bytes), rest)
    | .write =>
        (.ok a.value, { rest with workRam := workRamWrite rest.workRam a.address a.value a.width.bytes })
  else cartridgeAccess machine rest a

/-- An address the router refuses before it looks where it leads. -/
def malformed (a : Access) : Option RuntimeStop :=
  if a.address &&& 0xFF000000 ≠ 0 then some (memoryStop .effective_address_not_24bit)
  else if 1 < a.width.bytes ∧ a.address &&& 1 ≠ 0 then some (memoryStop .odd_effective_address)
  else none

/-- The WORD read of a routable source. -/
def sourceRead (machine : Machine D) (rest : Rest D) : SourceRead := fun address =>
  let a : Access := { address := address, width := .word, direction := .read }
  match malformed a with
  | some stop => .error stop
  | none => (memoryAccess machine rest a).1

/-! ## The VDP -/

def isVdpRegion (address : BitVec 32) : Bool := 0xC00000 ≤ address && address ≤ 0xC0001F

def isPsgPort (address : BitVec 32) : Bool := address ∈ ([0xC00011, 0xC00013, 0xC00015, 0xC00017] : List (BitVec 32))

/-- A BYTE write to an even address of the PSG window is accepted and discarded. -/
def isDiscardedPsgWrite (a : Access) : Bool :=
  a.width = .byte && a.direction = .write && 0xC00010 ≤ a.address && a.address ≤ 0xC00016 && a.address &&& 1 = 0

def countStatusRead (rest : Rest D) (a : Access) : Rest D :=
  if isStatusReadShape a then { rest with vblankStatusReadCount := rest.vblankStatusReadCount + 1 } else rest

/-- The halves of a LONG control write, each with its transfer, the high one first. -/
def controlPortWriteLong (read : SourceRead) (s : Screen F) (value : BitVec 32) : Except RuntimeStop Unit × Screen F :=
  match controlPortWriteWordAndSuspend read s (halfHigh value) with
  | (.error stop, s) => (.error stop, s)
  | (.ok _, s) => controlPortWriteWordAndSuspend read s (halfLow value)

/-- The answer of the VDP to an access that is not a LONG control write. -/
def vdpAccess (s : Screen F) (a : Access) : Option (BitVec 32) × Screen F :=
  match a.direction with
  | .read => vdpRead s a
  | .write => if (vdpWrite s a).1 then (some a.value, (vdpWrite s a).2) else (none, (vdpWrite s a).2)

def isLongControlWrite (a : Access) : Bool :=
  a.direction = .write && a.width = .long && a.address = 0xC00004

/-- What a status read progresses before it answers. -/
def progressed (read : SourceRead) (s : Screen F) (a : Access) : Except RuntimeStop (Screen F) :=
  if isStatusReadShape a then progressDma read s else .ok s

def routeVdp (machine : Machine D) (r : Runtime D F) (a : Access) : Answer × Runtime D F :=
  let read := sourceRead machine r.rest
  match progressed read r.toScreen a with
  | .error stop => (.error stop, r)
  | .ok s =>
      if isLongControlWrite a then
        let out := controlPortWriteLong read s a.value
        (out.1.map fun _ => a.value, { r with toScreen := out.2 })
      else
        match vdpAccess s a with
        | (none, s) => (.error deviceStop, { r with toScreen := s })
        | (some value, s) =>
            let out := drainMemoryToVdpDma read s
            (out.1.map fun _ => value, { r with toScreen := out.2, rest := countStatusRead r.rest a })

/-! ## The router -/

def routeDevice (machine : Machine D) (r : Runtime D F) (a : Access) : Answer × Runtime D F :=
  let out := machine.device r.rest r.masterTicks r.z80SyncedTicks a
  (out.1, { r with rest := out.2.1, z80SyncedTicks := out.2.2 })

def routeAccessUnrecorded (machine : Machine D) (r : Runtime D F) (a : Access) : Answer × Runtime D F :=
  match malformed a with
  | some stop => (.error stop, r)
  | none =>
      if isMemory a then
        let out := memoryAccess machine r.rest a
        (out.1, { r with rest := out.2 })
      else if isDiscardedPsgWrite a then (.ok a.value, r)
      else if isVdpRegion a.address && !isPsgPort a.address then routeVdp machine r a
      else routeDevice machine r a

def deviceRegion (address : BitVec 32) : Option Region :=
  if address < 0x400000 ∨ inWorkRam address 1 then none
  else if 0xA10000 ≤ address ∧ address < 0xA10020 then some .controller_io
  else if isPsgPort address then some .psg
  else if 0xA04000 ≤ address ∧ address < 0xA04004 then some .ym2612
  else if isVdpRegion address then some .vdp
  else if 0xA11100 ≤ address ∧ address < 0xA11300 then some .z80_bus
  else if (0xA00000 ≤ address ∧ address < 0xA04000) ∨ (0xA06000 ≤ address ∧ address < 0xA06100) then
    some .z80_ram_window
  else none

def noteM68kEffect (checkpoint : M68kCheckpoint) (effect : Effect) : M68kCheckpoint :=
  if 8 ≤ checkpoint.effects.length then { checkpoint with unsupportedForComparison := true }
  else { checkpoint with effects := checkpoint.effects ++ [effect] }

def noteDeviceEvent (checkpoint : DeviceCheckpoint) (region : Region) (effect : Effect) : DeviceCheckpoint :=
  if 8 ≤ checkpoint.events.length then { checkpoint with memDirty := true, unsupportedForComparison := true }
  else { checkpoint with memDirty := true, events := checkpoint.events ++ [(region, effect)] }

def effectValue (a : Access) : BitVec 32 :=
  match a.width with
  | .byte => a.value &&& 0xFF
  | .word => a.value &&& 0xFFFF
  | .long => a.value

/-- What an accepted access leaves with the recorders that are enabled. -/
def Recorders.note (recorders : Recorders) (a : Access) : Recorders :=
  let effect : Effect := { width := a.width, address := a.address, value := effectValue a }
  { m68kCheckpoint :=
      if recorders.m68kCheckpoint.enabled ∧ a.direction = .write then
        noteM68kEffect recorders.m68kCheckpoint effect
      else recorders.m68kCheckpoint
    deviceCheckpoint :=
      match deviceRegion a.address with
      | some region =>
          if recorders.deviceCheckpoint.enabled ∧ a.direction = .write then
            noteDeviceEvent recorders.deviceCheckpoint region effect
          else recorders.deviceCheckpoint
      | none => recorders.deviceCheckpoint
    executionHistory :=
      match deviceRegion a.address with
      | some region =>
          if recorders.executionHistory.detailEnabled then
            { recorders.executionHistory with
              accesses := recorders.executionHistory.accesses ++ [(region, a.width, a.direction)] }
          else recorders.executionHistory
      | none => recorders.executionHistory }

def recorded (r : Runtime D F) (a : Access) : Runtime D F :=
  { r with rest := { r.rest with recorders := r.rest.recorders.note a } }

/-- An access of the 68000. A read whose value the instruction discards is also accepted at the
write-only RESET register. -/
def routeAccess (machine : Machine D) (r : Runtime D F) (a : Access) (discarded : Bool := false) :
    Answer × Runtime D F :=
  if discarded ∧ a.direction = .read ∧ a.address = 0xA11200 ∧ a.width ≠ .long then (.ok 0, recorded r a)
  else
    match routeAccessUnrecorded machine r a with
    | (.ok value, r) => (.ok value, recorded r a)
    | (.error stop, r) => (.error stop, r)

end Segarecomp.Genesis.Route

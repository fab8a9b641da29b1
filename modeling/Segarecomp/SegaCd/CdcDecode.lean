import Segarecomp.Lib.Fallible
import Segarecomp.SegaCd.CdcHost

/-! One decoded block: written behind the end of the 16 KiB ring where it does not fit, and folded back.
The ledger of the sectors read and the log are left out. -/

namespace Segarecomp.SegaCd

open Lib Lib.Fallible

def SCD_CDC_BUFFER_BYTES : ℕ := 0x4000
def SCD_CDC_SLACK_BYTES : ℕ := 2352
def SCD_DECODER_ACTIVE_SUB_CYCLES : ℕ := 66750

def SCD_CTRL0_DECEN : Byte := 0x80
def SCD_CTRL0_AUTORQ : Byte := 0x10
def SCD_CTRL0_WRRQ : Byte := 0x04
def SCD_CTRL1_MODRQ : Byte := 0x08
def SCD_IFCTRL_DECIEN : Byte := 0x20

structure CdcHeader where
  minute : Byte := 0
  second : Byte := 0
  frame : Byte := 0
  mode : Byte := 0
  deriving DecidableEq, Repr

def CdcHeader.bytes (header : CdcHeader) : List Byte := [header.minute, header.second, header.frame, header.mode]

/-- The user data of a sector. -/
structure Sector where
  bytes : List Byte
  length : bytes.length = 2048

/-- What the drive has for the decoder: no sector, one that cannot be read, or one. -/
inductive SectorRead
  | nothing | failed | data (sector : Sector)

structure CdTrack where
  firstLba : ℕ
  sectorCount : ℕ
  type : ℕ

/-- The disc; `readUserData` answers `none` where the image cannot be read. -/
structure ScdDisc where
  tracks : List CdTrack
  readUserData : ℕ → Option Sector

/-- The machine with the registers of the decoder, the drive and its disc. -/
structure ScdDecoder extends ScdHost where
  ctrl0 : Byte := 0
  ctrl1 : Byte := 0
  head0 : CdcHeader := {}
  head1 : CdcHeader := {}
  stat2 : Byte := 0
  stat3 : Byte := 0
  pt : ℕ := 0
  wa : ℕ := 0
  disc : ScdDisc
  index : ℕ := 0
  lba : ℤ := 0

/-- Why a block is not decoded: an access behind the slack of the buffer, or the typed stop. -/
inductive DecodeFault
  | outsideBuffer | cdReadFailed
  deriving DecidableEq, Repr

def storeBytes (offset : ℕ) (bytes : List Byte) (buffer : ℕ → Byte) : ℕ → Byte :=
  fun a => if offset ≤ a ∧ a < offset + bytes.length then bytes.getD (a - offset) 0 else buffer a

/-- A copy into the buffer and its slack. -/
def copyIn (offset : ℕ) (bytes : List Byte) (buffer : ℕ → Byte) : Except DecodeFault (ℕ → Byte) :=
  if SCD_CDC_BUFFER_BYTES + SCD_CDC_SLACK_BYTES < offset + bytes.length then .error .outsideBuffer
  else .ok (storeBytes offset bytes buffer)

/-- The bytes `first`, …, `first + length - 1` of the buffer and its slack. -/
def copyOut (first length : ℕ) (buffer : ℕ → Byte) : Except DecodeFault (List Byte) :=
  if SCD_CDC_BUFFER_BYTES + SCD_CDC_SLACK_BYTES < first + length then .error .outsideBuffer
  else .ok ((List.range length).map fun i => buffer (first + i))

/-- An audio track, a position before the disc and one behind its tracks have no sector. -/
def sectorRead (d : ScdDecoder) : SectorRead :=
  match d.disc.tracks[d.index]? with
  | none => .nothing
  | some track =>
      if track.type = 2 ∨ d.lba < 0 then .nothing
      else
        match d.disc.readUserData d.lba.toNat with
        | none => .failed
        | some sector => .data sector

def scdCddReadData (d : ScdDecoder) (offset : ℕ) (buffer : ℕ → Byte) : Except DecodeFault (ℕ → Byte) :=
  match sectorRead d with
  | .nothing => .ok buffer
  | .failed => .error .cdReadFailed
  | .data sector => copyIn offset sector.bytes buffer

/-- The layout behind the header, and where it ends. -/
def writeLayout (d : ScdDecoder) (header : CdcHeader) (offset : ℕ) (buffer : ℕ → Byte) :
    Except DecodeFault ((ℕ → Byte) × ℕ) :=
  if header.mode = 0x01 then do
    let buffer ← scdCddReadData d offset buffer
    pure (buffer, offset + 2048)
  else if d.ctrl1 &&& SCD_CTRL1_MODRQ ≠ 0 then do
    let buffer ← scdCddReadData d (offset + 8) buffer
    let buffer ← copyIn offset d.head1.bytes buffer
    let buffer ← copyIn (offset + 4) d.head1.bytes buffer
    pure (buffer, offset + 2336)
  else do
    let buffer ← scdCddReadData d offset buffer
    pure (buffer, offset + 2328)

/-- The bytes behind the ring go to its start. -/
def foldBack (offset : ℕ) (buffer : ℕ → Byte) : Except DecodeFault (ℕ → Byte) :=
  if SCD_CDC_BUFFER_BYTES < offset then do
    let bytes ← copyOut SCD_CDC_BUFFER_BYTES (offset - SCD_CDC_BUFFER_BYTES) buffer
    copyIn 0 bytes buffer
  else pure buffer

/-- The header, the layout and the fold of a block at `pt`. -/
def writeBlock (d : ScdDecoder) (header : CdcHeader) (pt : ℕ) (buffer : ℕ → Byte) : Except DecodeFault (ℕ → Byte) := do
  let offset := pt &&& 0x3FFF
  let buffer ← copyIn offset header.bytes buffer
  let (buffer, offset) ← writeLayout d header (offset + 4) buffer
  foldBack offset buffer

/-- The registers and the interrupt of a block. -/
def blockDecoded (d : ScdDecoder) (header : CdcHeader) : ScdDecoder :=
  let d :=
    { d with
      head0 := header
      stat3 := 0
      cdc.ifstat := d.cdc.ifstat &&& ~~~SCD_IFSTAT_DECI
      cdc.decoderEnd := d.now + SCD_DECODER_ACTIVE_SUB_CYCLES * scdSubCycleTicks d.toScdMachine }
  if d.cdc.ifctrl &&& SCD_IFCTRL_DECIEN ≠ 0 then
    let m := if d.cdc.irq &&& SCD_IFSTAT_DTEI = 0 then scdCdcLevel5 d.toScdMachine else d.toScdMachine
    { d with toScdMachine := { m with cdc.irq := m.cdc.irq ||| SCD_IFSTAT_DECI } }
  else d

/-- PT and WA move on by a sector, however much of it is written. -/
def blockAdvanced (d : ScdDecoder) : ScdDecoder :=
  { d with pt := (d.pt + 2352) % 2 ^ 16, wa := (d.wa + 2352) % 2 ^ 16 }

def blockStat2 (d : ScdDecoder) (header : CdcHeader) : Byte :=
  if header.mode ≠ 0x01 ∧ d.ctrl0 &&& SCD_CTRL0_AUTORQ ≠ 0 then
    (d.ctrl1 &&& SCD_CTRL1_MODRQ) ||| ((d.head1.frame &&& 0x20) >>> 3)
  else d.stat2

def scdCdcDecode (d : ScdDecoder) (header : CdcHeader) : Except DecodeFault ScdDecoder :=
  if d.ctrl0 &&& SCD_CTRL0_DECEN = 0 then .ok d
  else
    let d := blockDecoded d header
    if d.ctrl0 &&& SCD_CTRL0_WRRQ = 0 then .ok d
    else
      let d := blockAdvanced d
      (writeBlock d header d.pt d.cdc.buffer).map fun buffer =>
        { d with cdc.buffer := buffer, stat2 := blockStat2 d header }

/-! ## Copies -/

section Copies

variable {buffer : ℕ → Byte} {bytes : List Byte} {offset a k : ℕ}

theorem storeBytes_inside (inside : k < bytes.length) : storeBytes offset bytes buffer (offset + k) = bytes.getD k 0 := by
  have within : offset ≤ offset + k ∧ offset + k < offset + bytes.length := ⟨Nat.le_add_right _ _, by omega⟩
  rw [storeBytes, if_pos within, Nat.add_sub_cancel_left]

theorem storeBytes_outside (outside : a < offset ∨ offset + bytes.length ≤ a) :
    storeBytes offset bytes buffer a = buffer a :=
  if_neg fun within => by omega

theorem copyIn_fits (fits : offset + bytes.length ≤ 18736) : copyIn offset bytes buffer = .ok (storeBytes offset bytes buffer) :=
  if_neg (Nat.not_lt.mpr fits)

theorem header_length (header : CdcHeader) : header.bytes.length = 4 := rfl

end Copies

/-! ## The block written behind the ring -/

/-- The bytes of a block, its header included. -/
def blockLength (d : ScdDecoder) (header : CdcHeader) : ℕ :=
  if header.mode = 0x01 then 2052 else if d.ctrl1 &&& SCD_CTRL1_MODRQ ≠ 0 then 2340 else 2332

/-- A block of Mode 1. -/
def blockBytes (header : CdcHeader) (sector : Sector) : List Byte := header.bytes ++ sector.bytes

theorem blockBytes_length (header : CdcHeader) (sector : Sector) : (blockBytes header sector).length = 2052 := by
  rw [blockBytes, List.length_append, header_length, sector.length]

theorem blockLength_le (d : ScdDecoder) (header : CdcHeader) : blockLength d header ≤ 2340 := by
  rw [blockLength]
  split_ifs <;> decide

/-- The ring with a block in it, as it lies before the fold: nothing else has changed. -/
structure Linear (d : ScdDecoder) (header : CdcHeader) (offset : ℕ) (buffer linear : ℕ → Byte) : Prop where
  outside : ∀ a, a < offset ∨ offset + blockLength d header ≤ a → linear a = buffer a
  mode1 : header.mode = 0x01 → ∀ sector, sectorRead d = .data sector → ∀ k < 2052,
    linear (offset + k) = (blockBytes header sector).getD k 0

section Blocks

variable {d : ScdDecoder} {header : CdcHeader} {offset : ℕ} {buffer : ℕ → Byte}

/-- The drive writes the sector it has, and nothing without one. -/
theorem scdCddReadData_ok (buffer : ℕ → Byte) (read : sectorRead d ≠ .failed) (fits : offset + 2048 ≤ 18736) :
    ∃ after, scdCddReadData d offset buffer = .ok after ∧
      (∀ a, a < offset ∨ offset + 2048 ≤ a → after a = buffer a) ∧
      ∀ sector, sectorRead d = .data sector → after = storeBytes offset sector.bytes buffer := by
  rw [scdCddReadData]
  cases found : sectorRead d with
  | failed => exact absurd found read
  | nothing => exact ⟨buffer, rfl, fun _ _ => rfl, fun _ other => by cases other⟩
  | data sector =>
      have length := sector.length
      refine ⟨_, copyIn_fits (by omega), ?_, ?_⟩
      · intro a outside
        exact storeBytes_outside (by omega)
      · intro other same
        cases same
        rfl

theorem scdCddReadData_failed (read : sectorRead d = .failed) : scdCddReadData d offset buffer = .error .cdReadFailed := by
  rw [scdCddReadData, read]

theorem writeLayout_linear (header : CdcHeader) (buffer : ℕ → Byte) (read : sectorRead d ≠ .failed) (start : offset < 16384) :
    ∃ linear, writeLayout d header (offset + 4) (storeBytes offset header.bytes buffer) =
        .ok (linear, offset + blockLength d header) ∧ Linear d header offset buffer linear := by
  have four := header_length header
  rw [writeLayout, blockLength]
  by_cases mode : header.mode = 0x01
  · have length : blockLength d header = 2052 := if_pos mode
    rcases scdCddReadData_ok (storeBytes offset header.bytes buffer) read (show offset + 4 + 2048 ≤ 18736 by omega) with
      ⟨after, done, frame, filled⟩
    rw [if_pos mode, if_pos mode, done]
    refine ⟨after, rfl, ⟨?_, ?_⟩⟩
    · intro a outside
      rw [frame a (by omega), storeBytes_outside (by omega)]
    · intro _ sector found k inside
      rw [filled sector found, blockBytes]
      by_cases head : k < 4
      · rw [storeBytes_outside (by omega), storeBytes_inside (by omega), List.getD_append _ _ _ _ (by omega)]
      · have place : offset + k = offset + 4 + (k - 4) := by omega
        have bytes := sector.length
        rw [place, storeBytes_inside (by omega), List.getD_append_right _ _ _ _ (by omega), four]
  · have other : ∀ {linear : ℕ → Byte}, header.mode = 0x01 → ∀ sector, sectorRead d = .data sector → ∀ k < 2052,
        linear (offset + k) = (blockBytes header sector).getD k 0 := fun same => absurd same mode
    rw [if_neg mode, if_neg mode]
    by_cases form : d.ctrl1 &&& SCD_CTRL1_MODRQ ≠ 0
    · have length : blockLength d header = 2340 := (if_neg mode).trans (if_pos form)
      have sub := header_length d.head1
      rcases scdCddReadData_ok (storeBytes offset header.bytes buffer) read
        (show offset + 4 + 8 + 2048 ≤ 18736 by omega) with ⟨after, done, frame, -⟩
      rw [if_pos form, if_pos form, done]
      refine ⟨storeBytes (offset + 4 + 4) d.head1.bytes (storeBytes (offset + 4) d.head1.bytes after), ?_, ⟨?_, other⟩⟩
      · have first : copyIn (offset + 4) d.head1.bytes after = _ := copyIn_fits (by omega)
        have second : copyIn (offset + 4 + 4) d.head1.bytes (storeBytes (offset + 4) d.head1.bytes after) = _ :=
          copyIn_fits (by omega)
        rw [ok_bind, first, ok_bind, second, ok_bind]
        rfl
      · intro a outside
        rw [storeBytes_outside (by omega), storeBytes_outside (by omega), frame a (by omega), storeBytes_outside (by omega)]
    · have length : blockLength d header = 2332 := (if_neg mode).trans (if_neg form)
      rcases scdCddReadData_ok (storeBytes offset header.bytes buffer) read (show offset + 4 + 2048 ≤ 18736 by omega) with
        ⟨after, done, frame, -⟩
      rw [if_neg form, if_neg form, done]
      refine ⟨after, rfl, ⟨?_, other⟩⟩
      intro a outside
      rw [frame a (by omega), storeBytes_outside (by omega)]

theorem writeLayout_failed (read : sectorRead d = .failed) : writeLayout d header offset buffer = .error .cdReadFailed := by
  rw [writeLayout]
  split_ifs
  · rw [scdCddReadData_failed read]
    rfl
  · rw [scdCddReadData_failed read]
    rfl
  · rw [scdCddReadData_failed read]
    rfl

/-- The fold moves what lies behind the ring to its start, and nothing else. -/
theorem foldBack_spec (buffer : ℕ → Byte) (fits : offset ≤ 18736) :
    foldBack offset buffer = .ok fun a => if a < offset - 16384 then buffer (16384 + a) else buffer a := by
  have size : SCD_CDC_BUFFER_BYTES = 16384 := rfl
  have slack : SCD_CDC_SLACK_BYTES = 2352 := rfl
  rw [foldBack, size]
  by_cases behind : 16384 < offset
  · have out : copyOut 16384 (offset - 16384) buffer =
        .ok ((List.range (offset - 16384)).map fun i => buffer (16384 + i)) := by
      rw [copyOut, if_neg (by omega)]
    have length : ((List.range (offset - 16384)).map fun i => buffer (16384 + i)).length = offset - 16384 := by
      rw [List.length_map, List.length_range]
    have content : ∀ a < offset - 16384,
        ((List.range (offset - 16384)).map fun i => buffer (16384 + i)).getD a 0 = buffer (16384 + a) := by
      intro a moved
      rw [List.getD_eq_getElem?_getD, List.getElem?_map, List.getElem?_range moved]
      rfl
    generalize ((List.range (offset - 16384)).map fun i => buffer (16384 + i)) = bytes at out length content
    have stored : (fun a => if a < offset - 16384 then buffer (16384 + a) else buffer a) = storeBytes 0 bytes buffer := by
      funext a
      by_cases moved : a < offset - 16384
      · rw [if_pos moved, ← content a moved, storeBytes, if_pos ⟨Nat.zero_le _, by omega⟩, Nat.sub_zero]
      · rw [if_neg moved, storeBytes_outside (by omega)]
    rw [if_pos behind, out, stored, ok_bind, copyIn_fits (by omega)]
  · have same : (fun a => if a < offset - 16384 then buffer (16384 + a) else buffer a) = buffer := by
      funext a
      rw [if_neg (by omega)]
    rw [if_neg behind, same]
    rfl

/-- Bytes of the ring from an address on, modulo its size. -/
def Rings (buffer : ℕ → Byte) (pt : ℕ) (bytes : List Byte) : Prop :=
  ∀ k < bytes.length, buffer ((pt + k) % 16384) = bytes.getD k 0

/-- What a block leaves in the ring. -/
structure Stored (d : ScdDecoder) (header : CdcHeader) (pt : ℕ) (buffer after : ℕ → Byte) : Prop where
  outside : ∀ a < 16384, (∀ k < blockLength d header, a ≠ (pt + k) % 16384) → after a = buffer a
  mode1 : header.mode = 0x01 → ∀ sector, sectorRead d = .data sector → Rings after pt (blockBytes header sector)

theorem writeBlock_stored (read : sectorRead d ≠ .failed) (pt : ℕ) :
    ∃ after, writeBlock d header pt buffer = .ok after ∧ Stored d header pt buffer after := by
  have mask : pt &&& 0x3FFF = pt % 16384 := Nat.and_two_pow_sub_one_eq_mod pt 14
  have start : pt % 16384 < 16384 := Nat.mod_lt _ (by decide)
  have small := blockLength_le d header
  have head : copyIn (pt % 16384) header.bytes buffer = .ok (storeBytes (pt % 16384) header.bytes buffer) :=
    copyIn_fits (by rw [header_length]; omega)
  rcases writeLayout_linear header buffer read start with ⟨linear, written, at_end⟩
  have folded := foldBack_spec linear (show pt % 16384 + blockLength d header ≤ 18736 by omega)
  refine ⟨fun a => if a < pt % 16384 + blockLength d header - 16384 then linear (16384 + a) else linear a, ?_, ⟨?_, ?_⟩⟩
  · rw [writeBlock, mask, head, ok_bind, written, ok_bind]
    exact folded
  · intro a inside apart
    split_ifs with moved
    · exact absurd (show a = (pt + (16384 + a - pt % 16384)) % 16384 by omega) (apart _ (by omega))
    · apply at_end.outside
      by_contra within
      exact apart (a - pt % 16384) (by omega) (by omega)
  · intro mode sector found k inside
    have length : blockLength d header = 2052 := if_pos mode
    rw [blockBytes_length] at inside
    have content := at_end.mode1 mode sector found k inside
    beta_reduce
    rw [length]
    by_cases ring : pt % 16384 + k < 16384
    · have place : (pt + k) % 16384 = pt % 16384 + k := by omega
      rw [place, if_neg (by omega), content]
    · have place : 16384 + (pt + k) % 16384 = pt % 16384 + k := by omega
      rw [if_pos (by omega), place, content]

theorem writeBlock_failed (read : sectorRead d = .failed) (pt : ℕ) : writeBlock d header pt buffer = .error .cdReadFailed := by
  have mask : pt &&& 0x3FFF = pt % 16384 := Nat.and_two_pow_sub_one_eq_mod pt 14
  have head : copyIn (pt % 16384) header.bytes buffer = .ok (storeBytes (pt % 16384) header.bytes buffer) :=
    copyIn_fits (by rw [header_length]; omega)
  rw [writeBlock, mask, head, ok_bind, writeLayout_failed read]
  rfl

end Blocks

/-! ## Transfers from the block -/

section Transfers

variable {buffer : ℕ → Byte} {bytes : List Byte} {pt k : ℕ}

/-- The bytes of a word lie side by side, so an even address reads the ring from its own byte. -/
theorem Rings.word (ring : Rings buffer pt bytes) (even : pt % 2 = 0) (inside : 2 * k + 1 < bytes.length) :
    buffer ((pt + 2 * k) &&& 0x3FFE) = bytes.getD (2 * k) 0 ∧
      buffer (((pt + 2 * k) &&& 0x3FFE) + 1) = bytes.getD (2 * k + 1) 0 := by
  have low : (pt + 2 * k) &&& 0x3FFE = (pt + 2 * k) % 16384 := by
    rw [land_src]
    omega
  have high : (pt + 2 * k) % 16384 + 1 = (pt + (2 * k + 1)) % 16384 := by omega
  rw [low, high]
  exact ⟨ring _ (by omega), ring _ inside⟩

variable {cpu : Cpu} {start h : ScdHost}

theorem host_reads_ring (transfer : HostTransfer cpu start h) (width : start.cdc.dbc < 2 ^ 16)
    (ring : Rings start.cdc.buffer start.cdc.dac bytes) (even : start.cdc.dac % 2 = 0) {ticks : List ℕ}
    (read : k < ticks.length) (counted : k < (hostBlock cpu start).words) (inside : 2 * k + 1 < bytes.length) :
    (hostRun h (ticks.map fun tick => (tick, .word cpu))).1[k]? =
      some (bytes.getD (2 * k) 0 ++ bytes.getD (2 * k + 1) 0).toNat := by
  have values := (hostRun_spec width (ticks.map fun tick => (tick, .word cpu)) (transfer.delivering width)).1
  have reads := (hostBlock cpu start).responses_reads ticks 0
  have pair := ring.word even inside
  have shown : (hostBlock cpu start).visible (0 + k) = bytes.getD (2 * k) 0 ++ bytes.getD (2 * k + 1) 0 := by
    rw [Nat.zero_add, visible_inside counted, HostBlock.word, bufferWord, ← pair.1, ← pair.2]
    rfl
  rw [values]
  change ((hostBlock cpu start).responses 0 (ticks.map fun tick => (tick, .word (hostBlock cpu start).destination)))[k]? = _
  rw [reads, List.getElem?_map, List.getElem?_range read, Option.map_some, shown]

/-- The place of the `j`th word of a transfer. -/
def dmaPlace (m : ScdMachine) (j : ℕ) : ℕ :=
  dmaAt m.cdc.dmaTarget ((m.cdc.dmaAddress <<< 3 + 2 * j) &&& dmaMask m.cdc.dmaTarget)

/-- The Word RAM mode the transfer was started for is the current one. -/
def dmaLive (m : ScdMachine) : Bool :=
  decide (m.cdc.dmaTarget = .twoM) == decide (m.ga.mode &&& SCD_MODE_1M = 0)

theorem dmaAt_apart {target : DmaTarget} {y i j : ℕ} (inside : i < dmaSpan target) (before : j < i) :
    dmaAt target ((y + 2 * j) &&& dmaMask target) + 2 ≤ dmaAt target ((y + 2 * i) &&& dmaMask target) ∨
      dmaAt target ((y + 2 * i) &&& dmaMask target) + 2 ≤ dmaAt target ((y + 2 * j) &&& dmaMask target) := by
  rw [land_dmaMask, land_dmaMask]
  have bank : ∀ b w : ℕ, scdBankOffset b (w * 2) = w * 4 + b * 2 := by
    intro b w
    rw [scdBankOffset, Nat.shiftRight_eq_div_pow, Nat.and_one_is_mod]
    omega
  cases target with
  | twoM =>
      change i < 131072 at inside
      simp only [dmaAt, dmaSpan]
      omega
  | bank0 =>
      change i < 65536 at inside
      simp only [dmaAt, dmaSpan, bank]
      omega
  | bank1 =>
      change i < 65536 at inside
      simp only [dmaAt, dmaSpan, bank]
      omega

/-- Every word of a transfer that does not lap its destination arrives. -/
theorem dmaWords_arrive {target : DmaTarget} (x y : ℕ) (ram : ℕ → Byte) {words j : ℕ} (span : words ≤ dmaSpan target)
    (inside : j < words) {b : ℕ} (byte : b < 2) :
    dmaWords true target buffer words (x &&& 0x3FFE) (y &&& dmaMask target) ram
        (dmaAt target ((y + 2 * j) &&& dmaMask target) + b) = buffer (((x + 2 * j) &&& 0x3FFE) + b) := by
  induction words with
  | zero => exact absurd inside (Nat.not_lt_zero j)
  | succ words ih =>
      rw [dmaWords_add words 1, dmaWords, dmaWords]
      simp only [if_true]
      rcases Nat.lt_succ_iff_lt_or_eq.mp inside with earlier | rfl
      · have apart := dmaAt_apart (y := y) (Nat.lt_of_succ_le span) earlier
        rw [Function.update_of_ne (by omega), Function.update_of_ne (by omega)]
        exact ih (Nat.le_of_succ_le span) earlier
      · rcases (show b = 0 ∨ b = 1 by omega) with rfl | rfl
        · rw [Function.update_of_ne (by omega), Nat.add_zero, Function.update_self, Nat.add_zero]
        · rw [Function.update_self]

theorem scdCdcTransferEnd_wordRam (m : ScdMachine) : (scdCdcTransferEnd m).wordRam = m.wordRam := by
  unfold scdCdcTransferEnd scdCdcLevel5 scdRaiseSubLevel
  dsimp only
  split_ifs <;> rfl

theorem dmaComplete_wordRam (m : ScdMachine) :
    (dmaComplete m).wordRam = dmaWords (dmaLive m) m.cdc.dmaTarget m.cdc.buffer ((m.cdc.dbc + 1) >>> 1)
      (m.cdc.dac &&& 0x3FFE) (m.cdc.dmaAddress <<< 3 &&& dmaMask m.cdc.dmaTarget) m.wordRam := by
  rw [dmaComplete, scdCdcDmaFinish]
  dsimp only
  rw [scdCdcTransferEnd_wordRam]
  rfl

/-- The bytes a finished DMA leaves in Word RAM from the start of a block. -/
theorem dma_moves_ring {m : ScdMachine} {now : ℕ} (running : m.cdc.dmaState = .running) (live : dmaLive m = true)
    (width : m.cdc.dbc < 2 ^ 16) (finished : m.cdc.dbc < dmaGroups m now)
    (ring : Rings m.cdc.buffer m.cdc.dac bytes) (even : m.cdc.dac % 2 = 0)
    (counted : 2 * k + 1 ≤ m.cdc.dbc) (inside : 2 * k + 1 < bytes.length) :
    (scdCdcDmaSync now m).wordRam (dmaPlace m k) = bytes.getD (2 * k) 0 ∧
      (scdCdcDmaSync now m).wordRam (dmaPlace m k + 1) = bytes.getD (2 * k + 1) 0 := by
  have words : (m.cdc.dbc + 1) >>> 1 = (m.cdc.dbc + 1) / 2 := Nat.shiftRight_eq_div_pow _ 1
  have wide : 65536 ≤ dmaSpan m.cdc.dmaTarget := by cases m.cdc.dmaTarget <;> decide
  have span : (m.cdc.dbc + 1) / 2 ≤ dmaSpan m.cdc.dmaTarget := by omega
  have arrive : ∀ b < 2, dmaWords true m.cdc.dmaTarget m.cdc.buffer ((m.cdc.dbc + 1) / 2) (m.cdc.dac &&& 0x3FFE)
      (m.cdc.dmaAddress <<< 3 &&& dmaMask m.cdc.dmaTarget) m.wordRam
      (dmaAt m.cdc.dmaTarget ((m.cdc.dmaAddress <<< 3 + 2 * k) &&& dmaMask m.cdc.dmaTarget) + b) = _ :=
    fun b byte => dmaWords_arrive _ _ _ span (by omega) byte
  have pair := ring.word even inside
  rw [scdCdcDmaSync_complete running finished, dmaComplete_wordRam, live, words, dmaPlace]
  constructor
  · rw [← pair.1]
    exact arrive 0 (by decide)
  · rw [← pair.2]
    exact arrive 1 (by decide)

end Transfers

/-! ## The decoder -/

/-- The registers of a block leave alone what its writing depends on. -/
structure SameBlock (d d' : ScdDecoder) : Prop where
  ctrl0 : d'.ctrl0 = d.ctrl0
  ctrl1 : d'.ctrl1 = d.ctrl1
  pt : d'.pt = d.pt
  wa : d'.wa = d.wa
  read : sectorRead d' = sectorRead d
  buffer : d'.cdc.buffer = d.cdc.buffer

theorem blockDecoded_same (d : ScdDecoder) (header : CdcHeader) : SameBlock d (blockDecoded d header) := by
  rw [blockDecoded]
  dsimp only
  by_cases interrupt : d.cdc.ifctrl &&& SCD_IFCTRL_DECIEN ≠ 0
  · rw [if_pos interrupt]
    refine ⟨rfl, rfl, rfl, rfl, rfl, ?_⟩
    dsimp only [scdCdcLevel5, scdRaiseSubLevel]
    split_ifs <;> rfl
  · rw [if_neg interrupt]
    exact ⟨rfl, rfl, rfl, rfl, rfl, rfl⟩

theorem Stored.congr {d d' : ScdDecoder} {header : CdcHeader} {pt : ℕ} {buffer after : ℕ → Byte}
    (stored : Stored d' header pt buffer after) (ctrl1 : d'.ctrl1 = d.ctrl1) (read : sectorRead d' = sectorRead d) :
    Stored d header pt buffer after := by
  have length : blockLength d' header = blockLength d header := by rw [blockLength, blockLength, ctrl1]
  constructor
  · rw [← length]
    exact stored.outside
  · rw [← read]
    exact stored.mode1

theorem sectorRead_advanced (d : ScdDecoder) : sectorRead (blockAdvanced d) = sectorRead d := by
  unfold sectorRead blockAdvanced
  rfl

theorem ctrl1_advanced (d : ScdDecoder) : (blockAdvanced d).ctrl1 = d.ctrl1 := by
  unfold blockAdvanced
  rfl

theorem buffer_advanced (d : ScdDecoder) : (blockAdvanced d).cdc.buffer = d.cdc.buffer := by
  unfold blockAdvanced
  rfl

/-- A header reaches the end of its block, or the disc stops it; no access is behind the slack. -/
theorem scdCdcDecode_writes {d : ScdDecoder} (enabled : d.ctrl0 &&& SCD_CTRL0_DECEN ≠ 0)
    (requested : d.ctrl0 &&& SCD_CTRL0_WRRQ ≠ 0) (header : CdcHeader) :
    (sectorRead d = .failed → scdCdcDecode d header = .error .cdReadFailed) ∧
      (sectorRead d ≠ .failed → ∃ after, scdCdcDecode d header = .ok after ∧
        after.pt = (d.pt + 2352) % 2 ^ 16 ∧ after.wa = (d.wa + 2352) % 2 ^ 16 ∧
        Stored d header after.pt d.cdc.buffer after.cdc.buffer) := by
  have same := blockDecoded_same d header
  have read : sectorRead (blockAdvanced (blockDecoded d header)) = sectorRead d :=
    (sectorRead_advanced _).trans same.read
  have pt : (blockAdvanced (blockDecoded d header)).pt = (d.pt + 2352) % 2 ^ 16 := by
    rw [← same.pt]
    rfl
  have wa : (blockAdvanced (blockDecoded d header)).wa = (d.wa + 2352) % 2 ^ 16 := by
    rw [← same.wa]
    rfl
  have ctrl1 : (blockAdvanced (blockDecoded d header)).ctrl1 = d.ctrl1 :=
    (ctrl1_advanced _).trans same.ctrl1
  have buffer : (blockAdvanced (blockDecoded d header)).cdc.buffer = d.cdc.buffer :=
    (buffer_advanced _).trans same.buffer
  rw [scdCdcDecode, if_neg enabled]
  dsimp only
  rw [same.ctrl0, if_neg requested]
  generalize blockAdvanced (blockDecoded d header) = d' at read pt wa ctrl1 buffer ⊢
  constructor
  · intro failed
    rw [writeBlock_failed (read.trans failed)]
    rfl
  · intro delivered
    have block : ∃ after, writeBlock d' header d'.pt d'.cdc.buffer = .ok after ∧
        Stored d' header d'.pt d'.cdc.buffer after :=
      writeBlock_stored (read ▸ delivered) _
    rcases block with ⟨after, written, stored⟩
    rw [written]
    refine ⟨_, rfl, pt, wa, ?_⟩
    rw [← buffer]
    exact stored.congr ctrl1 read

/-- A decoded block lies in the ring from PT on, and from an even PT a transfer of any length delivers it. -/
theorem decoded_block_rings {d : ScdDecoder} (enabled : d.ctrl0 &&& SCD_CTRL0_DECEN ≠ 0)
    (requested : d.ctrl0 &&& SCD_CTRL0_WRRQ ≠ 0) (header : CdcHeader) :
    scdCdcDecode d header ≠ .error .outsideBuffer ∧
      (sectorRead d ≠ .failed → ∃ after, scdCdcDecode d header = .ok after ∧
        after.pt = (d.pt + 2352) % 2 ^ 16 ∧ after.wa = (d.wa + 2352) % 2 ^ 16 ∧
        (∀ a < 16384, (∀ k < blockLength d header, a ≠ (after.pt + k) % 16384) →
          after.cdc.buffer a = d.cdc.buffer a) ∧
        (header.mode = 0x01 → ∀ sector, sectorRead d = .data sector →
          (∀ k < 2052, after.cdc.buffer ((after.pt + k) % 16384) = (blockBytes header sector).getD k 0) ∧
          (after.pt % 2 = 0 →
            (∀ cpu start h, HostTransfer cpu start h → start.cdc.dbc < 2 ^ 16 →
              start.cdc.buffer = after.cdc.buffer → start.cdc.dac = after.pt →
                ∀ (ticks : List ℕ) (k : ℕ), k < ticks.length → k < (hostBlock cpu start).words → k < 1026 →
                  (hostRun h (ticks.map fun tick => (tick, .word cpu))).1[k]? =
                    some ((blockBytes header sector).getD (2 * k) 0 ++
                      (blockBytes header sector).getD (2 * k + 1) 0).toNat) ∧
            ∀ (m : ScdMachine) (now : ℕ), m.cdc.dmaState = .running → dmaLive m = true → m.cdc.dbc < 2 ^ 16 →
              m.cdc.dbc < dmaGroups m now → m.cdc.buffer = after.cdc.buffer → m.cdc.dac = after.pt →
                ∀ k < 1026, 2 * k + 1 ≤ m.cdc.dbc →
                  (scdCdcDmaSync now m).wordRam (dmaPlace m k) = (blockBytes header sector).getD (2 * k) 0 ∧
                    (scdCdcDmaSync now m).wordRam (dmaPlace m k + 1) =
                      (blockBytes header sector).getD (2 * k + 1) 0))) := by
  have writes := scdCdcDecode_writes enabled requested header
  constructor
  · by_cases failed : sectorRead d = .failed
    · rw [writes.1 failed]
      exact fun same => by cases same
    · rcases writes.2 failed with ⟨after, decoded, -⟩
      rw [decoded]
      exact fun same => by cases same
  · intro delivered
    rcases writes.2 delivered with ⟨after, decoded, pt, wa, stored⟩
    refine ⟨after, decoded, pt, wa, stored.outside, ?_⟩
    intro mode sector found
    have ring := stored.mode1 mode sector found
    have length := blockBytes_length header sector
    refine ⟨fun k inside => ring k (length ▸ inside), fun even => ⟨?_, ?_⟩⟩
    · intro cpu start h transfer width buffer dac ticks k read counted inside
      have here : Rings start.cdc.buffer start.cdc.dac (blockBytes header sector) := by
        rw [buffer, dac]
        exact ring
      exact host_reads_ring transfer width here (dac ▸ even) read counted (by omega)
    · intro m now running live width finished buffer dac k inside counted
      have here : Rings m.cdc.buffer m.cdc.dac (blockBytes header sector) := by
        rw [buffer, dac]
        exact ring
      exact dma_moves_ring running live width finished here (dac ▸ even) counted (by omega)

/-- A disc of one track whose sectors are all zero. -/
def zeroSector : Sector := ⟨List.replicate 2048 0, List.length_replicate⟩

def zeroDisc : ScdDisc where
  tracks := [{ firstLba := 0, sectorCount := 100, type := 0 }]
  readUserData := fun _ => some zeroSector

/-- A decoder with write requests, its ring cleared. -/
def armedDecoder (pt : ℕ) : ScdDecoder :=
  { toScdMachine := powerOn, disc := zeroDisc, ctrl0 := 0x84, pt := pt }

def secondHeader : CdcHeader := { minute := 0x11, second := 0x22, frame := 0x33, mode := 0x01 }

theorem armedDecoder_reads (pt : ℕ) : sectorRead (armedDecoder pt) = .data zeroSector := rfl

theorem armedDecoder_delivers (pt : ℕ) : sectorRead (armedDecoder pt) ≠ .failed := by
  rw [armedDecoder_reads]
  exact fun same => by cases same

/-- A block over the end of the ring. -/
theorem decoded_block_rings_end : ∃ after, scdCdcDecode (armedDecoder 12648) secondHeader = .ok after ∧
    ∀ k < 2052, after.cdc.buffer ((15000 + k) % 16384) = (blockBytes secondHeader zeroSector).getD k 0 := by
  have rings := decoded_block_rings (d := armedDecoder 12648) (by decide) (by decide) secondHeader
  rcases rings.2 (armedDecoder_delivers _) with ⟨after, decoded, pt, -, -, mode1⟩
  have start : after.pt = 15000 := pt
  refine ⟨after, decoded, ?_⟩
  rw [← start]
  exact (mode1 rfl zeroSector (armedDecoder_reads _)).1

/-- A transfer of a whole block armed for the sub. -/
def armedTransfer (buffer : ℕ → Byte) (dac : ℕ) : ScdHost :=
  { powerOn with
    cdc := { ifctrl := SCD_IFCTRL_DOUTEN, dbc := 2051, dac := dac, buffer := buffer }
    destination := 3 }

theorem armedTransfer_first (buffer : ℕ → Byte) (dac : ℕ) :
    ∃ h, HostTransfer .sub (transferTriggered (armedTransfer buffer dac)) h ∧
      (hostRun h ([0].map fun tick => (tick, .word .sub))).1 = [(bufferWord buffer dac).toNat] := by
  have width : (armedTransfer buffer dac).cdc.dbc < 2 ^ 16 := show 2051 < 2 ^ 16 by decide
  have enabled : SCD_IFCTRL_DOUTEN &&& SCD_IFCTRL_DOUTEN ≠ 0 := by decide
  rcases scdCdcDmaInit_host .sub (transferTriggered (armedTransfer buffer dac)) width (dten_cleared _) rfl rfl with
    ⟨h, init, delivering⟩
  have written : scdCdcTriggerWrite (armedTransfer buffer dac) = some h := (if_pos enabled).trans init
  refine ⟨h, .trigger enabled rfl written, ?_⟩
  exact (hostRun_spec width ([0].map fun tick => (tick, .word .sub)) delivering).1.trans
    (HostBlock.responses_reads (hostBlock .sub (transferTriggered (armedTransfer buffer dac))) [0] 0)

/-- From an odd PT a transfer starts with the byte before the block. -/
theorem decoded_block_odd : ∃ after start h, scdCdcDecode (armedDecoder 1) secondHeader = .ok after ∧
    HostTransfer .sub start h ∧ start.cdc.buffer = after.cdc.buffer ∧ start.cdc.dac = after.pt ∧
    start.cdc.dbc = 2051 ∧ (hostRun h ([0].map fun tick => (tick, .word .sub))).1 ≠
      [((blockBytes secondHeader zeroSector).getD 0 0 ++ (blockBytes secondHeader zeroSector).getD 1 0).toNat] := by
  have writes := scdCdcDecode_writes (d := armedDecoder 1) (by decide) (by decide) secondHeader
  rcases writes.2 (armedDecoder_delivers _) with ⟨after, decoded, pt, -, stored⟩
  have odd : after.pt = 2353 := pt
  rcases armedTransfer_first after.cdc.buffer after.pt with ⟨h, transfer, delivered⟩
  refine ⟨after, _, h, decoded, transfer, rfl, rfl, rfl, ?_⟩
  have before : after.cdc.buffer 2352 = 0 := by
    rw [stored.outside 2352 (by decide)]
    · rfl
    · intro k inside
      rw [odd]
      have small := blockLength_le (armedDecoder 1) secondHeader
      omega
  have first : after.cdc.buffer 2353 = 0x11 := by
    have ring := stored.mode1 rfl zeroSector (armedDecoder_reads _) 0 (by rw [blockBytes_length]; decide)
    rw [odd] at ring
    exact ring
  have word : bufferWord after.cdc.buffer 2353 = after.cdc.buffer 2352 ++ after.cdc.buffer 2353 := rfl
  rw [delivered, odd, word, before, first]
  decide

end Segarecomp.SegaCd

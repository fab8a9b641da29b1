import Segarecomp.SegaCd.CdcDma
import Segarecomp.SegaCd.Gfx

/-! Word RAM ownership. Storage is the 2M layout; the two 1M banks are its even and odd words.
Both processors write the memory-mode register, and main's requests are latched apart from it. -/

namespace Segarecomp.SegaCd

def scdCdObserve (m : ScdMachine) : ScdMachine :=
  scdGfxSync m.now (scdCdcDmaSync m.now m)

def scdCdcDmaHalt2m (m : ScdMachine) : ScdMachine :=
  if m.cdc.dmaState ≠ .running ∨ m.cdc.dmaTarget ≠ .twoM then m
  else
    let m := scdCdcDmaSync m.now m
    if m.cdc.dmaState = .running then { m with cdc.dmaState := .halted } else m

def scdCdcDmaResume2m (m : ScdMachine) : ScdMachine :=
  if m.cdc.dmaState ≠ .halted ∨ m.cdc.dmaTarget ≠ .twoM then m
  else
    { m with
      cdc.dmaState := .running
      cdc.dmaBase := if m.cdc.dmaBase < m.now then m.now else m.cdc.dmaBase }

def scdWordRamResumeSub (m : ScdMachine) : ScdMachine :=
  if m.ga.subWait then
    { m with
      ga.subWait := false
      subNext := if m.subNext < m.now then m.now else m.subNext }
  else m

def scdWordRamMainModeApply (m : ScdMachine) (value : Byte) : ScdMachine :=
  if m.ga.mode &&& SCD_MODE_1M ≠ 0 then
    if value &&& 0x02 ≠ 0 then { m with ga.dmnaInt := true }
    else { m with ga.mode := m.ga.mode ||| SCD_MODE_DMNA }
  else if value &&& 0x02 ≠ 0 then
    scdCdcDmaResume2m <| scdWordRamResumeSub
      { m with
        ga.dmnaInt := true
        ga.mode := (m.ga.mode &&& ~~~SCD_MODE_RET) ||| SCD_MODE_DMNA }
  else m

/-- A write of the memory-mode byte by the main processor. -/
def scdWordRamMainModeWrite (m : ScdMachine) (value : Byte) : ScdMachine :=
  let m := scdCdObserve m
  let m := { m with ga.prgBank := ((value >>> 6) &&& 3).toNat }
  scdWordRamMainModeApply m value

def scdWordRamSubModeApply (m : ScdMachine) (value : Byte) : ScdMachine :=
  let current := m.ga.mode
  let value := value &&& 0x1F
  let kept := { m with ga.mode := (m.ga.mode &&& ~~~0x1C) ||| (value &&& 0x1C) }
  if (value ^^^ current) &&& (SCD_MODE_1M ||| SCD_MODE_RET) = 0 then kept
  else if value &&& SCD_MODE_1M ≠ 0 then
    { m with
      ga.dmnaInt := if value &&& SCD_MODE_RET ≠ 0 then false else m.ga.dmnaInt
      ga.mode := value &&& 0x1D }
  else
    -- From 1M to 2M, RET is forced unless a request is latched.
    let value :=
      if current &&& SCD_MODE_1M ≠ 0 then value ||| (if m.ga.dmnaInt then 0 else 1) else value
    if current &&& SCD_MODE_1M ≠ 0 ∧ value &&& SCD_MODE_RET = 0 then
      { m with ga.mode := (value ||| SCD_MODE_DMNA) &&& 0x1F }
    else if value &&& SCD_MODE_RET ≠ 0 then
      let m := scdCdcDmaHalt2m m
      { m with
        ga.dmnaInt := false
        ga.mode := value &&& 0x1D }
    else kept

/-- A write of the memory-mode byte by the sub processor. -/
def scdWordRamSubModeWrite (m : ScdMachine) (value : Byte) : ScdMachine :=
  scdWordRamSubModeApply (scdCdObserve m) value

def scdMainBank (m : ScdMachine) : ℕ := if m.ga.mode &&& SCD_MODE_RET ≠ 0 then 1 else 0

/-- Where an access of `scdWordRamAccess` ends up. -/
inductive WordRamPlace
  | at (offset : ℕ)
  | unmapped | unsupported | wait
  deriving DecidableEq, Repr

/-- `address` is the main view folded to `$200000-$23FFFF` or the sub view folded to
`$080000-$0DFFFF`. -/
def scdWordRamPlace (m : ScdMachine) (cpu : Cpu) (address : ℕ) : WordRamPlace :=
  match cpu with
  | .main =>
    if m.ga.mode &&& SCD_MODE_1M = 0 then
      if m.ga.mode &&& SCD_MODE_RET = 0 then .unmapped else .at (address - 0x200000)
    else if address ≥ 0x220000 then .unsupported
    else .at (scdBankOffset (scdMainBank m) (address - 0x200000))
  | .sub =>
    if address < 0xC0000 then
      if m.ga.mode &&& SCD_MODE_1M ≠ 0 then .unsupported
      else if m.ga.mode &&& SCD_MODE_RET ≠ 0 then .wait
      else .at (address - 0x80000)
    else if m.ga.mode &&& SCD_MODE_1M = 0 then .unmapped
    else .at (scdBankOffset (scdMainBank m ^^^ 1) (address - 0xC0000))

/-- A byte or a word to write. -/
inductive WordRamWrite
  | byte (value : Byte)
  | word (value : BitVec 16)
  deriving DecidableEq, Repr

def storeWordRam (ram : ℕ → Byte) (offset : ℕ) : WordRamWrite → ℕ → Byte
  | .byte value => Function.update ram offset value
  | .word value =>
    Function.update (Function.update ram offset ((value >>> 8).setWidth 8)) (offset + 1)
      (value.setWidth 8)

/-- An access by either processor; a sub that is refused waits for Word RAM. -/
def scdWordRamAccess (m : ScdMachine) (cpu : Cpu) (address : ℕ) (write : Option WordRamWrite) :
    ScdMachine :=
  let m := scdCdObserve m
  match scdWordRamPlace m cpu address, write with
  | .at offset, some value => { m with wordRam := storeWordRam m.wordRam offset value }
  | .wait, _ => { m with ga.subWait := true }
  | _, _ => m

def catchUp (m : ScdMachine) : ScdMachine :=
  { m with subNext := if m.subNext < m.now then m.now else m.subNext }

/-- SRES = 1 releases the sub from reset, which clears every stop of it. -/
def resetRelease (m : ScdMachine) : ScdMachine :=
  if m.ga.ctl &&& 1 ≠ 0 then m
  else if m.bios then { m with subStopped := false, ga.subWait := false }
  else
    let m := catchUp { m with subStopped := false, ga.subWait := false }
    { m with subNext := m.subNext + 40 * scdSubCycleTicks m }

/-- SBRQ takes the sub's bus or gives it back. -/
def busRequest (m : ScdMachine) (value : Byte) : ScdMachine :=
  if value &&& 2 ≠ 0 then { m with ga.subHalted := true }
  else
    let m := if m.ga.subHalted then catchUp m else m
    { m with ga.subHalted := false }

/-- The SRES/SBRQ write. -/
def scdGaResetControl (m : ScdMachine) (value : Byte) : ScdMachine :=
  let before := (m.subStopped, m.ga.subHalted, m.ga.subWait)
  let m :=
    if value &&& 1 ≠ 0 then { busRequest (resetRelease m) value with ga.ctl := value &&& 3 }
    else { m with ga.subHalted := true, ga.ctl := 0x02 }
  let m := if m.subStopped then { m with ga.ctl := m.ga.ctl &&& ~~~2 } else m
  if (m.subStopped, m.ga.subHalted, m.ga.subWait) ≠ before then
    { m with ga.prgWindow := m.ga.ctl &&& 2 != 0 }
  else m

/-- The sub executes only while it is neither halted nor waiting for Word RAM. -/
def scdSubHeld (m : ScdMachine) : Bool := m.ga.subHalted || m.ga.subWait

end Segarecomp.SegaCd

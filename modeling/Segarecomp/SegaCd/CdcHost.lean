import Segarecomp.SegaCd.WordRamOwner

/-! The CDC's host transfer: a block of the buffer read word by word through the host-data register. -/

namespace Segarecomp.SegaCd

open Lib

def SCD_IFCTRL_DOUTEN : Byte := 0x02

/-- The machine with the two CDC fields only the host transfer uses. -/
structure ScdHost extends ScdMachine where
  destination : ℕ := 0
  hostWord : BitVec 16 := 0xFFFF

/-- The code a destination has for the processor that reads it. -/
def hostDestination : Cpu → ℕ
  | .main => 2
  | .sub => 3

/-- The word of the buffer at an address. -/
def bufferWord (buffer : ℕ → Byte) (address : ℕ) : BitVec 16 :=
  buffer (address &&& 0x3FFE) ++ buffer ((address &&& 0x3FFE) + 1)

def scdCdcHostFetch (h : ScdHost) : ScdHost :=
  let h :=
    { h with
      hostWord := bufferWord h.cdc.buffer h.cdc.dac
      cdc.dac := (h.cdc.dac + 2) % 2 ^ 16
      cdc.dbc := (h.cdc.dbc + 0xFFFE) % 2 ^ 16 }
  if 0x8000 ≤ h.cdc.dbc then { h with toScdMachine := scdCdcTransferEnd h.toScdMachine } else h

def scdCdcHostRead (h : ScdHost) (cpuAccess : ℕ) : BitVec 16 × ScdHost :=
  let h := { h with toScdMachine := scdCdcDmaSync h.now h.toScdMachine }
  (h.hostWord,
    if h.cdc.dsr ∧ h.destination = cpuAccess then
      if h.cdc.edt then { h with cdc.dsr := false } else scdCdcHostFetch h
    else h)

def scdCdcStatusRead (h : ScdHost) : ℕ × ScdHost :=
  let h := { h with toScdMachine := scdCdcDmaSync h.now h.toScdMachine }
  ((h.cdc.edt.toNat <<< 7) ||| (h.cdc.dsr.toNat <<< 6) ||| h.destination, h)

/-- Select the writer of a started transfer; `none` is the typed stop. -/
def scdCdcDmaInit (h : ScdHost) : Option ScdHost :=
  if h.cdc.ifstat &&& SCD_IFSTAT_DTEN ≠ 0 then some h
  else
    let h := { h with cdc.dmaState := .none }
    match h.destination with
    | 2 | 3 => some (scdCdcHostFetch { h with cdc.dsr := true })
    | 4 | 5 => none
    | 7 =>
      if h.ga.mode &&& SCD_MODE_1M ≠ 0 then
        some { h with
          cdc.dmaTarget := if h.ga.mode &&& SCD_MODE_RET ≠ 0 then .bank0 else .bank1
          cdc.dmaState := .running }
      else
        some { h with
          cdc.dmaTarget := .twoM
          cdc.dmaState := if h.ga.mode &&& SCD_MODE_RET ≠ 0 then .halted else .running }
    | _ => some h

/-- The state a write of DTRG hands to `scdCdcDmaInit`. -/
def transferTriggered (h : ScdHost) : ScdHost :=
  { h with
    cdc.ifstat := h.cdc.ifstat &&& ~~~(SCD_IFSTAT_DTBSY ||| SCD_IFSTAT_DTEN)
    cdc.edt := false
    cdc.dsr := false
    cdc.dmaDone := 0
    cdc.dmaBase := h.now }

/-- The write of CDC register 6. -/
def scdCdcTriggerWrite (h : ScdHost) : Option ScdHost :=
  if h.cdc.ifctrl &&& SCD_IFCTRL_DOUTEN ≠ 0 then scdCdcDmaInit (transferTriggered h) else some h

/-- The state a mode write hands to `scdCdcDmaInit`: the previous writer is brought up to date first. -/
def modeSelected (h : ScdHost) (destination : ℕ) : ScdHost :=
  let h := { h with destination := destination &&& 7, cdc.edt := false, cdc.dsr := false }
  { h with toScdMachine := scdCdcDmaSync h.now h.toScdMachine }

def scdCdcModeWrite (h : ScdHost) (destination : ℕ) : Option ScdHost :=
  (scdCdcDmaInit (modeSelected h destination)).map fun h => { h with cdc.dmaAddress := 0 }

/-- An access between the start of a transfer and the next register write. A byte access of the host-data
register and a read of the status have no side effect; the sub's word write performs the same read. -/
inductive HostAccess
  | word (cpu : Cpu) | byte (high : Bool) | status
  deriving DecidableEq, Repr

/-- An access at a tick, with the value it returns. -/
def hostAccess (h : ScdHost) (access : ℕ × HostAccess) : ℕ × ScdHost :=
  let h := { h with now := access.1 }
  match access.2 with
  | .word cpu => ((scdCdcHostRead h (hostDestination cpu)).1.toNat, (scdCdcHostRead h (hostDestination cpu)).2)
  | .byte high => (if high then h.hostWord.toNat / 256 else h.hostWord.toNat % 256, h)
  | .status => scdCdcStatusRead h

/-- The values a sequence of accesses returns and the state it leaves. -/
def hostRun : ScdHost → List (ℕ × HostAccess) → List ℕ × ScdHost
  | h, [] => ([], h)
  | h, access :: rest =>
    let (value, h) := hostAccess h access
    let (values, h) := hostRun h rest
    (value :: values, h)

/-! ## The block -/

/-- A block of the buffer: where it starts and the count register. -/
structure HostBlock where
  buffer : ℕ → Byte
  dac : ℕ
  dbc : ℕ
  destination : Cpu

namespace HostBlock

/-- The words delivered: those of DBC + 1 bytes, but one only when the first count is already negative. -/
def words (block : HostBlock) : ℕ := if block.dbc ≤ 0x8001 then (block.dbc + 2) / 2 else 1

def word (block : HostBlock) (k : ℕ) : BitVec 16 := bufferWord block.buffer (block.dac + 2 * k)

/-- The word in the host-data register after `position` words have been read. -/
def visible (block : HostBlock) (position : ℕ) : BitVec 16 := block.word (min position (block.words - 1))

def edt (block : HostBlock) (position : ℕ) : Bool := decide (block.words ≤ position + 1)

def dsr (block : HostBlock) (position : ℕ) : Bool := decide (position < block.words)

/-- What an access returns once `position` words have been read. -/
def response (block : HostBlock) (position : ℕ) : HostAccess → ℕ
  | .word _ => (block.visible position).toNat
  | .byte high =>
    if high then (block.visible position).toNat / 256 else (block.visible position).toNat % 256
  | .status =>
    ((block.edt position).toNat <<< 7) ||| ((block.dsr position).toNat <<< 6) |||
      hostDestination block.destination

/-- Only a word access of the destination's processor takes a word. -/
def advance (block : HostBlock) (position : ℕ) : HostAccess → ℕ
  | .word cpu => if cpu = block.destination then position + 1 else position
  | _ => position

def responses (block : HostBlock) : ℕ → List (ℕ × HostAccess) → List ℕ
  | _, [] => []
  | position, access :: rest =>
    block.response position access.2 :: block.responses (block.advance position access.2) rest

/-- The words taken by a sequence of accesses. -/
def taken (block : HostBlock) (position : ℕ) (accesses : List (ℕ × HostAccess)) : ℕ :=
  accesses.foldl (fun position access => block.advance position access.2) position

theorem words_pos (block : HostBlock) : 0 < block.words := by
  unfold words
  split <;> omega

end HostBlock

/-! ## One fetch -/

section TransferEnd

variable (m : ScdMachine)

theorem scdCdcTransferEnd_edt : (scdCdcTransferEnd m).cdc.edt = true := rfl

theorem scdCdcTransferEnd_dsr : (scdCdcTransferEnd m).cdc.dsr = m.cdc.dsr := by
  unfold scdCdcTransferEnd scdCdcLevel5 scdRaiseSubLevel
  dsimp only
  repeat' split
  all_goals rfl

theorem scdCdcTransferEnd_buffer : (scdCdcTransferEnd m).cdc.buffer = m.cdc.buffer := by
  unfold scdCdcTransferEnd scdCdcLevel5 scdRaiseSubLevel
  dsimp only
  repeat' split
  all_goals rfl

end TransferEnd

theorem bufferWord_congr (buffer : ℕ → Byte) {a b : ℕ} (same : a % 2 ^ 16 = b % 2 ^ 16) :
    bufferWord buffer a = bufferWord buffer b := by
  have place : a &&& 0x3FFE = b &&& 0x3FFE := by
    simp only [land_src]
    omega
  unfold bufferWord
  rw [place]

variable {block : HostBlock} {h h' : ScdHost} {k position : ℕ}

/-- The state of a transfer after `position` words have been read. -/
structure Delivering (block : HostBlock) (position : ℕ) (h : ScdHost) : Prop where
  destination : h.destination = hostDestination block.destination
  buffer : h.cdc.buffer = block.buffer
  stopped : h.cdc.dmaState = .none
  word : h.hostWord = block.visible position
  edt : h.cdc.edt = block.edt position
  dsr : h.cdc.dsr = block.dsr position
  dac : position + 1 < block.words → h.cdc.dac % 2 ^ 16 = (block.dac + 2 * (position + 1)) % 2 ^ 16
  dbc : position + 1 < block.words → h.cdc.dbc + 2 * (position + 1) = block.dbc

/-- What the fetch of word `k` starts from. -/
structure Fetching (block : HostBlock) (k : ℕ) (h : ScdHost) : Prop where
  destination : h.destination = hostDestination block.destination
  buffer : h.cdc.buffer = block.buffer
  stopped : h.cdc.dmaState = .none
  edt : h.cdc.edt = false
  dsr : h.cdc.dsr = true
  dac : h.cdc.dac % 2 ^ 16 = (block.dac + 2 * k) % 2 ^ 16
  dbc : h.cdc.dbc + 2 * k = block.dbc

theorem count_negative (width : block.dbc < 2 ^ 16) (inside : k < block.words) {count : ℕ}
    (at_word : count + 2 * k = block.dbc) :
    0x8000 ≤ (count + 0xFFFE) % 2 ^ 16 ↔ block.words ≤ k + 1 := by
  unfold HostBlock.words at inside ⊢
  split at inside
  · rename_i short
    rw [if_pos short]
    omega
  · rename_i long
    rw [if_neg long]
    omega

theorem visible_inside (inside : position < block.words) : block.visible position = block.word position := by
  unfold HostBlock.visible
  rw [Nat.min_eq_left (by omega)]

/-- What a fetch leaves. The written values are variables, so that comparing two states never
computes with them. -/
theorem Fetching.delivers {word : BitVec 16} {dac dbc : ℕ} (fetching : Fetching block k h)
    (inside : k < block.words) (last : 0x8000 ≤ dbc ↔ block.words ≤ k + 1)
    (fetched : word = block.visible k) (moved : dac % 2 ^ 16 = (block.dac + 2 * (k + 1)) % 2 ^ 16)
    (counted : k + 1 < block.words → dbc + 2 * (k + 1) = block.dbc) :
    Delivering block k
      (let h := { h with hostWord := word, cdc.dac := dac, cdc.dbc := dbc }
       if 0x8000 ≤ h.cdc.dbc then { h with toScdMachine := scdCdcTransferEnd h.toScdMachine } else h) := by
  have started : block.dsr k = true := decide_eq_true inside
  by_cases negative : 0x8000 ≤ dbc
  · have ended : block.words ≤ k + 1 := last.mp negative
    rw [if_pos negative]
    constructor
    case destination => exact fetching.destination
    case buffer => exact (scdCdcTransferEnd_buffer _).trans fetching.buffer
    case stopped => exact (scdCdcTransferEnd_dmaState _).trans fetching.stopped
    case word => exact fetched
    case edt => exact (decide_eq_true ended).symm
    case dsr => exact (scdCdcTransferEnd_dsr _).trans (fetching.dsr.trans started.symm)
    case dac => exact fun more => absurd more (Nat.not_lt.mpr ended)
    case dbc => exact fun more => absurd more (Nat.not_lt.mpr ended)
  · have more : ¬ block.words ≤ k + 1 := fun ended => negative (last.mpr ended)
    rw [if_neg negative]
    constructor
    case destination => exact fetching.destination
    case buffer => exact fetching.buffer
    case stopped => exact fetching.stopped
    case word => exact fetched
    case edt => exact fetching.edt.trans (decide_eq_false more).symm
    case dsr => exact fetching.dsr.trans started.symm
    case dac => exact fun _ => moved
    case dbc => exact counted

theorem scdCdcHostFetch_spec (width : block.dbc < 2 ^ 16) (inside : k < block.words)
    (fetching : Fetching block k h) : Delivering block k (scdCdcHostFetch h) := by
  have last := count_negative width inside fetching.dbc
  have fetched : bufferWord h.cdc.buffer h.cdc.dac = block.visible k := by
    rw [visible_inside inside, fetching.buffer]
    exact bufferWord_congr _ fetching.dac
  have moved : (h.cdc.dac + 2) % 2 ^ 16 % 2 ^ 16 = (block.dac + 2 * (k + 1)) % 2 ^ 16 := by
    have at_word := fetching.dac
    omega
  have counted : k + 1 < block.words → (h.cdc.dbc + 0xFFFE) % 2 ^ 16 + 2 * (k + 1) = block.dbc := by
    intro more
    have at_word := fetching.dbc
    unfold HostBlock.words at more
    split at more <;> omega
  have delivered := fetching.delivers inside last fetched moved counted
  exact delivered

/-! ## One access -/

theorem Delivering.clock (delivering : Delivering block position h) (now : ℕ) :
    Delivering block position { h with now := now } := by
  obtain ⟨destination, buffer, stopped, word, edt, dsr, dac, dbc⟩ := delivering
  exact ⟨destination, buffer, stopped, word, edt, dsr, dac, dbc⟩

/-- No DMA runs during a host transfer, so there is nothing to bring up to date. -/
theorem Delivering.sync (delivering : Delivering block position h) (now : ℕ) :
    scdCdcDmaSync now h.toScdMachine = h.toScdMachine := by
  apply scdCdcDmaSync_stopped
  rw [delivering.stopped]
  decide

theorem visible_last (read : block.words ≤ position + 1) : block.visible (position + 1) = block.visible position := by
  unfold HostBlock.visible
  rw [Nat.min_eq_right (by omega), Nat.min_eq_right (by omega)]

theorem hostDestination_inj {a b : Cpu} : hostDestination a = hostDestination b ↔ a = b := by
  cases a <;> cases b <;> decide

/-- A word read by the destination's processor takes the word in the register. -/
theorem Delivering.take (width : block.dbc < 2 ^ 16) (delivering : Delivering block position h) :
    Delivering block (position + 1) (scdCdcHostRead h (hostDestination block.destination)).2 := by
  unfold scdCdcHostRead
  simp only [delivering.sync]
  by_cases started : position < block.words
  · have dsr : h.cdc.dsr = true := delivering.dsr.trans (decide_eq_true started)
    rw [if_pos ⟨dsr, delivering.destination⟩]
    by_cases read : block.words ≤ position + 1
    · have edt : h.cdc.edt = true := delivering.edt.trans (decide_eq_true read)
      rw [if_pos edt]
      constructor
      case destination => exact delivering.destination
      case buffer => exact delivering.buffer
      case stopped => exact delivering.stopped
      case word => exact delivering.word.trans (visible_last read).symm
      case edt => exact edt.trans (decide_eq_true (Nat.le_succ_of_le read)).symm
      case dsr => exact (decide_eq_false (Nat.not_lt.mpr read)).symm
      case dac => exact fun more => absurd more (by omega)
      case dbc => exact fun more => absurd more (by omega)
    · have edt : h.cdc.edt = false := delivering.edt.trans (decide_eq_false read)
      have more : position + 1 < block.words := Nat.lt_of_not_le read
      rw [if_neg (by simp [edt])]
      apply scdCdcHostFetch_spec width more
      exact ⟨delivering.destination, delivering.buffer, delivering.stopped, edt, dsr, delivering.dac more,
        delivering.dbc more⟩
  · have dsr : h.cdc.dsr = false := delivering.dsr.trans (decide_eq_false started)
    have all : block.words ≤ position := Nat.le_of_not_lt started
    rw [if_neg (by simp [dsr])]
    constructor
    case destination => exact delivering.destination
    case buffer => exact delivering.buffer
    case stopped => exact delivering.stopped
    case word => exact delivering.word.trans (visible_last (Nat.le_succ_of_le all)).symm
    case edt =>
      rw [delivering.edt]
      exact (decide_eq_true (Nat.le_succ_of_le all)).trans (decide_eq_true (by omega)).symm
    case dsr => exact dsr.trans (decide_eq_false (by omega)).symm
    case dac => exact fun more => absurd more (by omega)
    case dbc => exact fun more => absurd more (by omega)

/-- The other processor's word read takes nothing. -/
theorem Delivering.pass (delivering : Delivering block position h) {cpu : Cpu}
    (other : cpu ≠ block.destination) :
    (scdCdcHostRead h (hostDestination cpu)).2 = h := by
  have refused : ¬ (h.cdc.dsr = true ∧ h.destination = hostDestination cpu) := by
    intro taken
    have same := delivering.destination.symm.trans taken.2
    exact other (hostDestination_inj.mp same).symm
  unfold scdCdcHostRead
  simp only [delivering.sync]
  rw [if_neg refused]

theorem hostAccess_spec (width : block.dbc < 2 ^ 16) (delivering : Delivering block position h)
    (access : ℕ × HostAccess) :
    (hostAccess h access).1 = block.response position access.2 ∧
      Delivering block (block.advance position access.2) (hostAccess h access).2 := by
  have now := delivering.clock access.1
  obtain ⟨tick, kind⟩ := access
  cases kind with
  | word cpu =>
      refine ⟨congrArg BitVec.toNat now.word, ?_⟩
      by_cases taker : cpu = block.destination
      · subst taker
        simp only [HostBlock.advance, if_true]
        exact now.take width
      · simp only [HostBlock.advance, if_neg taker]
        exact (now.pass taker).symm ▸ now
  | byte high =>
      refine ⟨?_, now⟩
      change (if high then h.hostWord.toNat / 256 else h.hostWord.toNat % 256) = _
      rw [delivering.word]
      rfl
  | status =>
      have idle : scdCdcStatusRead { h with now := tick } =
          ((h.cdc.edt.toNat <<< 7) ||| (h.cdc.dsr.toNat <<< 6) ||| h.destination, { h with now := tick }) := by
        unfold scdCdcStatusRead
        simp only [now.sync]
      change (scdCdcStatusRead { h with now := tick }).1 = _ ∧ Delivering _ _ (scdCdcStatusRead { h with now := tick }).2
      rw [idle]
      refine ⟨?_, now⟩
      simp only [HostBlock.response, delivering.edt, delivering.dsr, delivering.destination]

theorem hostRun_spec (width : block.dbc < 2 ^ 16) (accesses : List (ℕ × HostAccess))
    (delivering : Delivering block position h) :
    (hostRun h accesses).1 = block.responses position accesses ∧
      Delivering block (block.taken position accesses) (hostRun h accesses).2 := by
  induction accesses generalizing position h with
  | nil => exact ⟨rfl, delivering⟩
  | cons access rest ih =>
      obtain ⟨value, next⟩ := hostAccess_spec width delivering access
      obtain ⟨values, final⟩ := ih next
      refine ⟨?_, final⟩
      change (hostAccess h access).1 :: (hostRun (hostAccess h access).2 rest).1 = _
      rw [value, values]
      rfl

/-! ## The start -/

theorem dten_cleared : ∀ v : Byte, (v &&& ~~~(SCD_IFSTAT_DTBSY ||| SCD_IFSTAT_DTEN)) &&& SCD_IFSTAT_DTEN = 0 := by
  decide

theorem dten_ended : ∀ v : Byte,
    ((v ||| SCD_IFSTAT_DTBSY ||| SCD_IFSTAT_DTEN) &&& ~~~SCD_IFSTAT_DTEI) &&& SCD_IFSTAT_DTEN ≠ 0 ∧
      (((v ||| SCD_IFSTAT_DTBSY ||| SCD_IFSTAT_DTEN) &&& ~~~SCD_IFSTAT_DTEI) ||| SCD_IFSTAT_DECI) &&&
        SCD_IFSTAT_DTEN ≠ 0 := by
  decide

/-- The end of a transfer clears !DTEN, so nothing is started any more. -/
theorem scdCdcTransferEnd_dten (m : ScdMachine) :
    (scdCdcTransferEnd m).cdc.ifstat &&& SCD_IFSTAT_DTEN ≠ 0 := by
  unfold scdCdcTransferEnd scdCdcLevel5 scdRaiseSubLevel
  dsimp only
  split
  · split
    · split
      · split <;> exact (dten_ended _).2
      · exact (dten_ended _).2
    · split
      · split <;> exact (dten_ended _).1
      · exact (dten_ended _).1
  · exact (dten_ended _).1

/-- Bringing a DMA up to date sets EDT only with the end of the transfer. -/
theorem scdCdcDmaSync_edt {m : ScdMachine} {now : ℕ} (clear : m.cdc.edt = false)
    (started : (scdCdcDmaSync now m).cdc.ifstat &&& SCD_IFSTAT_DTEN = 0) :
    (scdCdcDmaSync now m).cdc.edt = false := by
  rw [scdCdcDmaSync_eq] at started ⊢
  split at started
  · rename_i stopped
    rw [if_pos stopped]
    exact clear
  · rename_i running
    rw [if_neg running]
    split at started
    · exact absurd started (scdCdcTransferEnd_dten _)
    · rename_i inside
      rw [if_neg inside]
      split <;> exact clear

/-- The block the registers describe. -/
def hostBlock (cpu : Cpu) (h : ScdHost) : HostBlock :=
  { buffer := h.cdc.buffer, dac := h.cdc.dac, dbc := h.cdc.dbc, destination := cpu }

/-- A register write starts a transfer read by `cpu`: the state its DAC and DBC are taken from, and the state
after the write. -/
inductive HostTransfer (cpu : Cpu) : ScdHost → ScdHost → Prop
  | trigger {h h' : ScdHost} (enabled : h.cdc.ifctrl &&& SCD_IFCTRL_DOUTEN ≠ 0)
      (selected : h.destination = hostDestination cpu) (written : scdCdcTriggerWrite h = some h') :
      HostTransfer cpu (transferTriggered h) h'
  | mode {h h' : ScdHost} {destination : ℕ} (selected : destination &&& 7 = hostDestination cpu)
      (started : (modeSelected h destination).cdc.ifstat &&& SCD_IFSTAT_DTEN = 0)
      (written : scdCdcModeWrite h destination = some h') :
      HostTransfer cpu (modeSelected h destination) h'

variable {cpu : Cpu} {start : ScdHost}

theorem scdCdcDmaInit_host (cpu : Cpu) (start : ScdHost) (width : start.cdc.dbc < 2 ^ 16) (started : start.cdc.ifstat &&& SCD_IFSTAT_DTEN = 0)
    (selected : start.destination = hostDestination cpu) (fresh : start.cdc.edt = false) :
    ∃ h, scdCdcDmaInit start = some h ∧ Delivering (hostBlock cpu start) 0 h := by
  refine ⟨scdCdcHostFetch { start with cdc.dmaState := .none, cdc.dsr := true }, ?_, ?_⟩
  · unfold scdCdcDmaInit
    rw [if_neg (not_not_intro started)]
    cases cpu <;> simp only [selected, hostDestination]
  · apply scdCdcHostFetch_spec width (HostBlock.words_pos _)
    exact ⟨selected, rfl, rfl, fresh, rfl, rfl, rfl⟩

theorem HostTransfer.delivering (transfer : HostTransfer cpu start h) (width : start.cdc.dbc < 2 ^ 16) :
    Delivering (hostBlock cpu start) 0 h := by
  cases transfer with
  | trigger enabled selected written =>
      obtain ⟨h', init, delivering⟩ :=
        scdCdcDmaInit_host cpu (transferTriggered _) width (dten_cleared _) selected rfl
      rw [scdCdcTriggerWrite, if_pos enabled, init, Option.some.injEq] at written
      exact written ▸ delivering
  | mode selected started written =>
      obtain ⟨h', init, delivering⟩ :=
        scdCdcDmaInit_host cpu (modeSelected _ _) width started selected (scdCdcDmaSync_edt rfl started)
      rw [scdCdcModeWrite, init, Option.map_some, Option.some.injEq] at written
      obtain ⟨destination, buffer, stopped, word, edt, dsr, dac, dbc⟩ := delivering
      exact written ▸ ⟨destination, buffer, stopped, word, edt, dsr, dac, dbc⟩

/-! ## The transfer -/

theorem HostBlock.responses_reads (block : HostBlock) (ticks : List ℕ) (position : ℕ) :
    block.responses position (ticks.map fun tick => (tick, .word block.destination)) =
      (List.range ticks.length).map fun k => (block.visible (position + k)).toNat := by
  induction ticks generalizing position with
  | nil => rfl
  | cons tick rest ih =>
      have shifted : ∀ k, position + 1 + k = position + (k + 1) := fun k => by omega
      simp only [List.map_cons, HostBlock.responses, HostBlock.response, HostBlock.advance, if_true, ih,
        List.length_cons, List.range_succ_eq_map, List.map_map, Nat.add_zero, shifted]
      rfl

/-- The words arrive in order, each at one read of the destination's processor; EDT is set with the last of
them in the register and DSR clears with the read that returns it. Later reads find the last word. -/
theorem host_transfer_delivers (transfer : HostTransfer cpu start h) (width : start.cdc.dbc < 2 ^ 16) :
    (∀ ticks : List ℕ, (hostRun h (ticks.map fun tick => (tick, .word cpu))).1 =
      (List.range ticks.length).map fun k => ((hostBlock cpu start).visible k).toNat) ∧
    ∀ accesses : List (ℕ × HostAccess),
      (hostRun h accesses).1 = (hostBlock cpu start).responses 0 accesses ∧
      (hostRun h accesses).2.cdc.edt = (hostBlock cpu start).edt ((hostBlock cpu start).taken 0 accesses) ∧
      (hostRun h accesses).2.cdc.dsr = (hostBlock cpu start).dsr ((hostBlock cpu start).taken 0 accesses) := by
  have delivering := transfer.delivering width
  constructor
  · intro ticks
    have reads := (hostBlock cpu start).responses_reads ticks 0
    simp only [Nat.zero_add] at reads
    exact (hostRun_spec width _ delivering).1.trans reads
  · intro accesses
    obtain ⟨values, final⟩ := hostRun_spec width accesses delivering
    exact ⟨values, final.edt, final.dsr⟩

/-- A transfer armed for the sub: the bytes of the buffer are their addresses. -/
def armedHost (dbc : ℕ) : ScdHost :=
  { powerOn with
    cdc := { ifctrl := SCD_IFCTRL_DOUTEN, dbc := dbc, buffer := fun address => .ofNat 8 address }
    destination := 3 }

theorem host_transfer_three :
    ∃ h, scdCdcTriggerWrite (armedHost 4) = some h ∧
      (hostRun h ([10, 20, 30].map fun tick => (tick, .word .sub))).1 = [0x0001, 0x0203, 0x0405] := by
  obtain ⟨h, init, _⟩ := scdCdcDmaInit_host .sub (transferTriggered (armedHost 4))
    (by decide) (dten_cleared _) rfl rfl
  have enabled : (armedHost 4).cdc.ifctrl &&& SCD_IFCTRL_DOUTEN ≠ 0 := by decide
  have written : scdCdcTriggerWrite (armedHost 4) = some h := (if_pos enabled).trans init
  have transfer : HostTransfer .sub (transferTriggered (armedHost 4)) h := .trigger enabled rfl written
  refine ⟨h, written, ?_⟩
  rw [(host_transfer_delivers transfer (by decide)).1]
  decide

/-- After the last word a read returns that word again, and with a count that is negative at once only the
first word is delivered. -/
theorem host_read_repeats :
    ((scdCdcTriggerWrite (armedHost 1)).map fun h => (hostRun h [(0, .word .sub), (0, .word .sub)]).1) =
        some [0x0001, 0x0001] ∧
      ((scdCdcTriggerWrite (armedHost 0xFFFF)).map fun h => (hostRun h [(0, .word .sub), (0, .word .sub)]).1) =
        some [0x0001, 0x0001] := by
  decide

end Segarecomp.SegaCd

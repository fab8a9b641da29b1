import Segarecomp.SegaCd.WordRam

/-! Who owns which byte of Word RAM, over every run of the two processors and the devices. -/

namespace Segarecomp.SegaCd

/-! ## The register's bits -/

def mode1M (m : ScdMachine) : Bool := m.ga.mode &&& SCD_MODE_1M != 0
def modeRet (m : ScdMachine) : Bool := m.ga.mode &&& SCD_MODE_RET != 0
def modeDmna (m : ScdMachine) : Bool := m.ga.mode &&& SCD_MODE_DMNA != 0

/-- The mode register's mask tests are tests of its bits. -/
theorem mask_bits : ∀ v : Byte, ((v &&& SCD_MODE_RET ≠ 0) ↔ v[0] = true) ∧
    ((v &&& SCD_MODE_DMNA ≠ 0) ↔ v[1] = true) ∧ ((v &&& SCD_MODE_1M ≠ 0) ↔ v[2] = true) ∧
      ((v &&& (SCD_MODE_1M ||| SCD_MODE_RET) = 0) ↔ v[2] = false ∧ v[0] = false) := by
  decide +kernel

theorem mask_ret (v : Byte) : (v &&& SCD_MODE_RET ≠ 0) ↔ v[0] = true := (mask_bits v).1

theorem mask_dmna (v : Byte) : (v &&& SCD_MODE_DMNA ≠ 0) ↔ v[1] = true := (mask_bits v).2.1

theorem mask_1M (v : Byte) : (v &&& SCD_MODE_1M ≠ 0) ↔ v[2] = true := (mask_bits v).2.2.1

theorem mask_change (v : Byte) : (v &&& (SCD_MODE_1M ||| SCD_MODE_RET) = 0) ↔ v[2] = false ∧ v[0] = false :=
  (mask_bits v).2.2.2

theorem mode1M_eq (m : ScdMachine) : mode1M m = m.ga.mode[2] := by
  rw [Bool.eq_iff_iff, mode1M, bne_iff_ne]
  exact mask_1M _

theorem modeRet_eq (m : ScdMachine) : modeRet m = m.ga.mode[0] := by
  rw [Bool.eq_iff_iff, modeRet, bne_iff_ne]
  exact mask_ret _

theorem modeDmna_eq (m : ScdMachine) : modeDmna m = m.ga.mode[1] := by
  rw [Bool.eq_iff_iff, modeDmna, bne_iff_ne]
  exact mask_dmna _

/-- The fields that decide who sees what. -/
structure SameRegister (m m' : ScdMachine) : Prop where
  mode : m'.ga.mode = m.ga.mode
  dmnaInt : m'.ga.dmnaInt = m.ga.dmnaInt
  subWait : m'.ga.subWait = m.ga.subWait
  subHalted : m'.ga.subHalted = m.ga.subHalted

section Same

variable {a b c : ScdMachine}

theorem SameRegister.of_ga (h : b.ga = a.ga) : SameRegister a b := by
  constructor <;> rw [h]

theorem SameRegister.trans (first : SameRegister a b) (second : SameRegister b c) :
    SameRegister a c :=
  ⟨second.mode.trans first.mode, second.dmnaInt.trans first.dmnaInt,
    second.subWait.trans first.subWait, second.subHalted.trans first.subHalted⟩

theorem scdCdcTransferEnd_register (m : ScdMachine) : SameRegister m (scdCdcTransferEnd m) := by
  unfold scdCdcTransferEnd scdCdcLevel5 scdRaiseSubLevel
  dsimp only
  repeat' split
  all_goals exact ⟨rfl, rfl, rfl, rfl⟩

theorem dmaComplete_register (m : ScdMachine) : SameRegister m (dmaComplete m) := by
  unfold dmaComplete scdCdcDmaFinish
  have moved : SameRegister m (scdCdcDmaMove m (m.cdc.dbc + 1)) := .of_ga rfl
  have ended := scdCdcTransferEnd_register
    { scdCdcDmaMove m (m.cdc.dbc + 1) with
      cdc.dmaState := .none
      cdc.dmaBase := m.cdc.dmaBase + (m.cdc.dbc + 1) * scdDmaByteTicks m }
  exact ⟨ended.mode, ended.dmnaInt, ended.subWait, ended.subHalted⟩

theorem scdCdcDmaSync_register (now : ℕ) (m : ScdMachine) :
    SameRegister m (scdCdcDmaSync now m) := by
  rw [scdCdcDmaSync_eq]
  split
  · exact .of_ga rfl
  · split
    · exact dmaComplete_register m
    · split <;> exact .of_ga rfl

theorem scdGfxFinish_register (m : ScdMachine) : SameRegister m (scdGfxFinish m) := by
  unfold scdGfxFinish scdRaiseSubLevel
  dsimp only
  split <;> exact ⟨rfl, rfl, rfl, rfl⟩

theorem gfxProgress_register (m : ScdMachine) (lines : ℕ) :
    SameRegister m (gfxProgress m lines) := .of_ga (gfxProgress_clock m lines).ga

theorem scdGfxSync_register (now : ℕ) (m : ScdMachine) : SameRegister m (scdGfxSync now m) := by
  rcases Bool.eq_false_or_eq_true m.gfx.busy with busy | idle
  · rcases Bool.eq_false_or_eq_true (scdGfxHalted m) with halted | running
    · rw [scdGfxSync_halted busy halted]
      exact .of_ga rfl
    · rcases Nat.lt_or_ge m.gfx.base now with started | early
      · rcases Nat.lt_or_ge (gfxLines m now) m.gfx.linesLeft with inside | all
        · rw [scdGfxSync_progress busy running started inside]
          exact gfxProgress_register m _
        · rw [scdGfxSync_complete busy running started all]
          exact (gfxProgress_register m _).trans (scdGfxFinish_register _)
      · rw [scdGfxSync_early early running]
        exact .of_ga rfl
  · rw [scdGfxSync_idle idle]
    exact .of_ga rfl

/-- Bringing the devices up to date moves data, never ownership. -/
theorem scdCdObserve_register (m : ScdMachine) : SameRegister m (scdCdObserve m) :=
  (scdCdcDmaSync_register m.now m).trans (scdGfxSync_register m.now _)

theorem scdCdcDmaHalt2m_register (m : ScdMachine) : SameRegister m (scdCdcDmaHalt2m m) := by
  have sync := scdCdcDmaSync_register m.now m
  unfold scdCdcDmaHalt2m
  split
  · exact .of_ga rfl
  · dsimp only
    split
    · exact ⟨sync.mode, sync.dmnaInt, sync.subWait, sync.subHalted⟩
    · exact sync

theorem scdCdcDmaResume2m_register (m : ScdMachine) : SameRegister m (scdCdcDmaResume2m m) := by
  unfold scdCdcDmaResume2m
  split <;> exact .of_ga rfl

end Same

/-! ## The two register writes -/

/-- Whether a sub write changes RET or MODE. -/
def SubChange (m : ScdMachine) (value : Byte) : Prop :=
  value[2] ≠ mode1M m ∨ value[0] ≠ modeRet m

/-- The bits of the register after a main write. -/
structure MainWritten (m : ScdMachine) (value : Byte) (m' : ScdMachine) : Prop where
  oneM : mode1M m' = mode1M m
  ret : modeRet m' = (modeRet m && (mode1M m || !value[1]))
  dmna : modeDmna m' = (modeDmna m || (mode1M m != value[1]))
  latch : m'.ga.dmnaInt = (m.ga.dmnaInt || value[1])
  wait : m'.ga.subWait = (m.ga.subWait && (mode1M m || !value[1]))
  halted : m'.ga.subHalted = m.ga.subHalted

theorem MainWritten.same {m a b : ScdMachine} {value : Byte} (written : MainWritten m value a)
    (same : SameRegister a b) : MainWritten m value b := by
  obtain ⟨oneM, ret, dmna, latch, wait, halted⟩ := written
  rw [mode1M_eq] at oneM
  rw [modeRet_eq] at ret
  rw [modeDmna_eq] at dmna
  constructor
  · rw [mode1M_eq, same.mode, oneM]
  · rw [modeRet_eq, same.mode, ret]
  · rw [modeDmna_eq, same.mode, dmna]
  · rw [same.dmnaInt, latch]
  · rw [same.subWait, wait]
  · rw [same.subHalted, halted]

theorem mainModeApply_written (m : ScdMachine) (value : Byte) :
    MainWritten m value (scdWordRamMainModeApply m value) := by
  have request : (value &&& 0x02 ≠ 0) ↔ value[1] = true := mask_dmna value
  unfold scdWordRamMainModeApply
  by_cases oneM : m.ga.mode &&& SCD_MODE_1M ≠ 0
  · have one : m.ga.mode[2] = true := (mask_1M _).mp oneM
    rw [if_pos oneM]
    by_cases dmna : value &&& 0x02 ≠ 0
    · have two := request.mp dmna
      rw [if_pos dmna]
      constructor <;> simp [mode1M_eq, modeRet_eq, modeDmna_eq, one, two]
    · have two : value[1] = false := by simpa using request.not.mp dmna
      rw [if_neg dmna]
      constructor <;> simp [mode1M_eq, modeRet_eq, modeDmna_eq, one, two, SCD_MODE_DMNA]
  · have one : m.ga.mode[2] = false := by simpa using (mask_1M _).not.mp oneM
    rw [if_neg oneM]
    by_cases dmna : value &&& 0x02 ≠ 0
    · have two := request.mp dmna
      rw [if_pos dmna]
      apply MainWritten.same _ (scdCdcDmaResume2m_register _)
      unfold scdWordRamResumeSub
      dsimp only
      split
      · constructor <;>
          simp [mode1M_eq, modeRet_eq, modeDmna_eq, one, two, SCD_MODE_RET, SCD_MODE_DMNA]
      · next awake =>
          constructor <;>
            simp [mode1M_eq, modeRet_eq, modeDmna_eq, one, two, awake, SCD_MODE_RET, SCD_MODE_DMNA]
    · have two : value[1] = false := by simpa using request.not.mp dmna
      rw [if_neg dmna]
      constructor <;> simp [mode1M_eq, modeRet_eq, modeDmna_eq, one, two]

/-- The bits of the register after a sub write. -/
structure SubWritten (m : ScdMachine) (value : Byte) (m' : ScdMachine) : Prop where
  kept : ¬SubChange m value → mode1M m' = mode1M m ∧ modeRet m' = modeRet m ∧
    modeDmna m' = modeDmna m ∧ m'.ga.dmnaInt = m.ga.dmnaInt
  latch : SubChange m value → m'.ga.dmnaInt = (m.ga.dmnaInt && !value[0])
  oneM : SubChange m value → mode1M m' = value[2]
  banks : SubChange m value → value[2] = true → modeRet m' = value[0] ∧ modeDmna m' = false
  leave : mode1M m = true → value[2] = false →
    modeRet m' = (value[0] || !m.ga.dmnaInt) ∧ modeDmna m' = !(value[0] || !m.ga.dmnaInt)
  stay : SubChange m value → mode1M m = false → value[2] = false →
    modeRet m' = true ∧ modeDmna m' = (modeDmna m && !value[0])
  wait : m'.ga.subWait = m.ga.subWait
  halted : m'.ga.subHalted = m.ga.subHalted

theorem mask_ret_zero (v : Byte) : (v &&& SCD_MODE_RET = 0) ↔ v[0] = false := by
  rw [← Bool.not_eq_true, ← mask_ret, ne_eq, not_not]

theorem subModeApply_written (m : ScdMachine) (value : Byte) :
    SubWritten m value (scdWordRamSubModeApply m value) := by
  have halt := scdCdcDmaHalt2m_register m
  unfold scdWordRamSubModeApply
  simp only [mask_change, mask_1M, mask_ret, mask_ret_zero]
  rcases two : value[2] <;> rcases zero : value[0] <;> rcases one : m.ga.mode[2] <;>
    rcases ret : m.ga.mode[0] <;> rcases latch : m.ga.dmnaInt
  all_goals
    simp [two, zero, one, ret]
    constructor
  all_goals
    simp [SubChange, mode1M_eq, modeRet_eq, modeDmna_eq, two, zero, one, ret, latch, SCD_MODE_DMNA,
      halt.subWait, halt.subHalted]

section Writes

variable {m a : ScdMachine}

theorem SameRegister.oneM (same : SameRegister m a) : mode1M a = mode1M m := by
  rw [mode1M_eq, mode1M_eq, same.mode]

theorem SameRegister.ret (same : SameRegister m a) : modeRet a = modeRet m := by
  rw [modeRet_eq, modeRet_eq, same.mode]

theorem SameRegister.dmna (same : SameRegister m a) : modeDmna a = modeDmna m := by
  rw [modeDmna_eq, modeDmna_eq, same.mode]

theorem SameRegister.change (same : SameRegister m a) (value : Byte) :
    SubChange a value ↔ SubChange m value := by
  rw [SubChange, same.oneM, same.ret, SubChange]

theorem mainModeWrite_written (m : ScdMachine) (value : Byte) :
    MainWritten m value (scdWordRamMainModeWrite m value) := by
  have same : SameRegister m
      { scdCdObserve m with ga.prgBank := ((value >>> 6) &&& 3).toNat } :=
    (scdCdObserve_register m).trans ⟨rfl, rfl, rfl, rfl⟩
  obtain ⟨oneM, ret, dmna, latch, wait, halted⟩ := mainModeApply_written
    { scdCdObserve m with ga.prgBank := ((value >>> 6) &&& 3).toNat } value
  rw [same.oneM] at oneM
  rw [same.ret, same.oneM] at ret
  rw [same.dmna, same.oneM] at dmna
  rw [same.dmnaInt] at latch
  rw [same.subWait, same.oneM] at wait
  exact ⟨oneM, ret, dmna, latch, wait, halted.trans same.subHalted⟩

theorem subModeWrite_written (m : ScdMachine) (value : Byte) :
    SubWritten m value (scdWordRamSubModeWrite m value) := by
  have same := scdCdObserve_register m
  have written := subModeApply_written (scdCdObserve m) value
  have change := same.change value
  constructor
  · rw [← change, ← same.oneM, ← same.ret, ← same.dmna, ← same.dmnaInt]
    exact written.kept
  · rw [← change, ← same.dmnaInt]
    exact written.latch
  · rw [← change]
    exact written.oneM
  · rw [← change]
    exact written.banks
  · rw [← same.oneM, ← same.dmnaInt]
    exact written.leave
  · rw [← change, ← same.oneM, ← same.dmna]
    exact written.stay
  · exact written.wait.trans same.subWait
  · exact written.halted.trans same.subHalted

end Writes

/-! ## Who reaches a byte -/

/-- The bank a byte of the 2M layout lies in. -/
def byteBank (offset : ℕ) : ℕ := offset / 2 % 2

/-- The processor that owns a byte. -/
def owner (m : ScdMachine) (offset : ℕ) : Cpu :=
  if mode1M m then
    if byteBank offset = (modeRet m).toNat then .main else .sub
  else if modeRet m then .main else .sub

/-- The addresses the processors' views of Word RAM are folded to. -/
def InView : Cpu → ℕ → Prop
  | .main, address => 0x200000 ≤ address ∧ address < 0x240000
  | .sub, address => 0x80000 ≤ address ∧ address < 0xE0000

def Reaches (m : ScdMachine) (cpu : Cpu) (offset : ℕ) : Prop :=
  ∃ address, InView cpu address ∧ scdWordRamPlace m cpu address = .at offset

theorem scdBankOffset_bank {bank : ℕ} (h : bank < 2) (offset : ℕ) :
    byteBank (scdBankOffset bank offset) = bank := by
  unfold byteBank scdBankOffset
  rw [Nat.shiftRight_eq_div_pow, Nat.and_one_is_mod]
  omega

theorem scdBankOffset_surjective {bank offset : ℕ} (inside : offset < 0x40000)
    (h : byteBank offset = bank) :
    ∃ address < 0x20000, scdBankOffset bank address = offset := by
  refine ⟨offset / 4 * 2 + offset % 2, by omega, ?_⟩
  unfold byteBank at h
  unfold scdBankOffset
  rw [Nat.shiftRight_eq_div_pow, Nat.and_one_is_mod]
  omega

theorem modeRet_zero (m : ScdMachine) : m.ga.mode &&& SCD_MODE_RET = 0 ↔ modeRet m = false := by
  rw [modeRet_eq, mask_ret_zero]

theorem mode1M_zero (m : ScdMachine) : m.ga.mode &&& SCD_MODE_1M = 0 ↔ mode1M m = false := by
  rw [← Bool.not_eq_true, mode1M_eq, ← mask_1M, ne_eq, not_not]

theorem scdMainBank_eq (m : ScdMachine) : scdMainBank m = (modeRet m).toNat := by
  simp only [scdMainBank, ne_eq, modeRet_zero]
  cases modeRet m <;> rfl

theorem scdWordRamPlace_2M (h : mode1M m = false) (cpu : Cpu) (address : ℕ) :
    scdWordRamPlace m cpu address =
      match cpu with
      | .main => if modeRet m then .at (address - 0x200000) else .unmapped
      | .sub =>
        if address < 0xC0000 then if modeRet m then .wait else .at (address - 0x80000)
        else .unmapped := by
  simp only [scdWordRamPlace, ne_eq, modeRet_zero, mode1M_zero, h, if_true, not_true_eq_false,
    if_false]
  cases cpu <;> cases modeRet m <;> rfl

theorem scdWordRamPlace_1M (h : mode1M m = true) (cpu : Cpu) (address : ℕ) :
    scdWordRamPlace m cpu address =
      match cpu with
      | .main =>
        if address ≥ 0x220000 then .unsupported
        else .at (scdBankOffset (modeRet m).toNat (address - 0x200000))
      | .sub =>
        if address < 0xC0000 then .unsupported
        else .at (scdBankOffset (!modeRet m).toNat (address - 0xC0000)) := by
  simp only [scdWordRamPlace, scdMainBank_eq, ne_eq, mode1M_zero, h, Bool.true_eq_false, if_false,
    not_false_eq_true, if_true]
  cases cpu <;> cases modeRet m <;> rfl

/-- The processor whose window shows a bank reaches its bytes, and only these. -/
theorem reaches_bank (base : ℕ) {bank offset : ℕ} (small : bank < 2) (inside : offset < 0x40000) :
    (∃ address, (base ≤ address ∧ address < base + 0x20000) ∧
      scdBankOffset bank (address - base) = offset) ↔ byteBank offset = bank := by
  constructor
  · rintro ⟨address, _, rfl⟩
    exact scdBankOffset_bank small _
  · intro h
    obtain ⟨address, range, place⟩ := scdBankOffset_surjective inside h
    exact ⟨base + address, by omega, by rwa [Nat.add_sub_cancel_left]⟩

theorem reaches_iff {offset : ℕ} (inside : offset < 0x40000) (m : ScdMachine) (cpu : Cpu) :
    Reaches m cpu offset ↔ owner m offset = cpu := by
  have low : byteBank offset < 2 := Nat.mod_lt _ Nat.two_pos
  rcases Bool.eq_false_or_eq_true (mode1M m) with oneM | twoM
  · have main : Reaches m .main offset ↔ byteBank offset = (modeRet m).toNat := by
      rw [← reaches_bank 0x200000 (Bool.toNat_lt (modeRet m)) inside]
      apply exists_congr
      intro address
      rw [scdWordRamPlace_1M oneM]
      by_cases beyond : address ≥ 0x220000
      · simp [beyond, InView]
      · simp [beyond, InView]
        omega
    have sub : Reaches m .sub offset ↔ byteBank offset = (!modeRet m).toNat := by
      rw [← reaches_bank 0xC0000 (Bool.toNat_lt (!modeRet m)) inside]
      apply exists_congr
      intro address
      rw [scdWordRamPlace_1M oneM]
      by_cases below : address < 0xC0000
      · simp [below, InView]
      · simp [below, InView]
        omega
    cases cpu with
    | main =>
        rw [main, owner, if_pos oneM]
        split <;> simp_all
    | sub =>
        rw [sub, owner, if_pos oneM]
        cases modeRet m <;> simp only [Bool.toNat_true, Bool.toNat_false, Bool.not_true, Bool.not_false] <;>
          split <;> simp <;> omega
  · have main : Reaches m .main offset ↔ modeRet m = true := by
      constructor
      · rintro ⟨address, _, place⟩
        rw [scdWordRamPlace_2M twoM] at place
        by_contra ret
        simp [ret] at place
      · intro ret
        refine ⟨0x200000 + offset, by simp [InView]; omega, ?_⟩
        rw [scdWordRamPlace_2M twoM]
        simp [ret]
    have sub : Reaches m .sub offset ↔ modeRet m = false := by
      constructor
      · rintro ⟨address, _, place⟩
        rw [scdWordRamPlace_2M twoM] at place
        by_contra ret
        simp only [Bool.not_eq_false] at ret
        simp only [ret, if_true] at place
        split at place <;> cases place
      · intro ret
        refine ⟨0x80000 + offset, by simp [InView]; omega, ?_⟩
        rw [scdWordRamPlace_2M twoM]
        simp [ret]
        omega
    rw [owner, if_neg (by simp [twoM])]
    cases cpu with
    | main =>
        rw [main]
        split <;> simp_all
    | sub =>
        rw [sub]
        split <;> simp_all

/-! ## Runs -/

inductive Event
  | mainMode (value : Byte)
  | subMode (value : Byte)
  | access (cpu : Cpu) (address : ℕ) (write : Option WordRamWrite)
  | resetControl (value : Byte)
  | device
  deriving DecidableEq, Repr

/-- One step of the machine. The sub acts only while it is not held; everything else in the
machine leaves the memory mode, the latch and the hold of the sub alone. -/
inductive Step : Event → ScdMachine → ScdMachine → Prop
  | mainMode (m : ScdMachine) (value : Byte) :
    Step (.mainMode value) m (scdWordRamMainModeWrite m value)
  | subMode (m : ScdMachine) (value : Byte) (runs : scdSubHeld m = false) :
    Step (.subMode value) m (scdWordRamSubModeWrite m value)
  | access (m : ScdMachine) (cpu : Cpu) (address : ℕ) (write : Option WordRamWrite)
    (runs : cpu = .sub → scdSubHeld m = false) :
    Step (.access cpu address write) m (scdWordRamAccess m cpu address write)
  | resetControl (m : ScdMachine) (value : Byte) :
    Step (.resetControl value) m (scdGaResetControl m value)
  | device (m m' : ScdMachine) (same : SameRegister m m') : Step .device m m'

/-- Power-on: 2M mode, main owns Word RAM, the sub is held in reset. -/
structure PowerOn (m : ScdMachine) : Prop where
  mode : m.ga.mode = SCD_MODE_RET
  dmnaInt : m.ga.dmnaInt = false
  subWait : m.ga.subWait = false
  subHalted : m.ga.subHalted = true
  ctl : m.ga.ctl = 0x02

inductive Run : List Event → ScdMachine → Prop
  | powerOn {m : ScdMachine} (on : PowerOn m) : Run [] m
  | step {events : List Event} {event : Event} {m m' : ScdMachine} (run : Run events m)
    (step : Step event m m') : Run (events ++ [event]) m'

/-- What every run keeps: in 2M mode RET, DMNA and the latched request say the same. -/
structure WordRamInv (m : ScdMachine) : Prop where
  exclusive : mode1M m = false → modeRet m = !modeDmna m
  latched : mode1M m = false → m.ga.dmnaInt = !modeRet m
  waiting : m.ga.subWait = true → mode1M m = false ∧ modeRet m = true

theorem scdWordRamPlace_wait {m : ScdMachine} {cpu : Cpu} {address : ℕ}
    (h : scdWordRamPlace m cpu address = .wait) :
    cpu = .sub ∧ mode1M m = false ∧ modeRet m = true := by
  rcases Bool.eq_false_or_eq_true (mode1M m) with oneM | twoM
  · rw [scdWordRamPlace_1M oneM] at h
    cases cpu
    · dsimp only at h
      split at h <;> cases h
    · dsimp only at h
      split at h <;> cases h
  · rw [scdWordRamPlace_2M twoM] at h
    cases cpu
    · dsimp only at h
      split at h <;> cases h
    · dsimp only at h
      split at h
      · split at h
        · next ret => exact ⟨rfl, twoM, ret⟩
        · cases h
      · cases h

/-- An access leaves the register alone; the sub is made to wait only for 2M Word RAM that main
owns. -/
theorem scdWordRamAccess_register (m : ScdMachine) (cpu : Cpu) (address : ℕ)
    (write : Option WordRamWrite) :
    SameRegister m (scdWordRamAccess m cpu address write) ∨
      mode1M m = false ∧ modeRet m = true ∧
        SameRegister { m with ga.subWait := true } (scdWordRamAccess m cpu address write) := by
  have same := scdCdObserve_register m
  unfold scdWordRamAccess
  dsimp only
  split
  · exact .inl ⟨same.mode, same.dmnaInt, same.subWait, same.subHalted⟩
  · next place =>
      obtain ⟨_, twoM, ret⟩ := scdWordRamPlace_wait place
      rw [same.oneM] at twoM
      rw [same.ret] at ret
      exact .inr ⟨twoM, ret, same.mode, same.dmnaInt, rfl, same.subHalted⟩
  · exact .inl same

/-- The register and the latch are kept, and a wait is only ever ended. -/
structure OnlyWakes (m m' : ScdMachine) : Prop where
  mode : m'.ga.mode = m.ga.mode
  dmnaInt : m'.ga.dmnaInt = m.ga.dmnaInt
  wakes : m'.ga.subWait = true → m.ga.subWait = true

theorem resetRelease_wakes (m : ScdMachine) : OnlyWakes m (resetRelease m) := by
  unfold resetRelease catchUp
  split
  · exact ⟨rfl, rfl, id⟩
  · split <;> exact ⟨rfl, rfl, by simp⟩

theorem busRequest_wakes (m : ScdMachine) (value : Byte) : OnlyWakes m (busRequest m value) := by
  unfold busRequest catchUp
  split
  · exact ⟨rfl, rfl, id⟩
  · dsimp only
    split <;> exact ⟨rfl, rfl, id⟩

theorem scdGaResetControl_wakes (m : ScdMachine) (value : Byte) :
    OnlyWakes m (scdGaResetControl m value) := by
  have written : OnlyWakes m
      (if value &&& 1 ≠ 0 then { busRequest (resetRelease m) value with ga.ctl := value &&& 3 }
      else { m with ga.subHalted := true, ga.ctl := 0x02 }) := by
    have release := resetRelease_wakes m
    have bus := busRequest_wakes (resetRelease m) value
    split
    · exact ⟨bus.mode.trans release.mode, bus.dmnaInt.trans release.dmnaInt,
        fun waits => release.wakes (bus.wakes waits)⟩
    · exact ⟨rfl, rfl, id⟩
  unfold scdGaResetControl
  revert written
  generalize (if value &&& 1 ≠ 0 then _ else _ : ScdMachine) = held
  intro written
  dsimp only
  obtain ⟨mode, dmnaInt, wakes⟩ := written
  split
  · split <;> exact ⟨mode, dmnaInt, wakes⟩
  · split <;> exact ⟨mode, dmnaInt, wakes⟩

/-! ## What a step keeps -/

section Steps

variable {event : Event} {m m' : ScdMachine}

theorem mode1M_of (h : m'.ga.mode = m.ga.mode) : mode1M m' = mode1M m := by
  rw [mode1M_eq, mode1M_eq, h]

theorem modeRet_of (h : m'.ga.mode = m.ga.mode) : modeRet m' = modeRet m := by
  rw [modeRet_eq, modeRet_eq, h]

theorem modeDmna_of (h : m'.ga.mode = m.ga.mode) : modeDmna m' = modeDmna m := by
  rw [modeDmna_eq, modeDmna_eq, h]

theorem WordRamInv.of_mode (inv : WordRamInv m) (h : m'.ga.mode = m.ga.mode)
    (latch : m'.ga.dmnaInt = m.ga.dmnaInt) (wait : m'.ga.subWait = true → m.ga.subWait = true) :
    WordRamInv m' := by
  constructor
  · rw [mode1M_of h, modeRet_of h, modeDmna_of h]
    exact inv.exclusive
  · rw [mode1M_of h, modeRet_of h, latch]
    exact inv.latched
  · rw [mode1M_of h, modeRet_of h]
    exact fun waits => inv.waiting (wait waits)

theorem WordRamInv.mainMode (inv : WordRamInv m) {value : Byte} (written : MainWritten m value m') :
    WordRamInv m' := by
  constructor
  · rw [written.oneM, written.ret, written.dmna]
    intro twoM
    rw [inv.exclusive twoM, twoM]
    cases modeDmna m <;> cases value[1] <;> rfl
  · rw [written.oneM, written.ret, written.latch]
    intro twoM
    rw [inv.latched twoM, twoM]
    cases modeRet m <;> cases value[1] <;> rfl
  · rw [written.oneM, written.ret, written.wait]
    intro waits
    simp only [Bool.and_eq_true] at waits
    obtain ⟨twoM, ret⟩ := inv.waiting waits.1
    exact ⟨twoM, by rw [ret, waits.2]; rfl⟩

/-- A sub write that leaves 2M in 2M changes RET only by setting it. -/
theorem WordRamInv.stays (inv : WordRamInv m) {value : Byte} (change : SubChange m value)
    (from2M : mode1M m = false) (twoM : value[2] = false) (ret : value[0] = false) :
    m.ga.dmnaInt = false ∧ modeDmna m = false := by
  have main : modeRet m = true := by
    rcases change with mode | bank
    · exact absurd (twoM.trans from2M.symm) mode
    · simpa [ret] using bank
  constructor
  · rw [inv.latched from2M, main, Bool.not_true]
  · have exclusive := inv.exclusive from2M
    rw [main] at exclusive
    simpa using exclusive.symm

theorem WordRamInv.subMode (inv : WordRamInv m) (runs : scdSubHeld m = false) {value : Byte}
    (written : SubWritten m value m') : WordRamInv m' := by
  have awake : m.ga.subWait = false := by
    simp only [scdSubHeld, Bool.or_eq_false_iff] at runs
    exact runs.2
  have twoM : mode1M m' = false →
      modeRet m' = !modeDmna m' ∧ m'.ga.dmnaInt = !modeRet m' := by
    intro twoM
    by_cases change : SubChange m value
    · rw [written.oneM change] at twoM
      rw [written.latch change]
      rcases Bool.eq_false_or_eq_true (mode1M m) with from1M | from2M
      · obtain ⟨ret, dmna⟩ := written.leave from1M twoM
        rw [ret, dmna, Bool.not_not]
        constructor
        · rfl
        · cases m.ga.dmnaInt <;> cases value[0] <;> rfl
      · obtain ⟨ret, dmna⟩ := written.stay change from2M twoM
        rw [ret, dmna]
        rcases Bool.eq_false_or_eq_true value[0] with back | keep
        · rw [back, Bool.not_true, Bool.and_false, Bool.and_false]
          exact ⟨rfl, rfl⟩
        · obtain ⟨latch, dmna⟩ := inv.stays change from2M twoM keep
          rw [latch, dmna]
          exact ⟨rfl, rfl⟩
    · obtain ⟨oneM, ret, dmna, latch⟩ := written.kept change
      rw [ret, dmna, latch]
      rw [oneM] at twoM
      exact ⟨inv.exclusive twoM, inv.latched twoM⟩
  constructor
  · exact fun h => (twoM h).1
  · exact fun h => (twoM h).2
  · rw [written.wait, awake]
    intro waits
    cases waits

theorem Step.inv (step : Step event m m') (inv : WordRamInv m) : WordRamInv m' := by
  cases step with
  | mainMode _ value => exact inv.mainMode (mainModeWrite_written m value)
  | subMode _ value runs => exact inv.subMode runs (subModeWrite_written m value)
  | access _ cpu address write runs =>
      rcases scdWordRamAccess_register m cpu address write with same | ⟨twoM, ret, same⟩
      · exact inv.of_mode same.mode same.dmnaInt fun waits => same.subWait ▸ waits
      · have mode : (scdWordRamAccess m cpu address write).ga.mode = m.ga.mode := same.mode
        have latch : (scdWordRamAccess m cpu address write).ga.dmnaInt = m.ga.dmnaInt :=
          same.dmnaInt
        constructor
        · rw [mode1M_of mode, modeRet_of mode, modeDmna_of mode]
          exact inv.exclusive
        · rw [mode1M_of mode, modeRet_of mode, latch]
          exact inv.latched
        · rw [mode1M_of mode, modeRet_of mode]
          exact fun _ => ⟨twoM, ret⟩
  | resetControl _ value =>
      have reset := scdGaResetControl_wakes m value
      exact inv.of_mode reset.mode reset.dmnaInt reset.wakes
  | device _ _ same => exact inv.of_mode same.mode same.dmnaInt fun waits => same.subWait ▸ waits

end Steps

theorem PowerOn.inv {m : ScdMachine} (on : PowerOn m) : WordRamInv m := by
  constructor
  · intro _
    rw [modeRet_eq, modeDmna_eq, on.mode]
    rfl
  · intro _
    rw [modeRet_eq, on.mode, on.dmnaInt]
    rfl
  · rw [on.subWait]
    intro waits
    cases waits

theorem Run.inv {events : List Event} {m : ScdMachine} (run : Run events m) : WordRamInv m := by
  induction run with
  | powerOn on => exact on.inv
  | step _ step ih => exact step.inv ih

/-! ## Hand-overs -/

/-- Main asks for Word RAM to go to the sub. -/
def Event.Requests : Event → Prop
  | .mainMode value => value[1] = true
  | _ => False

/-- The sub changes RET or MODE. -/
def Event.Changes (m : ScdMachine) : Event → Prop
  | .subMode value => SubChange m value
  | _ => False

/-- The sub changes RET or MODE with RET = 1, which drops a latched request. -/
def Event.Drops (m : ScdMachine) : Event → Prop
  | .subMode value => SubChange m value ∧ value[0] = true
  | _ => False

/-- What one step does to a request and to the ownership. -/
structure HandOver (m : ScdMachine) (event : Event) (m' : ScdMachine) : Prop where
  latched : m'.ga.dmnaInt = true ↔ event.Requests ∨ m.ga.dmnaInt = true ∧ ¬event.Drops m
  moved : ∀ offset, owner m' offset ≠ owner m offset →
    event.Requests ∧ mode1M m = false ∧ modeRet m = true ∨ event.Changes m
  granted : event.Requests → mode1M m = false →
    mode1M m' = false ∧ modeRet m' = false ∧ m'.ga.subWait = false
  joined : ∀ value, event = .subMode value → mode1M m = true → value[2] = false →
    mode1M m' = false ∧ modeRet m' = (value[0] || !m.ga.dmnaInt)
  banked : ∀ value, event = .subMode value → value[2] = true →
    mode1M m' = true ∧ modeRet m' = value[0] ∧ (SubChange m value → modeDmna m' = false)
  returned : ∀ value, event = .subMode value → mode1M m = false → value[2] = false →
    mode1M m' = false ∧ modeRet m' = (value[0] || modeRet m)
  pending : ∀ value, event = .mainMode value → mode1M m = true →
    modeDmna m' = (modeDmna m || !value[1])
  swapPending : modeDmna m = true → mode1M m = true → ¬event.Changes m → modeDmna m' = true

section HandOvers

variable {event : Event} {m m' : ScdMachine}

theorem owner_of (oneM : mode1M m' = mode1M m) (ret : modeRet m' = modeRet m) (offset : ℕ) :
    owner m' offset = owner m offset := by
  rw [owner, owner, oneM, ret]

theorem handOver_mainMode {value : Byte} (written : MainWritten m value m') :
    HandOver m (.mainMode value) m' := by
  constructor
  · rw [written.latch]
    simp [Event.Requests, Event.Drops, or_comm]
  · intro offset moved
    left
    by_contra still
    apply moved
    apply owner_of written.oneM
    rw [written.ret]
    revert still
    simp only [Event.Requests]
    cases mode1M m <;> cases modeRet m <;> cases value[1] <;> simp
  · intro request twoM
    simp only [Event.Requests] at request
    rw [written.oneM, written.ret, written.wait, request, twoM]
    simp
  · intro other event
    cases event
  · intro other event
    cases event
  · intro other event
    cases event
  · intro other event oneM
    cases event
    rw [written.dmna, oneM]
    cases value[1] <;> rfl
  · intro pending _ _
    rw [written.dmna, pending, Bool.true_or]

theorem handOver_subMode {value : Byte} (written : SubWritten m value m') :
    HandOver m (.subMode value) m' := by
  constructor
  · simp only [Event.Requests, Event.Drops, false_or]
    by_cases change : SubChange m value
    · rw [written.latch change]
      simp [change]
    · rw [(written.kept change).2.2.2]
      simp [change]
  · intro offset moved
    right
    by_contra still
    apply moved
    obtain ⟨oneM, ret, _, _⟩ := written.kept still
    exact owner_of oneM ret offset
  · intro request
    cases request
  · intro other event oneM twoM
    cases event
    have change : SubChange m value := .inl (by rw [oneM, twoM]; simp)
    exact ⟨(written.oneM change).trans twoM, (written.leave oneM twoM).1⟩
  · intro other event oneM
    cases event
    by_cases change : SubChange m value
    · obtain ⟨ret, dmna⟩ := written.banks change oneM
      exact ⟨(written.oneM change).trans oneM, ret, fun _ => dmna⟩
    · obtain ⟨mode, ret, _, _⟩ := written.kept change
      simp only [SubChange, ne_eq, not_or, not_not] at change
      exact ⟨mode.trans (change.1.symm.trans oneM), ret.trans change.2.symm,
        fun other => (other.elim (· change.1) (· change.2)).elim⟩
  · intro other event from2M twoM
    cases event
    by_cases change : SubChange m value
    · have ret := (written.stay change from2M twoM).1
      refine ⟨(written.oneM change).trans twoM, ?_⟩
      rw [ret]
      rcases change with mode | bank
      · exact absurd (twoM.trans from2M.symm) mode
      · revert bank
        cases value[0] <;> cases modeRet m <;> simp
    · obtain ⟨mode, ret, _, _⟩ := written.kept change
      simp only [SubChange, ne_eq, not_or, not_not] at change
      rw [mode, ret, change.2, Bool.or_self]
      exact ⟨from2M, rfl⟩
  · intro other event
    cases event
  · intro pending _ kept
    rw [(written.kept kept).2.2.1, pending]

theorem handOver_quiet (mode : m'.ga.mode = m.ga.mode) (latch : m'.ga.dmnaInt = m.ga.dmnaInt)
    (noMain : ∀ value, event ≠ .mainMode value) (noSub : ∀ value, event ≠ .subMode value) :
    HandOver m event m' := by
  have noRequest : ¬event.Requests := by
    cases event with
    | mainMode value => exact absurd rfl (noMain value)
    | _ => exact id
  have noDrop : ¬event.Drops m := by
    cases event with
    | subMode value => exact absurd rfl (noSub value)
    | _ => exact id
  constructor
  · simp [latch, noRequest, noDrop]
  · intro offset moved
    exact absurd (owner_of (mode1M_of mode) (modeRet_of mode) offset) moved
  · intro request
    exact absurd request noRequest
  · intro value written
    exact absurd written (noSub value)
  · intro value written
    exact absurd written (noSub value)
  · intro value written
    exact absurd written (noSub value)
  · intro value written
    exact absurd written (noMain value)
  · intro pending _ _
    rw [modeDmna_of mode, pending]

theorem Step.handOver (step : Step event m m') : HandOver m event m' := by
  cases step with
  | mainMode _ value => exact handOver_mainMode (mainModeWrite_written m value)
  | subMode _ value _ => exact handOver_subMode (subModeWrite_written m value)
  | access _ cpu address write _ =>
      rcases scdWordRamAccess_register m cpu address write with same | ⟨_, _, same⟩
      · exact handOver_quiet same.mode same.dmnaInt (by simp) (by simp)
      · exact handOver_quiet (m := m) same.mode same.dmnaInt (by simp) (by simp)
  | resetControl _ value =>
      have reset := scdGaResetControl_wakes m value
      exact handOver_quiet reset.mode reset.dmnaInt (by simp) (by simp)
  | device _ _ same => exact handOver_quiet same.mode same.dmnaInt (by simp) (by simp)

end HandOvers

/-- Steps none of which drops a request. -/
inductive Undropped : ScdMachine → ScdMachine → Prop
  | refl (m : ScdMachine) : Undropped m m
  | step {m a b : ScdMachine} {event : Event} (steps : Undropped m a) (step : Step event a b)
    (keeps : ¬event.Drops a) : Undropped m b

theorem Undropped.latched {m m' : ScdMachine} (steps : Undropped m m')
    (latched : m.ga.dmnaInt = true) : m'.ga.dmnaInt = true := by
  induction steps with
  | refl => exact latched
  | step _ step keeps ih => exact step.handOver.latched.mpr (.inr ⟨ih, keeps⟩)

/-- Over every run each byte has one processor that reaches it. In 2M mode that is the one RET and
DMNA name, in 1M mode main reaches bank RET and the sub the other; the sub waits only for 2M Word
RAM that main owns; and a request stays latched until the sub drops it. -/
theorem word_ram_ownership {events : List Event} {m : ScdMachine} (run : Run events m) :
    (mode1M m = false → modeRet m = !modeDmna m ∧ m.ga.dmnaInt = !modeRet m) ∧
      (∀ offset < 0x40000, ∀ cpu, Reaches m cpu offset ↔ owner m offset = cpu) ∧
      (m.ga.subWait = true → mode1M m = false ∧ ∀ offset, owner m offset = .main) ∧
      (∀ event m', Step event m m' → HandOver m event m') ∧
      ∀ m', m.ga.dmnaInt = true → Undropped m m' → m'.ga.dmnaInt = true := by
  have inv := run.inv
  constructor
  · exact fun twoM => ⟨inv.exclusive twoM, inv.latched twoM⟩
  constructor
  · exact fun offset inside cpu => reaches_iff inside m cpu
  constructor
  · intro waits
    obtain ⟨twoM, ret⟩ := inv.waiting waits
    refine ⟨twoM, ?_⟩
    intro offset
    rw [owner, if_neg (by simp [twoM]), if_pos ret]
  constructor
  · exact fun event m' step => step.handOver
  · exact fun m' latched steps => steps.latched latched

def powerOn : ScdMachine where
  ga := { mode := SCD_MODE_RET, subHalted := true, ctl := 0x02 }

theorem word_ram_ownership_power_on : ∃ m, Run [.resetControl 1, .mainMode 2] m ∧
    (mode1M m = false → modeRet m = !modeDmna m ∧ m.ga.dmnaInt = !modeRet m) ∧
      (∀ offset < 0x40000, ∀ cpu, Reaches m cpu offset ↔ owner m offset = cpu) ∧
      (m.ga.subWait = true → mode1M m = false ∧ ∀ offset, owner m offset = .main) ∧
      (∀ event m', Step event m m' → HandOver m event m') ∧
      ∀ m', m.ga.dmnaInt = true → Undropped m m' → m'.ga.dmnaInt = true := by
  have on : Run [] powerOn := .powerOn ⟨rfl, rfl, rfl, rfl, rfl⟩
  have run := (on.step (.resetControl _ 1)).step (.mainMode _ 2)
  exact ⟨_, run, word_ram_ownership run⟩

/-- The step hands 2M Word RAM to the sub. -/
def Grants (m m' : ScdMachine) : Prop :=
  (mode1M m' = false ∧ modeRet m' = false) ∧ (mode1M m = true ∨ modeRet m = true)

instance (m m' : ScdMachine) : Decidable (Grants m m') :=
  inferInstanceAs (Decidable ((mode1M m' = false ∧ modeRet m' = false) ∧
    (mode1M m = true ∨ modeRet m = true)))

/-- One request of main is honoured twice when the sub passes through 1M mode with RET = 0, and a
request made in 1M mode is never honoured when the sub swaps the banks with RET = 1 first. -/
theorem request_honoured_twice_or_lost :
    (∃ a b c d, Run [.resetControl 1] a ∧ Step (.mainMode 2) a b ∧ Grants a b ∧
      Step (.subMode 4) b c ∧ Step (.subMode 0) c d ∧ Grants c d) ∧
    ∃ m, Run [.resetControl 1, .mainMode 2, .subMode 4, .mainMode 2, .subMode 5, .subMode 0] m ∧
      owner m 0 = .main := by
  have on : Run [] powerOn := .powerOn ⟨rfl, rfl, rfl, rfl, rfl⟩
  have released := on.step (.resetControl _ 1)
  constructor
  · exact ⟨_, _, _, _, released, .mainMode _ 2, by decide, .subMode _ 4 rfl, .subMode _ 0 rfl,
      by decide⟩
  · exact ⟨_, ((((released.step (.mainMode _ 2)).step (.subMode _ 4 rfl)).step
      (.mainMode _ 2)).step (.subMode _ 5 rfl)).step (.subMode _ 0 rfl), by decide⟩

end Segarecomp.SegaCd

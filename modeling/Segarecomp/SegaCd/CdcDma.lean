import Segarecomp.Lib.Bits
import Segarecomp.Lib.Slicing
import Segarecomp.SegaCd.Machine

/-! The CDC's DMA into Word RAM. Progress is computed from the ticks since a remembered base; it
does not depend on the ticks at which it is observed. -/

namespace Segarecomp.SegaCd

open Lib Lib.Slicing

def SCD_IFSTAT_DTEI : Byte := 0x40
def SCD_IFSTAT_DECI : Byte := 0x20
def SCD_IFSTAT_DTBSY : Byte := 0x08
def SCD_IFSTAT_DTEN : Byte := 0x02
def SCD_IFCTRL_DTEIEN : Byte := 0x40

def scdDmaByteTicks (m : ScdMachine) : ℕ := SCD_DMA_SUB_CYCLES_PER_BYTE * scdSubCycleTicks m

def scdCdcLevel5 (m : ScdMachine) : ScdMachine :=
  if m.ga.interruptEnable &&& 0x20 ≠ 0 then scdRaiseSubLevel m 5 else m

/-- The 2M destination wraps over 256 KiB, a bank over 128 KiB. -/
def dmaMask : DmaTarget → ℕ
  | .twoM => 0x3FFFE
  | _ => 0x1FFFE

def dmaAt (target : DmaTarget) (dst : ℕ) : ℕ :=
  match target with
  | .twoM => dst
  | .bank0 => scdBankOffset 0 dst
  | .bank1 => scdBankOffset 1 dst

/-- The word loop of `scdCdcDmaMove`. Writes to the Word RAM mode that is not the current one
are lost. -/
def dmaWords (live : Bool) (target : DmaTarget) (buffer : ℕ → Byte) :
    ℕ → ℕ → ℕ → (ℕ → Byte) → ℕ → Byte
  | 0, _, _, ram => ram
  | words + 1, src, dst, ram =>
    let place := dmaAt target dst
    let ram :=
      if live then
        Function.update (Function.update ram place (buffer src)) (place + 1) (buffer (src + 1))
      else ram
    dmaWords live target buffer words ((src + 2) &&& 0x3FFE) ((dst + 2) &&& dmaMask target) ram

def scdCdcDmaMove (m : ScdMachine) (length : ℕ) : ScdMachine :=
  let words := length >>> 1
  let mask := dmaMask m.cdc.dmaTarget
  let live : Bool := decide (m.cdc.dmaTarget = .twoM) == decide (m.ga.mode &&& SCD_MODE_1M = 0)
  let src := m.cdc.dac &&& 0x3FFE
  let dst := (m.cdc.dmaAddress <<< 3) &&& mask
  { m with
    cdc :=
      { m.cdc with
        dmaAddress := (m.cdc.dmaAddress + (words >>> 2)) % 2 ^ 16
        dac := (m.cdc.dac + (words <<< 1)) % 2 ^ 16
        dmaDone := (m.cdc.dmaDone + (words <<< 1)) % 2 ^ 32 }
    wordRam := dmaWords live m.cdc.dmaTarget m.cdc.buffer words src dst m.wordRam }

def scdCdcTransferEnd (m : ScdMachine) : ScdMachine :=
  let m :=
    { m with
      cdc.dbc := 0xFFFF
      cdc.ifstat := (m.cdc.ifstat ||| SCD_IFSTAT_DTBSY ||| SCD_IFSTAT_DTEN) &&& ~~~SCD_IFSTAT_DTEI }
  let m :=
    if m.cdc.ifctrl &&& SCD_IFCTRL_DTEIEN ≠ 0 then
      let m :=
        if m.cdc.irq &&& SCD_IFSTAT_DECI ≠ 0 ∧ m.cdc.dmaBase > m.cdc.decoderEnd then
          { m with
            cdc.ifstat := m.cdc.ifstat ||| SCD_IFSTAT_DECI
            cdc.irq := m.cdc.irq &&& ~~~SCD_IFSTAT_DECI }
        else m
      let m := if m.cdc.irq = 0 then scdCdcLevel5 m else m
      { m with cdc.irq := m.cdc.irq ||| SCD_IFSTAT_DTEI }
    else m
  { m with cdc.edt := true }

def scdCdcDmaFinish (m : ScdMachine) : ScdMachine :=
  let m := scdCdcTransferEnd { m with cdc.dmaState := .none }
  { m with cdc.dsr := false }

/-- Bring a running DMA up to tick `now`. -/
def scdCdcDmaSync (now : ℕ) (m : ScdMachine) : ScdMachine :=
  let bt := scdDmaByteTicks m
  if m.cdc.dmaState ≠ .running ∨ now ≤ m.cdc.dmaBase then m
  else
    let elapsed := (now - m.cdc.dmaBase + bt - 1) / bt
    let groups := elapsed - elapsed % 8
    if m.cdc.dbc < groups then
      let remaining := m.cdc.dbc + 1
      let m := scdCdcDmaMove m remaining
      scdCdcDmaFinish { m with cdc.dmaBase := m.cdc.dmaBase + remaining * bt }
    else if groups > 0 then
      let m := scdCdcDmaMove m groups
      { m with
        cdc.dbc := m.cdc.dbc - groups
        cdc.dmaBase := m.cdc.dmaBase + groups * bt }
    else m

/-- The tick announced for the end of the transfer. -/
def scdCdcDmaCompletion (m : ScdMachine) : ℕ :=
  let rounded := m.cdc.dbc + 1 + 7 - (m.cdc.dbc + 1 + 7) % 8
  m.cdc.dmaBase + (rounded - 1) * scdDmaByteTicks m + 1

/-! ## Moving words -/

theorem land_src (x : ℕ) : x &&& 0x3FFE = x / 2 % 8192 * 2 := Bits.land_even_mask x 13

/-- The words of a destination. -/
def dmaSpan : DmaTarget → ℕ
  | .twoM => 131072
  | _ => 65536

theorem land_dmaMask (target : DmaTarget) (x : ℕ) :
    x &&& dmaMask target = x / 2 % dmaSpan target * 2 := by
  cases target with
  | twoM => exact Bits.land_even_mask x 17
  | bank0 => exact Bits.land_even_mask x 16
  | bank1 => exact Bits.land_even_mask x 16

section Words

variable {live : Bool} {target : DmaTarget} {buffer : ℕ → Byte}

theorem dmaWords_congr {words src src' dst dst' : ℕ} {ram : ℕ → Byte} (hsrc : src = src')
    (hdst : dst = dst') :
    dmaWords live target buffer words src dst ram = dmaWords live target buffer words src' dst' ram := by
  rw [hsrc, hdst]

/-- The loop can stop after any number of words and go on from the advanced addresses. -/
theorem dmaWords_add (first second x y : ℕ) (ram : ℕ → Byte) :
    dmaWords live target buffer (first + second) (x &&& 0x3FFE) (y &&& dmaMask target) ram =
      dmaWords live target buffer second ((x + 2 * first) &&& 0x3FFE)
        ((y + 2 * first) &&& dmaMask target)
        (dmaWords live target buffer first (x &&& 0x3FFE) (y &&& dmaMask target) ram) := by
  induction first generalizing x y ram with
  | zero => simp [dmaWords]
  | succ first ih =>
      have step_src : ((x &&& 0x3FFE) + 2) &&& 0x3FFE = (x + 2) &&& 0x3FFE := by
        simp only [land_src]
        omega
      have step_dst : ((y &&& dmaMask target) + 2) &&& dmaMask target =
          (y + 2) &&& dmaMask target := by
        simp only [land_dmaMask]
        cases target <;> simp only [dmaSpan] <;> omega
      rw [Nat.add_right_comm, dmaWords, dmaWords, step_src, step_dst, ih]
      apply dmaWords_congr
      · rw [show x + 2 + 2 * first = x + 2 * (first + 1) by ring]
      · rw [show y + 2 + 2 * first = y + 2 * (first + 1) by ring]

end Words

theorem group_words (j rest : ℕ) : (8 * j + rest) >>> 1 = 4 * j + rest >>> 1 := by
  simp only [Nat.shiftRight_eq_div_pow]
  omega

/-- Where the next word of the buffer is read after `j` groups. -/
theorem group_src (dac j : ℕ) :
    (dac + (4 * j) <<< 1) % 2 ^ 16 &&& 0x3FFE = (dac + 2 * (4 * j)) &&& 0x3FFE := by
  simp only [land_src, Nat.shiftLeft_eq]
  omega

/-- Where the next word goes: the DMA address counts groups, so it has lost nothing. -/
theorem group_dst (target : DmaTarget) (address j : ℕ) :
    ((address + (4 * j) >>> 2) % 2 ^ 16) <<< 3 &&& dmaMask target =
      (address <<< 3 + 2 * (4 * j)) &&& dmaMask target := by
  simp only [land_dmaMask, Nat.shiftLeft_eq, Nat.shiftRight_eq_div_pow]
  cases target <;> simp only [dmaSpan] <;> omega

/-- Whole 8-byte groups and then the rest is the same as all of it at once. -/
theorem scdCdcDmaMove_add (m : ScdMachine) {groups : ℕ} (whole : 8 ∣ groups) (rest : ℕ) :
    scdCdcDmaMove (scdCdcDmaMove m groups) rest = scdCdcDmaMove m (groups + rest) := by
  obtain ⟨j, rfl⟩ := whole
  have first : (8 * j) >>> 1 = 4 * j := by
    simpa using group_words j 0
  have address : ((m.cdc.dmaAddress + (4 * j) >>> 2) % 2 ^ 16 + (rest >>> 1) >>> 2) % 2 ^ 16 =
      (m.cdc.dmaAddress + (4 * j + rest >>> 1) >>> 2) % 2 ^ 16 := by
    simp only [Nat.shiftRight_eq_div_pow]
    omega
  have twice : ∀ x k : ℕ, ((x + (4 * j) <<< 1) % 2 ^ k + (rest >>> 1) <<< 1) % 2 ^ k =
      (x + (4 * j + rest >>> 1) <<< 1) % 2 ^ k := by
    intro x k
    rw [Nat.mod_add_mod, Nat.add_assoc]
    simp only [Nat.shiftLeft_eq, Nat.add_mul]
  unfold scdCdcDmaMove
  simp only [group_words, first, address, twice, group_src, group_dst, dmaWords_add]

/-! ## One bring-up -/

/-- The bytes due at `now`, in whole groups. -/
def dmaGroups (m : ScdMachine) (now : ℕ) : ℕ :=
  let due := elapsed m.cdc.dmaBase (scdDmaByteTicks m) now
  due - due % 8

/-- A bring-up inside the transfer. -/
def dmaProgress (m : ScdMachine) (groups : ℕ) : ScdMachine :=
  let moved := scdCdcDmaMove m groups
  { moved with
    cdc.dbc := moved.cdc.dbc - groups
    cdc.dmaBase := moved.cdc.dmaBase + groups * scdDmaByteTicks m }

/-- The bring-up that ends it. -/
def dmaComplete (m : ScdMachine) : ScdMachine :=
  let moved := scdCdcDmaMove m (m.cdc.dbc + 1)
  scdCdcDmaFinish
    { moved with cdc.dmaBase := moved.cdc.dmaBase + (m.cdc.dbc + 1) * scdDmaByteTicks m }

theorem scdDmaByteTicks_pos (m : ScdMachine) : 0 < scdDmaByteTicks m :=
  Nat.mul_pos (by decide) (scdSubCycleTicks_pos m)

section Sync

variable {m : ScdMachine} {now later groups : ℕ}

theorem dmaGroups_dvd (m : ScdMachine) (now : ℕ) : 8 ∣ dmaGroups m now := Nat.dvd_sub_mod _

theorem dmaGroups_mono (h : now ≤ later) : dmaGroups m now ≤ dmaGroups m later := by
  have due : elapsed m.cdc.dmaBase (scdDmaByteTicks m) now ≤
      elapsed m.cdc.dmaBase (scdDmaByteTicks m) later := elapsed_mono h
  unfold dmaGroups
  dsimp only
  omega

theorem scdCdcDmaSync_eq (m : ScdMachine) (now : ℕ) :
    scdCdcDmaSync now m =
      if m.cdc.dmaState ≠ .running then m
      else if m.cdc.dbc < dmaGroups m now then dmaComplete m
      else if dmaGroups m now > 0 then dmaProgress m (dmaGroups m now)
      else m := by
  unfold scdCdcDmaSync
  by_cases running : m.cdc.dmaState ≠ .running
  · simp only [running, true_or, if_true, ne_eq, not_false_eq_true]
  · by_cases early : now ≤ m.cdc.dmaBase
    · have none : dmaGroups m now = 0 := by
        simp only [dmaGroups, elapsed_eq_zero early (scdDmaByteTicks_pos m), Nat.zero_sub]
      simp only [running, early, or_true, if_true, if_false, none, Nat.not_lt_zero, gt_iff_lt]
    · simp only [running, early, or_self, if_false]
      rfl

theorem scdCdcDmaSync_stopped (h : m.cdc.dmaState ≠ .running) : scdCdcDmaSync now m = m := by
  rw [scdCdcDmaSync_eq, if_pos h]

theorem scdCdcDmaSync_complete (running : m.cdc.dmaState = .running)
    (h : m.cdc.dbc < dmaGroups m now) : scdCdcDmaSync now m = dmaComplete m := by
  rw [scdCdcDmaSync_eq, if_neg (not_not_intro running), if_pos h]

theorem scdCdcDmaSync_progress (running : m.cdc.dmaState = .running)
    (inside : dmaGroups m now ≤ m.cdc.dbc) (some : 0 < dmaGroups m now) :
    scdCdcDmaSync now m = dmaProgress m (dmaGroups m now) := by
  rw [scdCdcDmaSync_eq, if_neg (not_not_intro running), if_neg (Nat.not_lt.mpr inside), if_pos some]

theorem scdCdcDmaSync_idle (running : m.cdc.dmaState = .running) (h : dmaGroups m now = 0) :
    scdCdcDmaSync now m = m := by
  rw [scdCdcDmaSync_eq, if_neg (not_not_intro running), h, if_neg (Nat.not_lt_zero _),
    if_neg (lt_irrefl 0)]

theorem scdCdcTransferEnd_dmaState (m : ScdMachine) :
    (scdCdcTransferEnd m).cdc.dmaState = m.cdc.dmaState := by
  unfold scdCdcTransferEnd scdCdcLevel5 scdRaiseSubLevel
  dsimp only
  repeat' split
  all_goals rfl

theorem dmaComplete_dmaState (m : ScdMachine) : (dmaComplete m).cdc.dmaState = .none := by
  unfold dmaComplete scdCdcDmaFinish
  exact scdCdcTransferEnd_dmaState _

theorem dmaProgress_groups (whole : 8 ∣ groups) :
    dmaGroups (dmaProgress m groups) now = dmaGroups m now - groups := by
  have due : elapsed (m.cdc.dmaBase + groups * scdDmaByteTicks m) (scdDmaByteTicks m) now =
      elapsed m.cdc.dmaBase (scdDmaByteTicks m) now - groups := elapsed_add (scdDmaByteTicks_pos m)
  have same : dmaGroups (dmaProgress m groups) now =
      elapsed (m.cdc.dmaBase + groups * scdDmaByteTicks m) (scdDmaByteTicks m) now -
        elapsed (m.cdc.dmaBase + groups * scdDmaByteTicks m) (scdDmaByteTicks m) now % 8 := rfl
  rw [same, due]
  unfold dmaGroups
  dsimp only
  omega

theorem dmaProgress_add (whole : 8 ∣ groups) (rest : ℕ) :
    dmaProgress (dmaProgress m groups) rest = dmaProgress m (groups + rest) := by
  have move := scdCdcDmaMove_add m whole rest
  have count : m.cdc.dbc - groups - rest = m.cdc.dbc - (groups + rest) := Nat.sub_sub _ _ _
  have base : m.cdc.dmaBase + groups * scdDmaByteTicks m + rest * scdDmaByteTicks m =
      m.cdc.dmaBase + (groups + rest) * scdDmaByteTicks m := by ring
  calc
    dmaProgress (dmaProgress m groups) rest =
        { scdCdcDmaMove (scdCdcDmaMove m groups) rest with
          cdc.dbc := m.cdc.dbc - groups - rest
          cdc.dmaBase :=
            m.cdc.dmaBase + groups * scdDmaByteTicks m + rest * scdDmaByteTicks m } := rfl
    _ = dmaProgress m (groups + rest) := by
      rw [move, count, base]
      rfl

/-- Whatever was moved before, the end is the same. -/
theorem dmaProgress_complete (whole : 8 ∣ groups) (inside : groups ≤ m.cdc.dbc) :
    dmaComplete (dmaProgress m groups) = dmaComplete m := by
  have total : groups + (m.cdc.dbc - groups + 1) = m.cdc.dbc + 1 := by omega
  have move := scdCdcDmaMove_add m whole (m.cdc.dbc - groups + 1)
  rw [total] at move
  have base : m.cdc.dmaBase + groups * scdDmaByteTicks m +
      (m.cdc.dbc - groups + 1) * scdDmaByteTicks m =
        m.cdc.dmaBase + (m.cdc.dbc + 1) * scdDmaByteTicks m := by
    rw [← total]
    ring
  calc
    dmaComplete (dmaProgress m groups) =
        scdCdcDmaFinish
          { scdCdcDmaMove (scdCdcDmaMove m groups) (m.cdc.dbc - groups + 1) with
            cdc.dbc := m.cdc.dbc - groups
            cdc.dmaBase :=
              m.cdc.dmaBase + groups * scdDmaByteTicks m +
                (m.cdc.dbc - groups + 1) * scdDmaByteTicks m } := rfl
    _ = dmaComplete m := by
      rw [move, base]
      rfl

theorem scdCdcDmaSync_absorbs : Absorbs scdCdcDmaSync := by
  intro t u m le
  by_cases running : m.cdc.dmaState = .running
  · have mono := dmaGroups_mono (m := m) le
    have whole := dmaGroups_dvd m t
    rcases Nat.lt_or_ge m.cdc.dbc (dmaGroups m t) with past | inside
    · have done : (dmaComplete m).cdc.dmaState ≠ .running := by
        simp [dmaComplete_dmaState]
      rw [scdCdcDmaSync_complete running past, scdCdcDmaSync_stopped done,
        scdCdcDmaSync_complete running (lt_of_lt_of_le past mono)]
    · rcases Nat.eq_zero_or_pos (dmaGroups m t) with none | some
      · rw [scdCdcDmaSync_idle running none]
      · rw [scdCdcDmaSync_progress running inside some]
        generalize dmaGroups m t = first at *
        have left : dmaGroups (dmaProgress m first) u = dmaGroups m u - first :=
          dmaProgress_groups whole
        have still : (dmaProgress m first).cdc.dmaState = .running := running
        have count : (dmaProgress m first).cdc.dbc = m.cdc.dbc - first := rfl
        rcases Nat.lt_or_ge m.cdc.dbc (dmaGroups m u) with past | within
        · rw [scdCdcDmaSync_complete still (by omega), scdCdcDmaSync_complete running past]
          exact dmaProgress_complete whole inside
        · rcases Nat.eq_zero_or_pos (dmaGroups m u - first) with same | more
          · rw [scdCdcDmaSync_idle still (by omega), scdCdcDmaSync_progress running within (by omega)]
            rw [show dmaGroups m u = first by omega]
          · rw [scdCdcDmaSync_progress still (by omega) (by omega), left, dmaProgress_add whole,
              scdCdcDmaSync_progress running within (by omega)]
            rw [show first + (dmaGroups m u - first) = dmaGroups m u by omega]
  · rw [scdCdcDmaSync_stopped running]

/-- The announced tick is the first at which the transfer is found complete. -/
theorem scdCdcDmaSync_completion (running : m.cdc.dmaState = .running) :
    (scdCdcDmaSync now m).cdc.dmaState = .none ↔ scdCdcDmaCompletion m ≤ now := by
  have past : m.cdc.dbc < dmaGroups m now ↔ scdCdcDmaCompletion m ≤ now := by
    have due : m.cdc.dbc + 1 + 7 - (m.cdc.dbc + 1 + 7) % 8 - 1 <
        elapsed m.cdc.dmaBase (scdDmaByteTicks m) now ↔
          m.cdc.dmaBase + (m.cdc.dbc + 1 + 7 - (m.cdc.dbc + 1 + 7) % 8 - 1) * scdDmaByteTicks m <
            now := lt_elapsed_iff (scdDmaByteTicks_pos m)
    have completion : scdCdcDmaCompletion m = m.cdc.dmaBase +
        (m.cdc.dbc + 1 + 7 - (m.cdc.dbc + 1 + 7) % 8 - 1) * scdDmaByteTicks m + 1 := rfl
    rw [completion, Nat.succ_le_iff, ← due]
    unfold dmaGroups
    dsimp only
    omega
  rw [← past]
  constructor
  · intro stopped
    by_contra inside
    rcases Nat.eq_zero_or_pos (dmaGroups m now) with none | some
    · rw [scdCdcDmaSync_idle running none, running] at stopped
      cases stopped
    · rw [scdCdcDmaSync_progress running (Nat.not_lt.mp inside) some] at stopped
      have still : (dmaProgress m (dmaGroups m now)).cdc.dmaState = .running := running
      rw [still] at stopped
      cases stopped
  · intro h
    rw [scdCdcDmaSync_complete running h]
    exact dmaComplete_dmaState m

end Sync

/-! ## Main result -/

/-- However often a DMA is observed on the way, it ends as if observed at the last tick only,
and its announced end is the first tick at which an observation finds it complete. -/
theorem dma_observation_independent (m : ScdMachine) (ticks : List ℕ) (last : ℕ)
    (ordered : (ticks ++ [last]).Pairwise (· ≤ ·)) :
    advanceAll scdCdcDmaSync (ticks ++ [last]) m = scdCdcDmaSync last m ∧
      (m.cdc.dmaState = .running →
        ∀ now, (scdCdcDmaSync now m).cdc.dmaState = .none ↔ scdCdcDmaCompletion m ≤ now) :=
  ⟨scdCdcDmaSync_absorbs.advanceAll ordered m, fun running _ => scdCdcDmaSync_completion running⟩

/-- Twelve bytes to bank 1, looked at while the first group is due and again in the middle. -/
theorem dma_observation_independent_bank :
    let m : ScdMachine :=
      { ga.mode := 0x04, cdc.dmaState := .running, cdc.dmaTarget := .bank1, cdc.dbc := 11 }
    advanceAll scdCdcDmaSync ([70000000, 80000000] ++ [200000000]) m =
        scdCdcDmaSync 200000000 m ∧
      ((scdCdcDmaSync 128863621 m).cdc.dmaState = .none) := by
  intro m
  have slices := dma_observation_independent m [70000000, 80000000] 200000000 (by decide)
  exact ⟨slices.1, (slices.2 rfl 128863621).mpr (by decide)⟩

end Segarecomp.SegaCd

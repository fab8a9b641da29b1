import Segarecomp.SegaCd.WordRamOwner

/-! Where a processor sees a byte of a memory that holds code. The forward map is the bus access of
Word RAM; the overlays ask for the inverse. -/

namespace Segarecomp.SegaCd

inductive OverlayMemory
  | prg | word | work
  deriving DecidableEq, Repr

/-- The canonical address at which processor `cpu` sees byte `offset` of `memory`, if it does. -/
def scdOverlayViewOf (m : ScdMachine) (cpu : Cpu) (memory : OverlayMemory) (offset : ℕ) : Option ℕ :=
  match memory with
  | .prg =>
    if cpu = .sub then some offset
    else if m.ga.prgWindow ∧ offset >>> 17 = m.ga.prgBank then some (0x20000 + (offset &&& 0x1FFFF))
    else none
  | .work => if cpu ≠ .main then none else some (0xFF0000 + offset)
  | .word =>
    if m.ga.mode &&& SCD_MODE_1M = 0 then
      let mainOwns := decide (m.ga.mode &&& SCD_MODE_RET ≠ 0)
      if decide (cpu = .main) ≠ mainOwns then none
      else some ((if cpu = .main then 0x200000 else 0x80000) + offset)
    else
      let bank := (offset >>> 1) &&& 1
      let mainBank := if m.ga.mode &&& SCD_MODE_RET ≠ 0 then 1 else 0
      let place := ((offset >>> 2) <<< 1) ||| (offset &&& 1)
      if decide (cpu = .main) ≠ decide (bank = mainBank) then none
      else some ((if cpu = .main then 0x200000 else 0xC0000) + place)

/-- What a byte read by either processor returns; a refused read returns nothing. -/
def scdWordRamReadByte (m : ScdMachine) (cpu : Cpu) (address : ℕ) : Option Byte :=
  let m := scdCdObserve m
  match scdWordRamPlace m cpu address with
  | .at offset => some (m.wordRam offset)
  | _ => none

/-- The address of a byte inside its bank. -/
def bankAddress (offset : ℕ) : ℕ := offset / 4 * 2 + offset % 2

theorem scdBankOffset_bankAddress {bank offset : ℕ} (h : byteBank offset = bank) :
    scdBankOffset bank (bankAddress offset) = offset := by
  unfold byteBank at h
  unfold scdBankOffset bankAddress
  rw [Nat.shiftRight_eq_div_pow, Nat.and_one_is_mod]
  omega

theorem bankAddress_eq (offset : ℕ) : ((offset >>> 2) <<< 1) ||| (offset &&& 1) = bankAddress offset := by
  have low : offset &&& 1 < 2 ^ 1 := by
    rw [Nat.and_one_is_mod]
    omega
  rw [← Nat.shiftLeft_add_eq_or_of_lt low, Nat.and_one_is_mod, Nat.shiftRight_eq_div_pow, Nat.shiftLeft_eq]
  rfl

variable {m : ScdMachine} {cpu : Cpu} {offset address : ℕ}

theorem overlayView_2M (h : mode1M m = false) (cpu : Cpu) (offset : ℕ) :
    scdOverlayViewOf m cpu .word offset =
      if owner m offset = cpu then some ((if cpu = .main then 0x200000 else 0x80000) + offset) else none := by
  have zero : m.ga.mode &&& SCD_MODE_1M = 0 := (mode1M_zero m).mpr h
  simp only [scdOverlayViewOf, zero, if_true, owner, h, ne_eq, modeRet_zero]
  cases cpu <;> cases modeRet m <;> simp

theorem overlayView_1M (h : mode1M m = true) (cpu : Cpu) (offset : ℕ) :
    scdOverlayViewOf m cpu .word offset =
      if owner m offset = cpu then some ((if cpu = .main then 0x200000 else 0xC0000) + bankAddress offset)
      else none := by
  have set : ¬ m.ga.mode &&& SCD_MODE_1M = 0 := by
    intro zero
    have clear := (mode1M_zero m).mp zero
    simp [h] at clear
  have bank : (offset >>> 1) &&& 1 = byteBank offset := by
    rw [Nat.and_one_is_mod, Nat.shiftRight_eq_div_pow]
    rfl
  have main : (if ¬ modeRet m = false then 1 else 0) = (modeRet m).toNat := by cases modeRet m <;> rfl
  simp only [scdOverlayViewOf, if_neg set, bankAddress_eq, bank, ne_eq, modeRet_zero, main, owner, h, if_true]
  by_cases same : byteBank offset = (modeRet m).toNat <;> cases cpu <;> simp [same]

theorem overlayView_isSome (inside : offset < 0x40000) :
    (scdOverlayViewOf m cpu .word offset).isSome ↔ Reaches m cpu offset := by
  rw [reaches_iff inside]
  rcases Bool.eq_false_or_eq_true (mode1M m) with oneM | twoM
  · rw [overlayView_1M oneM]
    split <;> simp_all
  · rw [overlayView_2M twoM]
    split <;> simp_all

/-- The address the inverse gives is one the bus takes back to the byte. -/
theorem overlayView_place (inside : offset < 0x40000) (view : scdOverlayViewOf m cpu .word offset = some address) :
    InView cpu address ∧ scdWordRamPlace m cpu address = .at offset := by
  rcases Bool.eq_false_or_eq_true (mode1M m) with oneM | twoM
  · rw [overlayView_1M oneM, Option.ite_none_right_eq_some, Option.some.injEq] at view
    obtain ⟨owned, rfl⟩ := view
    have range : bankAddress offset < 0x20000 := by
      unfold bankAddress
      omega
    rw [scdWordRamPlace_1M oneM]
    simp only [owner, oneM, if_true] at owned
    have low : byteBank offset < 2 := Nat.mod_lt _ Nat.two_pos
    cases cpu with
    | main =>
        have at_bank : byteBank offset = (modeRet m).toNat := by
          by_contra other
          simp [other] at owned
        refine ⟨by simp only [InView, if_true]; omega, ?_⟩
        simp only [if_true, Nat.add_sub_cancel_left, scdBankOffset_bankAddress at_bank]
        rw [if_neg (by omega)]
    | sub =>
        have at_bank : byteBank offset = (!modeRet m).toNat := by
          have other : byteBank offset ≠ (modeRet m).toNat := by
            intro same
            simp [same] at owned
          cases ret : modeRet m with
          | false =>
              rw [ret, Bool.toNat_false] at other
              rw [Bool.not_false, Bool.toNat_true]
              omega
          | true =>
              rw [ret, Bool.toNat_true] at other
              rw [Bool.not_true, Bool.toNat_false]
              omega
        refine ⟨by simp [InView]; omega, ?_⟩
        simp only [reduceCtorEq, if_false, Nat.add_sub_cancel_left, scdBankOffset_bankAddress at_bank]
        rw [if_neg (by omega)]
  · rw [overlayView_2M twoM, Option.ite_none_right_eq_some, Option.some.injEq] at view
    obtain ⟨owned, rfl⟩ := view
    simp only [owner, twoM, Bool.false_eq_true, if_false] at owned
    rw [scdWordRamPlace_2M twoM]
    cases cpu with
    | main =>
        have ret : modeRet m = true := by
          by_contra other
          simp [other] at owned
        refine ⟨by simp only [InView, if_true]; omega, ?_⟩
        simp [ret]
    | sub =>
        have ret : modeRet m = false := by
          by_contra other
          simp [other] at owned
        refine ⟨by simp [InView]; omega, ?_⟩
        simp only [reduceCtorEq, if_false, Nat.add_sub_cancel_left, ret, Bool.false_eq_true]
        rw [if_pos (by omega)]

theorem scdWordRamPlace_observe (m : ScdMachine) (cpu : Cpu) (address : ℕ) :
    scdWordRamPlace (scdCdObserve m) cpu address = scdWordRamPlace m cpu address := by
  unfold scdWordRamPlace scdMainBank
  rw [(scdCdObserve_register m).mode]

/-- The inverse is defined on the bytes the processor reaches, and an access at its address is an access of
that byte. -/
theorem overlay_view_inverse (m : ScdMachine) (cpu : Cpu) (inside : offset < 0x40000) :
    ((scdOverlayViewOf m cpu .word offset).isSome ↔ Reaches m cpu offset) ∧
    ∀ address, scdOverlayViewOf m cpu .word offset = some address →
      InView cpu address ∧
      scdWordRamReadByte m cpu address = some ((scdCdObserve m).wordRam offset) ∧
      ∀ value, scdWordRamAccess m cpu address (some (.byte value)) =
        { scdCdObserve m with wordRam := Function.update (scdCdObserve m).wordRam offset value } := by
  refine ⟨overlayView_isSome inside, fun address view => ?_⟩
  obtain ⟨range, place⟩ := overlayView_place inside view
  refine ⟨range, ?_, fun value => ?_⟩
  · rw [scdWordRamReadByte, scdWordRamPlace_observe, place]
  · have placed := (scdWordRamPlace_observe m cpu address).trans place
    simp only [scdWordRamAccess, placed, storeWordRam]

/-- The sub's last byte of bank 0 in 1M mode with the main processor on bank 1. -/
theorem overlay_view_last :
    scdOverlayViewOf { ga := { mode := 0x05 } } .sub .word 0x3FFFD = some 0xDFFFF ∧
      ((scdOverlayViewOf { ga := { mode := 0x05 } } .sub .word 0x3FFFD).isSome ↔
        Reaches { ga := { mode := 0x05 } } .sub 0x3FFFD) :=
  ⟨by decide, (overlay_view_inverse _ _ (by decide)).1⟩

end Segarecomp.SegaCd

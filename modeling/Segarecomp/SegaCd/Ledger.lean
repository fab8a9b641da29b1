import Segarecomp.Lib.Spans
import Segarecomp.SegaCd.CdcDecode

/-! The ledger of the sectors the drive has read: ranges that grow at their end, of which a delivery looks
at the newest only. -/

namespace Segarecomp.SegaCd.Ledger

open Lib.Spans

def SCD_LEDGER_MAX : ℕ := 256

structure ScdLedgerRange where
  firstLba : BitVec 32
  count : BitVec 32
  deriving DecidableEq, Repr

def ScdLedgerRange.Holds (r : ScdLedgerRange) (lba : BitVec 32) : Prop :=
  r.firstLba ≤ lba ∧ lba - r.firstLba < r.count

instance (r : ScdLedgerRange) (lba : BitVec 32) : Decidable (r.Holds lba) := inferInstanceAs (Decidable (_ ∧ _))

/-- The newest range that holds the sector or ends before it, grown by it; `passed` ranges are newer, and
behind the fifth the search ends. -/
def extendNewest (lba : BitVec 32) : ℕ → List ScdLedgerRange → Option (List ScdLedgerRange)
  | _, [] => none
  | passed, r :: older =>
    if r.Holds lba then some (r :: older)
    else if lba = r.firstLba + r.count then some ({ r with count := r.count + 1 } :: older)
    else if 4 ≤ passed then none
    else (extendNewest lba (passed + 1) older).map (r :: ·)

theorem extendNewest_length {lba : BitVec 32} {passed : ℕ} {ranges after : List ScdLedgerRange}
    (extended : extendNewest lba passed ranges = some after) : after.length = ranges.length := by
  induction ranges generalizing passed after with
  | nil => cases extended
  | cons r older ih =>
      rw [extendNewest] at extended
      split_ifs at extended
      · rw [← Option.some.inj extended]
      · rw [← Option.some.inj extended]
        rfl
      · obtain ⟨rest, went, rfl⟩ := Option.map_eq_some_iff.mp extended
        exact congrArg (· + 1) (ih went)

/-- `delivered` is in the order of the array, the oldest range first. -/
structure ScdLedger where
  delivered : List ScdLedgerRange := []
  fits : delivered.length ≤ SCD_LEDGER_MAX := by decide
  deliveredOverflow : Bool := false

def scdLedgerNote (ledger : ScdLedger) (lba : BitVec 32) : ScdLedger :=
  match extended : extendNewest lba 0 ledger.delivered.reverse with
  | some ranges =>
      { ledger with
        delivered := ranges.reverse
        fits := by
          rw [List.length_reverse, extendNewest_length extended, List.length_reverse]
          exact ledger.fits }
  | none =>
      if full : SCD_LEDGER_MAX ≤ ledger.delivered.length then { ledger with deliveredOverflow := true }
      else
        { ledger with
          delivered := ledger.delivered ++ [⟨lba, 1⟩]
          fits := by
            rw [List.length_append]
            exact Nat.lt_of_not_le full }

def scdDynDelivered (ledger : ScdLedger) (lba : BitVec 32) : Bool := ledger.delivered.any fun r => decide (r.Holds lba)

/-! ## Deliveries -/

/-- The machine at a call of `scd_cdd_read_data`; its `lba` is an `int32_t`. -/
structure DriveRead where
  decoder : ScdDecoder
  narrow : decoder.lba < 2 ^ 31

/-- The sector a call delivers, and notes. -/
def DriveRead.delivers (read : DriveRead) : Option (BitVec 32) :=
  match sectorRead read.decoder with
  | .data _ => some (BitVec.ofInt 32 read.decoder.lba)
  | _ => none

def ScdLedger.readData (ledger : ScdLedger) (read : DriveRead) : ScdLedger :=
  match read.delivers with
  | some lba => scdLedgerNote ledger lba
  | none => ledger

def ledgerAfter (reads : List DriveRead) : ScdLedger := reads.foldl ScdLedger.readData {}

/-! ## Ranges as spans -/

variable {r : ScdLedgerRange} {ranges after : List ScdLedgerRange} {lba x : BitVec 32} {ledger : ScdLedger}

def ScdLedgerRange.span (r : ScdLedgerRange) : Span := ⟨r.firstLba.toNat, r.count.toNat⟩

/-- The end of the range is a sector number that an `int32_t` can be past of by one at most. -/
def ScdLedgerRange.Low (r : ScdLedgerRange) : Prop := r.span.stop ≤ 2 ^ 31

theorem holds_iff : r.Holds lba ↔ r.span.Holds lba.toNat := by
  rw [ScdLedgerRange.Holds, Span.Holds, Span.stop, ScdLedgerRange.span, BitVec.le_def, BitVec.lt_def]
  dsimp only
  constructor
  · rintro ⟨above, inside⟩
    rw [BitVec.toNat_sub_of_le (BitVec.le_def.mpr above)] at inside
    omega
  · rintro ⟨above, inside⟩
    rw [BitVec.toNat_sub_of_le (BitVec.le_def.mpr above)]
    omega

theorem grown_holds (low : r.Low) (next : lba = r.firstLba + r.count) (small : lba.toNat < 2 ^ 31) :
    ({ r with count := r.count + 1 } : ScdLedgerRange).Low ∧
      ∀ x, ({ r with count := r.count + 1 } : ScdLedgerRange).Holds x ↔ r.Holds x ∨ x = lba := by
  have low' : r.firstLba.toNat + r.count.toNat ≤ 2 ^ 31 := low
  have place : lba.toNat = r.span.stop := by
    rw [next, BitVec.toNat_add]
    exact Nat.mod_eq_of_lt (by omega)
  have longer : (r.count + 1).toNat = r.count.toNat + 1 := by
    rw [BitVec.toNat_add]
    exact Nat.mod_eq_of_lt (by have one : (1 : BitVec 32).toNat = 1 := rfl; omega)
  have stop : ({ r with count := r.count + 1 } : ScdLedgerRange).span.stop = r.span.stop + 1 := by
    simp only [Span.stop, ScdLedgerRange.span, longer, Nat.add_assoc]
  have fits : ({ r with count := r.count + 1 } : ScdLedgerRange).Low := by
    rw [ScdLedgerRange.Low, stop, ← place]
    omega
  refine ⟨fits, fun x => ?_⟩
  rw [holds_iff, holds_iff, Span.Holds, Span.Holds, stop, ← place, ← BitVec.toNat_inj]
  have first : r.span.first ≤ lba.toNat := place ▸ Nat.le_add_right _ _
  change r.span.first ≤ _ ∧ _ ↔ _
  omega

/-! ## One delivery -/

def Holding (ranges : List ScdLedgerRange) (x : BitVec 32) : Prop := ∃ r ∈ ranges, r.Holds x

def Low (ranges : List ScdLedgerRange) : Prop := ∀ r ∈ ranges, r.Low

theorem holding_cons : Holding (r :: ranges) x ↔ r.Holds x ∨ Holding ranges x := by
  simp [Holding]

theorem holding_reverse : Holding ranges.reverse x ↔ Holding ranges x := by
  simp [Holding]

theorem low_reverse : Low ranges.reverse ↔ Low ranges := by
  simp [Low]

theorem low_cons : Low (r :: ranges) ↔ r.Low ∧ Low ranges := by
  simp [Low]

theorem extendNewest_holding {passed : ℕ} (low : Low ranges) (small : lba.toNat < 2 ^ 31)
    (extended : extendNewest lba passed ranges = some after) :
    Low after ∧ ∀ x, Holding after x ↔ Holding ranges x ∨ x = lba := by
  induction ranges generalizing passed after with
  | nil => cases extended
  | cons r older ih =>
      rw [low_cons] at low
      rw [extendNewest] at extended
      split_ifs at extended with held next many
      · rw [← Option.some.inj extended]
        refine ⟨low_cons.mpr low, fun x => ⟨Or.inl, ?_⟩⟩
        rintro (old | rfl)
        · exact old
        · exact holding_cons.mpr (.inl held)
      · rw [← Option.some.inj extended]
        have grown := grown_holds low.1 next small
        refine ⟨low_cons.mpr ⟨grown.1, low.2⟩, fun x => ?_⟩
        rw [holding_cons, grown.2, holding_cons]
        tauto
      · obtain ⟨rest, went, rfl⟩ := Option.map_eq_some_iff.mp extended
        have tail := ih low.2 went
        refine ⟨low_cons.mpr ⟨low.1, tail.1⟩, fun x => ?_⟩
        rw [holding_cons, tail.2, holding_cons, or_assoc]

theorem new_holds (small : lba.toNat < 2 ^ 31) :
    (⟨lba, 1⟩ : ScdLedgerRange).Low ∧ ∀ x, (⟨lba, 1⟩ : ScdLedgerRange).Holds x ↔ x = lba := by
  have one : (⟨lba, 1⟩ : ScdLedgerRange).span = ⟨lba.toNat, 1⟩ := rfl
  have low : (⟨lba, 1⟩ : ScdLedgerRange).Low := by
    rw [ScdLedgerRange.Low, one]
    exact small
  refine ⟨low, fun x => ?_⟩
  rw [holds_iff, one, Span.Holds, Span.stop, ← BitVec.toNat_inj]
  dsimp only
  omega

/-- What a delivery does: a range that grows or holds the sector already, the overflow, or a new range. -/
theorem note_cases (ledger : ScdLedger) (lba : BitVec 32) :
    (∃ ranges, extendNewest lba 0 ledger.delivered.reverse = some ranges ∧
      (scdLedgerNote ledger lba).delivered = ranges.reverse ∧
      (scdLedgerNote ledger lba).deliveredOverflow = ledger.deliveredOverflow) ∨
    (scdLedgerNote ledger lba).deliveredOverflow = true ∨
    (scdLedgerNote ledger lba).delivered = ledger.delivered ++ [⟨lba, 1⟩] ∧
      (scdLedgerNote ledger lba).deliveredOverflow = ledger.deliveredOverflow := by
  unfold scdLedgerNote
  split
  next ranges extended => exact .inl ⟨ranges, extended, rfl, rfl⟩
  next =>
    split_ifs
    · exact .inr (.inl rfl)
    · exact .inr (.inr ⟨rfl, rfl⟩)

/-- A delivery adds its sector, or raises the overflow flag. -/
theorem note_holding (low : Low ledger.delivered) (small : lba.toNat < 2 ^ 31)
    (kept : (scdLedgerNote ledger lba).deliveredOverflow = false) :
    Low (scdLedgerNote ledger lba).delivered ∧
      ∀ x, Holding (scdLedgerNote ledger lba).delivered x ↔ Holding ledger.delivered x ∨ x = lba := by
  rcases note_cases ledger lba with ⟨ranges, extended, delivered, -⟩ | full | ⟨delivered, -⟩
  · have grown := extendNewest_holding (low_reverse.mpr low) small extended
    rw [delivered]
    refine ⟨low_reverse.mpr grown.1, fun x => ?_⟩
    rw [holding_reverse, grown.2, holding_reverse]
  · rw [full] at kept
    cases kept
  · have new := new_holds small
    rw [delivered]
    refine ⟨?_, fun x => ?_⟩
    · intro r member
      rcases List.mem_append.mp member with old | last
      · exact low r old
      · exact List.mem_singleton.mp last ▸ new.1
    · simp only [Holding, List.mem_append, List.mem_singleton, or_and_right, exists_or, exists_eq_left, new.2]

/-! ## A run -/

theorem delivers_small {read : DriveRead} (delivered : read.delivers = some lba) : lba.toNat < 2 ^ 31 := by
  unfold DriveRead.delivers at delivered
  split at delivered
  next sector data =>
    have before : ¬read.decoder.lba < 0 := by
      intro negative
      unfold sectorRead at data
      split at data
      · cases data
      next track _ =>
        rw [if_pos (Or.inr negative)] at data
        cases data
    have narrow := read.narrow
    rw [← Option.some.inj delivered, BitVec.toNat_ofInt]
    omega
  next => cases delivered

/-- The ledger holds the sectors that were delivered. -/
structure Exact (reads : List DriveRead) (ledger : ScdLedger) : Prop where
  low : Low ledger.delivered
  holding : ∀ x, Holding ledger.delivered x ↔ ∃ read ∈ reads, read.delivers = some x

theorem kept_before (kept : (scdLedgerNote ledger lba).deliveredOverflow = false) :
    ledger.deliveredOverflow = false := by
  rcases note_cases ledger lba with ⟨ranges, -, -, flag⟩ | full | ⟨-, flag⟩
  · exact flag.symm.trans kept
  · rw [full] at kept
    cases kept
  · exact flag.symm.trans kept

theorem Exact.readData {reads : List DriveRead} {read : DriveRead}
    (before : ledger.deliveredOverflow = false → Exact reads ledger)
    (kept : (ledger.readData read).deliveredOverflow = false) : Exact (reads ++ [read]) (ledger.readData read) := by
  unfold ScdLedger.readData at kept ⊢
  cases delivered : read.delivers with
  | none =>
      rw [delivered] at kept
      dsimp only at kept ⊢
      refine ⟨(before kept).low, fun x => ?_⟩
      rw [(before kept).holding]
      simp [delivered]
  | some lba =>
      rw [delivered] at kept
      dsimp only at kept ⊢
      have exact := before (kept_before kept)
      have noted := note_holding exact.low (delivers_small delivered) kept
      refine ⟨noted.1, fun x => ?_⟩
      rw [noted.2, exact.holding]
      simp [delivered, or_and_right, exists_or, eq_comm]

theorem ledgerAfter_exact (reads : List DriveRead) (kept : (ledgerAfter reads).deliveredOverflow = false) :
    Exact reads (ledgerAfter reads) := by
  induction reads using List.reverseRecOn with
  | nil =>
      refine ⟨fun r member => absurd member List.not_mem_nil, fun x => ?_⟩
      simp [ledgerAfter, Holding]
  | append_singleton reads read ih =>
      have last : ledgerAfter (reads ++ [read]) = (ledgerAfter reads).readData read := by
        rw [ledgerAfter, List.foldl_concat]
        rfl
      rw [last] at kept ⊢
      exact Exact.readData ih kept

/-- A sector is in the ledger exactly when it was delivered. -/
theorem delivered_exact (reads : List DriveRead) (kept : (ledgerAfter reads).deliveredOverflow = false)
    (lba : BitVec 32) :
    scdDynDelivered (ledgerAfter reads) lba = true ↔ ∃ read ∈ reads, read.delivers = some lba := by
  rw [← (ledgerAfter_exact reads kept).holding]
  simp [scdDynDelivered, Holding]

/-- A read of a sector of the disc of zeros. -/
def zeroRead (lba : ℤ) (narrow : lba < 2 ^ 31) : DriveRead := ⟨{ armedDecoder 0 with lba := lba }, narrow⟩

theorem delivered_exact_gap : scdDynDelivered
      (ledgerAfter [zeroRead 5 (by decide), zeroRead 7 (by decide), zeroRead 6 (by decide), zeroRead 5 (by decide)]) 6 = true ∧
    scdDynDelivered
      (ledgerAfter [zeroRead 5 (by decide), zeroRead 7 (by decide), zeroRead 6 (by decide), zeroRead 5 (by decide)]) 8 = false := by
  have exact := delivered_exact
    [zeroRead 5 (by decide), zeroRead 7 (by decide), zeroRead 6 (by decide), zeroRead 5 (by decide)] (by decide)
  constructor
  · exact (exact 6).mpr ⟨zeroRead 6 (by decide), by simp, rfl⟩
  · apply Bool.eq_false_of_not_eq_true
    intro delivered
    rcases (exact 8).mp delivered with ⟨read, member, delivers⟩
    fin_cases member <;> cases delivers

end Segarecomp.SegaCd.Ledger

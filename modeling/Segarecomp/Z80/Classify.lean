import Segarecomp.Z80.Decode
import Segarecomp.Lib.CircularRun

/-! The linear-time classifier agrees with the one-start decoder at every start. -/

namespace Segarecomp.Z80

open Lib.CircularRun

/-- Whether the logical address `a`, taken modulo the address space, holds a resolved prefix. -/
def prefixAt (fetch : LogicalFetch) (a : ℕ) : Bool := isPrefix (fetch (BitVec.ofNat 16 a))

theorem ofNat_wrap (a : ℕ) : BitVec.ofNat 16 (a % kAddressSpace) = BitVec.ofNat 16 a := by
  apply BitVec.eq_of_toNat_eq
  simp [kAddressSpace]

theorem prefixAt_periodic (fetch : LogicalFetch) : Function.Periodic (prefixAt fetch) kAddressSpace := by
  intro a
  have wrap : BitVec.ofNat 16 (a + kAddressSpace) = BitVec.ofNat 16 a := by
    rw [← ofNat_wrap, Nat.add_mod_right, ofNat_wrap]
  simp only [prefixAt, wrap]

theorem runEnds_eq_endTable (fetch : LogicalFetch) (anchor : ℕ) :
    runEnds (fun a => fetch (BitVec.ofNat 16 a)) anchor = endTable (prefixAt fetch) kAddressSpace anchor :=
  rfl

/-- The effective prefix after scanning `k` prefixes from `a`, `effective` before the scan. -/
def scannedPrefix (fetch : LogicalFetch) (effective : EffectivePrefix) (a k : ℕ) : EffectivePrefix :=
  if k = 0 then effective else prefixOf (fetch (BitVec.ofNat 16 (a + k - 1)))

theorem scannedPrefix_succ (fetch : LogicalFetch) (effective : EffectivePrefix) (a k : ℕ) :
    scannedPrefix fetch (prefixOf (fetch (BitVec.ofNat 16 a))) (a + 1) k =
      scannedPrefix fetch effective a (k + 1) := by
  unfold scannedPrefix
  cases k with
  | zero => simp
  | succ k => simp [show a + 1 + (k + 1) - 1 = a + (k + 1) by omega]

theorem scanPrefixes_of_isRun (fetch : LogicalFetch) {a k : ℕ} (run : IsRun (prefixAt fetch) a k)
    (room count : ℕ) (effective : EffectivePrefix) (bound : k < room) :
    scanPrefixes fetch room count effective (BitVec.ofNat 16 a) =
      some (count + k, scannedPrefix fetch effective a k, BitVec.ofNat 16 (a + k)) := by
  induction k generalizing a room count effective with
  | zero =>
      obtain ⟨room, rfl⟩ : ∃ r, room = r + 1 := ⟨room - 1, by omega⟩
      have stop : isPrefix (fetch (BitVec.ofNat 16 a)) = false := run.head
      simp [scanPrefixes, stop, scannedPrefix]
  | succ k ih =>
      obtain ⟨room, rfl⟩ : ∃ r, room = r + 1 := ⟨room - 1, by omega⟩
      have go : isPrefix (fetch (BitVec.ofNat 16 a)) = true := run.tail.1
      have next : BitVec.ofNat 16 a + 1 = BitVec.ofNat 16 (a + 1) := by
        simp [BitVec.ofNat_add]
      rw [scanPrefixes, if_pos go, next, ih run.tail.2 _ _ _ (by omega), scannedPrefix_succ]
      rw [show count + 1 + k = count + (k + 1) by omega, show a + 1 + k = a + (k + 1) by omega]

theorem scanPrefixes_lock (fetch : LogicalFetch) (all : ∀ x, isPrefix (fetch x) = true) (room count : ℕ)
    (effective : EffectivePrefix) (cursor : Addr) :
    scanPrefixes fetch room count effective cursor = none := by
  induction room generalizing count effective cursor with
  | zero => rfl
  | succ room ih => rw [scanPrefixes, if_pos (all _), ih]

theorem decodeAt_of_isRun (fetch : LogicalFetch) (a : Addr) {k : ℕ}
    (run : IsRun (prefixAt fetch) a.toNat k) (bound : k < kAddressSpace) :
    decodeAt fetch a =
      finish fetch a (fetch a) k (scannedPrefix fetch .none a.toNat k) (BitVec.ofNat 16 (a.toNat + k)) := by
  have scan := scanPrefixes_of_isRun fetch run kAddressSpace 0 .none bound
  rw [BitVec.ofNat_toNat, BitVec.setWidth_eq] at scan
  rw [decodeAt, scan, Nat.zero_add]

theorem classifyStart_of_isRun (fetch : LogicalFetch) (a : Addr) {k : ℕ} (ends : ℕ → ℕ)
    (run : IsRun (prefixAt fetch) a.toNat k) (bound : k < kAddressSpace)
    (value : ends a.toNat = (a.toNat + k) % kAddressSpace) :
    classifyStart (fun a => fetch (BitVec.ofNat 16 a)) ends a.toNat =
      finish fetch a (fetch a) k (scannedPrefix fetch .none a.toNat k) (BitVec.ofNat 16 (a.toNat + k)) := by
  have length : ((a.toNat + k) % kAddressSpace + kAddressSpace - a.toNat) % kAddressSpace = k :=
    length_of_end a.isLt bound
  have effective :
      (if k > 0 then
        prefixOf (fetch (BitVec.ofNat 16 ((a.toNat + k) % kAddressSpace + kAddressSpace - 1)))
       else EffectivePrefix.none) = scannedPrefix fetch .none a.toNat k := by
    cases k with
    | zero => simp [scannedPrefix]
    | succ k =>
        rw [if_pos (Nat.succ_pos k), ← ofNat_wrap, pred_of_end (by decide), ofNat_wrap, scannedPrefix,
          if_neg (Nat.succ_ne_zero k), Nat.add_succ_sub_one]
  simp only [classifyStart, value, length, effective, ofNat_wrap, BitVec.ofNat_toNat, BitVec.setWidth_eq]

/-- Both classifiers give the same classification, in every field, at every start. -/
theorem classifyAll_eq_decodeAt (fetch : LogicalFetch) (a : Addr) :
    classifyAll fetch a = decodeAt fetch a := by
  unfold classifyAll
  cases found : (List.range kAddressSpace).find? (fun a => !isPrefix (fetch (BitVec.ofNat 16 a))) with
  | none =>
      have all : ∀ x, isPrefix (fetch x) = true := by
        intro x
        have := List.find?_eq_none.mp found x.toNat (List.mem_range.mpr x.isLt)
        simpa using this
      simp [decodeAt, scanPrefixes_lock fetch all]
  | some anchor =>
      have inside : anchor < kAddressSpace := List.mem_range.mp (List.mem_of_find?_eq_some found)
      have stop : prefixAt fetch anchor = false := by
        have := List.find?_some found
        simpa [prefixAt] using this
      rcases endTable_spec (prefixAt_periodic fetch) inside stop a.isLt with ⟨k, bound, run, value⟩
      simp only [runEnds_eq_endTable]
      rw [classifyStart_of_isRun fetch a _ run bound value, decodeAt_of_isRun fetch a run bound]

end Segarecomp.Z80

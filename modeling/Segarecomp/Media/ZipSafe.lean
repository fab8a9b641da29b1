import Segarecomp.Media.Zip

/-! What an accepted archive looks like. The words, the ranges and the records are read here from the
archive as a whole, where bytes past its end count as zero; the reader never asks for one. -/

namespace Segarecomp.Media.Zip

open Lib.Checked

def word16 (z : List Byte) (pos : ℕ) : ℕ := (z.getD pos 0).toNat + (z.getD (pos + 1) 0).toNat * 2 ^ 8

def word32 (z : List Byte) (pos : ℕ) : ℕ := word16 z pos + word16 z (pos + 2) * 2 ^ 16

/-- The end record is the last 22 bytes. -/
def endRecord (z : List Byte) : ℕ := z.length - 22

def directoryStart (z : List Byte) : ℕ := word32 z (endRecord z + 16)

/-- The names that stay inside a directory on every host. -/
structure SafeName (name : List Byte) : Prop where
  nonempty : name ≠ []
  short : name.length ≤ 64
  visible : name.head? ≠ some (letter '.')
  letters : ∀ c ∈ name, (Char.ofNat c.toNat).isAlphanum = true ∨ c ∈ ['.', '_', '-'].map letter

/-- The record of an entry in the central directory. -/
structure Recorded (z : List Byte) (e : ZipEntry) (pos : ℕ) : Prop where
  after : directoryStart z ≤ pos
  before : pos + 46 + word16 z (pos + 28) ≤ endRecord z
  signature : word32 z pos = 0x02014B50
  name : e.name = (z.drop (pos + 46)).take (word16 z (pos + 28))
  method : e.method = word16 z (pos + 10)
  crc : e.crc = word32 z (pos + 16)
  csize : e.csize = word32 z (pos + 20)
  usize : e.usize = word32 z (pos + 24)
  localHeader : e.localHeader = word32 z (pos + 42)

def dataStart (z : List Byte) (e : ZipEntry) : ℕ :=
  e.localHeader + 30 + word16 z (e.localHeader + 26) + word16 z (e.localHeader + 28)

def dataEnd (z : List Byte) (e : ZipEntry) : ℕ := dataStart z e + e.csize

/-- The header in front of an entry's data, and what it shares with the entry's record. -/
structure Headed (z : List Byte) (e : ZipEntry) : Prop where
  signature : word32 z e.localHeader = 0x04034B50
  method : word16 z (e.localHeader + 8) = e.method
  name : (z.drop (e.localHeader + 30)).take (word16 z (e.localHeader + 26)) = e.name
  before : dataEnd z e ≤ directoryStart z

def stored (z : List Byte) (e : ZipEntry) : List Byte := (z.drop (dataStart z e)).take e.csize

structure Intact (z : List Byte) (e : ZipEntry) : Prop where
  content : e.method = 0 ∧ e.data = stored z e ∨ e.method = 8 ∧ Inflate.run (stored z e) e.usize = some e.data
  size : e.data.length = e.usize
  limit : e.usize ≤ if e.name = manifestName then kMaxManifestBytes else kMaxPatchBytes
  crc : (Bps.crc32 e.data).toNat = e.crc

structure Consistent (z : List Byte) (entries : List ZipEntry) : Prop where
  count : entries.length = word16 z (endRecord z + 10)
  few : entries.length ≤ kMaxArchiveEntries
  names : (entries.map ZipEntry.name).Nodup
  safe : ∀ e ∈ entries, SafeName e.name
  recorded : ∀ e ∈ entries, ∃ pos, Recorded z e pos
  headed : ∀ e ∈ entries, Headed z e
  disjoint : entries.Pairwise fun a b => dataEnd z a ≤ b.localHeader ∨ dataEnd z b ≤ a.localHeader
  intact : ∀ e ∈ entries, Intact z e
  total : (entries.map ZipEntry.usize).sum ≤ kMaxManifestBytes + kMaxPatchBytes

/-! ## Reads -/

variable {z : List Byte}

theorem ends_u16 {pos : ℕ} (inside : pos + 2 ≤ z.length) : Ends (fun v => v = word16 z pos) (u16 z pos) := by
  unfold u16
  rw [item_of_lt (show pos < z.length by omega), item_of_lt (show pos + 1 < z.length by omega)]
  show z[pos].toNat ||| z[pos + 1].toNat <<< 8 = word16 z pos
  rw [Inflate.or_shift _ z[pos].isLt, word16, List.getD_eq_getElem, List.getD_eq_getElem]

theorem word16_lt (pos : ℕ) : word16 z pos < 2 ^ 16 := by
  have low := (z.getD pos 0).isLt
  have high := (z.getD (pos + 1) 0).isLt
  unfold word16
  omega

theorem ends_u32 {pos : ℕ} (inside : pos + 4 ≤ z.length) : Ends (fun v => v = word32 z pos) (u32 z pos) := by
  apply Ends.bind (ends_u16 (show pos + 2 ≤ z.length by omega))
  intro low lowIs
  apply Ends.bind (ends_u16 (show pos + 2 + 2 ≤ z.length by omega))
  intro high highIs
  show low ||| high <<< 16 = word32 z pos
  rw [lowIs, highIs, Inflate.or_shift _ (word16_lt pos), word32]

theorem sum32_inside {a b : ℕ} (small : a + b < 2 ^ 32) : sum32 a b = a + b := Nat.mod_eq_of_lt small

/-! ## Names -/

theorem safeChar_letters : ∀ c : Byte, safeChar c = true →
    (Char.ofNat c.toNat).isAlphanum = true ∨ c ∈ ['.', '_', '-'].map letter := by
  decide +kernel

theorem safeName_safe {name : List Byte} (ok : safeName name = true) : SafeName name := by
  unfold safeName at ok
  split_ifs at ok with size dots
  have bounds := not_or.mp size
  have hidden := not_or.mp (not_or.mp dots).2
  constructor
  · exact fun empty => bounds.1 (by rw [empty]; rfl)
  · exact not_lt.mp bounds.2
  · exact hidden.2
  · intro c member
    exact safeChar_letters c (List.all_eq_true.mp ok c member)

/-! ## The central directory -/

/-- What the loop over the directory has taken from it. -/
structure Listed (z : List Byte) (e : ZipEntry) : Prop where
  recorded : ∃ pos, Recorded z e pos
  safe : SafeName e.name
  known : e.method = 0 ∨ e.method = 8

theorem readRecord_ends {pos : ℕ} (whole : 22 ≤ z.length) (after : directoryStart z ≤ pos) :
    Ends (fun r => pos ≤ r.1 ∧ Listed z r.2) (readRecord z (endRecord z) pos) := by
  apply Ends.bind (ends_refuseIf _ _)
  intro _ header
  have room : pos + 46 + 22 ≤ z.length := by unfold endRecord at header; omega
  apply Ends.bind (ends_u32 (by omega))
  intro signature signatureIs
  apply Ends.bind (ends_refuseIf _ _)
  intro _ signed
  apply Ends.bind (ends_u16 (by omega))
  intro madeBy _
  apply Ends.bind (ends_u16 (by omega))
  intro flags _
  apply Ends.bind (ends_u16 (by omega))
  intro method methodIs
  apply Ends.bind (ends_u32 (by omega))
  intro crc crcIs
  apply Ends.bind (ends_u32 (by omega))
  intro csize csizeIs
  apply Ends.bind (ends_u32 (by omega))
  intro usize usizeIs
  apply Ends.bind (ends_u16 (by omega))
  intro nlen nlenIs
  apply Ends.bind (ends_u16 (by omega))
  intro xlen _
  apply Ends.bind (ends_u16 (by omega))
  intro clen _
  apply Ends.bind (ends_u32 (by omega))
  intro extAttr _
  apply Ends.bind (ends_u32 (by omega))
  intro localHeader localIs
  apply Ends.bind (ends_refuseIf _ _)
  intro _ inside
  apply Ends.bind (ends_slice (show pos + 46 + nlen ≤ z.length by unfold endRecord at inside; omega))
  intro name nameIs
  apply Ends.bind (ends_refuseIf _ _)
  intro _ _
  apply Ends.bind (ends_refuseIf _ _)
  intro _ _
  apply Ends.bind (ends_refuseIf _ _)
  intro _ _
  apply Ends.bind (ends_refuseIf _ _)
  intro _ safe
  apply Ends.bind (ends_refuseIf _ _)
  intro _ known
  apply Ends.bind (ends_refuseIf _ _)
  intro _ _
  apply ends_pure
  constructor
  · show pos ≤ pos + 46 + nlen + xlen + clen
    omega
  constructor
  · use pos
    constructor
    · exact after
    · rw [← nlenIs]
      omega
    · rw [← signatureIs]
      exact not_not.mp signed
    · rw [← nlenIs]
      exact nameIs
    · exact methodIs
    · exact crcIs
    · exact csizeIs
    · exact usizeIs
    · exact localIs
  · exact safeName_safe (Bool.not_eq_false _ ▸ safe)
  · show method = 0 ∨ method = 8
    omega

theorem emplace_perm (e : ZipEntry) (entries : List ZipEntry) : (emplace e entries).Perm (e :: entries) := by
  induction entries with
  | nil => exact .refl _
  | cons f entries ih =>
      rw [emplace]
      split_ifs
      · exact .refl _
      · exact (ih.cons f).trans (.swap e f entries)

theorem readDirectory_ends {room pos : ℕ} {entries : List ZipEntry} (whole : 22 ≤ z.length)
    (after : directoryStart z ≤ pos) (listed : ∀ e ∈ entries, Listed z e)
    (distinct : (entries.map ZipEntry.name).Nodup) :
    Ends (fun r => r.2.length = entries.length + room ∧ (∀ e ∈ r.2, Listed z e) ∧ (r.2.map ZipEntry.name).Nodup)
      (readDirectory z (endRecord z) room pos entries) := by
  induction room generalizing pos entries with
  | zero => exact ⟨rfl, listed, distinct⟩
  | succ room ih =>
      apply Ends.bind (readRecord_ends whole after)
      intro r step
      apply Ends.bind (ends_refuseIf _ _)
      intro _ fresh
      have grown := emplace_perm r.2 entries
      apply (ih (after.trans step.1) _ _).mono
      · intro final holds
        rw [grown.length_eq, List.length_cons] at holds
        exact ⟨by omega, holds.2⟩
      · intro e member
        cases List.mem_cons.mp (grown.mem_iff.mp member) with
        | inl new => exact new ▸ step.2
        | inr old => exact listed e old
      · rw [(grown.map ZipEntry.name).nodup_iff, List.map_cons, List.nodup_cons]
        exact ⟨fresh, distinct⟩

/-! ## The entries -/

theorem readData_ends {e : ZipEntry} (inside : dataEnd z e ≤ z.length) (known : e.method = 0 ∨ e.method = 8) :
    Ends (fun data =>
        (e.method = 0 ∧ data = stored z e ∨ e.method = 8 ∧ Inflate.run (stored z e) e.usize = some data) ∧
          data.length = e.usize)
      (readData z (dataStart z e) e) := by
  apply Ends.bind (ends_slice inside)
  intro data dataIs
  change data = stored z e at dataIs
  split_ifs with plain
  · apply Ends.bind (ends_refuseIf _ _)
    intro _ sized
    apply ends_pure
    constructor
    · exact .inl ⟨plain, dataIs⟩
    · have whole : (stored z e).length = e.csize := by
        rw [stored, List.length_take, List.length_drop]
        unfold dataEnd at inside
        omega
      rw [dataIs, whole]
      exact not_not.mp sized
  · rw [InflateBounds.run_inside, dataIs]
    apply ends_relabel
    intro out ran
    exact ⟨.inr ⟨known.resolve_left plain, ran⟩, Inflate.run_size ran⟩

/-- What the loop over the entries leaves of the entry `e` of the directory: `r` is the entry and its
range. -/
structure Opened (z : List Byte) (e : ZipEntry) (r : ZipEntry × ℕ × ℕ) : Prop where
  same : r.1 = { e with data := r.1.data }
  range : r.2 = (e.localHeader, dataEnd z e)
  headed : Headed z r.1
  content : r.1.method = 0 ∧ r.1.data = stored z r.1 ∨
    r.1.method = 8 ∧ Inflate.run (stored z r.1) r.1.usize = some r.1.data
  size : r.1.data.length = r.1.usize
  crc : (Bps.crc32 r.1.data).toNat = r.1.crc

theorem readEntry_ends {e : ZipEntry} (archive : z.length ≤ kMaxPackageBytes)
    (directory : directoryStart z + 22 ≤ z.length) (known : e.method = 0 ∨ e.method = 8) :
    Ends (Opened z e) (readEntry z (directoryStart z) e) := by
  apply Ends.bind (ends_refuseIf _ _)
  intro _ header
  have small : e.localHeader + 30 < 2 ^ 32 := by
    unfold kMaxPackageBytes at archive
    omega
  apply Ends.bind (ends_u32 (by omega))
  intro signature signatureIs
  apply Ends.bind (ends_refuseIf _ _)
  intro _ signed
  rw [sum32_inside (show e.localHeader + 6 < 2 ^ 32 by omega), sum32_inside (show e.localHeader + 26 < 2 ^ 32 by omega),
    sum32_inside (show e.localHeader + 28 < 2 ^ 32 by omega), sum32_inside (show e.localHeader + 8 < 2 ^ 32 by omega)]
  apply Ends.bind (ends_u16 (by omega))
  intro lflags _
  apply Ends.bind (ends_u16 (by omega))
  intro lnlen lnlenIs
  apply Ends.bind (ends_u16 (by omega))
  intro lxlen lxlenIs
  apply Ends.bind (ends_refuseIf _ _)
  intro _ _
  apply Ends.bind (ends_u16 (by omega))
  intro lmethod lmethodIs
  apply Ends.bind (ends_refuseIf _ _)
  intro _ sameMethod
  have startIs : e.localHeader + 30 + lnlen + lxlen = dataStart z e := by rw [lnlenIs, lxlenIs, dataStart]
  simp only [startIs]
  apply Ends.bind (ends_refuseIf _ _)
  intro _ inside
  have before : dataEnd z e ≤ directoryStart z := by
    unfold dataEnd
    omega
  apply Ends.bind (ends_refuseIf _ _)
  intro _ sameLength
  apply Ends.bind (ends_slice (show e.localHeader + 30 + lnlen ≤ z.length by omega))
  intro lname lnameIs
  apply Ends.bind (ends_refuseIf _ _)
  intro _ sameName
  apply Ends.bind (readData_ends (by omega) known)
  intro data intact
  apply Ends.bind (ends_refuseIf _ _)
  intro _ checked
  apply ends_pure
  constructor
  · rfl
  · rfl
  · constructor
    · rw [← signatureIs]
      exact not_not.mp signed
    · rw [← lmethodIs]
      exact not_not.mp sameMethod
    · show (z.drop (e.localHeader + 30)).take (word16 z (e.localHeader + 26)) = e.name
      rw [← lnlenIs, ← lnameIs]
      exact not_not.mp sameName
    · exact before
  · exact intact.1
  · exact intact.2
  · exact not_not.mp checked

theorem Listed.filled {e : ZipEntry} (listed : Listed z e) (data : List Byte) : Listed z { e with data } := by
  rcases listed.recorded with ⟨pos, record⟩
  refine ⟨⟨pos, ?_⟩, listed.safe, listed.known⟩
  exact ⟨record.after, record.before, record.signature, record.name, record.method, record.crc, record.csize,
    record.usize, record.localHeader⟩

def rangeOf (z : List Byte) (e : ZipEntry) : ℕ × ℕ := (e.localHeader, dataEnd z e)

/-- What the loop over the entries has made of the entries of the directory. -/
structure Filled (z : List Byte) (entries : List ZipEntry) (r : List ZipEntry × List (ℕ × ℕ)) : Prop where
  names : r.1.map ZipEntry.name = entries.map ZipEntry.name
  ranges : r.2 = r.1.map (rangeOf z)
  each : ∀ e ∈ r.1, Listed z e ∧ Headed z e ∧ Intact z e

theorem readEntries_ends {entries : List ZipEntry} {totalUncompressed : ℕ} (archive : z.length ≤ kMaxPackageBytes)
    (directory : directoryStart z + 22 ≤ z.length) (listed : ∀ e ∈ entries, Listed z e)
    (within : totalUncompressed ≤ kMaxManifestBytes + kMaxPatchBytes) :
    Ends (fun r => Filled z entries r ∧
        totalUncompressed + (r.1.map ZipEntry.usize).sum ≤ kMaxManifestBytes + kMaxPatchBytes)
      (readEntries z (directoryStart z) entries totalUncompressed) := by
  induction entries generalizing totalUncompressed with
  | nil => exact ⟨⟨rfl, rfl, List.forall_mem_nil _⟩, within⟩
  | cons e entries ih =>
      have here := listed e List.mem_cons_self
      apply Ends.bind (ends_refuseIf _ _)
      intro _ limited
      apply Ends.bind (ends_refuseIf _ _)
      intro _ total
      apply Ends.bind (readEntry_ends archive directory here.known)
      intro r entry
      have sameName : r.1.name = e.name := by rw [entry.same]
      have sameSize : r.1.usize = e.usize := by rw [entry.same]
      have sameRange : r.2 = rangeOf z r.1 := by rw [entry.range, entry.same]; rfl
      apply Ends.bind (ih (fun f member => listed f (List.mem_cons_of_mem e member)) (not_lt.mp total))
      intro rest filled
      apply ends_pure
      constructor
      · constructor
        · rw [List.map_cons, List.map_cons, sameName, filled.1.names]
        · rw [List.map_cons, ← sameRange, ← filled.1.ranges]
        · intro f member
          cases List.mem_cons.mp member with
          | inl first =>
              rw [first]
              refine ⟨?_, entry.headed, entry.content, entry.size, ?_, entry.crc⟩
              · rw [entry.same]
                exact here.filled _
              · rw [sameSize, sameName]
                exact not_lt.mp limited
          | inr later => exact filled.1.each f later
      · have sum := filled.2
        rw [List.map_cons, List.sum_cons, sameSize]
        omega

/-! ## The ranges -/

theorem ranges_apart {ranges : List (ℕ × ℕ)} (proper : ∀ r ∈ ranges, r.1 ≤ r.2) (apart : overlapping ranges = false) :
    ranges.Pairwise fun a b => a.2 ≤ b.1 := by
  induction ranges with
  | nil => exact .nil
  | cons a ranges ih =>
      cases ranges with
      | nil => exact List.pairwise_singleton _ a
      | cons b ranges =>
          have parts := Bool.or_eq_false_iff.mp apart
          have next : a.2 ≤ b.1 := not_lt.mp (of_decide_eq_false parts.1)
          have later := ih (fun r member => proper r (List.mem_cons_of_mem a member)) parts.2
          have inner := proper b (List.mem_cons_of_mem a List.mem_cons_self)
          apply List.Pairwise.cons _ later
          intro c member
          cases List.mem_cons.mp member with
          | inl same => exact same ▸ next
          | inr further => exact next.trans (inner.trans (List.rel_of_pairwise_cons later further))

/-- Neighbours of the sorted ranges that do not overlap are enough for all the ranges, in any order. -/
theorem ranges_disjoint {ranges : List (ℕ × ℕ)} (proper : ∀ r ∈ ranges, r.1 ≤ r.2)
    (apart : overlapping (ranges.insertionSort rangeBefore) = false) :
    ranges.Pairwise fun a b => a.2 ≤ b.1 ∨ b.2 ≤ a.1 := by
  have sorted := List.perm_insertionSort rangeBefore ranges
  have ordered := ranges_apart (fun r member => proper r (sorted.mem_iff.mp member)) apart
  exact (sorted.pairwise_iff Or.symm).mp (ordered.imp Or.inl)

/-! ## The archive -/

theorem findEnd_ends {lowest p : ℕ} (inside : p + 3 ≤ z.length) :
    Ends (fun found => ∀ eocd, found = some eocd → eocd + 4 ≤ z.length ∧ eocd < p ∧ word32 z eocd = 0x06054B50)
      (findEnd z lowest p) := by
  induction p with
  | zero =>
      intro eocd found
      cases found
  | succ p ih =>
      rw [findEnd]
      split_ifs with more
      · apply Ends.bind (ends_u32 (by omega))
        intro signature signatureIs
        split_ifs with here
        · apply ends_pure
          intro eocd found
          injection found with same
          rw [← same, ← signatureIs]
          exact ⟨by omega, by omega, here⟩
        · apply (ih (by omega)).mono
          intro found holds eocd isFound
          have facts := holds eocd isFound
          exact ⟨facts.1, by omega, facts.2.2⟩
      · intro eocd found
        cases found

/-- On every byte string the reader stays inside it and ends, and an archive it accepts is
consistent. -/
theorem readZip_safe (z : List Byte) : Ends (Consistent z) (readZip z) := by
  apply Ends.bind (ends_refuseIf _ _)
  intro _ size
  have whole : 22 ≤ z.length := by omega
  have archive : z.length ≤ kMaxPackageBytes := by omega
  apply Ends.bind (findEnd_ends (by omega))
  intro eocd? located
  cases eocd? with
  | none => trivial
  | some eocd =>
      have behind := (located eocd rfl).2.1
      have room : eocd + 22 ≤ z.length := by omega
      apply Ends.bind (ends_u16 (by omega))
      intro total totalIs
      apply Ends.bind (ends_u32 (by omega))
      intro cdSize _
      apply Ends.bind (ends_u32 (by omega))
      intro cdOff cdOffIs
      apply Ends.bind (ends_u16 (by omega))
      intro disk _
      apply Ends.bind (ends_refuseIf _ _)
      intro _ _
      apply Ends.bind (ends_u16 (by omega))
      intro start _
      apply Ends.bind (ends_refuseIf _ _)
      intro _ _
      apply Ends.bind (ends_u16 (by omega))
      intro here _
      apply Ends.bind (ends_refuseIf _ _)
      intro _ _
      apply Ends.bind (ends_refuseIf _ _)
      intro _ _
      apply Ends.bind (ends_u16 (by omega))
      intro comment _
      apply Ends.bind (ends_refuseIf _ _)
      intro _ last
      apply Ends.bind (ends_refuseIf _ _)
      intro _ few
      apply Ends.bind (ends_refuseIf _ _)
      intro _ bounded
      have eocdIs : eocd = endRecord z := by unfold endRecord; omega
      have cdOffStart : cdOff = directoryStart z := by rw [cdOffIs, eocdIs, directoryStart]
      have directory : directoryStart z + 22 ≤ z.length := by omega
      rw [eocdIs, cdOffStart]
      apply Ends.bind (readDirectory_ends whole le_rfl (List.forall_mem_nil _) List.nodup_nil)
      intro listing listed
      apply Ends.bind (ends_refuseIf _ _)
      intro _ _
      apply Ends.bind (readEntries_ends archive directory listed.2.1 (Nat.zero_le _))
      intro result filled
      apply Ends.bind (ends_refuseIf _ _)
      intro _ apart
      apply ends_pure
      have sameCount : result.1.length = listing.2.length := by
        rw [← List.length_map (f := ZipEntry.name), filled.1.names, List.length_map]
      have counted : result.1.length = total := by
        rw [sameCount, listed.1, List.length_nil, Nat.zero_add]
      constructor
      · rw [counted, totalIs, eocdIs]
      · omega
      · rw [filled.1.names]
        exact listed.2.2
      · exact fun e member => (filled.1.each e member).1.safe
      · exact fun e member => (filled.1.each e member).1.recorded
      · exact fun e member => (filled.1.each e member).2.1
      · have proper : ∀ r ∈ result.2, r.1 ≤ r.2 := by
          rw [filled.1.ranges]
          intro r member
          rcases List.mem_map.mp member with ⟨e, _, same⟩
          rw [← same]
          show e.localHeader ≤ dataEnd z e
          unfold dataEnd dataStart
          omega
        have disjoint := ranges_disjoint proper (Bool.not_eq_true _ ▸ apart)
        rw [filled.1.ranges, List.pairwise_map] at disjoint
        exact disjoint
      · exact fun e member => (filled.1.each e member).2.2
      · have sum := filled.2
        omega

/-- One stored entry, "a" with the text "hi". -/
def smallArchive : List Byte :=
  [80, 75, 3, 4, 20, 0, 0, 0, 0, 0, 0, 0, 33, 0, 172, 42, 147, 216, 2, 0, 0, 0, 2, 0, 0, 0, 1, 0,
   0, 0, 97, 104, 105, 80, 75, 1, 2, 20, 3, 20, 0, 0, 0, 0, 0, 0, 0, 33, 0, 172, 42, 147, 216, 2,
   0, 0, 0, 2, 0, 0, 0, 1, 0, 0, 0, 0, 0, 0, 0, 0, 0, 0, 0, 164, 129, 0, 0, 0, 0, 97, 80, 75, 5, 6,
   0, 0, 0, 0, 1, 0, 1, 0, 47, 0, 0, 0, 33, 0, 0, 0, 0, 0]

example : (readZip smallArchive).toOption.map (fun entries => entries.map ZipEntry.data) = some [[0x68, 0x69]] := by
  decide +kernel

end Segarecomp.Media.Zip

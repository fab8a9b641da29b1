import Segarecomp.Lib.Fallible
import Segarecomp.Media.Iso9660Spec

/-! The record, sector and directory scans accept exactly what the image says is well formed. -/

namespace Segarecomp.Media.Iso9660

open Lib.Fallible

theorem from_from (p : Memory) (i j : ℕ) : (p.from i).from j = p.from (i + j) := by
  funext k
  simp [Memory.from, Nat.add_assoc]

theorem both32_eq_some {p : Memory} {x : BitVec 32} :
    both32 p = some x ↔ le32 p = x ∧ be32 (p.from 4) = x := by
  rw [both32, Option.ite_none_right_eq_some, Option.some.injEq]
  constructor
  · rintro ⟨same, rfl⟩
    exact ⟨rfl, same.symm⟩
  · rintro ⟨rfl, same⟩
    exact ⟨same.symm, rfl⟩

theorem both16_eq_some {p : Memory} {x : BitVec 32} :
    both16 p = some x ↔ le16 p = x ∧ be16 (p.from 2) = x := by
  rw [both16, Option.ite_none_right_eq_some, Option.some.injEq]
  constructor
  · rintro ⟨same, rfl⟩
    exact ⟨rfl, same.symm⟩
  · rintro ⟨rfl, same⟩
    exact ⟨same.symm, rfl⟩

theorem guard_ok_iff {ε α : Type} {c : Prop} [Decidable c] {e : ε} {x : Except ε α} {r : α} :
    (if c then .error e else x) = .ok r ↔ ¬ c ∧ x = .ok r := by
  by_cases h : c
  · simp [h]
  · simp [h]

theorem extentFits_iff (extent : Iso9660Extent) (volumeSpace : BitVec 32) :
    extentFits extent volumeSpace = true ↔ Inside extent volumeSpace := by
  simp only [extentFits, Bool.and_eq_true, decide_eq_true_eq, BitVec.lt_def]
  exact ⟨fun h => ⟨h.2, h.1⟩, fun h => ⟨h.last, h.first⟩⟩

theorem checkDirectoryExtent_none (extent : Iso9660Extent) (volumeSpace : BitVec 32) :
    checkDirectoryExtent extent volumeSpace = .none ↔ DirectoryExtent extent volumeSpace := by
  unfold checkDirectoryExtent
  constructor
  · intro h
    split at h
    · contradiction
    · next shape =>
        split at h
        · contradiction
        · next fits =>
            simp only [not_or, ne_eq, not_not, not_lt] at shape
            exact {
              nonempty := shape.1
              whole := Nat.dvd_of_mod_eq_zero shape.2.1
              bounded := shape.2.2
              inside := (extentFits_iff _ _).mp (by simpa using fits) }
  · intro h
    rw [if_neg, if_neg]
    · simpa using (extentFits_iff _ _).mpr h.inside
    · have := Nat.mod_eq_zero_of_dvd h.whole
      have := h.bounded
      simp only [h.nonempty, false_or, not_or]
      omega

/-- A record parses exactly when its bytes are a well-formed record, and then as that record. -/
theorem parseRecord_ok_iff (p : Memory) (available : ℕ) (r : Record) :
    parseRecord p available = .ok r ↔ RecordAt p available r := by
  constructor
  · intro h
    simp only [parseRecord, guard_ok_iff] at h
    rcases h with ⟨longEnough, ends, name, attributes, interleaved, flags, h⟩
    split at h
    · next block size sequence hblock hsize hsequence =>
        rcases guard_ok_iff.mp h with ⟨single, h⟩
        simp only [not_or, ne_eq, not_not] at name attributes interleaved flags single
        simp only [Except.ok.injEq] at h
        subst h single
        rw [both32_eq_some, from_from] at hblock hsize
        rw [both16_eq_some, from_from] at hsequence
        exact {
          longEnough := by omega
          ends := by omega
          nameLength := rfl
          named := name.1
          nameEnds := by simpa using name.2
          noAttributes := attributes
          notInterleaved := interleaved
          singleExtent := flags
          block := hblock
          size := hsize
          sequence := hsequence
          directory := rfl
          identifier := rfl
          firstNameByte := rfl }
    · contradiction
  · intro h
    have hblock := (both32_eq_some (p := p.from 2)).mpr (by rw [from_from]; exact h.block)
    have hsize := (both32_eq_some (p := p.from 10)).mpr (by rw [from_from]; exact h.size)
    have hsequence := (both16_eq_some (p := p.from 28)).mpr (by rw [from_from]; exact h.sequence)
    have h1 := h.longEnough
    have h2 := h.ends
    have h3 := h.named
    have h4 := h.nameEnds
    have h5 := h.nameLength
    rw [parseRecord, if_neg (by omega), if_neg (by omega), if_neg (by omega),
      if_neg (by simp [h.noAttributes]), if_neg (by simp [h.notInterleaved]),
      if_neg (by simpa using h.singleExtent), hblock, hsize, hsequence]
    simp only [ne_eq, not_true_eq_false, if_false, Except.ok.injEq]
    rcases r with ⟨⟨identifier, directory, ⟨block, size⟩⟩, nameLength, firstNameByte⟩
    have h6 := h.identifier
    have h7 := h.directory
    have h8 := h.firstNameByte
    simp only at h5 h6 h7 h8
    subst h5 h6 h7 h8
    rfl

section directory
variable (volumeSpace : BitVec 32) (directory : Iso9660Extent)

/-- Reading a list of records one after another, as the directory loop does. -/
def acceptAll (s : ListState) (rs : List Record) : Except Iso9660Error ListState :=
  rs.foldlM (acceptRecord volumeSpace directory) s

theorem acceptAll_nil (s : ListState) : acceptAll volumeSpace directory s [] = .ok s := rfl

theorem acceptAll_cons_ok {s s' : ListState} {r : Record} {rs : List Record} :
    acceptAll volumeSpace directory s (r :: rs) = .ok s' ↔
      ∃ mid, acceptRecord volumeSpace directory s r = .ok mid ∧
        acceptAll volumeSpace directory mid rs = .ok s' := by
  rw [acceptAll, List.foldlM_cons, bind_ok_iff]
  rfl

theorem acceptAll_append_ok {s s' : ListState} {rs later : List Record} :
    acceptAll volumeSpace directory s (rs ++ later) = .ok s' ↔
      ∃ mid, acceptAll volumeSpace directory s rs = .ok mid ∧
        acceptAll volumeSpace directory mid later = .ok s' := by
  rw [acceptAll, List.foldlM_append, bind_ok_iff]
  rfl

theorem sectorRecords_past {block : Memory} {pos : ℕ} {rs : List Record}
    (past : kIso9660BlockBytes ≤ pos) : SectorRecords block pos rs ↔ rs = [] := by
  constructor
  · intro h
    cases h with
    | full _ => rfl
    | padding inside _ => rfl
    | record inside _ _ => omega
  · rintro rfl
    exact .full past

theorem sectorRecords_padding {block : Memory} {pos : ℕ} {rs : List Record}
    (inside : pos < kIso9660BlockBytes) (zero : block pos = 0) : SectorRecords block pos rs ↔ rs = [] := by
  constructor
  · intro h
    cases h with
    | full past => rfl
    | padding _ _ => rfl
    | record _ here _ =>
        have := here.longEnough
        simp [Memory.from, zero] at this
  · rintro rfl
    exact .padding inside zero

theorem sectorRecords_more {block : Memory} {pos : ℕ} {rs : List Record}
    (inside : pos < kIso9660BlockBytes) (more : block pos ≠ 0) :
    SectorRecords block pos rs ↔ ∃ r later, rs = r :: later ∧
      RecordAt (block.from pos) (kIso9660BlockBytes - pos) r ∧
      SectorRecords block (pos + (block pos).toNat) later := by
  constructor
  · intro h
    cases h with
    | full past => omega
    | padding _ zero => exact absurd zero more
    | record _ here later => exact ⟨_, _, rfl, here, later⟩
  · rintro ⟨r, later, rfl, here, rest⟩
    exact .record inside here rest

/-- The sector loop succeeds exactly on a sector of well-formed records, and takes each in turn. -/
theorem scanSector_ok_iff (block : Memory) {room pos : ℕ} (enough : kIso9660BlockBytes ≤ pos + room)
    (s s' : ListState) :
    scanSector volumeSpace directory block room pos s = .ok s' ↔
      ∃ rs, SectorRecords block pos rs ∧ acceptAll volumeSpace directory s rs = .ok s' := by
  induction room generalizing pos s with
  | zero => simp [scanSector, sectorRecords_past (show kIso9660BlockBytes ≤ pos from enough), acceptAll_nil]
  | succ room ih =>
      rcases Nat.lt_or_ge pos kIso9660BlockBytes with inside | past
      · by_cases zero : block pos = 0
        · simp [scanSector, inside, zero, sectorRecords_padding inside zero, acceptAll_nil]
        · rw [scanSector, if_pos inside, if_neg zero]
          have long : ∀ r, RecordAt (block.from pos) (kIso9660BlockBytes - pos) r →
              34 ≤ (block pos).toNat := fun r here => here.longEnough
          cases parsed : parseRecord (block.from pos) (kIso9660BlockBytes - pos) with
          | error e =>
              simp only [sectorRecords_more inside zero, reduceCtorEq, false_iff]
              rintro ⟨rs, ⟨r, later, rfl, here, rest⟩, _⟩
              rw [(parseRecord_ok_iff _ _ r).mpr here] at parsed
              contradiction
          | ok record =>
              have here := (parseRecord_ok_iff _ _ record).mp parsed
              have next : kIso9660BlockBytes ≤ pos + (block pos).toNat + room := by
                have := long record here
                omega
              cases taken : acceptRecord volumeSpace directory s record with
              | error e =>
                  simp only [taken, sectorRecords_more inside zero, reduceCtorEq, false_iff]
                  rintro ⟨rs, ⟨r, later, rfl, other, rest⟩, all⟩
                  have same := (parseRecord_ok_iff _ _ r).mpr other
                  rw [parsed, Except.ok.injEq] at same
                  rcases (acceptAll_cons_ok _ _).mp all with ⟨mid, first, _⟩
                  rw [← same, taken] at first
                  contradiction
              | ok mid =>
                  simp only [taken, ih next, sectorRecords_more inside zero]
                  constructor
                  · rintro ⟨rs, rest, all⟩
                    exact ⟨record :: rs, ⟨record, rs, rfl, here, rest⟩,
                      (acceptAll_cons_ok _ _).mpr ⟨mid, taken, all⟩⟩
                  · rintro ⟨rs, ⟨r, later, rfl, other, rest⟩, all⟩
                    have same := (parseRecord_ok_iff _ _ r).mpr other
                    rw [parsed, Except.ok.injEq] at same
                    rcases (acceptAll_cons_ok _ _).mp all with ⟨mid', first, all⟩
                    rw [← same, taken, Except.ok.injEq] at first
                    exact ⟨later, rest, first ▸ all⟩
      · simp [scanSector, Nat.not_lt.mpr past, sectorRecords_past past, acceptAll_nil]

theorem scanDirectory_ok_iff (read : Iso9660BlockReader) (left b : ℕ) (s s' : ListState) :
    (scanDirectory read volumeSpace directory left b s).1 = .ok s' ↔
      ∃ sectors, List.Forall₂ (HoldsSector read directory) (List.range' b left) sectors ∧
        acceptAll volumeSpace directory s sectors.flatten = .ok s' := by
  induction left generalizing b s with
  | zero => simp [scanDirectory, acceptAll_nil]
  | succ left ih =>
      simp only [List.range'_succ, List.forall₂_cons_left_iff]
      rw [scanDirectory]
      cases asked : read (directory.block + BitVec.ofNat 32 b) with
      | none =>
          simp only [reduceCtorEq, false_iff]
          rintro ⟨_, ⟨rs, rest, ⟨block, found, _⟩, _⟩, _⟩
          rw [asked] at found
          contradiction
      | some block =>
          have sector := scanSector_ok_iff volumeSpace directory block
            (show kIso9660BlockBytes ≤ 0 + kIso9660BlockBytes by omega) s
          cases scanned : scanSector volumeSpace directory block kIso9660BlockBytes 0 s with
          | error e =>
              simp only [scanned, reduceCtorEq, false_iff]
              rintro ⟨_, ⟨rs, rest, ⟨block', found, records⟩, _, rfl⟩, all⟩
              rw [asked, Option.some.injEq] at found
              subst found
              rw [List.flatten_cons, acceptAll_append_ok] at all
              rcases all with ⟨mid, first, _⟩
              have := (sector mid).mpr ⟨rs, records, first⟩
              rw [scanned] at this
              contradiction
          | ok mid =>
              simp only [scanned, ih]
              constructor
              · rintro ⟨sectors, others, all⟩
                rcases (sector mid).mp scanned with ⟨rs, records, first⟩
                refine ⟨rs :: sectors, ⟨rs, sectors, ⟨block, asked, records⟩, others, rfl⟩, ?_⟩
                rw [List.flatten_cons, acceptAll_append_ok]
                exact ⟨mid, first, all⟩
              · rintro ⟨_, ⟨rs, rest, ⟨block', found, records⟩, others, rfl⟩, all⟩
                rw [asked, Option.some.injEq] at found
                subst found
                rw [List.flatten_cons, acceptAll_append_ok] at all
                rcases all with ⟨mid', first, all⟩
                have := (sector mid').mpr ⟨rs, records, first⟩
                rw [scanned, Except.ok.injEq] at this
                exact ⟨rest, others, this ▸ all⟩

theorem acceptRecord_dot_iff {s s' : ListState} {r : Record} (first : s.seen = 0) :
    acceptRecord volumeSpace directory s r = .ok s' ↔
      (IsDot 0 r ∧ r.entry.extent = directory) ∧ s' = { s with seen := 1 } := by
  rw [acceptRecord, if_pos (by omega), guard_ok_iff, guard_ok_iff, first]
  simp only [not_or, not_and, ne_eq, not_not, true_implies, Except.ok.injEq]
  constructor
  · rintro ⟨⟨single, byte, dir⟩, extent, rfl⟩
    refine ⟨⟨⟨single, byte, by simpa using dir⟩, ?_⟩, rfl⟩
    rcases r with ⟨⟨_, _, ⟨_, _⟩⟩, _, _⟩
    rcases directory with ⟨_, _⟩
    simp_all
  · rintro ⟨⟨⟨single, byte, dir⟩, rfl⟩, rfl⟩
    exact ⟨⟨single, byte, by simpa using dir⟩, by simp⟩

theorem acceptRecord_dotdot_iff {s s' : ListState} {r : Record} (second : s.seen = 1) :
    acceptRecord volumeSpace directory s r = .ok s' ↔ IsDot 1 r ∧ s' = { s with seen := 2 } := by
  rw [acceptRecord, if_pos (by omega), guard_ok_iff, guard_ok_iff, second]
  simp only [not_or, not_and, ne_eq, not_not, Except.ok.injEq]
  constructor
  · rintro ⟨⟨single, byte, dir⟩, _, rfl⟩
    exact ⟨⟨single, byte, by simpa using dir⟩, rfl⟩
  · rintro ⟨⟨single, byte, dir⟩, rfl⟩
    exact ⟨⟨single, byte, by simpa using dir⟩, by omega, rfl⟩

theorem acceptRecord_entry_iff {s s' : ListState} {r : Record} (later : s.seen = 2) :
    acceptRecord volumeSpace directory s r = .ok s' ↔
      OrdinaryRecord volumeSpace r ∧ s' = { s with entries := s.entries ++ [r.entry] } := by
  rw [acceptRecord, if_neg (by omega), guard_ok_iff]
  simp only [guard_ok_iff, ne_eq, not_not, Except.ok.injEq]
  have extent : (if r.entry.directory then checkDirectoryExtent r.entry.extent volumeSpace
      else if !extentFits r.entry.extent volumeSpace then .extent_out_of_range else .none) = .none ↔
      if r.entry.directory then DirectoryExtent r.entry.extent volumeSpace
        else Inside r.entry.extent volumeSpace := by
    cases r.entry.directory with
    | true => simpa using checkDirectoryExtent_none _ _
    | false =>
        rw [← extentFits_iff]
        cases extentFits r.entry.extent volumeSpace <;> simp
  rw [extent]
  constructor
  · rintro ⟨notDot, fits, rfl⟩
    exact ⟨⟨notDot, fits⟩, rfl⟩
  · rintro ⟨⟨notDot, fits⟩, rfl⟩
    exact ⟨notDot, fits, rfl⟩

theorem acceptAll_entries_iff {s s' : ListState} {rs : List Record} (later : s.seen = 2) :
    acceptAll volumeSpace directory s rs = .ok s' ↔
      (∀ r ∈ rs, OrdinaryRecord volumeSpace r) ∧
        s' = { s with entries := s.entries ++ rs.map Record.entry } := by
  induction rs generalizing s with
  | nil => simp [acceptAll_nil, eq_comm]
  | cons r rs ih =>
      simp only [acceptAll_cons_ok, acceptRecord_entry_iff volumeSpace directory later]
      constructor
      · rintro ⟨mid, ⟨ordinary, rfl⟩, all⟩
        rcases (ih (by exact later)).mp all with ⟨others, rfl⟩
        exact ⟨List.forall_mem_cons.mpr ⟨ordinary, others⟩, by simp⟩
      · rintro ⟨all, rfl⟩
        rcases List.forall_mem_cons.mp all with ⟨ordinary, others⟩
        exact ⟨_, ⟨ordinary, rfl⟩, (ih (by exact later)).mpr ⟨others, by simp⟩⟩

/-- A whole directory is taken exactly when it is ".", "..", then ordinary records. -/
theorem acceptAll_directory_iff {s' : ListState} {rs : List Record} :
    acceptAll volumeSpace directory {} rs = .ok s' ∧ ¬ s'.seen < 2 ↔
      ∃ dot dotdot rest, rs = dot :: dotdot :: rest ∧ IsDot 0 dot ∧ dot.entry.extent = directory ∧
        IsDot 1 dotdot ∧ (∀ r ∈ rest, OrdinaryRecord volumeSpace r) ∧
        s' = { entries := rest.map Record.entry, seen := 2 } := by
  constructor
  · rintro ⟨all, enough⟩
    cases rs with
    | nil =>
        cases all
        exact absurd (by decide) enough
    | cons dot rs =>
        rcases (acceptAll_cons_ok _ _).mp all with ⟨mid, first, all⟩
        rcases (acceptRecord_dot_iff _ _ rfl).mp first with ⟨⟨isDot, extent⟩, rfl⟩
        cases rs with
        | nil =>
            cases all
            exact absurd (by decide) enough
        | cons dotdot rest =>
            rcases (acceptAll_cons_ok _ _).mp all with ⟨mid, second, all⟩
            rcases (acceptRecord_dotdot_iff _ _ rfl).mp second with ⟨isDotdot, rfl⟩
            rcases (acceptAll_entries_iff _ _ rfl).mp all with ⟨ordinary, rfl⟩
            exact ⟨dot, dotdot, rest, rfl, isDot, extent, isDotdot, ordinary, by simp⟩
  · rintro ⟨dot, dotdot, rest, rfl, isDot, extent, isDotdot, ordinary, rfl⟩
    refine ⟨?_, by simp⟩
    refine (acceptAll_cons_ok _ _).mpr ⟨_, (acceptRecord_dot_iff _ _ rfl).mpr ⟨⟨isDot, extent⟩, rfl⟩, ?_⟩
    refine (acceptAll_cons_ok _ _).mpr ⟨_, (acceptRecord_dotdot_iff _ _ rfl).mpr ⟨isDotdot, rfl⟩, ?_⟩
    exact (acceptAll_entries_iff _ _ rfl).mpr ⟨ordinary, by simp⟩

end directory

/-! Every error is typed. -/

/-- A failure carries a real error. -/
def Typed {α : Type} (x : Except Iso9660Error α) : Prop := ∀ e, x = .error e → e ≠ .none

theorem typed_ok {α : Type} (a : α) : Typed (.ok a : Except Iso9660Error α) := fun _ h => by contradiction

theorem typed_error {α : Type} {e : Iso9660Error} (h : e ≠ .none) :
    Typed (.error e : Except Iso9660Error α) := by
  rintro _ ⟨⟩
  exact h

theorem typed_guard {α : Type} {c : Prop} [Decidable c] {e : Iso9660Error} {x : Except Iso9660Error α}
    (h : c → e ≠ .none) (rest : Typed x) : Typed (if c then .error e else x) := by
  by_cases hc : c
  · rw [if_pos hc]
    exact typed_error (h hc)
  · rw [if_neg hc]
    exact rest

theorem parseRecord_typed (p : Memory) (available : ℕ) : Typed (parseRecord p available) := by
  unfold parseRecord
  refine typed_guard (by simp) (typed_guard (by simp) (typed_guard (by simp) (typed_guard (by simp)
    (typed_guard (by simp) (typed_guard (by simp) ?_)))))
  split
  · exact typed_guard (by simp) (typed_ok _)
  · exact typed_error (by simp)

theorem acceptRecord_typed (volumeSpace : BitVec 32) (directory : Iso9660Extent) (s : ListState)
    (r : Record) : Typed (acceptRecord volumeSpace directory s r) := by
  unfold acceptRecord
  split
  · exact typed_guard (by simp) (typed_guard (by simp) (typed_ok _))
  · exact typed_guard (by simp) (typed_guard id (typed_ok _))

theorem scanSector_typed (volumeSpace : BitVec 32) (directory : Iso9660Extent) (block : Memory)
    (room pos : ℕ) (s : ListState) : Typed (scanSector volumeSpace directory block room pos s) := by
  induction room generalizing pos s with
  | zero => exact typed_ok s
  | succ room ih =>
      rw [scanSector]
      split
      · split
        · exact typed_ok s
        · cases parsed : parseRecord (block.from pos) (kIso9660BlockBytes - pos) with
          | error e => exact typed_error (parseRecord_typed _ _ e parsed)
          | ok r =>
              cases taken : acceptRecord volumeSpace directory s r with
              | error e => simpa [taken] using typed_error (acceptRecord_typed _ _ _ _ e taken)
              | ok mid => simpa [taken] using ih _ mid
      · exact typed_ok s

theorem scanDirectory_typed (read : Iso9660BlockReader) (volumeSpace : BitVec 32)
    (directory : Iso9660Extent) (left b : ℕ) (s : ListState) :
    Typed (scanDirectory read volumeSpace directory left b s).1 := by
  induction left generalizing b s with
  | zero => exact typed_ok s
  | succ left ih =>
      rw [scanDirectory]
      cases asked : read (directory.block + BitVec.ofNat 32 b) with
      | none => exact typed_error (by simp)
      | some block =>
          cases scanned : scanSector volumeSpace directory block kIso9660BlockBytes 0 s with
          | error e => simpa [scanned] using typed_error (scanSector_typed _ _ _ _ _ _ e scanned)
          | ok mid => simpa [scanned] using ih (b + 1) mid

/-- A directory lists without an error exactly when it is valid, and then lists its entries. -/
theorem listIso9660Directory_ok_iff (read : Iso9660BlockReader) (volume : Iso9660Volume)
    (directory : Iso9660Extent) (entries : List Iso9660Entry) :
    (listIso9660Directory read volume directory).1 = { entries := entries } ↔
      ValidDirectory read volume.volumeSpace directory entries := by
  have sectorRange : List.range' 0 (directory.size.toNat / kIso9660BlockBytes) =
      List.range (directory.size.toNat / kIso9660BlockBytes) := List.range_eq_range'.symm
  have scan := scanDirectory_ok_iff volume.volumeSpace directory read
    (directory.size.toNat / kIso9660BlockBytes) 0 {}
  simp only [sectorRange] at scan
  have taken := @acceptAll_directory_iff volume.volumeSpace directory
  by_cases extent : checkDirectoryExtent directory volume.volumeSpace = .none
  · rw [listIso9660Directory, if_neg (by simp [extent])]
    have fits := (checkDirectoryExtent_none _ _).mp extent
    cases scanned : (scanDirectory read volume.volumeSpace directory
        (directory.size.toNat / kIso9660BlockBytes) 0 {}).1 with
    | error e =>
        have typed := scanDirectory_typed _ _ _ _ _ _ e scanned
        simp only [scanned, Iso9660ListResult.mk.injEq, typed, and_false, false_iff]
        rintro ⟨_, sectors, dot, dotdot, rest, sectorsHold, flat, isDot, same, isDotdot, ordinary, rfl⟩
        have := (scan _).mpr ⟨sectors, sectorsHold,
          (taken.mpr ⟨dot, dotdot, rest, flat, isDot, same, isDotdot, ordinary, rfl⟩).1⟩
        rw [scanned] at this
        contradiction
    | ok s =>
        simp only [scanned]
        rcases (scan s).mp scanned with ⟨sectors, sectorsHold, all⟩
        constructor
        · intro h
          split at h
          · simp at h
          · next enough =>
              rcases taken.mp ⟨all, enough⟩ with
                ⟨dot, dotdot, rest, flat, isDot, same, isDotdot, ordinary, rfl⟩
              simp only [Iso9660ListResult.mk.injEq, and_true] at h
              exact ⟨fits, sectors, dot, dotdot, rest, sectorsHold, flat, isDot, same, isDotdot,
                ordinary, h.symm⟩
        · rintro ⟨_, sectors', dot, dotdot, rest, sectorsHold', flat, isDot, same, isDotdot, ordinary, rfl⟩
          have done := (taken.mpr ⟨dot, dotdot, rest, flat, isDot, same, isDotdot, ordinary, rfl⟩).1
          have := (scan _).mpr ⟨sectors', sectorsHold', done⟩
          rw [scanned, Except.ok.injEq] at this
          subst this
          simp
  · rw [listIso9660Directory, if_pos extent]
    simp only [Iso9660ListResult.mk.injEq, extent, and_false, false_iff]
    intro valid
    exact extent ((checkDirectoryExtent_none _ _).mpr valid.extent)

theorem listIso9660Directory_result (read : Iso9660BlockReader) (volume : Iso9660Volume)
    (directory : Iso9660Extent) (ok : (listIso9660Directory read volume directory).1.error = .none) :
    ValidDirectory read volume.volumeSpace directory
      (listIso9660Directory read volume directory).1.entries := by
  rw [← listIso9660Directory_ok_iff]
  cases h : (listIso9660Directory read volume directory).1 with
  | mk entries error =>
      rw [h] at ok
      simp only at ok
      subst ok
      rfl

theorem ValidDirectory.listed {read : Iso9660BlockReader} (volume : Iso9660Volume)
    {directory : Iso9660Extent} {entries : List Iso9660Entry}
    (valid : ValidDirectory read volume.volumeSpace directory entries) :
    (listIso9660Directory read volume directory).1 = { entries := entries } :=
  (listIso9660Directory_ok_iff _ _ _ _).mpr valid

theorem findEntry_found_iff (name : List Byte) (entries : List Iso9660Entry) (found e : Iso9660Entry) :
    findEntry name entries (some found) = .ok e ↔
      found = e ∧ entries.filter (fun e => e.identifier = name) = [] := by
  induction entries with
  | nil => simp [findEntry]
  | cons entry entries ih =>
      by_cases same : entry.identifier = name
      · simp [findEntry, same]
      · simp [findEntry, same, ih]

theorem findEntry_ok_iff (name : List Byte) (entries : List Iso9660Entry) (e : Iso9660Entry) :
    findEntry name entries none = .ok e ↔ UniquelyNamed entries name e := by
  unfold UniquelyNamed
  induction entries with
  | nil => simp [findEntry]
  | cons entry entries ih =>
      by_cases same : entry.identifier = name
      · simp [findEntry, same, findEntry_found_iff]
      · simp [findEntry, same, ih]

theorem findEntry_typed (name : List Byte) (entries : List Iso9660Entry) (found : Option Iso9660Entry) :
    Typed (findEntry name entries found) := by
  induction entries generalizing found with
  | nil =>
      cases found with
      | none => exact typed_error (by simp)
      | some e => exact typed_ok e
  | cons entry entries ih =>
      rw [findEntry]
      split
      · exact ih found
      · exact typed_guard (by simp) (ih _)

theorem UniquelyNamed.mem {entries : List Iso9660Entry} {name : List Byte} {e : Iso9660Entry}
    (unique : UniquelyNamed entries name e) : e ∈ entries := by
  have : e ∈ entries.filter (fun e => e.identifier = name) := by
    rw [show entries.filter (fun e => e.identifier = name) = [e] from unique]
    exact List.mem_singleton.mpr rfl
  exact (List.mem_filter.mp this).1

theorem ValidDirectory.entry_inside {read : Iso9660BlockReader} {volumeSpace : BitVec 32}
    {directory : Iso9660Extent} {entries : List Iso9660Entry}
    (valid : ValidDirectory read volumeSpace directory entries) {e : Iso9660Entry} (member : e ∈ entries) :
    Inside e.extent volumeSpace := by
  rcases valid.records with ⟨_, _, _, rest, _, _, _, _, _, ordinary, rfl⟩
  rcases List.mem_map.mp member with ⟨r, inRest, rfl⟩
  have := (ordinary r inRest).extent
  split at this
  · exact this.inside
  · exact this

theorem Reaches.inside {read : Iso9660BlockReader} {volumeSpace : BitVec 32} {directory : Iso9660Extent}
    {names : List (List Byte)} {e : Iso9660Entry} (h : Reaches read volumeSpace directory names e) :
    Inside e.extent volumeSpace := by
  induction h with
  | last valid unique => exact valid.entry_inside unique.mem
  | step _ _ _ _ ih => exact ih

end Segarecomp.Media.Iso9660

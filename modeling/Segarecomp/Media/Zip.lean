import Mathlib.Data.List.Sort
import Segarecomp.Media.Bps
import Segarecomp.Media.InflateBounds

/-! The archive reader of the patch package: the end record is looked for from the back, the central
directory names the entries, and every entry's own header has to agree with it. Each access to the
archive is checked. -/

namespace Segarecomp.Media.Zip

open Lib.Checked

abbrev Byte := BitVec 8

def kMaxPackageBytes : ℕ := 32 <<< 20
def kMaxManifestBytes : ℕ := 16 <<< 10
def kMaxPatchBytes : ℕ := 16 <<< 20
def kMaxArchiveEntries : ℕ := 8

abbrev Read := Except (Stop String)

def u16 (b : List Byte) (pos : ℕ) : Read ℕ := do
  let low ← item b pos
  let high ← item b (pos + 1)
  pure (low.toNat ||| high.toNat <<< 8)

def u32 (b : List Byte) (pos : ℕ) : Read ℕ := do
  let low ← u16 b pos
  let high ← u16 b (pos + 2)
  pure (low ||| high <<< 16)

/-- A sum of two `std::uint32_t`. -/
def sum32 (a b : ℕ) : ℕ := (a + b) % 2 ^ 32

/-- `local` is a word of Lean. -/
structure ZipEntry where
  name : List Byte
  method : ℕ
  crc : ℕ
  csize : ℕ
  usize : ℕ
  localHeader : ℕ
  data : List Byte := []
  deriving DecidableEq, Repr

def letter (c : Char) : Byte := BitVec.ofNat 8 c.toNat

def safeChar (c : Byte) : Bool :=
  (letter 'a' ≤ c && c ≤ letter 'z') || (letter 'A' ≤ c && c ≤ letter 'Z') || (letter '0' ≤ c && c ≤ letter '9') ||
    c == letter '.' || c == letter '_' || c == letter '-'

def safeName (n : List Byte) : Bool :=
  if n.isEmpty ∨ n.length > 64 then false
  else if n = [letter '.'] ∨ n = [letter '.', letter '.'] ∨ n.head? = some (letter '.') then false
  else n.all safeChar

/-- "manifest.json" -/
def manifestName : List Byte :=
  ['m', 'a', 'n', 'i', 'f', 'e', 's', 't', '.', 'j', 's', 'o', 'n'].map letter

/-- The loop that looks for the end record, before its test of `p`. -/
def findEnd (z : List Byte) (lowest : ℕ) : (p : ℕ) → Read (Option ℕ)
  | 0 => pure none
  | p + 1 =>
      if p + 1 > lowest then do
        let signature ← u32 z p
        if signature = 0x06054B50 then pure (some p) else findEnd z lowest p
      else pure none

/-- A map is the list of its values in the order of their names. -/
def emplace (e : ZipEntry) : List ZipEntry → List ZipEntry
  | [] => [e]
  | f :: entries => if e.name < f.name then e :: f :: entries else f :: emplace e entries

/-- One round of the loop over the central directory: the position after it and the entry. -/
def readRecord (z : List Byte) (eocd pos : ℕ) : Read (ℕ × ZipEntry) := do
  refuseIf (pos + 46 > eocd) "the archive directory is damaged"
  let signature ← u32 z pos
  refuseIf (signature ≠ 0x02014B50) "the archive directory is damaged"
  let madeBy ← u16 z (pos + 4)
  let flags ← u16 z (pos + 8)
  let method ← u16 z (pos + 10)
  let crc ← u32 z (pos + 16)
  let csize ← u32 z (pos + 20)
  let usize ← u32 z (pos + 24)
  let nlen ← u16 z (pos + 28)
  let xlen ← u16 z (pos + 30)
  let clen ← u16 z (pos + 32)
  let extAttr ← u32 z (pos + 38)
  let localHeader ← u32 z (pos + 42)
  refuseIf (pos + 46 + nlen + xlen + clen > eocd) "the archive directory is damaged"
  let name ← slice z (pos + 46) nlen
  refuseIf (flags &&& 0x1 ≠ 0 ∨ flags &&& 0x40 ≠ 0) "encrypted entries are not supported"
  -- on a Unix host the high 16 bits of the external attributes hold st_mode
  let mode := extAttr >>> 16
  refuseIf (madeBy >>> 8 = 3 ∧ mode &&& 0xF000 ≠ 0 ∧ mode &&& 0xF000 ≠ 0x8000)
    "the archive contains a link, device or directory entry"
  refuseIf (extAttr &&& 0x10 ≠ 0) "the archive contains a directory entry"
  refuseIf (safeName name = false) "the archive contains an unsafe entry name"
  refuseIf (method ≠ 0 ∧ method ≠ 8) "unsupported compression method"
  refuseIf (csize = 0xFFFFFFFF ∨ usize = 0xFFFFFFFF) "ZIP64 entries are not supported"
  pure (pos + 46 + nlen + xlen + clen, { name, method, crc, csize, usize, localHeader })

def readDirectory (z : List Byte) (eocd : ℕ) : (room pos : ℕ) → List ZipEntry → Read (ℕ × List ZipEntry)
  | 0, pos, entries => pure (pos, entries)
  | room + 1, pos, entries => do
      let (pos, e) ← readRecord z eocd pos
      refuseIf (e.name ∈ entries.map ZipEntry.name) "the archive contains duplicate entries"
      readDirectory z eocd room pos (emplace e entries)

/-- The data of an entry, whose bytes in the archive begin at `start`. -/
def readData (z : List Byte) (start : ℕ) (e : ZipEntry) : Read (List Byte) := do
  let data ← slice z start e.csize
  if e.method = 0 then do
    refuseIf (e.csize ≠ e.usize) "a stored archive entry has inconsistent sizes"
    pure data
  else relabel "an archive entry cannot be decompressed within its declared size" (InflateBounds.run data e.usize)

/-- One round of the loop over the entries, after the limits: the entry with its data, and its range
[local header, end of data). -/
def readEntry (z : List Byte) (cdOff : ℕ) (e : ZipEntry) : Read (ZipEntry × ℕ × ℕ) := do
  refuseIf (e.localHeader + 30 > cdOff) "an archive entry header is damaged"
  let signature ← u32 z e.localHeader
  refuseIf (signature ≠ 0x04034B50) "an archive entry header is damaged"
  let lflags ← u16 z (sum32 e.localHeader 6)
  let lnlen ← u16 z (sum32 e.localHeader 26)
  let lxlen ← u16 z (sum32 e.localHeader 28)
  refuseIf (lflags &&& 0x1 ≠ 0) "an archive entry header is inconsistent"
  let lmethod ← u16 z (sum32 e.localHeader 8)
  refuseIf (lmethod ≠ e.method) "an archive entry header is inconsistent"
  let start := e.localHeader + 30 + lnlen + lxlen
  refuseIf (start > cdOff ∨ e.csize > cdOff - start) "an archive entry runs past the archive"
  refuseIf (lnlen ≠ e.name.length) "an archive entry header names a different file"
  let lname ← slice z (e.localHeader + 30) lnlen
  refuseIf (lname ≠ e.name) "an archive entry header names a different file"
  let data ← readData z start e
  refuseIf ((Bps.crc32 data).toNat ≠ e.crc) "an archive entry fails its CRC-32 check"
  pure ({ e with data }, e.localHeader, start + e.csize)

def readEntries (z : List Byte) (cdOff : ℕ) :
    List ZipEntry → (totalUncompressed : ℕ) → Read (List ZipEntry × List (ℕ × ℕ))
  | [], _ => pure ([], [])
  | e :: entries, totalUncompressed => do
      let limit := if e.name = manifestName then kMaxManifestBytes else kMaxPatchBytes
      refuseIf (e.usize > limit) "an archive entry is larger than allowed"
      let totalUncompressed := totalUncompressed + e.usize
      refuseIf (totalUncompressed > kMaxManifestBytes + kMaxPatchBytes) "the archive expands to more than allowed"
      let (e, range) ← readEntry z cdOff e
      let (entries, ranges) ← readEntries z cdOff entries totalUncompressed
      pure (e :: entries, range :: ranges)

/-- The order of pairs that `std::sort` uses. -/
def rangeBefore (a b : ℕ × ℕ) : Prop := a.1 < b.1 ∨ a.1 = b.1 ∧ a.2 ≤ b.2

instance : DecidableRel rangeBefore := fun a b => inferInstanceAs (Decidable (a.1 < b.1 ∨ a.1 = b.1 ∧ a.2 ≤ b.2))

def overlapping : List (ℕ × ℕ) → Bool
  | a :: b :: ranges => b.1 < a.2 || overlapping (b :: ranges)
  | _ => false

/-- `read_zip` on an empty map; the result is the map it leaves when it succeeds. -/
def readZip (z : List Byte) : Read (List ZipEntry) := do
  refuseIf (z.length < 22 ∨ z.length > kMaxPackageBytes) "the package is not a valid archive"
  let lowest := if z.length > 22 + 65535 then z.length - 22 - 65535 else 0
  let eocd? ← findEnd z lowest (z.length - 22 + 1)
  match eocd? with
  | none => .error (.refused "the package is not a ZIP archive")
  | some eocd =>
      let total ← u16 z (eocd + 10)
      let cdSize ← u32 z (eocd + 12)
      let cdOff ← u32 z (eocd + 16)
      let disk ← u16 z (eocd + 4)
      refuseIf (disk ≠ 0) "multi-disk archives are not supported"
      let start ← u16 z (eocd + 6)
      refuseIf (start ≠ 0) "multi-disk archives are not supported"
      let here ← u16 z (eocd + 8)
      refuseIf (here ≠ total) "multi-disk archives are not supported"
      refuseIf (cdSize = 0xFFFFFFFF ∨ cdOff = 0xFFFFFFFF ∨ total = 0xFFFF) "ZIP64 archives are not supported"
      let comment ← u16 z (eocd + 20)
      refuseIf (comment ≠ 0 ∨ eocd + 22 ≠ z.length) "the archive has a trailing comment or extra data"
      refuseIf (total = 0 ∨ total > kMaxArchiveEntries) "the archive has an unexpected number of entries"
      refuseIf (cdOff > eocd ∨ cdSize > eocd - cdOff ∨ cdOff + cdSize ≠ eocd) "the archive directory is inconsistent"
      let (pos, entries) ← readDirectory z eocd total cdOff []
      refuseIf (pos ≠ eocd) "the archive directory has unexpected trailing bytes"
      let (entries, ranges) ← readEntries z cdOff entries 0
      refuseIf (overlapping (ranges.insertionSort rangeBefore) = true) "archive entries overlap"
      pure entries

end Segarecomp.Media.Zip

import Segarecomp.Media.Iso9660

/-! What a volume image says about a path: well-formed records, valid directories and the entry a
chain of names reaches. Nothing here scans; every notion is a relation on the image. -/

namespace Segarecomp.Media.Iso9660

/-- The extent's blocks lie inside the volume. -/
structure Inside (extent : Iso9660Extent) (volumeSpace : BitVec 32) : Prop where
  first : extent.block.toNat < volumeSpace.toNat
  last : extent.block.toNat + blocksOf extent.size ≤ volumeSpace.toNat

structure DirectoryExtent (extent : Iso9660Extent) (volumeSpace : BitVec 32) : Prop where
  nonempty : extent.size ≠ 0
  whole : kIso9660BlockBytes ∣ extent.size.toNat
  bounded : extent.size.toNat ≤ kIso9660MaxDirectoryBytes
  inside : Inside extent volumeSpace

/-- The bytes at `p` are an ordinary directory record that ends within `available` bytes. -/
structure RecordAt (p : Memory) (available : ℕ) (r : Record) : Prop where
  longEnough : 34 ≤ (p 0).toNat
  ends : (p 0).toNat ≤ available
  nameLength : r.nameLength = (p 32).toNat
  named : r.nameLength ≠ 0
  nameEnds : 33 + r.nameLength ≤ (p 0).toNat
  noAttributes : p 1 = 0
  notInterleaved : p 26 = 0 ∧ p 27 = 0
  singleExtent : p 25 &&& 0x80 = 0 ∧ p 25 &&& 0x04 = 0
  block : le32 (p.from 2) = r.entry.extent.block ∧ be32 (p.from 6) = r.entry.extent.block
  size : le32 (p.from 10) = r.entry.extent.size ∧ be32 (p.from 14) = r.entry.extent.size
  sequence : le16 (p.from 28) = 1 ∧ be16 (p.from 30) = 1
  directory : r.entry.directory = decide (p 25 &&& 0x02 ≠ 0)
  identifier : r.entry.identifier = (List.range r.nameLength).map (fun i => p (33 + i))
  firstNameByte : r.firstNameByte = p 33

/-- From `pos` on, a sector holds exactly these records, then only padding. -/
inductive SectorRecords (block : Memory) : ℕ → List Record → Prop
  | full {pos : ℕ} (past : kIso9660BlockBytes ≤ pos) : SectorRecords block pos []
  | padding {pos : ℕ} (inside : pos < kIso9660BlockBytes) (zero : block pos = 0) :
      SectorRecords block pos []
  | record {pos : ℕ} {r : Record} {rs : List Record} (inside : pos < kIso9660BlockBytes)
      (here : RecordAt (block.from pos) (kIso9660BlockBytes - pos) r)
      (later : SectorRecords block (pos + (block pos).toNat) rs) : SectorRecords block pos (r :: rs)

/-- The `b`th sector of an extent is readable and holds exactly these records. -/
def HoldsSector (read : Iso9660BlockReader) (extent : Iso9660Extent) (b : ℕ) (rs : List Record) : Prop :=
  ∃ block, read (extent.block + BitVec.ofNat 32 b) = some block ∧ SectorRecords block 0 rs

/-- The record of "." (`which = 0`) or ".." (`which = 1`). -/
structure IsDot (which : ℕ) (r : Record) : Prop where
  single : r.nameLength = 1
  byte : r.firstNameByte.toNat = which
  directory : r.entry.directory = true

structure OrdinaryRecord (volumeSpace : BitVec 32) (r : Record) : Prop where
  notDot : ¬ (r.nameLength = 1 ∧ r.firstNameByte ≤ 1)
  extent : if r.entry.directory then DirectoryExtent r.entry.extent volumeSpace
    else Inside r.entry.extent volumeSpace

/-- `directory` is a valid directory of the volume and lists exactly `entries`, in order. -/
structure ValidDirectory (read : Iso9660BlockReader) (volumeSpace : BitVec 32) (directory : Iso9660Extent)
    (entries : List Iso9660Entry) : Prop where
  extent : DirectoryExtent directory volumeSpace
  records : ∃ (sectors : List (List Record)) (dot dotdot : Record) (rest : List Record),
    List.Forall₂ (HoldsSector read directory) (List.range (directory.size.toNat / kIso9660BlockBytes)) sectors ∧
    sectors.flatten = dot :: dotdot :: rest ∧ IsDot 0 dot ∧ dot.entry.extent = directory ∧ IsDot 1 dotdot ∧
    (∀ r ∈ rest, OrdinaryRecord volumeSpace r) ∧ entries = rest.map Record.entry

/-- `entry` is the only entry with this name. -/
def UniquelyNamed (entries : List Iso9660Entry) (name : List Byte) (entry : Iso9660Entry) : Prop :=
  entries.filter (fun e => e.identifier = name) = [entry]

/-- From `directory`, the names lead through valid directories to `entry`, each uniquely. -/
inductive Reaches (read : Iso9660BlockReader) (volumeSpace : BitVec 32) :
    Iso9660Extent → List (List Byte) → Iso9660Entry → Prop
  | last {directory : Iso9660Extent} {entries : List Iso9660Entry} {name : List Byte} {entry : Iso9660Entry}
      (valid : ValidDirectory read volumeSpace directory entries)
      (unique : UniquelyNamed entries name entry) : Reaches read volumeSpace directory [name] entry
  | step {directory : Iso9660Extent} {entries : List Iso9660Entry} {name : List Byte}
      {names : List (List Byte)} {next entry : Iso9660Entry}
      (valid : ValidDirectory read volumeSpace directory entries)
      (unique : UniquelyNamed entries name next) (descends : next.directory = true)
      (rest : Reaches read volumeSpace next.extent names entry) :
      Reaches read volumeSpace directory (name :: names) entry

/-- The components of an absolute path. -/
structure PathNames (path : List Byte) (names : List (List Byte)) : Prop where
  spelled : path = slash :: [slash].intercalate names
  nonempty : names ≠ []
  component : ∀ name ∈ names, name ≠ [] ∧ slash ∉ name

/-- The path names `entry`, uniquely and along valid directories, inside the volume. -/
def PathDenotes (read : Iso9660BlockReader) (volume : Iso9660Volume) (path : List Byte)
    (names : List (List Byte)) (entry : Iso9660Entry) : Prop :=
  PathNames path names ∧ Reaches read volume.volumeSpace volume.root names entry ∧
    Inside entry.extent volume.volumeSpace

/-- `directory` is the root, or an entry that a prefix of the names reaches. -/
def OnPath (read : Iso9660BlockReader) (volumeSpace : BitVec 32) (root : Iso9660Extent)
    (names : List (List Byte)) (directory : Iso9660Extent) : Prop :=
  directory = root ∨ ∃ before entry, before <+: names ∧
    Reaches read volumeSpace root before entry ∧ entry.directory = true ∧ entry.extent = directory

/-- Block `b` is one of the sectors of the extent's declared size. -/
def SectorOf (extent : Iso9660Extent) (b : BitVec 32) : Prop :=
  extent.block.toNat ≤ b.toNat ∧ b.toNat < extent.block.toNat + extent.size.toNat / kIso9660BlockBytes

end Segarecomp.Media.Iso9660

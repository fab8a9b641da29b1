import Mathlib.Data.List.DropRight
import Mathlib.Tactic

/-! ISO 9660 volume, directory and path lookup. A block is the memory its buffer starts at; every
directory walk and lookup also returns the block numbers it asked the reader for, in order. -/

namespace Segarecomp.Media.Iso9660

abbrev Byte := BitVec 8

def kIso9660BlockBytes : ℕ := 2048
def kIso9660FirstDescriptor : ℕ := 16
def kIso9660MaxDescriptors : ℕ := 16
def kIso9660MaxDirectoryBytes : ℕ := 64 * 1024
def kIso9660MaxDepth : ℕ := 8

inductive Iso9660Error
  | none | read_failed | no_primary_descriptor | descriptor_invalid | duplicate_primary
  | both_endian_mismatch | unsupported_block_size | volume_space_invalid | unsupported_volume_set
  | record_invalid | record_crosses_sector | unsupported_feature | directory_invalid
  | extent_out_of_range | path_invalid | path_not_found | path_ambiguous | not_a_file | not_a_directory
  deriving DecidableEq, Repr

/-- Memory from a pointer on. Only the first `kIso9660BlockBytes` of a block belong to it. -/
abbrev Memory := ℕ → Byte

abbrev Iso9660BlockReader := BitVec 32 → Option Memory

structure Iso9660Extent where
  block : BitVec 32
  size : BitVec 32
  deriving DecidableEq, Repr

structure Iso9660Volume where
  volumeId : List Byte
  volumeSpace : BitVec 32
  root : Iso9660Extent
  deriving DecidableEq, Repr

structure Iso9660VolumeResult where
  volume : Option Iso9660Volume := .none
  error : Iso9660Error := .none
  deriving DecidableEq, Repr

structure Iso9660Entry where
  identifier : List Byte
  directory : Bool
  extent : Iso9660Extent
  deriving DecidableEq, Repr

structure Iso9660ListResult where
  entries : List Iso9660Entry := []
  error : Iso9660Error := .none
  deriving DecidableEq, Repr

structure Iso9660LookupResult where
  extent : Option Iso9660Extent := .none
  error : Iso9660Error := .none
  deriving DecidableEq, Repr

def le32 (p : Memory) : BitVec 32 :=
  (p 0).setWidth 32 ||| (p 1).setWidth 32 <<< 8 ||| (p 2).setWidth 32 <<< 16 ||| (p 3).setWidth 32 <<< 24

def be32 (p : Memory) : BitVec 32 :=
  (p 0).setWidth 32 <<< 24 ||| (p 1).setWidth 32 <<< 16 ||| (p 2).setWidth 32 <<< 8 ||| (p 3).setWidth 32

def le16 (p : Memory) : BitVec 32 := (p 0).setWidth 32 ||| (p 1).setWidth 32 <<< 8

def be16 (p : Memory) : BitVec 32 := (p 0).setWidth 32 <<< 8 ||| (p 1).setWidth 32

def Memory.from (p : Memory) (offset : ℕ) : Memory := fun i => p (offset + i)

def both32 (p : Memory) : Option (BitVec 32) := if le32 p = be32 (p.from 4) then some (le32 p) else none

def both16 (p : Memory) : Option (BitVec 32) := if le16 p = be16 (p.from 2) then some (le16 p) else none

def blocksOf (size : BitVec 32) : ℕ := (size.toNat + kIso9660BlockBytes - 1) / kIso9660BlockBytes

def extentFits (extent : Iso9660Extent) (volumeSpace : BitVec 32) : Bool :=
  extent.block.toNat + blocksOf extent.size ≤ volumeSpace.toNat && extent.block < volumeSpace

structure Record where
  entry : Iso9660Entry
  nameLength : ℕ
  firstNameByte : Byte
  deriving DecidableEq, Repr

/-- One directory record at `p` with `available` bytes left in its sector. -/
def parseRecord (p : Memory) (available : ℕ) : Except Iso9660Error Record :=
  let length := (p 0).toNat
  if length < 34 then .error .record_invalid
  else if length > available then .error .record_crosses_sector
  else
    let nameLength := (p 32).toNat
    if nameLength = 0 ∨ 33 + nameLength > length then .error .record_invalid
    else if p 1 ≠ 0 then .error .unsupported_feature
    else if p 26 ≠ 0 ∨ p 27 ≠ 0 then .error .unsupported_feature
    else
      let flags := p 25
      if flags &&& 0x80 ≠ 0 ∨ flags &&& 0x04 ≠ 0 then .error .unsupported_feature
      else
        match both32 (p.from 2), both32 (p.from 10), both16 (p.from 28) with
        | some block, some size, some sequence =>
            if sequence ≠ 1 then .error .unsupported_volume_set
            else
              .ok {
                entry := {
                  identifier := (List.range nameLength).map (fun i => p (33 + i))
                  directory := flags &&& 0x02 ≠ 0
                  extent := { block := block, size := size } }
                nameLength := nameLength
                firstNameByte := p 33 }
        | _, _, _ => .error .both_endian_mismatch

def checkDirectoryExtent (extent : Iso9660Extent) (volumeSpace : BitVec 32) : Iso9660Error :=
  if extent.size = 0 ∨ extent.size.toNat % kIso9660BlockBytes ≠ 0 ∨
      extent.size.toNat > kIso9660MaxDirectoryBytes then .directory_invalid
  else if !extentFits extent volumeSpace then .extent_out_of_range
  else .none

/-! Volume descriptors. -/

def failVolume (error : Iso9660Error) : Iso9660VolumeResult := { error := error }

/-- The trailing spaces and zero bytes of the volume identifier are dropped. -/
def trimIdentifier (id : List Byte) : List Byte := id.rdropWhile (fun c => c = 0x20 ∨ c = 0)

/-- The primary volume descriptor in `block`. -/
def parsePrimary (block : Memory) : Except Iso9660Error Iso9660Volume :=
  if block 881 ≠ 1 then .error .descriptor_invalid
  else
    match both32 (block.from 80), both16 (block.from 120), both16 (block.from 124), both16 (block.from 128) with
    | some volumeSpace, some setSize, some sequence, some blockSize =>
        if blockSize.toNat ≠ kIso9660BlockBytes then .error .unsupported_block_size
        else if setSize ≠ 1 ∨ sequence ≠ 1 then .error .unsupported_volume_set
        else
          match parseRecord (block.from 156) 34 with
          | .error error => .error error
          | .ok root =>
              if block 156 ≠ 34 ∨ root.nameLength ≠ 1 ∨ root.firstNameByte ≠ 0 ∨ !root.entry.directory then
                .error .record_invalid
              else
                .ok {
                  volumeId := trimIdentifier ((List.range 32).map (fun i => block (40 + i)))
                  volumeSpace := volumeSpace
                  root := root.entry.extent }
    | _, _, _, _ => .error .both_endian_mismatch

/-- The descriptor loop from `index` on, with `left` descriptors still allowed. Yields the index of
the terminator and the primary descriptor seen before it. -/
def scanDescriptors (read : Iso9660BlockReader) :
    (left index : ℕ) → Option Iso9660Volume → Except Iso9660Error (ℕ × Option Iso9660Volume)
  | 0, _, _ => .error .descriptor_invalid
  | left + 1, index, primary =>
      match read (BitVec.ofNat 32 (kIso9660FirstDescriptor + index)) with
      | none => .error .read_failed
      | some block =>
          if (List.range 5).map (fun i => block (1 + i)) ≠ [0x43, 0x44, 0x30, 0x30, 0x31] ∨ block 6 ≠ 1 then
            .error .descriptor_invalid
          else
            let type := block 0
            if type = 255 then .ok (index, primary)
            else if type = 0 ∨ type = 2 ∨ type = 3 then scanDescriptors read left (index + 1) primary
            else if type ≠ 1 then .error .descriptor_invalid
            else if primary.isSome then .error .duplicate_primary
            else
              match parsePrimary block with
              | .error error => .error error
              | .ok volume => scanDescriptors read left (index + 1) (some volume)

def readIso9660Volume (read : Iso9660BlockReader) (trackBlocks : BitVec 32) : Iso9660VolumeResult :=
  match scanDescriptors read kIso9660MaxDescriptors 0 none with
  | .error error => failVolume error
  | .ok (_, none) => failVolume .no_primary_descriptor
  | .ok (index, some primary) =>
      if primary.volumeSpace > trackBlocks ∨
          primary.volumeSpace.toNat ≤ kIso9660FirstDescriptor + index then
        failVolume .volume_space_invalid
      else if checkDirectoryExtent primary.root primary.volumeSpace ≠ .none then
        failVolume (checkDirectoryExtent primary.root primary.volumeSpace)
      else { volume := some primary }

/-! Directories. -/

structure ListState where
  entries : List Iso9660Entry := []
  seen : ℕ := 0
  deriving DecidableEq, Repr

/-- What the directory loop does with one parsed record: "." and ".." first, then entries. -/
def acceptRecord (volumeSpace : BitVec 32) (directory : Iso9660Extent) (s : ListState) (record : Record) :
    Except Iso9660Error ListState :=
  if s.seen < 2 then
    if record.nameLength ≠ 1 ∨ record.firstNameByte.toNat ≠ s.seen ∨ !record.entry.directory then
      .error .record_invalid
    else if s.seen = 0 ∧ (record.entry.extent.block ≠ directory.block ∨ record.entry.extent.size ≠ directory.size) then
      .error .record_invalid
    else .ok { s with seen := s.seen + 1 }
  else if record.nameLength = 1 ∧ record.firstNameByte ≤ 1 then .error .record_invalid
  else
    let error :=
      if record.entry.directory then checkDirectoryExtent record.entry.extent volumeSpace
      else if !extentFits record.entry.extent volumeSpace then .extent_out_of_range
      else .none
    if error ≠ .none then .error error
    else .ok { s with entries := s.entries ++ [record.entry] }

/-- The records of one sector from `pos` on. A record takes at least 34 bytes, so `room`, the
bytes left, bounds the iterations. -/
def scanSector (volumeSpace : BitVec 32) (directory : Iso9660Extent) (block : Memory) :
    (room pos : ℕ) → ListState → Except Iso9660Error ListState
  | 0, _, s => .ok s
  | room + 1, pos, s =>
      if pos < kIso9660BlockBytes then
        if block pos = 0 then .ok s
        else
          match parseRecord (block.from pos) (kIso9660BlockBytes - pos) with
          | .error error => .error error
          | .ok record =>
              match acceptRecord volumeSpace directory s record with
              | .error error => .error error
              | .ok s => scanSector volumeSpace directory block room (pos + (block pos).toNat) s
      else .ok s

/-- The sectors of a directory from its `b`th on, `left` of them. -/
def scanDirectory (read : Iso9660BlockReader) (volumeSpace : BitVec 32) (directory : Iso9660Extent) :
    (left b : ℕ) → ListState → Except Iso9660Error ListState × List (BitVec 32)
  | 0, _, s => (.ok s, [])
  | left + 1, b, s =>
      let asked := directory.block + BitVec.ofNat 32 b
      match read asked with
      | none => (.error .read_failed, [asked])
      | some block =>
          match scanSector volumeSpace directory block kIso9660BlockBytes 0 s with
          | .error error => (.error error, [asked])
          | .ok s =>
              let (result, log) := scanDirectory read volumeSpace directory left (b + 1) s
              (result, asked :: log)

def listIso9660Directory (read : Iso9660BlockReader) (volume : Iso9660Volume) (directory : Iso9660Extent) :
    Iso9660ListResult × List (BitVec 32) :=
  if checkDirectoryExtent directory volume.volumeSpace ≠ .none then
    ({ error := checkDirectoryExtent directory volume.volumeSpace }, [])
  else
    let (result, log) :=
      scanDirectory read volume.volumeSpace directory (directory.size.toNat / kIso9660BlockBytes) 0 {}
    match result with
    | .error error => ({ error := error }, log)
    | .ok s =>
        if s.seen < 2 then ({ error := .record_invalid }, log)
        else ({ entries := s.entries }, log)

/-! Paths. -/

def slash : Byte := 0x2F

/-- The components of the part of the path after its leading slash; `room` bounds their number. -/
def splitComponents : (room : ℕ) → List Byte → Option (List (List Byte))
  | 0, _ => none
  | room + 1, rest =>
      let component := rest.takeWhile (fun c => c ≠ slash)
      if component = [] then none
      else
        match rest.dropWhile (fun c => c ≠ slash) with
        | [] => some [component]
        | _ :: after => (splitComponents room after).map (component :: ·)

def pathComponents (path : List Byte) : Option (List (List Byte)) :=
  match path with
  | [] => none
  | first :: rest => if first = slash then splitComponents path.length rest else none

/-- The scan of a listing for `name`, with what has been found so far. -/
def findEntry (name : List Byte) : List Iso9660Entry → Option Iso9660Entry → Except Iso9660Error Iso9660Entry
  | [], none => .error .path_not_found
  | [], some found => .ok found
  | entry :: entries, found =>
      if entry.identifier ≠ name then findEntry name entries found
      else if found.isSome then .error .path_ambiguous
      else findEntry name entries (some entry)

/-- The component loop from `directory` on. -/
def walkComponents (read : Iso9660BlockReader) (volume : Iso9660Volume) :
    (directory : Iso9660Extent) → List (List Byte) → Iso9660LookupResult × List (BitVec 32)
  | _, [] => ({}, [])
  | directory, component :: later =>
      let (listing, log) := listIso9660Directory read volume directory
      if listing.error ≠ .none then ({ error := listing.error }, log)
      else
        match findEntry component listing.entries none with
        | .error error => ({ error := error }, log)
        | .ok found =>
            if later = [] ∧ found.directory then ({ error := .not_a_file }, log)
            else if later ≠ [] ∧ !found.directory then ({ error := .not_a_directory }, log)
            else if later = [] then ({ extent := some found.extent }, log)
            else
              let (result, rest) := walkComponents read volume found.extent later
              (result, log ++ rest)

def lookupIso9660File (read : Iso9660BlockReader) (volume : Iso9660Volume) (path : List Byte) :
    Iso9660LookupResult × List (BitVec 32) :=
  match pathComponents path with
  | none => ({ error := .path_invalid }, [])
  | some components =>
      if components = [] ∨ components.length > kIso9660MaxDepth then ({ error := .path_invalid }, [])
      else walkComponents read volume volume.root components

end Segarecomp.Media.Iso9660

import Mathlib.Tactic

/-! Image epochs and the registry of Z80 images the build fills. The hash is a parameter: both
sides of the selection only compare its values. -/

namespace Segarecomp.Genesis.Z80Images

abbrev Byte := BitVec 8

def kRamBytes : ℕ := 8192
def kWindowBytes : ℕ := 0x4000
def kMaxImages : ℕ := 8

def tagBytes (tag : String) : List Byte := tag.toList.map fun c => BitVec.ofNat 8 c.toNat

def kContentTag : List Byte := tagBytes "segarecomp.genesis.z80.image.v1"
def kSignatureTag : List Byte := tagBytes "segarecomp.genesis.z80.signature.v1.extents"

/-- The sound RAM at a runnable transition and the bitmap of the bytes the 68K wrote in the hold
window: bit `i % 8` of byte `i / 8`. -/
structure Epoch where
  ram : ℕ → Byte
  written : ℕ → Byte

def writtenBit (written : ℕ → Byte) (offset : ℕ) : Bool :=
  (written (offset >>> 3) >>> (offset &&& 7)) &&& 1#8 ≠ 0

structure Extent where
  offset : ℕ
  length : ℕ
  deriving DecidableEq, Repr

structure ExtentWalk where
  runs : List Extent := []
  start : ℕ := 0
  isOpen : Bool := false

def extentStep (written : ℕ → Byte) (walk : ExtentWalk) (offset : ℕ) : ExtentWalk :=
  let bit := writtenBit written offset
  if bit && !walk.isOpen then { walk with start := offset, isOpen := true }
  else if !bit && walk.isOpen then
    { walk with runs := walk.runs ++ [⟨walk.start, offset - walk.start⟩], isOpen := false }
  else walk

def extents (written : ℕ → Byte) : List Extent :=
  let walk := (List.range kRamBytes).foldl (extentStep written) {}
  if walk.isOpen then walk.runs ++ [⟨walk.start, kRamBytes - walk.start⟩] else walk.runs

def u16 (value : ℕ) : List Byte := [BitVec.ofNat 8 value, BitVec.ofNat 8 (value >>> 8)]

def u32 (value : ℕ) : List Byte := u16 (value &&& 0xFFFF) ++ u16 (value >>> 16)

def slice (ram : ℕ → Byte) (offset length : ℕ) : List Byte :=
  (List.range' offset length).map ram

inductive Derivation
  | runnableEpochSnapshot | staticReconstruction
  deriving DecidableEq, Repr

inductive AddOutcome
  | added | existing | restart | boundExceeded
  deriving DecidableEq, Repr

section Registry

variable {Digest : Type} (sha256 : List Byte → Digest)

def contentDigest (ram : ℕ → Byte) : Digest :=
  sha256 (kContentTag ++ u32 kWindowBytes ++ [BitVec.ofNat 8 (kWindowBytes / kRamBytes)] ++
    slice ram 0 kRamBytes)

def signatureDigest (epoch : Epoch) : Digest :=
  sha256 (kSignatureTag ++ (extents epoch.written).flatMap fun run =>
    u16 run.offset ++ u16 run.length ++ slice epoch.ram run.offset run.length)

structure Image (Digest : Type) where
  ordinal : ℕ
  content : Digest
  signature : Digest
  ram : ℕ → Byte
  derivation : Derivation
  proof : String

structure Registry (Digest : Type) where
  images : List (Image Digest) := []
  lastBound : ℕ := 0

variable [DecidableEq Digest]

/-- `Registry::add`. `bound` is the caller's variable, which an answer may leave as it was. -/
def Registry.add (registry : Registry Digest) (epoch : Epoch) (derivation : Derivation)
    (proof : String) (bound : ℕ) : AddOutcome × ℕ × Registry Digest :=
  let isEmpty := (extents epoch.written).isEmpty
  if isEmpty && registry.lastBound ≠ 0 then (.restart, registry.lastBound, registry)
  else
    let bound := if isEmpty then registry.lastBound else bound
    let signature := signatureDigest sha256 epoch
    match registry.images.find? (fun image => image.signature = signature) with
    | some image => (.existing, image.ordinal, { registry with lastBound := image.ordinal })
    | none =>
      if registry.images.length ≥ kMaxImages then (.boundExceeded, bound, registry)
      else
        let ordinal := registry.images.length + 1
        let image : Image Digest :=
          { ordinal, content := contentDigest sha256 epoch.ram, signature, ram := epoch.ram
            derivation, proof }
        (.added, ordinal, { images := registry.images ++ [image], lastBound := ordinal })

/-- `genesis_z80_image_for_signature`, over the table emitted from the registry. -/
def imageForSignature (table : List Digest) (signature : Digest) : ℕ :=
  match table.findIdx? (fun entry => entry = signature) with
  | some index => index + 1
  | none => 0

end Registry

def Registry.signatures {Digest : Type} (registry : Registry Digest) : List Digest :=
  registry.images.map Image.signature

end Segarecomp.Genesis.Z80Images

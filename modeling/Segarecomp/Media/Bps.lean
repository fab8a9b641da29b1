import Segarecomp.Lib.Crc
import Segarecomp.Lib.Overlap

/-! BPS patch application: the table-driven CRC-32, the bounded number reader and the command
loop. `std::size_t` and `std::uint64_t` are naturals reduced modulo 2^64 where the code adds. -/

namespace Segarecomp.Media.Bps

open Lib.Overlap

abbrev Byte := BitVec 8

def kMaxPatchBytes : ℕ := 16 <<< 20
def kMaxImageBytes : ℕ := 16 <<< 20
def uint64Max : ℕ := 2 ^ 64 - 1

def wrap64 (n : ℕ) : ℕ := n % 2 ^ 64

def byteAt (b : List Byte) (i : ℕ) : Byte := b.getD i 0

def le32 (b : List Byte) (pos : ℕ) : BitVec 32 :=
  (byteAt b pos).setWidth 32 ||| (byteAt b (pos + 1)).setWidth 32 <<< 8 |||
    (byteAt b (pos + 2)).setWidth 32 <<< 16 ||| (byteAt b (pos + 3)).setWidth 32 <<< 24

def tableStep (c : BitVec 32) : BitVec 32 :=
  if c &&& 1 ≠ 0 then 0xEDB88320#32 ^^^ c >>> 1 else c >>> 1

def table (i : BitVec 32) : BitVec 32 := (List.range 8).foldl (fun c _ => tableStep c) i

def crc32 (bytes : List Byte) : BitVec 32 :=
  bytes.foldl (fun c b => table ((c ^^^ b.setWidth 32) &&& 0xFF) ^^^ c >>> 8) 0xFFFFFFFF ^^^ 0xFFFFFFFF

structure BpsResult where
  ok : Bool := false
  error : String := ""
  output : List Byte := []
  deriving DecidableEq, Repr

def fail (why : String) : BpsResult := { error := why }

/-- The loop of `read_number`; `room` is `end - at`. Yields the value and the new position. -/
def readNumberLoop (p : List Byte) : (room pos data shift : ℕ) → Option (ℕ × ℕ)
  | 0, _, _, _ => none
  | room + 1, pos, data, shift =>
      let x := byteAt p pos
      let add := (x &&& 0x7F).toNat
      if add ≠ 0 ∧ shift > (uint64Max - data) / add then none
      else
        let data := wrap64 (data + wrap64 (add * shift))
        if x &&& 0x80 ≠ 0 then some (data, pos + 1)
        else if shift > uint64Max >>> 7 then none
        else
          let shift := wrap64 (shift <<< 7)
          if data > uint64Max - shift then none
          else readNumberLoop p room (pos + 1) (wrap64 (data + shift)) shift

def readNumber (p : List Byte) (pos stop : ℕ) : Option (ℕ × ℕ) :=
  readNumberLoop p (stop - pos) pos 0 1

structure Cursor where
  pos : ℕ
  out : List Byte
  outAt : ℕ := 0
  sourceRel : ℕ := 0
  targetRel : ℕ := 0
  deriving DecidableEq, Repr

/-- A relative copy offset: the low bit is the sign. -/
def moveRel (raw rel : ℕ) : Option ℕ :=
  let magnitude := raw >>> 1
  if raw &&& 1 ≠ 0 then
    if magnitude > rel then none else some (rel - magnitude)
  else
    if magnitude > uint64Max - rel then none else some (wrap64 (rel + magnitude))

def sourceRead (source : List Byte) (n : ℕ) (c : Cursor) : Except String Cursor :=
  if wrap64 (c.outAt + n) > source.length then .error "a BPS SourceRead runs past the source"
  else
    .ok { c with
      out := blit (fun _ i => byteAt source (c.outAt + i)) c.outAt c.out n
      outAt := wrap64 (c.outAt + n) }

def targetRead (patch : List Byte) (footer n : ℕ) (c : Cursor) : Except String Cursor :=
  if n > footer - c.pos then .error "a BPS TargetRead runs past the patch"
  else
    .ok { c with
      out := blit (fun _ i => byteAt patch (c.pos + i)) c.outAt c.out n
      pos := c.pos + n
      outAt := wrap64 (c.outAt + n) }

def sourceCopy (patch source : List Byte) (footer n : ℕ) (c : Cursor) : Except String Cursor :=
  match readNumber patch c.pos footer with
  | none => .error "a BPS copy offset is truncated"
  | some (raw, pos) =>
      match moveRel raw c.sourceRel with
      | none => .error "a BPS copy offset is out of range"
      | some rel =>
          if rel > source.length ∨ n > source.length - rel then
            .error "a BPS SourceCopy runs past the source"
          else
            .ok { c with
              pos := pos
              out := blit (fun _ i => byteAt source (rel + i)) c.outAt c.out n
              outAt := wrap64 (c.outAt + n)
              sourceRel := wrap64 (rel + n) }

def targetCopy (patch : List Byte) (footer n : ℕ) (c : Cursor) : Except String Cursor :=
  match readNumber patch c.pos footer with
  | none => .error "a BPS copy offset is truncated"
  | some (raw, pos) =>
      match moveRel raw c.targetRel with
      | none => .error "a BPS copy offset is out of range"
      | some rel =>
          if rel ≥ c.outAt then .error "a BPS TargetCopy reads output that does not exist yet"
          else
            .ok { c with
              pos := pos
              out := blit (fun out i => byteAt out (rel + i)) c.outAt c.out n
              outAt := wrap64 (c.outAt + n)
              targetRel := wrap64 (rel + n) }

/-- One iteration of the command loop. -/
def command (patch source : List Byte) (footer : ℕ) (c : Cursor) : Except String Cursor :=
  match readNumber patch c.pos footer with
  | none => .error "the BPS command stream is truncated"
  | some (word, pos) =>
      let n := wrap64 (word >>> 2 + 1)
      if n > c.out.length - c.outAt then .error "a BPS command writes past the target size"
      else
        match word &&& 3 with
        | 0 => sourceRead source n { c with pos := pos }
        | 1 => targetRead patch footer n { c with pos := pos }
        | 2 => sourceCopy patch source footer n { c with pos := pos }
        | _ => targetCopy patch footer n { c with pos := pos }

/-- `while (out_at < out.size())`; every command advances `out_at`, so the output size is enough
room. -/
def commands (patch source : List Byte) (footer : ℕ) : (room : ℕ) → Cursor → Except String Cursor
  | 0, c => .ok c
  | room + 1, c =>
      if c.outAt < c.out.length then
        match command patch source footer c with
        | .error why => .error why
        | .ok c => commands patch source footer room c
      else .ok c

def readHeader (patch : List Byte) (footer : ℕ) : Option (ℕ × ℕ × ℕ × ℕ) := do
  let (sourceSize, pos) ← readNumber patch 4 footer
  let (targetSize, pos) ← readNumber patch pos footer
  let (metadataSize, pos) ← readNumber patch pos footer
  return (sourceSize, targetSize, metadataSize, pos)

def applyBps (patch source : List Byte) (maxOutput : ℕ := kMaxImageBytes) : BpsResult :=
  if patch.length > kMaxPatchBytes then fail "the BPS payload is too large"
  else if patch.length < 4 + 3 + 12 then fail "the BPS payload is truncated"
  else if byteAt patch 0 ≠ 0x42 ∨ byteAt patch 1 ≠ 0x50 ∨ byteAt patch 2 ≠ 0x53 ∨ byteAt patch 3 ≠ 0x31 then
    fail "the payload is not a BPS1 patch"
  else
    let footer := patch.length - 12
    if crc32 (patch.take (patch.length - 4)) ≠ le32 patch (patch.length - 4) then
      fail "the BPS patch checksum does not match"
    else
      match readHeader patch footer with
      | none => fail "the BPS header is malformed"
      | some (sourceSize, targetSize, metadataSize, pos) =>
          if sourceSize ≠ source.length then
            fail "the BPS source size does not match the original image"
          else if targetSize > maxOutput then
            fail "the BPS target size exceeds the allowed output size"
          else if metadataSize > footer - pos then fail "the BPS metadata runs past the patch"
          else if crc32 source ≠ le32 patch footer then
            fail "the BPS source checksum does not match the original image"
          else
            match commands patch source footer targetSize
                { pos := pos + metadataSize, out := List.replicate targetSize 0 } with
            | .error why => fail why
            | .ok c =>
                if c.pos ≠ footer then fail "the BPS command stream has trailing bytes"
                else if crc32 c.out ≠ le32 patch (footer + 4) then
                  fail "the BPS target checksum does not match the patched image"
                else { ok := true, output := c.out }

end Segarecomp.Media.Bps

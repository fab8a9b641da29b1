import Segarecomp.Lib.Bits
import Segarecomp.Lib.Canonical

/-! The RFC 1951 format itself: blocks, the bits that encode them and the bytes they denote.
Section numbers are those of the RFC. -/

namespace Segarecomp.Media.DeflateFormat

open Lib Lib.Bits

abbrev Byte := BitVec 8

/-- Extra bits and base of length code `257 + k` (3.2.5). -/
def lengthExtraBits (k : ℕ) : ℕ := if k < 8 ∨ k = 28 then 0 else (k - 4) / 4
def lengthBase (k : ℕ) : ℕ :=
  if k < 8 then 3 + k else if k = 28 then 258 else 3 + (4 + k % 4) * 2 ^ lengthExtraBits k

/-- Extra bits and base of distance code `k` (3.2.5). -/
def distanceExtraBits (k : ℕ) : ℕ := k / 2 - 1
def distanceBase (k : ℕ) : ℕ := if k < 2 then 1 + k else 1 + (2 + k % 2) * 2 ^ distanceExtraBits k

inductive Token
  | literal (b : Byte)
  | copy (lengthCode : Fin 29) (lengthExtra : Fin (2 ^ lengthExtraBits lengthCode))
      (distanceCode : Fin 30) (distanceExtra : Fin (2 ^ distanceExtraBits distanceCode))

/-- `n` bytes from `distance` back; where the two strings overlap, the last bytes repeat. -/
def copyBack (output : List Byte) (distance n : ℕ) : List Byte :=
  output ++ (List.range n).map (fun i => output.getD (output.length - distance + i % distance) 0)

def Token.denote (output : List Byte) : Token → Option (List Byte)
  | .literal b => some (output ++ [b])
  | .copy lengthCode lengthExtra distanceCode distanceExtra =>
      let distance := distanceBase distanceCode + distanceExtra
      if distance ≤ output.length then
        some (copyBack output distance (lengthBase lengthCode + lengthExtra))
      else none

/-- Huffman codes are packed from their most significant bit, extra bits from their least (3.1.1). -/
def Token.bits (lit dist : List ℕ) : Token → Option (List Bool)
  | .literal b => Canonical.codeword lit b.toNat
  | .copy lengthCode lengthExtra distanceCode distanceExtra => do
      let length ← Canonical.codeword lit (257 + lengthCode)
      let distance ← Canonical.codeword dist distanceCode
      some (length ++ lsb (lengthExtraBits lengthCode) lengthExtra ++ distance ++
        lsb (distanceExtraBits distanceCode) distanceExtra)

/-- The symbols of a compressed block, ended by end-of-block (256). -/
def bodyBits (lit dist : List ℕ) : List Token → Option (List Bool)
  | [] => Canonical.codeword lit 256
  | token :: tokens => do
      let first ← token.bits lit dist
      let rest ← bodyBits lit dist tokens
      some (first ++ rest)

def denoteTokens (output : List Byte) : List Token → Option (List Byte)
  | [] => some output
  | token :: tokens => (token.denote output).bind fun output => denoteTokens output tokens

/-- The fixed codes (3.2.6). -/
def fixedLiteralLengths : List ℕ :=
  List.replicate 144 8 ++ List.replicate 112 9 ++ List.replicate 24 7 ++ List.replicate 8 8
def fixedDistanceLengths : List ℕ := List.replicate 32 5

/-- A symbol of the code length alphabet (3.2.7). -/
inductive Item
  | single (length : Fin 16)
  | repeatPrevious (extra : Fin 4)
  | zeros (extra : Fin 8)
  | manyZeros (extra : Fin 128)
  deriving DecidableEq, Repr

def Item.expand (lengths : List ℕ) : Item → Option (List ℕ)
  | .single length => some (lengths ++ [length.val])
  | .repeatPrevious extra => lengths.getLast?.map fun last => lengths ++ List.replicate (3 + extra) last
  | .zeros extra => some (lengths ++ List.replicate (3 + extra) 0)
  | .manyZeros extra => some (lengths ++ List.replicate (11 + extra) 0)

def Item.bits (code : List ℕ) : Item → Option (List Bool)
  | .single length => Canonical.codeword code length
  | .repeatPrevious extra => (Canonical.codeword code 16).map (· ++ lsb 2 extra)
  | .zeros extra => (Canonical.codeword code 17).map (· ++ lsb 3 extra)
  | .manyZeros extra => (Canonical.codeword code 18).map (· ++ lsb 7 extra)

def expandItems (lengths : List ℕ) : List Item → Option (List ℕ)
  | [] => some lengths
  | item :: items => (item.expand lengths).bind fun lengths => expandItems lengths items

def itemsBits (code : List ℕ) : List Item → Option (List Bool)
  | [] => some []
  | item :: items => do
      let first ← item.bits code
      let rest ← itemsBits code items
      some (first ++ rest)

/-- The order in which the code length code lengths are written (3.2.7). -/
def codeLengthOrder : List ℕ := [16, 17, 18, 0, 8, 7, 9, 6, 10, 5, 11, 4, 12, 3, 13, 2, 14, 1, 15]

structure DynamicHeader where
  hlit : ℕ
  hdist : ℕ
  hlit_low : 257 ≤ hlit
  hlit_high : hlit ≤ 286
  hdist_low : 1 ≤ hdist
  hdist_high : hdist ≤ 32
  written : List (Fin 8)
  written_low : 4 ≤ written.length
  written_high : written.length ≤ 19
  items : List Item

/-- The length of symbol `s` in the code length code; what is not written is 0. -/
def DynamicHeader.codeLengthOf (h : DynamicHeader) (s : ℕ) : ℕ :=
  ((h.written.map Fin.val).getD (codeLengthOrder.idxOf s) 0)

def DynamicHeader.codeLengths (h : DynamicHeader) : List ℕ := (List.range 19).map h.codeLengthOf

/-- The literal/length and the distance code lengths, which follow each other in one sequence. -/
def DynamicHeader.lengths (h : DynamicHeader) : Option (List ℕ × List ℕ) :=
  (expandItems [] h.items).bind fun all =>
    if all.length = h.hlit + h.hdist then some (all.take h.hlit, all.drop h.hlit) else none

def DynamicHeader.bits (h : DynamicHeader) : Option (List Bool) :=
  if Canonical.Permitted 7 h.codeLengths then
    (itemsBits h.codeLengths h.items).map fun items =>
      lsb 5 (h.hlit - 257) ++ lsb 5 (h.hdist - 1) ++ lsb 4 (h.written.length - 4) ++
        h.written.flatMap (fun l : Fin 8 => lsb 3 l.val) ++ items
  else none

inductive Block
  | stored (padding : List Bool) (data : List Byte)
  | fixed (tokens : List Token)
  | dynamic (header : DynamicHeader) (tokens : List Token)

def Block.denote (output : List Byte) : Block → Option (List Byte)
  | .stored _ data => some (output ++ data)
  | .fixed tokens => denoteTokens output tokens
  | .dynamic _ tokens => denoteTokens output tokens

/-- The bits of a block whose first bit is bit `start` of the stream; a stored block skips to a
byte boundary after its header. -/
def Block.bits (start : ℕ) (final : Bool) : Block → Option (List Bool)
  | .stored padding data =>
      if data.length < 2 ^ 16 ∧ padding.length < 8 ∧ (start + 3 + padding.length) % 8 = 0 then
        some (final :: lsb 2 0 ++ padding ++ lsb 16 data.length ++ lsb 16 (2 ^ 16 - 1 - data.length) ++
          ofBytes data)
      else none
  | .fixed tokens =>
      (bodyBits fixedLiteralLengths fixedDistanceLengths tokens).map fun body => final :: lsb 2 1 ++ body
  | .dynamic header tokens => do
      let (lit, dist) ← header.lengths
      let head ← header.bits
      let body ← bodyBits lit dist tokens
      if Canonical.Permitted 15 lit ∧ Canonical.Permitted 15 dist then
        some (final :: lsb 2 2 ++ head ++ body)
      else none

def streamBits (start : ℕ) : List Block → Option (List Bool)
  | [] => none
  | [block] => block.bits start true
  | block :: more :: blocks => do
      let first ← block.bits start false
      let rest ← streamBits (start + first.length) (more :: blocks)
      some (first ++ rest)

def denoteBlocks (output : List Byte) : List Block → Option (List Byte)
  | [] => some output
  | block :: blocks => (block.denote output).bind fun output => denoteBlocks output blocks

/-- `stream` holds the blocks, and they denote `data`. What follows the last block is free. -/
def Encodes (blocks : List Block) (stream data : List Byte) : Prop :=
  denoteBlocks [] blocks = some data ∧
    ∃ bits rest, streamBits 0 blocks = some bits ∧ ofBytes stream = bits ++ rest

end Segarecomp.Media.DeflateFormat

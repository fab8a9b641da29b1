import Mathlib.Data.Nat.Notation
import Segarecomp.Lib.Overlap

/-! The package inflater: a raw-DEFLATE decoder whose output is limited to a declared size. The
reader state and the output are passed along; `room` bounds what the loops still can read. -/

namespace Segarecomp.Media.Inflate

open Lib.Overlap

abbrev Byte := BitVec 8

/-- The members of `Inflater` that change. -/
structure Inflater where
  pos : ℕ := 0
  bitBuf : ℕ := 0
  bitCount : ℕ := 0
  failed : Bool := false
  out : List Byte := []
  deriving DecidableEq, Repr

def byteAt (input : List Byte) (pos : ℕ) : ℕ := (input.getD pos 0).toNat

/-- The refill loop of `bits`; it gains eight bits a round, so `need` rounds are enough. -/
def refill (input : List Byte) (need : ℕ) : (room : ℕ) → Inflater → Inflater
  | 0, s => s
  | room + 1, s =>
      if s.bitCount < need then
        if s.pos ≥ input.length then { s with failed := true }
        else
          refill input need room { s with
            bitBuf := (s.bitBuf ||| byteAt input s.pos <<< s.bitCount) % 2 ^ 32
            pos := s.pos + 1
            bitCount := s.bitCount + 8 }
      else s

def bits (input : List Byte) (need : ℕ) (s : Inflater) : ℕ × Inflater :=
  let s := refill input need need s
  if s.bitCount < need then (0, s)
  else
    (s.bitBuf &&& (1 <<< need - 1), { s with bitBuf := s.bitBuf >>> need, bitCount := s.bitCount - need })

structure Huff where
  count : List ℕ
  symbol : List ℕ
  deriving DecidableEq, Repr

def countLoop (lengths : List ℕ) : List ℕ :=
  lengths.foldl (fun count l => count.set l (count.getD l 0 + 1)) (List.replicate 16 0)

/-- `left` after the lengths from `len` on; `none` when it goes negative. -/
def kraftLoop (count : List ℕ) : (room len : ℕ) → (left : ℤ) → Option ℤ
  | 0, _, left => some left
  | room + 1, len, left =>
      let left := left * 2 - count.getD len 0
      if left < 0 then none else kraftLoop count room (len + 1) left

def offsLoop (count : List ℕ) : (room len : ℕ) → (offs : List ℕ) → List ℕ
  | 0, _, offs => offs
  | room + 1, len, offs =>
      offsLoop count room (len + 1) (offs.set (len + 1) (offs.getD len 0 + count.getD len 0))

def symbolLoop : (lengths : List ℕ) → (i : ℕ) → (offs symbol : List ℕ) → List ℕ
  | [], _, _, symbol => symbol
  | l :: rest, i, offs, symbol =>
      if l ≠ 0 then
        symbolLoop rest (i + 1) (offs.set l (offs.getD l 0 + 1)) (symbol.set (offs.getD l 0) i)
      else symbolLoop rest (i + 1) offs symbol

def Huff.build (lengths : List ℕ) : Option Huff :=
  let count := countLoop lengths
  match kraftLoop count 15 1 1 with
  | none => none
  | some _ =>
      some ⟨count, symbolLoop lengths 0 (offsLoop count 14 1 (List.replicate 16 0)) (List.replicate 320 0)⟩

/-- The loop of `decode` over `len = 16 - room ..= 15`; `none` is the result -1. -/
def decodeLoop (input : List Byte) (h : Huff) :
    (room code first index : ℕ) → Inflater → Option (ℕ × Inflater)
  | 0, _, _, _, _ => none
  | room + 1, code, first, index, s =>
      let (bit, s) := bits input 1 s
      let code := code ||| bit
      if s.failed then none
      else
        let count := h.count.getD (15 - room) 0
        if (code : ℤ) - count < first then some (h.symbol.getD (index + (code - first)) 0, s)
        else decodeLoop input h room (code <<< 1) ((first + count) <<< 1) (index + count) s

def decode (input : List Byte) (h : Huff) (s : Inflater) : Option (ℕ × Inflater) :=
  decodeLoop input h 15 0 0 0 s

def lbase : List ℕ :=
  [3, 4, 5, 6, 7, 8, 9, 10, 11, 13, 15, 17, 19, 23, 27, 31, 35, 43, 51, 59, 67, 83, 99, 115, 131, 163,
   195, 227, 258]
def lext : List ℕ :=
  [0, 0, 0, 0, 0, 0, 0, 0, 1, 1, 1, 1, 2, 2, 2, 2, 3, 3, 3, 3, 4, 4, 4, 4, 5, 5, 5, 5, 0]
def dbase : List ℕ :=
  [1, 2, 3, 4, 5, 7, 9, 13, 17, 25, 33, 49, 65, 97, 129, 193, 257, 385, 513, 769, 1025, 1537, 2049,
   3073, 4097, 6145, 8193, 12289, 16385, 24577]
def dext : List ℕ :=
  [0, 0, 0, 0, 1, 1, 2, 2, 3, 3, 4, 4, 5, 5, 6, 6, 7, 7, 8, 8, 9, 9, 10, 10, 11, 11, 12, 12, 13, 13]

/-- How one round of a loop ends: the function returns false, the loop is left, or it goes on. -/
inductive Round
  | fails
  | leaves (s : Inflater)
  | continues (s : Inflater)
  deriving DecidableEq, Repr

/-- The match after its length code `li`. -/
def copyRound (input : List Byte) (expected : ℕ) (dist : Huff) (li : ℕ) (s : Inflater) : Round :=
  let (extra, s) := bits input (lext.getD li 0) s
  let len := lbase.getD li 0 + extra
  match decode input dist s with
  | none => .fails
  | some (ds, s) =>
      if ds ≥ 30 then .fails
      else
        let (extra, s) := bits input (dext.getD ds 0) s
        let d := dbase.getD ds 0 + extra
        if s.failed ∨ d > s.out.length ∨ len > expected - s.out.length then .fails
        else .continues { s with out := grow (fun out _ => out.getD (out.length - d) 0) s.out len }

/-- One round of the loop of `block`. -/
def blockRound (input : List Byte) (expected : ℕ) (lit dist : Huff) (s : Inflater) : Round :=
  match decode input lit s with
  | none => .fails
  | some (sym, s) =>
      if sym < 256 then
        if s.out.length ≥ expected then .fails
        else .continues { s with out := s.out ++ [BitVec.ofNat 8 sym] }
      else if sym = 256 then .leaves s
      else if sym - 257 ≥ 29 then .fails
      else copyRound input expected dist (sym - 257) s

def block (input : List Byte) (expected : ℕ) (lit dist : Huff) : (room : ℕ) → Inflater → Option Inflater
  | 0, _ => none
  | room + 1, s =>
      match blockRound input expected lit dist s with
      | .fails => none
      | .leaves s => some s
      | .continues s => block input expected lit dist room s

def fixedLit : List ℕ :=
  List.replicate 144 8 ++ List.replicate 112 9 ++ List.replicate 24 7 ++ List.replicate 8 8
def fixedDist : List ℕ := List.replicate 30 5

def order : List ℕ := [16, 17, 18, 0, 8, 7, 9, 6, 10, 5, 11, 4, 12, 3, 13, 2, 14, 1, 15]

/-- The loop that reads the code length code lengths. -/
def readOrder (input : List Byte) : (slots cl : List ℕ) → Inflater → List ℕ × Inflater
  | [], cl, s => (cl, s)
  | slot :: slots, cl, s =>
      let (v, s) := bits input 3 s
      readOrder input slots (cl.set slot v) s

/-- The loop that reads `total` code lengths; `lens` holds the first `n` of them. -/
def readLengths (input : List Byte) (clh : Huff) (total : ℕ) :
    (room : ℕ) → (lens : List ℕ) → Inflater → Option (List ℕ × Inflater)
  | 0, _, _ => none
  | room + 1, lens, s =>
      if lens.length ≥ total then some (lens, s)
      else
        match decode input clh s with
        | none => none
        | some (sym, s) =>
            if sym < 16 then readLengths input clh total room (lens ++ [sym]) s
            else if sym = 16 ∧ lens.length = 0 then none
            else
              let val := if sym = 16 then lens.getD (lens.length - 1) 0 else 0
              let (base, width) := if sym = 16 then (3, 2) else if sym = 17 then (3, 3) else (11, 7)
              let (extra, s) := bits input width s
              let rep := base + extra
              if s.failed ∨ lens.length + rep > total then none
              else readLengths input clh total room (lens ++ List.replicate rep val) s

def storedBlock (input : List Byte) (expected : ℕ) (s : Inflater) : Option Inflater :=
  let s := { s with bitCount := 0, bitBuf := 0 }
  if s.pos + 4 > input.length then none
  else
    let len := byteAt input s.pos ||| byteAt input (s.pos + 1) <<< 8
    let nlen := byteAt input (s.pos + 2) ||| byteAt input (s.pos + 3) <<< 8
    let pos := s.pos + 4
    if len ^^^ 0xFFFF ≠ nlen ∨ len > input.length - pos ∨ len > expected - s.out.length then none
    else some { s with pos := pos + len, out := s.out ++ (input.drop pos).take len }

def huffmanBlock (input : List Byte) (expected room : ℕ) (litLengths distLengths : List ℕ) (s : Inflater) :
    Option Inflater :=
  match Huff.build litLengths, Huff.build distLengths with
  | some lit, some dist => block input expected lit dist room s
  | _, _ => none

def dynamicBlock (input : List Byte) (expected room : ℕ) (s : Inflater) : Option Inflater :=
  let (hlit, s) := bits input 5 s
  let (hdist, s) := bits input 5 s
  let (hclen, s) := bits input 4 s
  let hlit := hlit + 257
  let hdist := hdist + 1
  let hclen := hclen + 4
  if s.failed ∨ hlit > 286 ∨ hdist > 30 then none
  else
    let (cl, s) := readOrder input (order.take hclen) (List.replicate 19 0) s
    if s.failed then none
    else
      match Huff.build cl with
      | none => none
      | some clh =>
          match readLengths input clh (hlit + hdist) room [] s with
          | none => none
          | some (lens, s) =>
              huffmanBlock input expected room (lens.take hlit) ((lens.drop hlit).take hdist) s

/-- The block loop of `run`, up to the final size check. -/
def runBlocks (input : List Byte) (expected : ℕ) : (room : ℕ) → Inflater → Option Inflater
  | 0, _ => none
  | room + 1, s =>
      let (finalBlock, s) := bits input 1 s
      let (type, s) := bits input 2 s
      if s.failed then none
      else
        let result :=
          if type = 0 then storedBlock input expected s
          else if type = 1 then huffmanBlock input expected (8 * input.length + 1) fixedLit fixedDist s
          else if type = 2 then dynamicBlock input expected (8 * input.length + 1) s
          else none
        match result with
        | none => none
        | some s =>
            if s.failed then none
            else if finalBlock ≠ 0 then some s
            else runBlocks input expected room s

/-- `Inflater(in, expected).run(out)`: the output, or `none` for the result false. Every block and
every symbol takes at least one bit of the input. -/
def run (input : List Byte) (expected : ℕ) : Option (List Byte) :=
  match runBlocks input expected (8 * input.length + 1) {} with
  | none => none
  | some s => if s.out.length ≠ expected then none else some s.out

end Segarecomp.Media.Inflate

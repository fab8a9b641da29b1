import Mathlib.Tactic

/-! The Kosinski decoder: descriptor bits and payload bytes share one stream, and a descriptor word is
fetched as soon as the last bit of the word before it is consumed. -/

namespace Segarecomp.Media.Kosinski

abbrev Byte := BitVec 8

/-- The bytes the decoder is given, and whatever stands in memory past them. -/
structure Span where
  data : ℕ → Byte
  size : ℕ

inductive KosinskiError where
  | none | sourceExhausted | referenceBeforeStream | decodedLengthExceeded | tokenBoundExceeded
  deriving DecidableEq, Repr

structure KosinskiResult where
  error : KosinskiError := .none
  output : List Byte := []
  stop : ℕ := 0
  deriving DecidableEq, Repr

structure Reader where
  pos : ℕ
  bits : BitVec 16 := 0
  left : ℕ := 0
  deriving DecidableEq, Repr

section Decoder

variable (source : Span) (limit : ℕ)

def nextByte (r : Reader) : Option (Byte × Reader) :=
  if source.size ≤ r.pos then none else some (source.data r.pos, { r with pos := r.pos + 1 })

def refill (r : Reader) : Option Reader :=
  match nextByte source r with
  | none => none
  | some (lo, r) =>
      match nextByte source r with
      | none => none
      | some (hi, r) => some { r with bits := lo.setWidth 16 ||| (hi.setWidth 16 <<< 8), left := 16 }

def bit (r : Reader) : Option (Bool × Reader) :=
  let out := r.bits.getLsbD 0
  let taken : Reader := { r with bits := r.bits >>> 1, left := r.left - 1 }
  if taken.left = 0 then (refill source taken).map fun r => (out, r) else some (out, taken)

/-- Overlapping copies read what they have just written. -/
def pushBack (back : ℕ) (output : List Byte) : ℕ → List Byte
  | 0 => output
  | count + 1 => pushBack back (output ++ [output.getD (output.length - back) 0]) count

def copy (output : List Byte) (displacement : ℤ) (count : ℕ) : Except KosinskiError (List Byte) :=
  let back := (-displacement).toNat
  if output.length < back then .error .referenceBeforeStream
  else if limit < output.length + count then .error .decodedLengthExceeded
  else .ok (pushBack back output count)

inductive Outcome where
  | next (r : Reader) (output : List Byte)
  | done (result : KosinskiResult)
  deriving DecidableEq, Repr

def fail (output : List Byte) (error : KosinskiError) : Outcome := .done { error, output }

def copied (r : Reader) (output : List Byte) (displacement : ℤ) (count : ℕ) : Outcome :=
  match copy limit output displacement count with
  | .ok longer => .next r longer
  | .error error => fail output error

def literal (r : Reader) (output : List Byte) : Outcome :=
  if limit ≤ output.length then fail output .decodedLengthExceeded
  else
    match nextByte source r with
    | none => fail output .sourceExhausted
    | some (byte, r) => .next r (output ++ [byte])

def fullDisplacement (lo hi : Byte) : ℤ :=
  ((0xE000 ||| ((hi.toNat &&& 0xF8) <<< 5) ||| lo.toNat : ℕ) : ℤ) - 0x10000

/-- One more byte: the end of the stream, nothing, or a longer copy. -/
def extended (r : Reader) (output : List Byte) (displacement : ℤ) : Outcome :=
  match nextByte source r with
  | none => fail output .sourceExhausted
  | some (extra, r) =>
      if extra = 0 then .done { output, stop := r.pos }
      else if extra = 1 then .next r output
      else copied limit r output displacement (extra.toNat + 1)

def full (r : Reader) (output : List Byte) : Outcome :=
  match nextByte source r with
  | none => fail output .sourceExhausted
  | some (lo, r) =>
      match nextByte source r with
      | none => fail output .sourceExhausted
      | some (hi, r) =>
          if hi.toNat &&& 7 ≠ 0 then copied limit r output (fullDisplacement lo hi) ((hi.toNat &&& 7) + 2)
          else extended source limit r output (fullDisplacement lo hi)

def inline (r : Reader) (output : List Byte) : Outcome :=
  match bit source r with
  | none => fail output .sourceExhausted
  | some (hiBit, r) =>
      match bit source r with
      | none => fail output .sourceExhausted
      | some (loBit, r) =>
          match nextByte source r with
          | none => fail output .sourceExhausted
          | some (disp, r) =>
              copied limit r output ((disp.toNat : ℤ) - 256) ((hiBit.toNat <<< 1 ||| loBit.toNat) + 2)

def token (r : Reader) (output : List Byte) : Outcome :=
  match bit source r with
  | none => fail output .sourceExhausted
  | some (true, r) => literal source limit r output
  | some (false, r) =>
      match bit source r with
      | none => fail output .sourceExhausted
      | some (true, r) => full source limit r output
      | some (false, r) => inline source limit r output

def tokens : ℕ → Reader → List Byte → KosinskiResult
  | 0, _, output => { error := .tokenBoundExceeded, output }
  | n + 1, r, output =>
      match token source limit r output with
      | .next r output => tokens n r output
      | .done result => result

def kosinskiDecode (position maxTokens : ℕ) : KosinskiResult :=
  match refill source { pos := position } with
  | none => { error := .sourceExhausted }
  | some r => tokens source limit maxTokens r []

end Decoder

end Segarecomp.Media.Kosinski

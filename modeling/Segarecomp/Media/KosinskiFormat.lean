import Mathlib
import Segarecomp.Media.Kosinski

/-! The Kosinski grammar and its streams: tokens are descriptor bits and payload bytes, and each descriptor
word stands where the last bit of the word before it was consumed. -/

namespace Segarecomp.Media.Kosinski

/-! ## Tokens -/

/-- A copy goes back `range - displacement` bytes. The low 13 bits of a token that copies nothing mean
nothing. -/
inductive Token where
  | literal (value : Byte)
  | inline (displacement : Fin 256) (count : Fin 4)
  | full (displacement : Fin 8192) (count : Fin 7)
  | extended (displacement : Fin 8192) (extra : Fin 254)
  | noop (ignored : Fin 8192)
  deriving DecidableEq, Repr

/-- The bytes that a copy appends, where all it refers to stands there. -/
def copyBytes (output : List Byte) (back count : ℕ) : Option (List Byte) :=
  if output.length < back then none else some (pushBack back output count)

def Token.denote (output : List Byte) : Token → Option (List Byte)
  | .literal value => some (output ++ [value])
  | .inline displacement count => copyBytes output (256 - displacement) (count + 2)
  | .full displacement count => copyBytes output (8192 - displacement) (count + 3)
  | .extended displacement extra => copyBytes output (8192 - displacement) (extra + 3)
  | .noop _ => some output

def denote : List Token → List Byte → Option (List Byte)
  | [], output => some output
  | t :: rest, output => (t.denote output).bind (denote rest)

/-! ## Streams -/

inductive Event where
  | bit (value : Bool)
  | byte (value : Byte)
  deriving DecidableEq, Repr

def loByte (displacement : ℕ) : Byte := BitVec.ofNat 8 displacement

def hiByte (displacement count : ℕ) : Byte := BitVec.ofNat 8 (displacement / 256 * 8 + count)

def fullEvents (displacement count : ℕ) : List Event :=
  [.bit false, .bit true, .byte (loByte displacement), .byte (hiByte displacement count)]

def Token.events : Token → List Event
  | .literal value => [.bit true, .byte value]
  | .inline displacement count =>
      [.bit false, .bit false, .bit (decide (count.val / 2 = 1)), .bit (decide (count.val % 2 = 1)),
        .byte (BitVec.ofNat 8 displacement)]
  | .full displacement count => fullEvents displacement (count + 1)
  | .extended displacement extra => fullEvents displacement 0 ++ [.byte (BitVec.ofNat 8 (extra + 2))]
  | .noop ignored => fullEvents ignored 0 ++ [.byte 1]

def terminator (ignored : Fin 8192) : List Event := fullEvents ignored 0 ++ [.byte 0]

def events (message : List Token) (ignored : Fin 8192) : List Event :=
  message.flatMap Token.events ++ terminator ignored

def bitsOf : List Event → List Bool
  | [] => []
  | .bit value :: rest => value :: bitsOf rest
  | .byte _ :: rest => bitsOf rest

/-- Bit `j` of what is left of a descriptor word; the last word is filled up from `pad`. -/
def upcoming (pad : ℕ → Bool) (left : ℕ) (es : List Event) (j : ℕ) : Bool :=
  (bitsOf es).getD j (pad (16 - left + j))

def word (pad : ℕ → Bool) (es : List Event) : BitVec 16 := BitVec.ofFnLE fun i => upcoming pad 16 es i

def wordBytes (w : BitVec 16) : List Byte := [w.setWidth 8, (w >>> 8).setWidth 8]

/-- The bytes of a stream from a place where `left` bits of the last word are not yet consumed. -/
def layout (pad : ℕ → Bool) : ℕ → List Event → List Byte
  | _, [] => []
  | left, .byte value :: rest => value :: layout pad left rest
  | left, .bit _ :: rest =>
      if left = 1 then wordBytes (word pad rest) ++ layout pad 16 rest else layout pad (left - 1) rest

def encode (pad : ℕ → Bool) (es : List Event) : List Byte := wordBytes (word pad es) ++ layout pad 16 es

/-! ## The bytes of a span -/

def Span.from (source : Span) (pos : ℕ) : List Byte := (List.range' pos (source.size - pos)).map source.data

theorem Span.from_cons {source : Span} {pos : ℕ} (inside : pos < source.size) :
    source.from pos = source.data pos :: source.from (pos + 1) := by
  rw [Span.from, Span.from, show source.size - pos = source.size - (pos + 1) + 1 by omega, List.range'_succ,
    List.map_cons]

theorem Span.from_nil {source : Span} {pos : ℕ} (past : source.size ≤ pos) : source.from pos = [] := by
  rw [Span.from, Nat.sub_eq_zero_of_le past]
  rfl

theorem Span.length_from (source : Span) (pos : ℕ) : (source.from pos).length = source.size - pos := by
  rw [Span.from, List.length_map, List.length_range']

/-- The stream of a message stands at `position`, for an output within the limit and the bound on tokens. -/
structure Encodes (source : Span) (position limit maxTokens : ℕ) (output : List Byte) (stop : ℕ) : Prop where
  stands : ∃ message ignored pad rest, source.from position = encode pad (events message ignored) ++ rest ∧
    denote message [] = some output ∧ message.length + 1 ≤ maxTokens ∧
    stop = position + (encode pad (events message ignored)).length
  within : output.length ≤ limit

end Segarecomp.Media.Kosinski

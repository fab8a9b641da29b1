import Segarecomp.Lib.BiasedNumber
import Segarecomp.Lib.Crc
import Segarecomp.Lib.Overlap

/-! The BPS1 format itself: commands, the bytes a command list denotes, and its serialisation. -/

namespace Segarecomp.Media.BpsFormat

open Lib

abbrev Byte := BitVec 8

/-- The length of a command; `(length - 1) * 4 + kind` is one 64-bit number of the format. -/
structure Length where
  val : ℕ
  pos : 0 < val
  fits : val ≤ 2 ^ 62

/-- A signed offset, as sign and magnitude: twice the magnitude plus the sign is one 64-bit
number of the format. -/
structure Offset where
  negative : Bool
  magnitude : ℕ
  fits : magnitude < 2 ^ 63

def Offset.value (o : Offset) : ℤ := if o.negative then -o.magnitude else o.magnitude

def Offset.raw (o : Offset) : ℕ := 2 * o.magnitude + o.negative.toNat

inductive Command
  | sourceRead (length : Length)
  | targetRead (bytes : List Byte) (nonempty : 0 < bytes.length)
  | sourceCopy (length : Length) (offset : Offset)
  | targetCopy (length : Length) (offset : Offset)

/-- The interpreter state: what has been written and the two running offsets. -/
structure Machine where
  output : List Byte := []
  sourceRelative : ℤ := 0
  targetRelative : ℤ := 0

/-- `n` bytes of the output itself from `start`, one after another, so that the copy may read
the bytes it has just written. -/
def copyOutput (output : List Byte) (start n : ℕ) : List Byte :=
  Overlap.grow (fun written i => written.getD (start + i) 0) output n

def Machine.step (source : List Byte) (m : Machine) : Command → Option Machine
  | .sourceRead length =>
      if m.output.length + length.val ≤ source.length then
        some { m with output := m.output ++ (source.drop m.output.length).take length.val }
      else none
  | .targetRead bytes _ => some { m with output := m.output ++ bytes }
  | .sourceCopy length offset =>
      let start := m.sourceRelative + offset.value
      if 0 ≤ start ∧ start + length.val ≤ source.length then
        some { m with
          output := m.output ++ (source.drop start.toNat).take length.val
          sourceRelative := start + length.val }
      else none
  | .targetCopy length offset =>
      let start := m.targetRelative + offset.value
      if 0 ≤ start ∧ start < m.output.length then
        some { m with
          output := copyOutput m.output start.toNat length.val
          targetRelative := start + length.val }
      else none

def Machine.run (source : List Byte) (m : Machine) : List Command → Option Machine
  | [] => some m
  | c :: cs => (m.step source c).bind fun m => m.run source cs

/-- The bytes a command list denotes, when every copy is inside what it copies from. -/
def denote (source : List Byte) (commands : List Command) : Option (List Byte) :=
  (Machine.run source {} commands).map Machine.output

def crcPolynomial : BitVec 32 := 0xEDB88320#32

def crc32 (bytes : List Byte) : BitVec 32 := Crc.checksum crcPolynomial bytes

def word32 (x : BitVec 32) : List Byte :=
  [x.setWidth 8, (x >>> 8).setWidth 8, (x >>> 16).setWidth 8, (x >>> 24).setWidth 8]

def Command.encode : Command → List Byte
  | .sourceRead length => BiasedNumber.encode ((length.val - 1) * 4)
  | .targetRead bytes _ => BiasedNumber.encode ((bytes.length - 1) * 4 + 1) ++ bytes
  | .sourceCopy length offset =>
      BiasedNumber.encode ((length.val - 1) * 4 + 2) ++ BiasedNumber.encode offset.raw
  | .targetCopy length offset =>
      BiasedNumber.encode ((length.val - 1) * 4 + 3) ++ BiasedNumber.encode offset.raw

def magic : List Byte := [0x42, 0x50, 0x53, 0x31]

def body (source metadata : List Byte) (commands : List Command) (target : List Byte) : List Byte :=
  magic ++ BiasedNumber.encode source.length ++ BiasedNumber.encode target.length ++
    BiasedNumber.encode metadata.length ++ metadata ++ commands.flatMap Command.encode

/-- A whole patch: the body and the checksums of the source, the target and the patch so far. -/
def serialise (source metadata : List Byte) (commands : List Command) (target : List Byte) :
    List Byte :=
  let checked := body source metadata commands target ++ word32 (crc32 source) ++ word32 (crc32 target)
  checked ++ word32 (crc32 checked)

def Command.size : Command → ℕ
  | .sourceRead length => length.val
  | .targetRead bytes _ => bytes.length
  | .sourceCopy length _ => length.val
  | .targetCopy length _ => length.val

theorem Command.size_pos (c : Command) : 0 < c.size := by
  cases c with
  | sourceRead length => exact length.pos
  | targetRead bytes nonempty => exact nonempty
  | sourceCopy length offset => exact length.pos
  | targetCopy length offset => exact length.pos

theorem step_output_length {source : List Byte} {m m' : Machine} {c : Command}
    (h : m.step source c = some m') : m'.output.length = m.output.length + c.size := by
  cases c with
  | sourceRead length =>
      simp only [Machine.step, Option.ite_none_right_eq_some, Option.some.injEq] at h
      rcases h with ⟨bound, rfl⟩
      simp only [List.length_append, List.length_take, List.length_drop, Command.size]
      omega
  | targetRead bytes nonempty =>
      simp only [Machine.step, Option.some.injEq] at h
      subst h
      simp [Command.size]
  | sourceCopy length offset =>
      simp only [Machine.step, Option.ite_none_right_eq_some, Option.some.injEq] at h
      rcases h with ⟨⟨low, high⟩, rfl⟩
      simp only [List.length_append, List.length_take, List.length_drop, Command.size]
      omega
  | targetCopy length offset =>
      simp only [Machine.step, Option.ite_none_right_eq_some, Option.some.injEq] at h
      rcases h with ⟨_, rfl⟩
      simp [Command.size, copyOutput]

theorem run_output_length {source : List Byte} {m m' : Machine} {cs : List Command}
    (h : m.run source cs = some m') : m.output.length ≤ m'.output.length := by
  induction cs generalizing m with
  | nil =>
      simp only [Machine.run, Option.some.injEq] at h
      simp [h]
  | cons c cs ih =>
      rcases Option.bind_eq_some_iff.mp h with ⟨mid, first, rest⟩
      have grown := step_output_length first
      have := ih rest
      omega

end Segarecomp.Media.BpsFormat

import Mathlib.Data.BitVec

/-!
# Host evaluation of the MC68000 result specifications

Results and condition codes as the host computes them, one namespace per
specification. Every `Bool` converts as the source's `? mask : 0` does.
-/

namespace Segarecomp.M68k.Effects

inductive MemoryAccessWidth where
  | byte | word | longWord
  deriving DecidableEq, Repr

/-- `condition ? m : 0` -/
def flag {w : ℕ} (condition : Bool) (m : BitVec w) : BitVec w := if condition then m else 0#w

namespace MoveResultCcr

abbrev preservedMask : BitVec 16 := 0xFFF0
abbrev negativeMask : BitVec 16 := 0x0008
abbrev zeroMask : BitVec 16 := 0x0004
abbrev resultNegativeBit : BitVec 32 := 0x80000000

def apply (statusRegister : BitVec 16) (result : BitVec 32) : BitVec 16 :=
  (statusRegister &&& preservedMask) ||| flag (decide (result = 0#32)) zeroMask |||
    flag (decide (result &&& resultNegativeBit ≠ 0#32)) negativeMask

end MoveResultCcr

/-- The instruction-level rule for X after a subtraction. -/
inductive ExtendFlagPolicy where
  | preserve | fromCarry
  deriving DecidableEq, Repr

structure SubtractionResult where
  result : BitVec 32
  negative : Bool
  zero : Bool
  overflow : Bool
  carry : Bool
  deriving DecidableEq, Repr

namespace Subtraction

def bits : MemoryAccessWidth → BitVec 32
  | .byte => 8
  | .word => 16
  | .longWord => 32

def mask (width : MemoryAccessWidth) : BitVec 32 :=
  if bits width = 32#32 then 0xFFFFFFFF#32 else (1#32 <<< bits width) - 1#32

def sign (width : MemoryAccessWidth) : BitVec 32 := 1#32 <<< (bits width - 1#32)

def evaluate (source destination : BitVec 32) (width : MemoryAccessWidth) : SubtractionResult :=
  let source := source &&& mask width
  let destination := destination &&& mask width
  let result := (destination - source) &&& mask width
  { result := result
    negative := decide (result &&& sign width ≠ 0#32)
    zero := decide (result = 0#32)
    overflow :=
      decide ((destination ^^^ source) &&& (destination ^^^ result) &&& sign width ≠ 0#32)
    carry := decide (destination < source) }

def apply (statusRegister : BitVec 16) (source destination : BitVec 32)
    (width : MemoryAccessWidth) (policy : ExtendFlagPolicy) : BitVec 16 :=
  let subtraction := evaluate source destination width
  let extend :=
    match policy with
    | .preserve => statusRegister &&& 0x0010#16
    | .fromCarry => flag subtraction.carry 0x0010#16
  ((statusRegister &&& 0xFFE0#16).setWidth 32 ||| extend.setWidth 32 |||
    flag subtraction.negative 0x0008#32 ||| flag subtraction.zero 0x0004#32 |||
    flag subtraction.overflow 0x0002#32 ||| flag subtraction.carry 0x0001#32).setWidth 16

end Subtraction

structure AdditionResult where
  result : BitVec 32
  negative : Bool
  zero : Bool
  overflow : Bool
  carry : Bool
  deriving DecidableEq, Repr

namespace Addition

def mask : MemoryAccessWidth → BitVec 32
  | .byte => 0x000000FF
  | .word => 0x0000FFFF
  | .longWord => 0xFFFFFFFF

def sign : MemoryAccessWidth → BitVec 32
  | .byte => 0x00000080
  | .word => 0x00008000
  | .longWord => 0x80000000

def evaluate (source destination : BitVec 32) (width : MemoryAccessWidth) : AdditionResult :=
  let source := source &&& mask width
  let destination := destination &&& mask width
  let result := (destination + source) &&& mask width
  let sum := destination.setWidth 64 + source.setWidth 64
  { result := result
    negative := decide (result &&& sign width ≠ 0#32)
    zero := decide (result = 0#32)
    overflow :=
      decide (~~~(destination ^^^ source) &&& (destination ^^^ result) &&& sign width ≠ 0#32)
    carry := decide ((mask width).setWidth 64 < sum) }

def apply (statusRegister : BitVec 16) (source destination : BitVec 32)
    (width : MemoryAccessWidth) : BitVec 16 :=
  let addition := evaluate source destination width
  (statusRegister &&& 0xFFE0#16) ||| flag addition.carry 0x0011#16 |||
    flag addition.negative 0x0008#16 ||| flag addition.zero 0x0004#16 |||
    flag addition.overflow 0x0002#16

end Addition

inductive ExtendedArithmeticKind where
  | add | subtract
  deriving DecidableEq, Repr

structure ExtendedArithmeticResult where
  result : BitVec 32
  negative : Bool
  overflow : Bool
  carry : Bool
  deriving DecidableEq, Repr

namespace ExtendedArithmetic

def mask (width : MemoryAccessWidth) : BitVec 32 := Addition.mask width

def sign (width : MemoryAccessWidth) : BitVec 32 := Addition.sign width

def evaluate (kind : ExtendedArithmeticKind) (source destination : BitVec 32) (extend : Bool)
    (width : MemoryAccessWidth) : ExtendedArithmeticResult :=
  let m := mask width
  let s := sign width
  let source := source &&& m
  let destination := destination &&& m
  let x := flag extend 1#32
  match kind with
  | .add =>
      let result := (destination + source + x) &&& m
      { result := result
        negative := decide (result &&& s ≠ 0#32)
        overflow :=
          decide (((source &&& destination &&& ~~~result) |||
            (~~~source &&& ~~~destination &&& result)) &&& s ≠ 0#32)
        carry :=
          decide (((source &&& destination) ||| (~~~result &&& destination) |||
            (source &&& ~~~result)) &&& s ≠ 0#32) }
  | .subtract =>
      let result := (destination - source - x) &&& m
      { result := result
        negative := decide (result &&& s ≠ 0#32)
        overflow :=
          decide (((~~~source &&& destination &&& ~~~result) |||
            (source &&& ~~~destination &&& result)) &&& s ≠ 0#32)
        carry :=
          decide (((source &&& ~~~destination) ||| (result &&& ~~~destination) |||
            (source &&& result)) &&& s ≠ 0#32) }

/-- Z is sticky: cleared by a non-zero result, otherwise unchanged. -/
def apply (statusRegister : BitVec 16) (kind : ExtendedArithmeticKind)
    (source destination : BitVec 32) (width : MemoryAccessWidth) : BitVec 16 :=
  let r := evaluate kind source destination (decide (statusRegister &&& 0x0010#16 ≠ 0#16)) width
  let zero := decide (r.result = 0#32) && decide (statusRegister &&& 0x0004#16 ≠ 0#16)
  (statusRegister &&& 0xFFE0#16) ||| flag r.carry 0x0011#16 ||| flag r.negative 0x0008#16 |||
    flag zero 0x0004#16 ||| flag r.overflow 0x0002#16

end ExtendedArithmetic

inductive DecimalArithmeticKind where
  | add | subtract | negate
  deriving DecidableEq, Repr

structure DecimalArithmeticResult where
  result : BitVec 8
  carry : Bool
  negative : Bool
  overflow : Bool
  clearsZero : Bool
  deriving DecidableEq, Repr

namespace DecimalArithmetic

def evaluateNegate (destination : BitVec 32) (x : BitVec 32) : DecimalArithmeticResult :=
  let dst := destination &&& 0xFF#32
  let res := (0x9A#32 - dst - x) &&& 0xFF#32
  if res = 0x9A#32 then
    { result := dst.setWidth 8, carry := false, negative := true, overflow := false,
      clearsZero := false }
  else
    let v0 := ~~~res
    let res := if res &&& 0x0F#32 = 0x0A#32 then (res &&& 0xF0#32) + 0x10#32 else res
    let res := res &&& 0xFF#32
    { result := res.setWidth 8
      carry := true
      negative := decide (res &&& 0x80#32 ≠ 0#32)
      overflow := decide (v0 &&& res &&& 0x80#32 ≠ 0#32)
      clearsZero := decide (res ≠ 0#32) }

/-- The low nibbles are combined and corrected, then the high ones. `add` tells
ABCD from SBCD. -/
def evaluatePair (add : Bool) (source destination x : BitVec 32) : DecimalArithmeticResult :=
  let src := source &&& 0xFF#32
  let dst := destination &&& 0xFF#32
  let res :=
    if add then (src &&& 0x0F#32) + (dst &&& 0x0F#32) + x
    else (dst &&& 0x0F#32) - (src &&& 0x0F#32) - x
  let v0 := ~~~res
  let res := if 9#32 < res then (if add then res + 6#32 else res - 6#32) else res
  let res :=
    if add then res + (src &&& 0xF0#32) + (dst &&& 0xF0#32)
    else res + (dst &&& 0xF0#32) - (src &&& 0xF0#32)
  let carry := decide (0x99#32 < res)
  let res := if carry then (if add then res - 0xA0#32 else res + 0xA0#32) else res
  let masked := res &&& 0xFF#32
  { result := masked.setWidth 8
    carry := carry
    negative := decide (masked &&& 0x80#32 ≠ 0#32)
    overflow := decide (v0 &&& masked &&& 0x80#32 ≠ 0#32)
    clearsZero := decide (masked ≠ 0#32) }

def evaluate (kind : DecimalArithmeticKind) (source destination : BitVec 32) (extend : Bool) :
    DecimalArithmeticResult :=
  let x := flag extend 1#32
  match kind with
  | .negate => evaluateNegate destination x
  | .add => evaluatePair true source destination x
  | .subtract => evaluatePair false source destination x

def apply (statusRegister : BitVec 16) (kind : DecimalArithmeticKind)
    (source destination : BitVec 32) : BitVec 16 :=
  let r := evaluate kind source destination (decide (statusRegister &&& 0x0010#16 ≠ 0#16))
  let zero := !r.clearsZero && decide (statusRegister &&& 0x0004#16 ≠ 0#16)
  (statusRegister &&& 0xFFE0#16) ||| flag r.carry 0x0011#16 ||| flag r.negative 0x0008#16 |||
    flag zero 0x0004#16 ||| flag r.overflow 0x0002#16

end DecimalArithmetic

structure LogicalResult where
  result : BitVec 32
  negative : Bool
  zero : Bool
  deriving DecidableEq, Repr

namespace Logical

def mask : MemoryAccessWidth → BitVec 32
  | .byte => 0x000000FF
  | .word => 0x0000FFFF
  | .longWord => 0xFFFFFFFF

def sign : MemoryAccessWidth → BitVec 32
  | .byte => 0x00000080
  | .word => 0x00008000
  | .longWord => 0x80000000

def evaluate (result : BitVec 32) (width : MemoryAccessWidth) : LogicalResult :=
  let sized := result &&& mask width
  { result := sized
    negative := decide (sized &&& sign width ≠ 0#32)
    zero := decide (sized = 0#32) }

def apply (statusRegister : BitVec 16) (result : BitVec 32) (width : MemoryAccessWidth) :
    BitVec 16 :=
  let logical := evaluate result width
  (statusRegister &&& 0xFFF0#16) ||| flag logical.negative 8#16 ||| flag logical.zero 4#16

end Logical

structure DivisionResult where
  result : BitVec 32
  overflow : Bool
  negative : Bool
  zero : Bool
  deriving DecidableEq, Repr

namespace Division

/-- Undefined for a zero divisor: the caller has raised vector 5 by then. -/
def evaluate (dividend : BitVec 32) (divisor : BitVec 16) (isSigned : Bool) :
    Option DivisionResult :=
  if divisor = 0#16 then none
  else if isSigned then
    let quotient := (dividend.signExtend 64).sdiv (divisor.signExtend 64)
    let remainder := (dividend.signExtend 64).srem (divisor.signExtend 64)
    if quotient.slt (-32768#64) || (32767#64).slt quotient then
      some { result := dividend, overflow := true, negative := false, zero := false }
    else
      let q16 := quotient.setWidth 16
      let r16 := remainder.setWidth 16
      some
        { result := (r16.setWidth 32 <<< 16) ||| q16.setWidth 32
          overflow := false
          negative := quotient.slt 0#64
          zero := decide (quotient = 0#64) }
  else
    let quotient := dividend / divisor.setWidth 32
    let remainder := dividend % divisor.setWidth 32
    if 0xFFFF#32 < quotient then
      some { result := dividend, overflow := true, negative := false, zero := false }
    else
      some
        { result := (remainder <<< 16) ||| (quotient &&& 0xFFFF#32)
          overflow := false
          negative := decide (quotient &&& 0x8000#32 ≠ 0#32)
          zero := decide (quotient = 0#32) }

def ccr (statusRegister : BitVec 16) (division : DivisionResult) : BitVec 16 :=
  ((statusRegister &&& 0xFFF0#16).setWidth 32 |||
    (if division.overflow then 0x0002#32
      else flag division.negative 0x0008#32 ||| flag division.zero 0x0004#32)).setWidth 16

def apply (statusRegister : BitVec 16) (dividend : BitVec 32) (divisor : BitVec 16)
    (isSigned : Bool) : Option (BitVec 16) :=
  (evaluate dividend divisor isSigned).map (ccr statusRegister)

end Division

inductive BitOperationKind where
  | test | change | clear | set
  deriving DecidableEq, Repr

structure BitOperationResult where
  result : BitVec 32
  originalBitSet : Bool
  deriving DecidableEq, Repr

namespace BitOperation

def widthMaskBits : MemoryAccessWidth → BitVec 32
  | .longWord => 31
  | _ => 7

def evaluate (kind : BitOperationKind) (original bitNumber : BitVec 32)
    (destinationWidth : MemoryAccessWidth) : BitOperationResult :=
  let bitIndex := bitNumber &&& widthMaskBits destinationWidth
  let bitMask := 1#32 <<< bitIndex
  let originalBitSet := decide (original &&& bitMask ≠ 0#32)
  match kind with
  | .test => { result := original, originalBitSet := originalBitSet }
  | .change => { result := original ^^^ bitMask, originalBitSet := originalBitSet }
  | .clear => { result := original &&& ~~~bitMask, originalBitSet := originalBitSet }
  | .set => { result := original ||| bitMask, originalBitSet := originalBitSet }

end BitOperation

namespace BitTestCcr

abbrev preservedMask : BitVec 16 := 0xFFFB
abbrev zeroMask : BitVec 16 := 0x0004

def apply (statusRegister : BitVec 16) (originalBitSet : Bool) : BitVec 16 :=
  (statusRegister &&& preservedMask) ||| flag (!originalBitSet) zeroMask

end BitTestCcr

inductive M68kCondition where
  | always | never | hi | ls | cc | cs | ne | eq | vc | vs | pl | mi | ge | lt | gt | le
  deriving DecidableEq, Repr

namespace Condition

abbrev negativeMask : BitVec 16 := 0x0008
abbrev zeroMask : BitVec 16 := 0x0004
abbrev overflowMask : BitVec 16 := 0x0002
abbrev carryMask : BitVec 16 := 0x0001

def evaluate (condition : M68kCondition) (statusRegister : BitVec 16) : Bool :=
  let n := decide (statusRegister &&& negativeMask ≠ 0#16)
  let z := decide (statusRegister &&& zeroMask ≠ 0#16)
  let v := decide (statusRegister &&& overflowMask ≠ 0#16)
  let c := decide (statusRegister &&& carryMask ≠ 0#16)
  match condition with
  | .always => true
  | .never => false
  | .hi => !c && !z
  | .ls => c || z
  | .cc => !c
  | .cs => c
  | .ne => !z
  | .eq => z
  | .vc => !v
  | .vs => v
  | .pl => !n
  | .mi => n
  | .ge => n == v
  | .lt => n != v
  | .gt => !z && (n == v)
  | .le => z || (n != v)

end Condition

inductive ShiftRotateKind where
  | lsl | lsr | asl | asr | rol | ror | roxl | roxr
  deriving DecidableEq, Repr

structure ShiftRotateResult where
  result : BitVec 32
  negative : Bool
  zero : Bool
  overflow : Bool := false
  carry : Bool
  extendWritten : Bool := true
  extendValue : Bool := false
  deriving DecidableEq, Repr

namespace ShiftRotate

def widthBits : MemoryAccessWidth → BitVec 32
  | .byte => 8
  | .word => 16
  | .longWord => 32

def mask : MemoryAccessWidth → BitVec 32
  | .byte => 0x000000FF
  | .word => 0x0000FFFF
  | .longWord => 0xFFFFFFFF

def sign : MemoryAccessWidth → BitVec 32
  | .byte => 0x00000080
  | .word => 0x00008000
  | .longWord => 0x80000000

/-- What a kind decides on its own; N and Z follow from the result. -/
structure Shifted where
  result : BitVec 32
  carry : Bool
  extendValue : Bool
  overflow : Bool := false

/-- A bit of `src` as a carry. -/
def bitAt (src n : BitVec 32) : Bool := decide ((src >>> n) &&& 1#32 ≠ 0#32)

def lsl (src count : BitVec 32) (width : MemoryAccessWidth) (originalExtend : Bool) : Shifted :=
  let bits := widthBits width
  if count = 0#32 then { result := src, carry := false, extendValue := originalExtend }
  else if count < bits then
    let carry := bitAt src (bits - count)
    { result := (src <<< count) &&& mask width, carry := carry, extendValue := carry }
  else if count = bits then
    let carry := decide (src &&& 1#32 ≠ 0#32)
    { result := 0#32, carry := carry, extendValue := carry }
  else { result := 0#32, carry := false, extendValue := false }

def lsr (src count : BitVec 32) (width : MemoryAccessWidth) (originalExtend : Bool) : Shifted :=
  let bits := widthBits width
  if count = 0#32 then { result := src, carry := false, extendValue := originalExtend }
  else if count < bits then
    let carry := bitAt src (count - 1#32)
    { result := src >>> count, carry := carry, extendValue := carry }
  else if count = bits then
    let carry := bitAt src (bits - 1#32)
    { result := 0#32, carry := carry, extendValue := carry }
  else { result := 0#32, carry := false, extendValue := false }

def asr (src count : BitVec 32) (width : MemoryAccessWidth) (originalExtend : Bool) : Shifted :=
  let m := mask width
  let negativeSrc := decide (src &&& sign width ≠ 0#32)
  if count = 0#32 then { result := src, carry := false, extendValue := originalExtend }
  else if count < widthBits width then
    let result := src >>> count
    let carry := bitAt src (count - 1#32)
    { result := if negativeSrc then result ||| (m &&& ~~~(m >>> count)) else result
      carry := carry
      extendValue := carry }
  else if negativeSrc then { result := m, carry := true, extendValue := true }
  else { result := 0#32, carry := false, extendValue := false }

/-- V is set unless the top `count + 1` bits are all alike. -/
def asl (src count : BitVec 32) (width : MemoryAccessWidth) (originalExtend : Bool) : Shifted :=
  let bits := widthBits width
  let m := mask width
  if count = 0#32 then { result := src, carry := false, extendValue := originalExtend }
  else if count < bits then
    let carry := bitAt src (bits - count)
    let regionBits := count + 1#32
    let regionMask := if bits ≤ regionBits then m else m &&& ~~~(m >>> regionBits)
    let region := src &&& regionMask
    { result := (src <<< count) &&& m
      carry := carry
      extendValue := carry
      overflow := !(decide (region = 0#32) || decide (region = regionMask)) }
  else if count = bits then
    let carry := decide (src &&& 1#32 ≠ 0#32)
    { result := 0#32, carry := carry, extendValue := carry, overflow := decide (src ≠ 0#32) }
  else
    { result := 0#32, carry := false, extendValue := false, overflow := decide (src ≠ 0#32) }

/-- ROL and ROR; they never write X. -/
def rotate (left : Bool) (src count : BitVec 32) (width : MemoryAccessWidth) : BitVec 32 × Bool :=
  let bits := widthBits width
  if count = 0#32 then (src, false)
  else
    let effective := count &&& (bits - 1#32)
    let result :=
      if effective = 0#32 then src
      else if left then ((src <<< effective) ||| (src >>> (bits - effective))) &&& mask width
      else ((src >>> effective) ||| (src <<< (bits - effective))) &&& mask width
    let carry :=
      if left then decide (result &&& 1#32 ≠ 0#32) else decide (result &&& sign width ≠ 0#32)
    (result, carry)

/-- ROXL and ROXR turn a ring one bit wider than the operand, X on top. -/
def rotateExtended (left : Bool) (src count : BitVec 32) (width : MemoryAccessWidth)
    (originalExtend : Bool) : Shifted :=
  let bits := widthBits width
  let ring := ((flag originalExtend 1#32).setWidth 64 <<< bits) ||| src.setWidth 64
  let ringBits := bits + 1#32
  let ringMask := (1#64 <<< ringBits) - 1#64
  let effective := count % ringBits
  let rotatedRing :=
    if effective = 0#32 then ring
    else if left then ((ring <<< effective) ||| (ring >>> (ringBits - effective))) &&& ringMask
    else ((ring >>> effective) ||| (ring <<< (ringBits - effective))) &&& ringMask
  let newExtend := decide ((rotatedRing >>> bits) &&& 1#64 ≠ 0#64)
  { result := (rotatedRing &&& (mask width).setWidth 64).setWidth 32
    carry := newExtend
    extendValue := newExtend }

def finish (width : MemoryAccessWidth) (s : Shifted) : ShiftRotateResult :=
  { result := s.result
    negative := decide (s.result &&& sign width ≠ 0#32)
    zero := decide (s.result = 0#32)
    overflow := s.overflow
    carry := s.carry
    extendValue := s.extendValue }

def finishRotate (width : MemoryAccessWidth) (r : BitVec 32 × Bool) : ShiftRotateResult :=
  { result := r.1
    negative := decide (r.1 &&& sign width ≠ 0#32)
    zero := decide (r.1 = 0#32)
    carry := r.2
    extendWritten := false }

def evaluate (kind : ShiftRotateKind) (original count : BitVec 32) (width : MemoryAccessWidth)
    (originalExtend : Bool) : ShiftRotateResult :=
  let src := original &&& mask width
  match kind with
  | .lsl => finish width (lsl src count width originalExtend)
  | .lsr => finish width (lsr src count width originalExtend)
  | .asr => finish width (asr src count width originalExtend)
  | .asl => finish width (asl src count width originalExtend)
  | .rol => finishRotate width (rotate true src count width)
  | .ror => finishRotate width (rotate false src count width)
  | .roxl => finish width (rotateExtended true src count width originalExtend)
  | .roxr => finish width (rotateExtended false src count width originalExtend)

def ccr (statusRegister : BitVec 16) (result : ShiftRotateResult) : BitVec 16 :=
  let updated :=
    (statusRegister &&& 0xFFE0#16) ||| flag result.negative 0x08#16 ||| flag result.zero 0x04#16 |||
      flag result.overflow 0x02#16 ||| flag result.carry 0x01#16
  if result.extendWritten then (updated &&& ~~~0x10#16) ||| flag result.extendValue 0x10#16
  else (updated &&& ~~~0x10#16) ||| (statusRegister &&& 0x10#16)

end ShiftRotate

structure DbccDecrementResult where
  updatedRegister : BitVec 32
  expired : Bool
  deriving DecidableEq, Repr

namespace DbccDecrement

abbrev upperWordMask : BitVec 32 := 0xFFFF0000
abbrev lowWordMask : BitVec 32 := 0x0000FFFF
abbrev expiredValue : BitVec 16 := 0xFFFF

def evaluate (original : BitVec 32) : DbccDecrementResult :=
  let low := ((original &&& lowWordMask) - 1#32).setWidth 16
  { updatedRegister := (original &&& upperWordMask) ||| low.setWidth 32
    expired := decide (low = expiredValue) }

end DbccDecrement

end Segarecomp.M68k.Effects

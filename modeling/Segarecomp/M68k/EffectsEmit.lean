import Segarecomp.Lib.CLang
import Segarecomp.M68k.Effects

/-!
# The C the result specifications emit

Each `emitC…` is the text of the source's emitter as a statement; `statusRegister`
is the object the text names, operands are the caller's expressions.
-/

namespace Segarecomp.M68k.Effects

open Lib.CLang

/-- `UINT32_C(x)` or `xU` -/
def u32C (x : BitVec 32) : Expr := .lit (.u32 x)

/-- `UINT64_C(x)` -/
def u64C (x : BitVec 64) : Expr := .lit (.u64 x)

/-- A plain integer constant, which `UINT16_C(x)` is as well. -/
def intC (x : BitVec 32) : Expr := .lit (.i32 x)

def loc (s : String) : Expr := .var (.name s)

def const (ty : CType) (x : Ident) (e : Expr) : Stmt := .declare ty x (some e)

/-- `(e != 0U ? UINT16_C(m) : zero)` -/
def nonzeroFlag (e : Expr) (m : BitVec 32) (zero : Expr) : Expr :=
  .cond (.binop .ne e (u32C 0)) (intC m) zero

/-- `(e == 0U ? UINT16_C(m) : zero)` -/
def zeroFlag (e : Expr) (m : BitVec 32) (zero : Expr) : Expr :=
  .cond (.binop .eq e (u32C 0)) (intC m) zero

section Emit

variable (statusRegister : Ident)

/-- `status = (uint16_t)((status & UINT16_C(preserved)) | flags)` -/
def statusUpdate (preserved : BitVec 32) (flags : Expr → Expr) : Stmt :=
  .assign statusRegister (.cast .u16 (flags (.var statusRegister &&& intC preserved)))

namespace MoveResultCcr

def emitCUpdate (result : Expr) : Stmt :=
  statusUpdate statusRegister (preservedMask.setWidth 32) fun kept =>
    kept ||| .cond (.binop .eq result (u32C 0)) (u32C (zeroMask.setWidth 32))
      (.cond (.binop .ne (result &&& u32C resultNegativeBit) (u32C 0))
        (u32C (negativeMask.setWidth 32)) (u32C 0))

end MoveResultCcr

namespace Subtraction

def maskLiteral (size : MemoryAccessWidth) : Expr :=
  if bits size = 32#32 then u32C 0xFFFFFFFF
  else if bits size = 16#32 then u32C 0x0000FFFF else u32C 0x000000FF

def signLiteral (size : MemoryAccessWidth) : Expr :=
  if bits size = 32#32 then u32C 0x80000000
  else if bits size = 16#32 then u32C 0x00008000 else u32C 0x00000080

def locals : List Ident :=
  [.name "compare_source", .name "compare_destination", .name "compare_result"]

/-- The statements between the braces. -/
def emitCBody (source destination : Expr) (size : MemoryAccessWidth)
    (policy : ExtendFlagPolicy) : Stmt :=
  .all
    [const .u32 (.name "compare_source") (source &&& maskLiteral size),
     const .u32 (.name "compare_destination") (destination &&& maskLiteral size),
     const .u32 (.name "compare_result")
      ((loc "compare_destination" - loc "compare_source") &&& maskLiteral size),
     statusUpdate statusRegister 0xFFE0 fun kept =>
      kept |||
      (match policy with
        | .fromCarry =>
            .cond (.binop .gt (loc "compare_source") (loc "compare_destination"))
              (intC 0x0010) (intC 0)
        | .preserve => .var statusRegister &&& intC 0x0010) |||
      nonzeroFlag (loc "compare_result" &&& signLiteral size) 8 (u32C 0) |||
      zeroFlag (loc "compare_result") 4 (u32C 0) |||
      nonzeroFlag ((loc "compare_destination" ^^^ loc "compare_source") &&&
        (loc "compare_destination" ^^^ loc "compare_result") &&& signLiteral size) 2 (u32C 0) |||
      .cond (.binop .gt (loc "compare_source") (loc "compare_destination"))
        (intC 1) (u32C 0)]

def emitCUpdate (source destination : Expr) (size : MemoryAccessWidth)
    (policy : ExtendFlagPolicy) : Stmt :=
  .block (emitCBody statusRegister source destination size policy)

end Subtraction

namespace Addition

def locals : List Ident :=
  [.name "add_ccr_source", .name "add_ccr_destination", .name "add_ccr_result",
   .name "add_ccr_sum"]

def emitCBody (source destination : Expr) (size : MemoryAccessWidth) : Stmt :=
  .all
    [const .u32 (.name "add_ccr_source") (source &&& u32C (mask size)),
     const .u32 (.name "add_ccr_destination") (destination &&& u32C (mask size)),
     const .u32 (.name "add_ccr_result")
      ((loc "add_ccr_destination" + loc "add_ccr_source") &&& u32C (mask size)),
     const .u64 (.name "add_ccr_sum")
      (.cast .u64 (loc "add_ccr_destination") + loc "add_ccr_source"),
     statusUpdate statusRegister 0xFFE0 fun kept =>
      kept |||
      .cond (.binop .gt (loc "add_ccr_sum") (u32C (mask size))) (intC 0x0011) (intC 0) |||
      nonzeroFlag (loc "add_ccr_result" &&& u32C (sign size)) 8 (u32C 0) |||
      zeroFlag (loc "add_ccr_result") 4 (u32C 0) |||
      nonzeroFlag (~~~(loc "add_ccr_destination" ^^^ loc "add_ccr_source") &&&
        (loc "add_ccr_destination" ^^^ loc "add_ccr_result") &&& u32C (sign size)) 2 (u32C 0)]

def emitCUpdate (source destination : Expr) (size : MemoryAccessWidth) : Stmt :=
  .block (emitCBody statusRegister source destination size)

end Addition

namespace ExtendedArithmetic

def locals : List Ident :=
  [.name "xa_source", .name "xa_destination", .name "xa_extend", .name "xa_result"]

def innerLocals : List Ident := [.name "xa_carry", .name "xa_overflow"]

def emitCCompute (kind : ExtendedArithmeticKind) (source destination : Expr)
    (size : MemoryAccessWidth) : Stmt :=
  .all
    [const .u32 (.name "xa_source") (source &&& u32C (mask size)),
     const .u32 (.name "xa_destination") (destination &&& u32C (mask size)),
     const .u32 (.name "xa_extend") ((.cast .u32 (.var statusRegister) >>> u32C 4) &&& u32C 1),
     const .u32 (.name "xa_result")
      ((match kind with
        | .add => loc "xa_destination" + loc "xa_source" + loc "xa_extend"
        | .subtract => loc "xa_destination" - loc "xa_source" - loc "xa_extend") &&&
        u32C (mask size))]

def carryExpr (kind : ExtendedArithmeticKind) : Expr :=
  let source := loc "xa_source"
  let destination := loc "xa_destination"
  let result := loc "xa_result"
  match kind with
  | .add => (source &&& destination) ||| (~~~result &&& destination) ||| (source &&& ~~~result)
  | .subtract =>
      (source &&& ~~~destination) ||| (result &&& ~~~destination) ||| (source &&& result)

def overflowExpr (kind : ExtendedArithmeticKind) : Expr :=
  let source := loc "xa_source"
  let destination := loc "xa_destination"
  let result := loc "xa_result"
  match kind with
  | .add =>
      (source &&& destination &&& ~~~result) ||| (~~~source &&& ~~~destination &&& result)
  | .subtract =>
      (~~~source &&& destination &&& ~~~result) ||| (source &&& ~~~destination &&& result)

def emitCUpdate (kind : ExtendedArithmeticKind) (size : MemoryAccessWidth) : Stmt :=
  .block (.all
    [const .u32 (.name "xa_carry") (carryExpr kind &&& u32C (sign size)),
     const .u32 (.name "xa_overflow") (overflowExpr kind &&& u32C (sign size)),
     statusUpdate statusRegister 0xFFE0 fun kept =>
      kept |||
      nonzeroFlag (loc "xa_carry") 0x0011 (intC 0) |||
      nonzeroFlag (loc "xa_result" &&& u32C (sign size)) 8 (intC 0) |||
      .cond (.land (.binop .eq (loc "xa_result") (u32C 0))
        (.binop .ne (.var statusRegister &&& intC 4) (u32C 0))) (intC 4) (intC 0) |||
      nonzeroFlag (loc "xa_overflow") 2 (intC 0)])

end ExtendedArithmetic

namespace DecimalArithmetic

def locals : List Ident :=
  [.name "bcd_dst", .name "bcd_extend", .name "bcd_res", .name "bcd_noop", .name "bcd_v0",
   .name "bcd_carry", .name "bcd_negative", .name "bcd_overflow", .name "bcd_clears_zero",
   .name "bcd_result", .name "bcd_src"]

/-- `x op= e` -/
def update (x : String) (op : Expr → Expr → Expr) (e : Expr) : Stmt :=
  .assign (.name x) (op (loc x) e)

def emitCNegate : Stmt :=
  .all
    [const .u32 (.name "bcd_res")
      ((u32C 0x9A - loc "bcd_dst" - loc "bcd_extend") &&& u32C 0xFF),
     const .u32 (.name "bcd_noop") (.binop .eq (loc "bcd_res") (u32C 0x9A)),
     const .u32 (.name "bcd_v0") (u32C 0),
     .ite (.unop .not (loc "bcd_noop"))
      (.all
        [.assign (.name "bcd_v0") (~~~loc "bcd_res"),
         .ite (.binop .eq (loc "bcd_res" &&& u32C 0x0F) (u32C 0x0A))
          (.assign (.name "bcd_res") ((loc "bcd_res" &&& u32C 0xF0) + u32C 0x10)) .skip,
         update "bcd_res" (· &&& ·) (u32C 0xFF)]) .skip,
     const .u32 (.name "bcd_carry") (.cond (loc "bcd_noop") (u32C 0) (u32C 1)),
     const .u32 (.name "bcd_negative") (loc "bcd_res" &&& u32C 0x80),
     const .u32 (.name "bcd_overflow") (loc "bcd_v0" &&& loc "bcd_res" &&& u32C 0x80),
     const .u32 (.name "bcd_clears_zero")
      (.cond (.land (.unop .not (loc "bcd_noop")) (.binop .ne (loc "bcd_res") (u32C 0)))
        (u32C 1) (u32C 0)),
     const .u32 (.name "bcd_result")
      (.cond (loc "bcd_noop") (loc "bcd_dst") (loc "bcd_res"))]

def emitCPair (add : Bool) (source : Expr) : Stmt :=
  let low (x : String) := loc x &&& u32C 0x0F
  let high (x : String) := loc x &&& u32C 0xF0
  .all
    [const .u32 (.name "bcd_src") (source &&& u32C 0xFF),
     const .u32 (.name "bcd_res")
      (if add then low "bcd_src" + low "bcd_dst" + loc "bcd_extend"
        else low "bcd_dst" - low "bcd_src" - loc "bcd_extend"),
     const .u32 (.name "bcd_v0") (~~~loc "bcd_res"),
     .ite (.binop .gt (loc "bcd_res") (u32C 9))
      (if add then update "bcd_res" (· + ·) (u32C 6) else update "bcd_res" (· - ·) (u32C 6)) .skip,
     update "bcd_res" (· + ·)
      (if add then high "bcd_src" + high "bcd_dst" else high "bcd_dst" - high "bcd_src"),
     const .u32 (.name "bcd_carry")
      (.cond (.binop .gt (loc "bcd_res") (u32C 0x99)) (u32C 1) (u32C 0)),
     .ite (.binop .ne (loc "bcd_carry") (u32C 0))
      (if add then update "bcd_res" (· - ·) (u32C 0xA0)
        else update "bcd_res" (· + ·) (u32C 0xA0)) .skip,
     update "bcd_res" (· &&& ·) (u32C 0xFF),
     const .u32 (.name "bcd_negative") (loc "bcd_res" &&& u32C 0x80),
     const .u32 (.name "bcd_overflow") (loc "bcd_v0" &&& loc "bcd_res" &&& u32C 0x80),
     const .u32 (.name "bcd_clears_zero")
      (.cond (.binop .ne (loc "bcd_res") (u32C 0)) (u32C 1) (u32C 0)),
     const .u32 (.name "bcd_result") (loc "bcd_res")]

def emitCCompute (kind : DecimalArithmeticKind) (source destination : Expr) : Stmt :=
  .all
    [const .u32 (.name "bcd_dst") (destination &&& u32C 0xFF),
     const .u32 (.name "bcd_extend") ((.cast .u32 (.var statusRegister) >>> u32C 4) &&& u32C 1),
     match kind with
      | .negate => emitCNegate
      | .add => emitCPair true source
      | .subtract => emitCPair false source]

def emitCUpdate : Stmt :=
  .block (statusUpdate statusRegister 0xFFE0 fun kept =>
    kept |||
    nonzeroFlag (loc "bcd_carry") 0x0011 (intC 0) |||
    nonzeroFlag (loc "bcd_negative") 8 (intC 0) |||
    .cond (.land (.binop .eq (loc "bcd_clears_zero") (u32C 0))
      (.binop .ne (.var statusRegister &&& intC 4) (u32C 0))) (intC 4) (intC 0) |||
    nonzeroFlag (loc "bcd_overflow") 2 (intC 0))

end DecimalArithmetic

namespace Logical

def emitCUpdate (result : Expr) (width : MemoryAccessWidth) : Stmt :=
  statusUpdate statusRegister 0xFFF0 fun kept =>
    kept |||
    nonzeroFlag ((result &&& u32C (mask width)) &&& u32C (sign width)) 8 (intC 0) |||
    zeroFlag (result &&& u32C (mask width)) 4 (intC 0)

end Logical

namespace Multiply

def stem (isSigned : Bool) : String := if isSigned then "muls" else "mulu"

def locals (isSigned : Bool) : List Ident :=
  [.suffixed (stem isSigned) "_source", .suffixed (stem isSigned) "_destination",
   .suffixed (stem isSigned) "_result"]

/-- The product a multiply lowers to; its condition codes are the logical ones. -/
def emitC (isSigned : Bool) (source destination : Expr) : Stmt :=
  let stem := stem isSigned
  let operand (e : Expr) : Expr :=
    if isSigned then .cast .i32 (.cast .i16 e) else .cast .u32 (.cast .u16 e)
  let ty : CType := if isSigned then .i32 else .u32
  .all
    [const ty (.suffixed stem "_source") (operand source),
     const ty (.suffixed stem "_destination") (operand destination),
     const .u32 (.suffixed stem "_result")
      (.cast .u32 (.var (.suffixed stem "_source") * .var (.suffixed stem "_destination"))),
     Logical.emitCUpdate statusRegister (.var (.suffixed stem "_result")) .longWord]

end Multiply

namespace Division

def locals (resultVar : String) : List Ident :=
  [.suffixed resultVar "_dividend", .suffixed resultVar "_divisor", .suffixed resultVar "_q",
   .suffixed resultVar "_r", .suffixed resultVar "_overflow", .name resultVar]

def emitCSigned (dividend divisor : Expr) (resultVar : String) : Stmt :=
  let part (suffix : String) : Ident := .suffixed resultVar suffix
  let value (suffix : String) : Expr := .var (part suffix)
  let wide : Expr := .cast .i64 (.cast .i32 (value "_dividend"))
  .all
    [const .u32 (part "_dividend") (.cast .u32 dividend),
     const .i32 (part "_divisor") (.cast .i32 (.cast .i16 divisor)),
     const .i64 (part "_q") (wide / value "_divisor"),
     const .i64 (part "_r") (wide % value "_divisor"),
     const .i32 (part "_overflow")
      (.lor (.binop .lt (value "_q") (-intC 32768)) (.binop .gt (value "_q") (intC 32767))),
     const .u32 (.name resultVar) (value "_dividend"),
     .ite (.unop .not (value "_overflow"))
      (.assign (.name resultVar)
        (.cast .u32 ((.cast .u32 (.cast .u16 (.cast .i16 (value "_r"))) <<< u32C 16) |||
          .cast .u32 (.cast .u16 (.cast .i16 (value "_q")))))) .skip,
     statusUpdate statusRegister 0xFFF0 fun kept =>
      kept ||| .cond (value "_overflow") (intC 0x0002)
        (.cond (.binop .lt (value "_q") (intC 0)) (intC 0x0008) (intC 0) |||
          .cond (.binop .eq (value "_q") (intC 0)) (intC 0x0004) (intC 0))]

def emitCUnsigned (dividend divisor : Expr) (resultVar : String) : Stmt :=
  let part (suffix : String) : Ident := .suffixed resultVar suffix
  let value (suffix : String) : Expr := .var (part suffix)
  .all
    [const .u32 (part "_dividend") (.cast .u32 dividend),
     const .u32 (part "_divisor") (.cast .u32 (.cast .u16 divisor)),
     const .u32 (part "_q") (value "_dividend" / value "_divisor"),
     const .u32 (part "_r") (value "_dividend" % value "_divisor"),
     const .i32 (part "_overflow") (.binop .gt (value "_q") (u32C 0xFFFF)),
     const .u32 (.name resultVar) (value "_dividend"),
     .ite (.unop .not (value "_overflow"))
      (.assign (.name resultVar)
        (.cast .u32 ((value "_r" <<< u32C 16) ||| (value "_q" &&& u32C 0xFFFF)))) .skip,
     statusUpdate statusRegister 0xFFF0 fun kept =>
      kept ||| .cond (value "_overflow") (intC 0x0002)
        (nonzeroFlag (value "_q" &&& u32C 0x8000) 0x0008 (intC 0) |||
          zeroFlag (value "_q") 0x0004 (intC 0))]

def emitCUpdate (dividend divisor : Expr) (isSigned : Bool) (resultVar : String) : Stmt :=
  if isSigned then emitCSigned statusRegister dividend divisor resultVar
  else emitCUnsigned statusRegister dividend divisor resultVar

end Division

namespace BitOperation

/-- The four names the caller hands in. -/
structure Names where
  bitIndex : String
  bitMask : String
  bitSet : String
  result : String
  deriving DecidableEq, Repr

def Names.locals (names : Names) : List Ident :=
  [.name names.bitIndex, .name names.bitMask, .name names.bitSet, .name names.result]

def emitCUpdate (kind : BitOperationKind) (original bitNumber : Expr)
    (destinationWidth : MemoryAccessWidth) (names : Names) : Stmt :=
  .all
    [const .u32 (.name names.bitIndex) (bitNumber &&& u32C (widthMaskBits destinationWidth)),
     const .u32 (.name names.bitMask) (u32C 1 <<< loc names.bitIndex),
     const .i32 (.name names.bitSet) (.binop .ne (original &&& loc names.bitMask) (u32C 0)),
     const .u32 (.name names.result)
      (match kind with
        | .test => original
        | .change => original ^^^ loc names.bitMask
        | .clear => original &&& ~~~loc names.bitMask
        | .set => original ||| loc names.bitMask)]

end BitOperation

namespace BitTestCcr

def emitCUpdate (bitSet : Expr) : Stmt :=
  statusUpdate statusRegister (preservedMask.setWidth 32) fun kept =>
    kept ||| .cond bitSet (intC 0) (u32C (zeroMask.setWidth 32))

end BitTestCcr

namespace Condition

def cExpr (condition : M68kCondition) : Expr :=
  let test (m : BitVec 32) : Expr := .binop .ne (.var statusRegister &&& intC m) (u32C 0)
  let n := test 0x0008
  let z := test 0x0004
  let v := test 0x0002
  let c := test 0x0001
  match condition with
  | .always => intC 1
  | .never => intC 0
  | .hi => .land (.unop .not c) (.unop .not z)
  | .ls => .lor c z
  | .cc => .unop .not c
  | .cs => c
  | .ne => .unop .not z
  | .eq => z
  | .vc => .unop .not v
  | .vs => v
  | .pl => .unop .not n
  | .mi => n
  | .ge => .binop .eq n v
  | .lt => .binop .ne n v
  | .gt => .land (.unop .not z) (.binop .eq n v)
  | .le => .lor z (.binop .ne n v)

end Condition

namespace ShiftRotate

/-- The six names every kind declares, numbered from `ordinal` on. -/
structure Names where
  count : Ident
  src : Ident
  result : Ident
  carry : Ident
  extend : Ident
  overflow : Ident

def Names.make (ordinal : ℕ) : Names :=
  { count := .numbered "sr_count_" ordinal
    src := .numbered "sr_src_" (ordinal + 1)
    result := .numbered "sr_result_" (ordinal + 2)
    carry := .numbered "sr_carry_" (ordinal + 3)
    extend := .numbered "sr_extend_" (ordinal + 4)
    overflow := .numbered "sr_overflow_" (ordinal + 5) }

/-- Every name the emission declares from `ordinal` on. -/
def locals (ordinal : ℕ) : List Ident :=
  let n := Names.make ordinal
  [n.count, n.src, n.result, n.carry, n.extend, n.overflow, .numbered "sr_neg_" (ordinal + 6),
   .numbered "sr_region_bits_" (ordinal + 6), .numbered "sr_region_mask_" (ordinal + 6),
   .numbered "sr_region_" (ordinal + 6), .numbered "sr_effective_" (ordinal + 6),
   .numbered "sr_ring_" (ordinal + 6), .numbered "sr_rotated_" (ordinal + 7),
   .numbered "sr_effective_" (ordinal + 8)]

/-- `((status & UINT16_C(0x10)) != 0U ? 1 : 0)` -/
def currentX : Expr := nonzeroFlag (.var statusRegister &&& intC 0x10) 1 (intC 0)

/-- `((src >> n) & 1U) != 0U` -/
def bitAtExpr (src n : Expr) : Expr := .binop .ne ((src >>> n) &&& u32C 1) (u32C 0)

variable (n : Names) (width : MemoryAccessWidth)

def emitPrologue (original count : Expr) : Stmt :=
  .all
    [const .u32 n.count count,
     const .u32 n.src (original &&& u32C (mask width)),
     .declare .u32 n.result none,
     .declare .i32 n.carry none,
     .declare .i32 n.extend none,
     const .i32 n.overflow (intC 0)]

/-- The branch for a zero count. -/
def emitUnshifted : Stmt :=
  .all
    [.assign n.result (.var n.src), .assign n.carry (intC 0),
     .assign n.extend (currentX statusRegister)]

/-- A new result whose carry goes to X as well. -/
def emitShifted (result carry : Expr) : Stmt :=
  .all [.assign n.result result, .assign n.carry carry, .assign n.extend (.var n.carry)]

def emitCleared : Stmt :=
  .all [.assign n.result (u32C 0), .assign n.carry (intC 0), .assign n.extend (intC 0)]

/-- The four regions of a count: zero, below the width, the width, above it. -/
def emitRegions (within exact beyond : Stmt) : Stmt :=
  .ite (.binop .eq (.var n.count) (u32C 0)) (emitUnshifted statusRegister n)
    (.ite (.binop .lt (.var n.count) (u32C (widthBits width))) within
      (.ite (.binop .eq (.var n.count) (u32C (widthBits width))) exact beyond))

def emitLsl : Stmt :=
  emitRegions statusRegister n width
    (emitShifted n ((.var n.src <<< .var n.count) &&& u32C (mask width))
      (bitAtExpr (.var n.src) (u32C (widthBits width) - .var n.count)))
    (emitShifted n (u32C 0) (.binop .ne (.var n.src &&& u32C 1) (u32C 0)))
    (emitCleared n)

def emitLsr : Stmt :=
  emitRegions statusRegister n width
    (emitShifted n (.var n.src >>> .var n.count) (bitAtExpr (.var n.src) (.var n.count - u32C 1)))
    (emitShifted n (u32C 0) (bitAtExpr (.var n.src) (u32C (widthBits width) - u32C 1)))
    (emitCleared n)

def emitAsr (negative : Ident) : Stmt :=
  .all
    [const .i32 negative (.binop .ne (.var n.src &&& u32C (sign width)) (u32C 0)),
     .ite (.binop .eq (.var n.count) (u32C 0)) (emitUnshifted statusRegister n)
      (.ite (.binop .lt (.var n.count) (u32C (widthBits width)))
        (.all
          [.assign n.result (.var n.src >>> .var n.count),
           .ite (.var negative)
            (.assign n.result
              (.var n.result ||| (u32C (mask width) &&& ~~~(u32C (mask width) >>> .var n.count))))
            .skip,
           .assign n.carry (bitAtExpr (.var n.src) (.var n.count - u32C 1)),
           .assign n.extend (.var n.carry)])
        (.all
          [.ite (.var negative)
            (.all [.assign n.result (u32C (mask width)), .assign n.carry (intC 1)])
            (.all [.assign n.result (u32C 0), .assign n.carry (intC 0)]),
           .assign n.extend (.var n.carry)]))]

/-- The overflow test over the top `count + 1` bits. -/
def emitRegion (regionBits regionMask region : Ident) : Stmt :=
  .block (.all
    [const .u32 regionBits (.var n.count + u32C 1),
     const .u32 regionMask
      (.cond (.binop .ge (.var regionBits) (u32C (widthBits width))) (u32C (mask width))
        (u32C (mask width) &&& ~~~(u32C (mask width) >>> .var regionBits))),
     const .u32 region (.var n.src &&& .var regionMask),
     .assign n.overflow
      (.unop .not (.lor (.binop .eq (.var region) (u32C 0))
        (.binop .eq (.var region) (.var regionMask))))])

def emitAsl (regionBits regionMask region : Ident) : Stmt :=
  .ite (.binop .eq (.var n.count) (u32C 0))
    (.all [emitUnshifted statusRegister n, .assign n.overflow (intC 0)])
    (.ite (.binop .lt (.var n.count) (u32C (widthBits width)))
      (.all
        [emitShifted n ((.var n.src <<< .var n.count) &&& u32C (mask width))
          (bitAtExpr (.var n.src) (u32C (widthBits width) - .var n.count)),
         emitRegion n width regionBits regionMask region])
      (.ite (.binop .eq (.var n.count) (u32C (widthBits width)))
        (.all
          [emitShifted n (u32C 0) (.binop .ne (.var n.src &&& u32C 1) (u32C 0)),
           .assign n.overflow (.binop .ne (.var n.src) (u32C 0))])
        (.all [emitCleared n, .assign n.overflow (.binop .ne (.var n.src) (u32C 0))])))

def emitRotate (left : Bool) (effective : Ident) : Stmt :=
  let back : Expr := u32C (widthBits width) - .var effective
  .all
    [.assign n.extend (currentX statusRegister),
     .ite (.binop .eq (.var n.count) (u32C 0))
      (.all [.assign n.result (.var n.src), .assign n.carry (intC 0)])
      (.all
        [const .u32 effective (.var n.count &&& (u32C (widthBits width) - u32C 1)),
         .ite (.binop .eq (.var effective) (u32C 0)) (.assign n.result (.var n.src))
          (.assign n.result
            ((if left then (.var n.src <<< .var effective) ||| (.var n.src >>> back)
              else (.var n.src >>> .var effective) ||| (.var n.src <<< back)) &&&
              u32C (mask width))),
         .assign n.carry
          (.binop .ne (.var n.result &&& (if left then u32C 1 else u32C (sign width))) (u32C 0))])]

def emitRotateExtended (left : Bool) (ring rotated effective : Ident) : Stmt :=
  let ringBits := widthBits width + 1#32
  let back : Expr := u32C ringBits - .var effective
  .all
    [const .u64 ring ((.cast .u64 (currentX statusRegister) <<< u32C (widthBits width)) |||
      .cast .u64 (.var n.src)),
     const .u32 effective (.var n.count % u32C ringBits),
     .declare .u64 rotated none,
     .ite (.binop .eq (.var effective) (u32C 0)) (.assign rotated (.var ring))
      (.assign rotated
        ((if left then (.var ring <<< .var effective) ||| (.var ring >>> back)
          else (.var ring >>> .var effective) ||| (.var ring <<< back)) &&&
          ((u64C 1 <<< u32C ringBits) - u32C 1))),
     .assign n.result (.cast .u32 (.var rotated &&& .cast .u64 (u32C (mask width)))),
     .assign n.extend
      (.binop .ne ((.var rotated >>> u32C (widthBits width)) &&& u64C 1) (u32C 0)),
     .assign n.carry (.var n.extend)]

def emitKind (kind : ShiftRotateKind) (ordinal : ℕ) : Stmt :=
  match kind with
  | .lsl => emitLsl statusRegister n width
  | .lsr => emitLsr statusRegister n width
  | .asr => emitAsr statusRegister n width (.numbered "sr_neg_" (ordinal + 6))
  | .asl =>
      emitAsl statusRegister n width (.numbered "sr_region_bits_" (ordinal + 6))
        (.numbered "sr_region_mask_" (ordinal + 6)) (.numbered "sr_region_" (ordinal + 6))
  | .rol => emitRotate statusRegister n width true (.numbered "sr_effective_" (ordinal + 6))
  | .ror => emitRotate statusRegister n width false (.numbered "sr_effective_" (ordinal + 6))
  | .roxl =>
      emitRotateExtended statusRegister n width true (.numbered "sr_ring_" (ordinal + 6))
        (.numbered "sr_rotated_" (ordinal + 7)) (.numbered "sr_effective_" (ordinal + 8))
  | .roxr =>
      emitRotateExtended statusRegister n width false (.numbered "sr_ring_" (ordinal + 6))
        (.numbered "sr_rotated_" (ordinal + 7)) (.numbered "sr_effective_" (ordinal + 8))

def emitStatus : Stmt :=
  statusUpdate statusRegister 0xFFE0 fun kept =>
    kept |||
    .cond (.var n.extend) (intC 0x10) (intC 0) |||
    nonzeroFlag (.var n.result &&& u32C (sign width)) 0x08 (intC 0) |||
    zeroFlag (.var n.result) 0x04 (intC 0) |||
    .cond (.var n.overflow) (intC 0x02) (intC 0) |||
    .cond (.var n.carry) (intC 0x01) (intC 0)

/-- The statements, and the name that holds the result afterwards. -/
def emitCUpdate (kind : ShiftRotateKind) (original count : Expr) (ordinal : ℕ) : Stmt × Ident :=
  let n := Names.make ordinal
  (.all
    [emitPrologue n width original count, emitKind statusRegister n width kind ordinal,
     emitStatus statusRegister n width], n.result)

end ShiftRotate

end Emit

namespace DbccDecrement

/-- The assignment to the register, and the expiry test that follows it. -/
def emitCUpdate (dn : Ident) : Stmt × Expr :=
  (.assign dn ((.var dn &&& u32C 0xFFFF0000) |||
      .cast .u32 (.cast .u16 ((.var dn &&& u32C 0xFFFF) - u32C 1))),
    .binop .eq (.var dn &&& u32C 0xFFFF) (u32C 0xFFFF))

end DbccDecrement

end Segarecomp.M68k.Effects

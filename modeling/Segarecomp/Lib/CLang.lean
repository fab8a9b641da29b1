import Mathlib.Data.BitVec

/-!
# A small C11 core

Fixed-width integers with the integer promotions, the usual arithmetic
conversions and undefined behaviour as `none`; expressions over named objects;
statements with declarations, block scope and calls into the surrounding world.
-/

namespace Segarecomp.Lib.CLang

inductive CType where
  | u8 | u16 | u32 | u64 | i8 | i16 | i32 | i64
  deriving DecidableEq, Repr

inductive Value where
  | u8 (x : BitVec 8)
  | u16 (x : BitVec 16)
  | u32 (x : BitVec 32)
  | u64 (x : BitVec 64)
  | i8 (x : BitVec 8)
  | i16 (x : BitVec 16)
  | i32 (x : BitVec 32)
  | i64 (x : BitVec 64)
  deriving DecidableEq, Repr

namespace Value

def type : Value → CType
  | .u8 _ => .u8
  | .u16 _ => .u16
  | .u32 _ => .u32
  | .u64 _ => .u64
  | .i8 _ => .i8
  | .i16 _ => .i16
  | .i32 _ => .i32
  | .i64 _ => .i64

/-- The value in 64 bits; no type here is wider, so nothing is lost. -/
def wide : Value → BitVec 64
  | .u8 x => x.setWidth 64
  | .u16 x => x.setWidth 64
  | .u32 x => x.setWidth 64
  | .u64 x => x
  | .i8 x => x.signExtend 64
  | .i16 x => x.signExtend 64
  | .i32 x => x.signExtend 64
  | .i64 x => x

/-- The integer a comparison or a logical operator yields. -/
def ofBool (b : Bool) : Value := .i32 (if b then 1#32 else 0#32)

def truthy (v : Value) : Bool := v.wide != 0#64

/-- The value as a shift count; a negative one is huge, hence undefined as well. -/
def count (v : Value) : ℕ := v.wide.toNat

end Value

open Value

/-- Conversion keeps the value modulo the width of the target type. -/
def convert : CType → Value → Value
  | .u8, v => .u8 (v.wide.setWidth 8)
  | .u16, v => .u16 (v.wide.setWidth 16)
  | .u32, v => .u32 (v.wide.setWidth 32)
  | .u64, v => .u64 v.wide
  | .i8, v => .i8 (v.wide.setWidth 8)
  | .i16, v => .i16 (v.wide.setWidth 16)
  | .i32, v => .i32 (v.wide.setWidth 32)
  | .i64, v => .i64 v.wide

/-- Integer promotion: every type below `int` becomes `int`. -/
def promotedType : CType → CType
  | .u32 => .u32
  | .u64 => .u64
  | .i64 => .i64
  | _ => .i32

def promote (v : Value) : Value := convert (promotedType v.type) v

/-- The common type of the usual arithmetic conversions. -/
def common (a b : CType) : CType :=
  match promotedType a, promotedType b with
  | .u64, _ => .u64
  | _, .u64 => .u64
  | .i64, _ => .i64
  | _, .i64 => .i64
  | .u32, _ => .u32
  | _, .u32 => .u32
  | _, _ => .i32

inductive UnOp where
  | neg | complement | not
  deriving DecidableEq, Repr

inductive BinOp where
  | add | sub | mul | div | mod | band | bor | bxor | shl | shr
  | eq | ne | lt | le | gt | ge
  deriving DecidableEq, Repr

@[simp] def unsignedOp {w : ℕ} (make : BitVec w → Value) (x y : BitVec w) : BinOp → Option Value
  | .add => some (make (x + y))
  | .sub => some (make (x - y))
  | .mul => some (make (x * y))
  | .div => if y = 0#w then none else some (make (x / y))
  | .mod => if y = 0#w then none else some (make (x % y))
  | .band => some (make (x &&& y))
  | .bor => some (make (x ||| y))
  | .bxor => some (make (x ^^^ y))
  | .eq => some (ofBool (decide (x = y)))
  | .ne => some (ofBool (decide (x ≠ y)))
  | .lt => some (ofBool (decide (x < y)))
  | .le => some (ofBool (decide (x ≤ y)))
  | .gt => some (ofBool (decide (y < x)))
  | .ge => some (ofBool (decide (y ≤ x)))
  | .shl => none
  | .shr => none

@[simp] def signedOp {w : ℕ} (make : BitVec w → Value) (x y : BitVec w) : BinOp → Option Value
  | .add => if x.saddOverflow y then none else some (make (x + y))
  | .sub => if x.ssubOverflow y then none else some (make (x - y))
  | .mul => if x.smulOverflow y then none else some (make (x * y))
  | .div => if y = 0#w ∨ x.sdivOverflow y then none else some (make (x.sdiv y))
  | .mod => if y = 0#w ∨ x.sdivOverflow y then none else some (make (x.srem y))
  | .band => some (make (x &&& y))
  | .bor => some (make (x ||| y))
  | .bxor => some (make (x ^^^ y))
  | .eq => some (ofBool (decide (x = y)))
  | .ne => some (ofBool (decide (x ≠ y)))
  | .lt => some (ofBool (x.slt y))
  | .le => some (ofBool (x.sle y))
  | .gt => some (ofBool (y.slt x))
  | .ge => some (ofBool (y.sle x))
  | .shl => none
  | .shr => none

/-- A shift has the type of its promoted left operand; a count past the width
is undefined, and so is a signed left shift that loses bits. -/
def shiftLeft (x : Value) (n : ℕ) : Option Value :=
  match x with
  | .u32 x => if n < 32 then some (.u32 (x <<< n)) else none
  | .u64 x => if n < 64 then some (.u64 (x <<< n)) else none
  | .i32 x =>
      if n < 32 ∧ 0 ≤ x.toInt ∧ x.toInt * 2 ^ n < 2 ^ 31 then some (.i32 (x <<< n)) else none
  | .i64 x =>
      if n < 64 ∧ 0 ≤ x.toInt ∧ x.toInt * 2 ^ n < 2 ^ 63 then some (.i64 (x <<< n)) else none
  | _ => none

def shiftRight (x : Value) (n : ℕ) : Option Value :=
  match x with
  | .u32 x => if n < 32 then some (.u32 (x >>> n)) else none
  | .u64 x => if n < 64 then some (.u64 (x >>> n)) else none
  | .i32 x => if n < 32 then some (.i32 (x.sshiftRight n)) else none
  | .i64 x => if n < 64 then some (.i64 (x.sshiftRight n)) else none
  | _ => none

/-- A binary operator on promoted operands. -/
def arith (o : BinOp) : Value → Value → Option Value
  | .u64 x, b => unsignedOp .u64 x b.wide o
  | a, .u64 y => unsignedOp .u64 a.wide y o
  | .i64 x, b => signedOp .i64 x b.wide o
  | a, .i64 y => signedOp .i64 a.wide y o
  | .u32 x, b => unsignedOp .u32 x (b.wide.setWidth 32) o
  | a, .u32 y => unsignedOp .u32 (a.wide.setWidth 32) y o
  | a, b => signedOp .i32 (a.wide.setWidth 32) (b.wide.setWidth 32) o

def binary (o : BinOp) (a b : Value) : Option Value :=
  match o with
  | .shl => shiftLeft (promote a) b.count
  | .shr => shiftRight (promote a) b.count
  | o => arith o (promote a) (promote b)

def complement : Value → Option Value
  | .u32 x => some (.u32 (~~~x))
  | .u64 x => some (.u64 (~~~x))
  | .i32 x => some (.i32 (~~~x))
  | .i64 x => some (.i64 (~~~x))
  | _ => none

def negate : Value → Option Value
  | .u32 x => some (.u32 (-x))
  | .u64 x => some (.u64 (-x))
  | .i32 x => if x.negOverflow then none else some (.i32 (-x))
  | .i64 x => if x.negOverflow then none else some (.i64 (-x))
  | _ => none

def unary (o : UnOp) (a : Value) : Option Value :=
  match o with
  | .not => some (ofBool (!a.truthy))
  | .complement => complement (promote a)
  | .neg => negate (promote a)

def unaryType (o : UnOp) (a : CType) : CType :=
  match o with
  | .not => .i32
  | _ => promotedType a

def binaryType (o : BinOp) (a b : CType) : CType :=
  match o with
  | .shl => promotedType a
  | .shr => promotedType a
  | .eq => .i32
  | .ne => .i32
  | .lt => .i32
  | .le => .i32
  | .gt => .i32
  | .ge => .i32
  | _ => common a b

/-! ## Evaluation on known types -/

section Values

variable (o : BinOp)

@[simp] theorem setWidth_signExtend {w u : ℕ} (x : BitVec w) (h : u ≤ 64) :
    (x.signExtend 64).setWidth u = x.signExtend u := by
  ext i hi
  have h64 : i < 64 := by omega
  simp [BitVec.getElem_signExtend, h64]

@[simp] theorem type_u16 (x : BitVec 16) : (Value.u16 x).type = .u16 := rfl
@[simp] theorem type_u32 (x : BitVec 32) : (Value.u32 x).type = .u32 := rfl
@[simp] theorem type_i32 (x : BitVec 32) : (Value.i32 x).type = .i32 := rfl
@[simp] theorem type_ofBool (b : Bool) : (ofBool b).type = .i32 := rfl

@[simp] theorem wide_u8 (x : BitVec 8) : (Value.u8 x).wide = x.setWidth 64 := rfl
@[simp] theorem wide_u16 (x : BitVec 16) : (Value.u16 x).wide = x.setWidth 64 := rfl
@[simp] theorem wide_u32 (x : BitVec 32) : (Value.u32 x).wide = x.setWidth 64 := rfl
@[simp] theorem wide_u64 (x : BitVec 64) : (Value.u64 x).wide = x := rfl
@[simp] theorem wide_i16 (x : BitVec 16) : (Value.i16 x).wide = x.signExtend 64 := rfl
@[simp] theorem wide_i32 (x : BitVec 32) : (Value.i32 x).wide = x.signExtend 64 := rfl
@[simp] theorem wide_i64 (x : BitVec 64) : (Value.i64 x).wide = x := rfl

@[simp] theorem truthy_ofBool (b : Bool) : (ofBool b).truthy = b := by
  cases b <;> rfl

@[simp] theorem truthy_u32 (x : BitVec 32) : (Value.u32 x).truthy = decide (x ≠ 0#32) := by
  by_cases h : x = 0#32
  · simp [truthy, h]
  · have hw : x.setWidth 64 ≠ 0#64 := by
      intro h0
      apply h
      have := congrArg (BitVec.setWidth 32) h0
      simpa using this
    rw [truthy, wide_u32, decide_eq_true h, bne_iff_ne.mpr hw]

@[simp] theorem convert_i32_ofBool (b : Bool) : convert .i32 (ofBool b) = ofBool b := by
  cases b <;> rfl

@[simp] theorem convert_u32_ofBool (b : Bool) :
    convert .u32 (ofBool b) = .u32 (if b then 1#32 else 0#32) := by
  cases b <;> rfl

@[simp] theorem convert_u64_ofBool (b : Bool) :
    convert .u64 (ofBool b) = .u64 (if b then 1#64 else 0#64) := by
  cases b <;> rfl

theorem convert_u16 (v : Value) : convert .u16 v = .u16 (v.wide.setWidth 16) := rfl
theorem convert_u32 (v : Value) : convert .u32 v = .u32 (v.wide.setWidth 32) := rfl
theorem convert_i16 (v : Value) : convert .i16 v = .i16 (v.wide.setWidth 16) := rfl
theorem convert_i32 (v : Value) : convert .i32 v = .i32 (v.wide.setWidth 32) := rfl
theorem convert_u64 (v : Value) : convert .u64 v = .u64 v.wide := rfl
theorem convert_i64 (v : Value) : convert .i64 v = .i64 v.wide := rfl

@[simp] theorem convert_u16_u16 (x : BitVec 16) :
    convert .u16 (.u16 x) = .u16 x := by
  simp [convert_u16]

@[simp] theorem convert_u16_u32 (x : BitVec 32) :
    convert .u16 (.u32 x) = .u16 (x.setWidth 16) := by
  simp [convert_u16]

@[simp] theorem convert_u16_i16 (x : BitVec 16) :
    convert .u16 (.i16 x) = .u16 x := by
  simp [convert_u16]

@[simp] theorem convert_u16_i32 (x : BitVec 32) :
    convert .u16 (.i32 x) = .u16 (x.setWidth 16) := by
  simp [convert_u16, BitVec.signExtend_eq_setWidth_of_le]

@[simp] theorem convert_u32_u16 (x : BitVec 16) :
    convert .u32 (.u16 x) = .u32 (x.setWidth 32) := by
  simp [convert_u32]

@[simp] theorem convert_u32_u32 (x : BitVec 32) :
    convert .u32 (.u32 x) = .u32 x := by
  simp [convert_u32]

@[simp] theorem convert_u32_i32 (x : BitVec 32) :
    convert .u32 (.i32 x) = .u32 x := by
  simp [convert_u32]

@[simp] theorem convert_u32_u64 (x : BitVec 64) :
    convert .u32 (.u64 x) = .u32 (x.setWidth 32) := by
  simp [convert_u32]

@[simp] theorem convert_u64_u32 (x : BitVec 32) :
    convert .u64 (.u32 x) = .u64 (x.setWidth 64) := by
  simp [convert_u64]

@[simp] theorem convert_u64_u64 (x : BitVec 64) :
    convert .u64 (.u64 x) = .u64 x := by
  simp [convert_u64]

@[simp] theorem convert_i16_u32 (x : BitVec 32) :
    convert .i16 (.u32 x) = .i16 (x.setWidth 16) := by
  simp [convert_i16]

@[simp] theorem convert_i16_i64 (x : BitVec 64) :
    convert .i16 (.i64 x) = .i16 (x.setWidth 16) := by
  simp [convert_i16]

@[simp] theorem convert_i32_i16 (x : BitVec 16) :
    convert .i32 (.i16 x) = .i32 (x.signExtend 32) := by
  simp [convert_i32]

@[simp] theorem convert_i32_u32 (x : BitVec 32) :
    convert .i32 (.u32 x) = .i32 x := by
  simp [convert_i32]

@[simp] theorem convert_i32_i32 (x : BitVec 32) :
    convert .i32 (.i32 x) = .i32 x := by
  simp [convert_i32]

@[simp] theorem convert_i64_i32 (x : BitVec 32) :
    convert .i64 (.i32 x) = .i64 (x.signExtend 64) := by
  simp [convert_i64]

@[simp] theorem convert_i64_i64 (x : BitVec 64) :
    convert .i64 (.i64 x) = .i64 x := by
  simp [convert_i64]

@[simp] theorem promote_u16 (x : BitVec 16) : promote (.u16 x) = .i32 (x.setWidth 32) := by
  change convert .i32 (.u16 x) = _
  simp [convert_i32]

@[simp] theorem promote_u32 (x : BitVec 32) : promote (.u32 x) = .u32 x :=
  convert_u32_u32 x

@[simp] theorem promote_u64 (x : BitVec 64) : promote (.u64 x) = .u64 x := rfl

@[simp] theorem promote_i32 (x : BitVec 32) : promote (.i32 x) = .i32 x :=
  convert_i32_i32 x

@[simp] theorem promote_i64 (x : BitVec 64) : promote (.i64 x) = .i64 x := rfl

@[simp] theorem promote_ofBool (b : Bool) : promote (ofBool b) = ofBool b := by
  cases b <;> rfl

theorem wide_zero (x : BitVec 32) : (x.setWidth 64).setWidth 32 = x := by simp

theorem wide_sign (x : BitVec 32) : (x.signExtend 64).setWidth 32 = x := by simp

@[simp] theorem arith_u32_u32 (x y : BitVec 32) :
    arith o (.u32 x) (.u32 y) = unsignedOp .u32 x y o := by
  change unsignedOp .u32 x ((y.setWidth 64).setWidth 32) o = _
  rw [wide_zero]

@[simp] theorem arith_i32_u32 (x y : BitVec 32) :
    arith o (.i32 x) (.u32 y) = unsignedOp .u32 x y o := by
  change unsignedOp .u32 ((x.signExtend 64).setWidth 32) y o = _
  rw [wide_sign]

@[simp] theorem arith_i32_i32 (x y : BitVec 32) :
    arith o (.i32 x) (.i32 y) = signedOp .i32 x y o := by
  change signedOp .i32 ((x.signExtend 64).setWidth 32) ((y.signExtend 64).setWidth 32) o = _
  rw [wide_sign, wide_sign]

@[simp] theorem arith_u64_u64 (x y : BitVec 64) :
    arith o (.u64 x) (.u64 y) = unsignedOp .u64 x y o := rfl

@[simp] theorem arith_u64_u32 (x : BitVec 64) (y : BitVec 32) :
    arith o (.u64 x) (.u32 y) = unsignedOp .u64 x (y.setWidth 64) o := rfl

@[simp] theorem arith_i64_i32 (x : BitVec 64) (y : BitVec 32) :
    arith o (.i64 x) (.i32 y) = signedOp .i64 x (y.signExtend 64) o := rfl

@[simp] theorem arith_eq_ofBool (a b : Bool) :
    arith .eq (ofBool a) (ofBool b) = some (ofBool (a == b)) := by
  cases a <;> cases b <;> rfl

@[simp] theorem arith_ne_ofBool (a b : Bool) :
    arith .ne (ofBool a) (ofBool b) = some (ofBool (a != b)) := by
  cases a <;> cases b <;> rfl

@[simp] theorem binary_shl (a b : Value) :
    binary .shl a b = shiftLeft (promote a) b.count := rfl

@[simp] theorem binary_shr (a b : Value) :
    binary .shr a b = shiftRight (promote a) b.count := rfl

@[simp] theorem binary_arith (a b : Value) (hl : o ≠ .shl) (hr : o ≠ .shr) :
    binary o a b = arith o (promote a) (promote b) := by
  cases o <;> first | rfl | contradiction

@[simp] theorem count_u32 (x : BitVec 32) : (Value.u32 x).count = x.toNat := by
  have := x.isLt
  simp only [Value.count, wide_u32, BitVec.toNat_setWidth]
  omega

@[simp] theorem shiftLeft_u32 (x : BitVec 32) (n : ℕ) :
    shiftLeft (.u32 x) n = if n < 32 then some (.u32 (x <<< n)) else none := rfl

@[simp] theorem shiftLeft_u64 (x : BitVec 64) (n : ℕ) :
    shiftLeft (.u64 x) n = if n < 64 then some (.u64 (x <<< n)) else none := rfl

@[simp] theorem shiftRight_u32 (x : BitVec 32) (n : ℕ) :
    shiftRight (.u32 x) n = if n < 32 then some (.u32 (x >>> n)) else none := rfl

@[simp] theorem shiftRight_u64 (x : BitVec 64) (n : ℕ) :
    shiftRight (.u64 x) n = if n < 64 then some (.u64 (x >>> n)) else none := rfl

@[simp] theorem unary_not (a : Value) : unary .not a = some (ofBool (!a.truthy)) := rfl

@[simp] theorem unary_neg (a : Value) : unary .neg a = negate (promote a) := rfl

@[simp] theorem negate_i32 (x : BitVec 32) :
    negate (.i32 x) = if x.negOverflow then none else some (.i32 (-x)) := rfl

@[simp] theorem binaryType_bor (a b : CType) : binaryType .bor a b = common a b := rfl

@[simp] theorem binaryType_band (a b : CType) : binaryType .band a b = common a b := rfl

@[simp] theorem binaryType_shr (a b : CType) : binaryType .shr a b = promotedType a := rfl

@[simp] theorem unaryType_complement (a : CType) : unaryType .complement a = promotedType a := rfl

@[simp] theorem promotedType_u32 : promotedType .u32 = .u32 := rfl

@[simp] theorem unary_complement (a : Value) :
    unary .complement a = complement (promote a) := rfl

@[simp] theorem complement_u32 (x : BitVec 32) : complement (.u32 x) = some (.u32 (~~~x)) := rfl

@[simp] theorem common_i32_i32 : common .i32 .i32 = .i32 := rfl
@[simp] theorem common_i32_u32 : common .i32 .u32 = .u32 := rfl
@[simp] theorem common_u32_u32 : common .u32 .u32 = .u32 := rfl

@[simp] theorem ite_u32 (c : Prop) [Decidable c] (x y : BitVec 32) :
    (if c then some (Value.u32 x) else some (.u32 y)) = some (.u32 (if c then x else y)) := by
  split <;> rfl

@[simp] theorem ite_i32 (c : Prop) [Decidable c] (x y : BitVec 32) :
    (if c then some (Value.i32 x) else some (.i32 y)) = some (.i32 (if c then x else y)) := by
  split <;> rfl

@[simp] theorem ite_ofBool (c : Prop) [Decidable c] (x y : Bool) :
    (if c then some (ofBool x) else some (ofBool y)) = some (ofBool (if c then x else y)) := by
  split <;> rfl

end Values

/-! ## Expressions -/

/-- An object's name: a plain one, a numbered temporary, or one built from
another name and a suffix. -/
inductive Ident where
  | name (s : String)
  | numbered (stem : String) (n : ℕ)
  | suffixed (base suffix : String)
  deriving DecidableEq, Repr

inductive Expr where
  | lit (v : Value)
  | var (x : Ident)
  | unop (o : UnOp) (a : Expr)
  | binop (o : BinOp) (a b : Expr)
  | cond (c a b : Expr)
  | land (a b : Expr)
  | lor (a b : Expr)
  | cast (ty : CType) (a : Expr)
  | call (f : String) (a : Expr)
  deriving DecidableEq, Repr

namespace Expr

instance : Add Expr := ⟨.binop .add⟩
instance : Sub Expr := ⟨.binop .sub⟩
instance : Mul Expr := ⟨.binop .mul⟩
instance : Div Expr := ⟨.binop .div⟩
instance : Mod Expr := ⟨.binop .mod⟩
instance : AndOp Expr := ⟨.binop .band⟩
instance : OrOp Expr := ⟨.binop .bor⟩
instance : XorOp Expr := ⟨.binop .bxor⟩
instance : ShiftLeft Expr := ⟨.binop .shl⟩
instance : ShiftRight Expr := ⟨.binop .shr⟩
instance : Complement Expr := ⟨.unop .complement⟩
instance : Neg Expr := ⟨.unop .neg⟩

@[simp] theorem add_def (a b : Expr) : a + b = .binop .add a b := rfl
@[simp] theorem sub_def (a b : Expr) : a - b = .binop .sub a b := rfl
@[simp] theorem mul_def (a b : Expr) : a * b = .binop .mul a b := rfl
@[simp] theorem div_def (a b : Expr) : a / b = .binop .div a b := rfl
@[simp] theorem mod_def (a b : Expr) : a % b = .binop .mod a b := rfl
@[simp] theorem and_def (a b : Expr) : a &&& b = .binop .band a b := rfl
@[simp] theorem or_def (a b : Expr) : a ||| b = .binop .bor a b := rfl
@[simp] theorem xor_def (a b : Expr) : a ^^^ b = .binop .bxor a b := rfl
@[simp] theorem shl_def (a b : Expr) : a <<< b = .binop .shl a b := rfl
@[simp] theorem shr_def (a b : Expr) : a >>> b = .binop .shr a b := rfl
@[simp] theorem compl_def (a : Expr) : ~~~a = .unop .complement a := rfl
@[simp] theorem neg_def (a : Expr) : -a = .unop .neg a := rfl

/-- `x` occurs in the expression. -/
def mentions (x : Ident) : Expr → Prop
  | .lit _ => False
  | .var y => x = y
  | .unop _ a => a.mentions x
  | .binop _ a b => a.mentions x ∨ b.mentions x
  | .cond c a b => c.mentions x ∨ a.mentions x ∨ b.mentions x
  | .land a b => a.mentions x ∨ b.mentions x
  | .lor a b => a.mentions x ∨ b.mentions x
  | .cast _ a => a.mentions x
  | .call _ a => a.mentions x

end Expr

/-- A declared object: not yet given a value, or holding one of its type. -/
inductive Cell where
  | unset (ty : CType)
  | holds (v : Value)
  deriving DecidableEq, Repr

@[simp] def Cell.type : Cell → CType
  | .unset ty => ty
  | .holds v => v.type

@[simp] def Cell.value? : Cell → Option Value
  | .unset _ => none
  | .holds v => some v

/-- The objects in scope, innermost first. -/
abbrev Env := List (Ident × Cell)

namespace Env

@[simp] def find : Env → Ident → Option Cell
  | [], _ => none
  | (y, c) :: env, x => if x = y then some c else find env x

@[simp] def set : Env → Ident → Cell → Env
  | [], _, _ => []
  | (y, c) :: env, x, d => if x = y then (y, d) :: env else (y, c) :: set env x d

@[simp] theorem length_set (env : Env) (x : Ident) (c : Cell) :
    (env.set x c).length = env.length := by
  induction env with
  | nil => rfl
  | cons p env ih =>
      by_cases h : x = p.1
      · simp [set, h]
      · simp [set, h, ih]

theorem find_set_self {env : Env} {x : Ident} {c d : Cell} (h : env.find x = some c) :
    (env.set x d).find x = some d := by
  induction env with
  | nil => cases h
  | cons p env ih =>
      by_cases hx : x = p.1
      · simp [set, hx]
      · simp only [find, if_neg hx] at h
        simp [set, hx, ih h]

theorem find_append_of_some {declared env : Env} {x : Ident} {c : Cell}
    (h : declared.find x = some c) : find (declared ++ env) x = some c := by
  induction declared with
  | nil => cases h
  | cons p declared ih =>
      by_cases hx : x = p.1
      · simpa [hx] using h
      · simp only [find, if_neg hx] at h
        simp [hx, ih h]

theorem find_append_of_none {declared env : Env} {x : Ident} (h : declared.find x = none) :
    find (declared ++ env) x = env.find x := by
  induction declared with
  | nil => rfl
  | cons p declared ih =>
      by_cases hx : x = p.1
      · simp [hx] at h
      · simp only [find, if_neg hx] at h
        simp [hx, ih h]

theorem set_append_of_none {declared env : Env} {x : Ident} {c : Cell}
    (h : declared.find x = none) : set (declared ++ env) x c = declared ++ env.set x c := by
  induction declared with
  | nil => rfl
  | cons p declared ih =>
      by_cases hx : x = p.1
      · simp [hx] at h
      · simp only [find, if_neg hx] at h
        simp [hx, ih h]

end Env

/-- What the code may call: reads without side effects, and actions. -/
structure Externs (W : Type*) where
  resultType : String → CType
  read : String → W → Value → Option Value
  act : String → W → List Value → Option W

section Eval

variable {W : Type*} (ρ : Externs W)

@[simp] def typeOf (env : Env) : Expr → Option CType
  | .lit v => some v.type
  | .var x => (env.find x).map Cell.type
  | .unop o a => (typeOf env a).map (unaryType o)
  | .binop o a b => (typeOf env a).bind fun ta => (typeOf env b).map (binaryType o ta)
  | .cond _ a b => (typeOf env a).bind fun ta => (typeOf env b).map (common ta)
  | .land _ _ => some .i32
  | .lor _ _ => some .i32
  | .cast ty _ => some ty
  | .call f _ => some (ρ.resultType f)

@[simp] def eval (env : Env) (w : W) : Expr → Option Value
  | .lit v => some v
  | .var x => (env.find x).bind Cell.value?
  | .unop o a => (eval env w a).bind (unary o)
  | .binop o a b => (eval env w a).bind fun x => (eval env w b).bind fun y => binary o x y
  | .cond c a b =>
      (eval env w c).bind fun x =>
        (typeOf ρ env a).bind fun ta => (typeOf ρ env b).bind fun tb =>
          if x.truthy then (eval env w a).map (convert (common ta tb))
          else (eval env w b).map (convert (common ta tb))
  | .land a b =>
      (eval env w a).bind fun x =>
        if x.truthy then (eval env w b).map fun y => ofBool y.truthy else some (ofBool false)
  | .lor a b =>
      (eval env w a).bind fun x =>
        if x.truthy then some (ofBool true) else (eval env w b).map fun y => ofBool y.truthy
  | .cast ty a => (eval env w a).map (convert ty)
  | .call f a => (eval env w a).bind fun x => (ρ.read f w x).map (convert (ρ.resultType f))

theorem typeOf_cons {env : Env} {x : Ident} {c : Cell} {e : Expr} (h : ¬ e.mentions x) :
    typeOf ρ ((x, c) :: env) e = typeOf ρ env e := by
  induction e with
  | lit v => rfl
  | var y =>
      have hne : y ≠ x := fun hy => h hy.symm
      simp [hne]
  | unop o a ih => simp [ih h]
  | binop o a b iha ihb =>
      obtain ⟨ha, hb⟩ := not_or.mp h
      simp [iha ha, ihb hb]
  | cond d a b _ iha ihb =>
      obtain ⟨_, hab⟩ := not_or.mp h
      obtain ⟨ha, hb⟩ := not_or.mp hab
      simp [iha ha, ihb hb]
  | land a b _ _ => rfl
  | lor a b _ _ => rfl
  | cast ty a _ => rfl
  | call f a _ => rfl

/-- A declaration does not change what an expression means that does not
mention the declared name. -/
theorem eval_cons {env : Env} {w : W} {x : Ident} {c : Cell} {e : Expr} (h : ¬ e.mentions x) :
    eval ρ ((x, c) :: env) w e = eval ρ env w e := by
  induction e with
  | lit v => rfl
  | var y =>
      have hne : y ≠ x := fun hy => h hy.symm
      simp [hne]
  | unop o a ih => simp [ih h]
  | binop o a b iha ihb =>
      obtain ⟨ha, hb⟩ := not_or.mp h
      simp [iha ha, ihb hb]
  | cond d a b ihd iha ihb =>
      obtain ⟨hd, hab⟩ := not_or.mp h
      obtain ⟨ha, hb⟩ := not_or.mp hab
      simp [ihd hd, iha ha, ihb hb, typeOf_cons ρ ha, typeOf_cons ρ hb]
  | land a b iha ihb =>
      obtain ⟨ha, hb⟩ := not_or.mp h
      simp [iha ha, ihb hb]
  | lor a b iha ihb =>
      obtain ⟨ha, hb⟩ := not_or.mp h
      simp [iha ha, ihb hb]
  | cast ty a ih => simp [ih h]
  | call f a ih => simp [ih h]

end Eval

/-! ## Statements -/

inductive Stmt where
  | skip
  | seq (a b : Stmt)
  | declare (ty : CType) (x : Ident) (init : Option Expr)
  | assign (x : Ident) (e : Expr)
  | ite (c : Expr) (a b : Stmt)
  | block (s : Stmt)
  | act (f : String) (args : List Expr)
  deriving Repr

namespace Stmt

@[simp] def all : List Stmt → Stmt
  | [] => .skip
  | [s] => s
  | s :: rest => .seq s (all rest)

end Stmt

structure State (W : Type*) where
  env : Env
  world : W

section Exec

variable {W : Type*} (ρ : Externs W)

/-- Leaving a block removes what it declared. -/
def State.leave (outer inner : State W) : State W :=
  { inner with env := inner.env.drop (inner.env.length - outer.env.length) }

@[simp] def exec : Stmt → State W → Option (State W)
  | .skip, σ => some σ
  | .seq a b, σ => (exec a σ).bind (exec b)
  | .declare ty x none, σ => some { σ with env := (x, .unset ty) :: σ.env }
  | .declare ty x (some e), σ =>
      (eval ρ σ.env σ.world e).map fun v => { σ with env := (x, .holds (convert ty v)) :: σ.env }
  | .assign x e, σ =>
      (eval ρ σ.env σ.world e).bind fun v =>
        (σ.env.find x).map fun c => { σ with env := σ.env.set x (.holds (convert c.type v)) }
  | .ite c a b, σ =>
      (eval ρ σ.env σ.world c).bind fun v =>
        (if v.truthy then exec a σ else exec b σ).map σ.leave
  | .block s, σ => (exec s σ).map σ.leave
  | .act f args, σ =>
      (args.mapM (eval ρ σ.env σ.world)).bind fun vs =>
        (ρ.act f σ.world vs).map fun w => { σ with world := w }

theorem exec_seq (a b : Stmt) (σ : State W) :
    exec ρ (.seq a b) σ = (exec ρ a σ).bind (exec ρ b) := rfl

theorem State.leave_of_length {outer inner : State W}
    (h : inner.env.length = outer.env.length) : outer.leave inner = inner := by
  simp [State.leave, h]

/-- A branch that declares nothing in the surrounding block runs like its statement. -/
theorem exec_ite {c : Expr} {b : Bool} {s t : Stmt} {σ τ : State W}
    (hc : eval ρ σ.env σ.world c = some (.ofBool b))
    (hs : b = true → exec ρ s σ = some τ) (ht : b = false → exec ρ t σ = some τ)
    (hl : τ.env.length = σ.env.length) : exec ρ (.ite c s t) σ = some τ := by
  cases b
  · simp [hc, ht rfl, State.leave_of_length hl]
  · simp [hc, hs rfl, State.leave_of_length hl]

/-- `s` runs, declares objects that hold `outs`, and leaves `after` below them. -/
def Runs (s : Stmt) (σ : State W) (after : Env) (outs : List (Ident × Value)) : Prop :=
  ∃ declared : Env, (∀ out ∈ outs, declared.find out.1 = some (.holds out.2)) ∧
    exec ρ s σ = some { σ with env := declared ++ after }

variable {ρ} {s : Stmt} {σ : State W} {after : Env} {outs : List (Ident × Value)}

theorem Runs.block (h : Runs ρ s σ after outs) (hl : after.length = σ.env.length) :
    exec ρ (.block s) σ = some { σ with env := after } := by
  obtain ⟨declared, _, hs⟩ := h
  have hd : (declared ++ after).drop ((declared ++ after).length - σ.env.length) = after := by
    rw [List.length_append, hl, Nat.add_sub_cancel, List.drop_left]
  simp only [exec, hs, Option.map_some, State.leave, hd]

end Exec

end Segarecomp.Lib.CLang

import Mathlib.Tactic.Linarith
import Segarecomp.Lib.BitTests
import Segarecomp.M68k.EffectsEmit

/-!
# The emitted arithmetic computes what the host computes

One `exec_…` or `runs_…` lemma per emitter: on operands of known value the
emitted statement ends with the host's status register and the host's result.
-/

namespace Segarecomp.M68k.Effects

open Lib.CLang Lib.BitTests

theorem setWidth_ite {w v : ℕ} (c : Prop) [Decidable c] (x y : BitVec w) :
    (if c then x else y).setWidth v = if c then x.setWidth v else y.setWidth v := by
  split <;> rfl

@[simp] theorem flag_true {w : ℕ} (m : BitVec w) : flag true m = m := rfl

@[simp] theorem flag_false {w : ℕ} (m : BitVec w) : flag false m = 0#w := rfl

@[simp] theorem flag_not {w : ℕ} (b : Bool) (m : BitVec w) :
    flag (!b) m = if b then 0#w else m := by
  cases b <;> rfl

@[simp] theorem flag_decide {w : ℕ} (p : Prop) [Decidable p] (m : BitVec w) :
    flag (decide p) m = if p then m else 0#w := by
  by_cases h : p <;> simp [flag, h]

theorem flag_eq_zero {w : ℕ} {b : Bool} {m : BitVec w} (hm : m ≠ 0#w) :
    flag b m = 0#w ↔ b = false := by
  cases b <;> simp [hm]

theorem mask_bit {w i : ℕ} (x : BitVec w) (hi : i < w) :
    flag (decide (x &&& BitVec.twoPow w i ≠ 0#w)) (BitVec.twoPow w i) =
      x &&& BitVec.twoPow w i := by
  have hne : BitVec.twoPow w i ≠ 0#w := twoPow_ne_zero hi
  rw [BitVec.and_twoPow]
  cases x.getLsbD i
  · simp
  · simp [hne]

theorem extend_bit (status : BitVec 16) :
    (status.setWidth 32 >>> 4) &&& 1#32 = flag (decide (status &&& 0x10#16 ≠ 0#16)) 1#32 := by
  have hx : status &&& 0x10#16 = if status.getLsbD 4 then 0x10#16 else 0#16 :=
    BitVec.and_twoPow status 4
  have hb : (status.setWidth 32 >>> 4).getLsbD 0 = status.getLsbD 4 := by simp
  rw [hx, BitVec.and_one_eq_setWidth_ofBool_getLsbD, hb]
  cases status.getLsbD 4 <;> rfl

/-- A promoted status register has the bits of the status register. -/
theorem status_test (status m : BitVec 16) :
    (status.setWidth 32 &&& m.setWidth 32 = 0#32) ↔ status &&& m = 0#16 := by
  rw [← BitVec.setWidth_and]
  constructor
  · intro h
    have := congrArg (BitVec.setWidth 16) h
    simpa using this
  · intro h
    rw [h]
    rfl

attribute [simp] loc const u32C u64C intC nonzeroFlag zeroFlag statusUpdate

section Arithmetic

variable {W : Type*} {ρ : Externs W} {σ : State W} {sr : Ident} {status : BitVec 16}
variable {source destination : Expr} {s d : BitVec 32} {flags : BitVec 16}

/-- The environment once the status register holds `flags`. -/
def withStatus (σ : State W) (sr : Ident) (flags : BitVec 16) : Env :=
  σ.env.set sr (.holds (.u16 flags))

theorem length_withStatus (flags : BitVec 16) :
    (withStatus σ sr flags).length = σ.env.length := by
  simp [withStatus]

theorem MoveResultCcr.exec_emitCUpdate
    (hsr : σ.env.find sr = some (.holds (.u16 status)))
    (hr : eval ρ σ.env σ.world source = some (.u32 s)) :
    exec ρ (emitCUpdate sr source) σ =
      some { σ with env := withStatus σ sr (apply status s) } := by
  -- The text nests the negative test under the zero test; only one of them can hold.
  by_cases h0 : s = 0#32
  all_goals
    simp [apply, emitCUpdate, preservedMask, zeroMask, negativeMask, resultNegativeBit, hsr, hr,
      withStatus, setWidth_ite, h0]

namespace Subtraction

theorem maskLiteral_eq (size : MemoryAccessWidth) : maskLiteral size = u32C (mask size) := by
  cases size <;> rfl

theorem signLiteral_eq (size : MemoryAccessWidth) : signLiteral size = u32C (sign size) := by
  cases size <;> rfl

def declared (s d : BitVec 32) (width : MemoryAccessWidth) : Env :=
  [(.name "compare_result", .holds (.u32 (evaluate s d width).result)),
   (.name "compare_destination", .holds (.u32 (d &&& mask width))),
   (.name "compare_source", .holds (.u32 (s &&& mask width)))]

theorem runs_emitCBody (width : MemoryAccessWidth) (policy : ExtendFlagPolicy)
    (hsr : σ.env.find sr = some (.holds (.u16 status)))
    (hs : eval ρ σ.env σ.world source = some (.u32 s))
    (hd : eval ρ σ.env σ.world destination = some (.u32 d))
    (hx : sr ∉ locals) (hfresh : ∀ x ∈ locals, ¬ destination.mentions x) :
    Runs ρ (emitCBody sr source destination width policy) σ
      (withStatus σ sr (apply status s d width policy))
      [(.name "compare_result", .u32 (evaluate s d width).result)] := by
  simp only [locals, List.mem_cons, List.not_mem_nil, or_false, not_or, forall_eq_or_imp,
    forall_eq] at hx hfresh
  refine ⟨declared s d width, ?_, ?_⟩
  · simp [declared]
  · cases policy
    all_goals
      simp [emitCBody, maskLiteral_eq, signLiteral_eq, hsr, hs, hd, hx, eval_cons, hfresh,
        withStatus, apply, evaluate, setWidth_ite, declared]

end Subtraction

namespace Addition

def declared (s d : BitVec 32) (width : MemoryAccessWidth) : Env :=
  let source := s &&& mask width
  let destination := d &&& mask width
  [(.name "add_ccr_sum", .holds (.u64 (destination.setWidth 64 + source.setWidth 64))),
   (.name "add_ccr_result", .holds (.u32 (evaluate s d width).result)),
   (.name "add_ccr_destination", .holds (.u32 destination)),
   (.name "add_ccr_source", .holds (.u32 source))]

theorem runs_emitCBody (width : MemoryAccessWidth)
    (hsr : σ.env.find sr = some (.holds (.u16 status)))
    (hs : eval ρ σ.env σ.world source = some (.u32 s))
    (hd : eval ρ σ.env σ.world destination = some (.u32 d))
    (hx : sr ∉ locals) (hfresh : ∀ x ∈ locals, ¬ destination.mentions x) :
    Runs ρ (emitCBody sr source destination width) σ (withStatus σ sr (apply status s d width))
      [(.name "add_ccr_result", .u32 (evaluate s d width).result)] := by
  simp only [locals, List.mem_cons, List.not_mem_nil, or_false, not_or, forall_eq_or_imp,
    forall_eq] at hx hfresh
  refine ⟨declared s d width, ?_, ?_⟩
  · simp [declared, evaluate]
  · simp [emitCBody, hsr, hs, hd, hx, eval_cons, hfresh, withStatus, apply, evaluate,
      setWidth_ite, declared]

end Addition

namespace ExtendedArithmetic

def declared (kind : ExtendedArithmeticKind) (status : BitVec 16) (s d : BitVec 32)
    (width : MemoryAccessWidth) : Env :=
  let extend := decide (status &&& 0x0010#16 ≠ 0#16)
  [(.name "xa_result", .holds (.u32 (evaluate kind s d extend width).result)),
   (.name "xa_extend", .holds (.u32 (flag extend 1#32))),
   (.name "xa_destination", .holds (.u32 (d &&& mask width))),
   (.name "xa_source", .holds (.u32 (s &&& mask width)))]

theorem exec_emitCCompute (kind : ExtendedArithmeticKind) (width : MemoryAccessWidth)
    (hsr : σ.env.find sr = some (.holds (.u16 status)))
    (hs : eval ρ σ.env σ.world source = some (.u32 s))
    (hd : eval ρ σ.env σ.world destination = some (.u32 d))
    (hx : sr ∉ locals) (hfresh : ∀ x ∈ locals, ¬ destination.mentions x) :
    exec ρ (emitCCompute sr kind source destination width) σ =
      some { σ with env := declared kind status s d width ++ σ.env } := by
  simp only [locals, List.mem_cons, List.not_mem_nil, or_false, not_or, forall_eq_or_imp,
    forall_eq] at hx hfresh
  have hb := extend_bit status
  cases kind
  all_goals
    simp only [ne_eq, decide_not, flag_not, decide_eq_true_eq] at hb
    simp [emitCCompute, hsr, hs, hd, hx, eval_cons, hfresh, evaluate, declared, hb]

theorem runs_emitCUpdate (kind : ExtendedArithmeticKind) (width : MemoryAccessWidth)
    (hsr : σ.env.find sr = some (.holds (.u16 status)))
    (hx : sr ∉ locals) (hi : sr ∉ innerLocals) :
    exec ρ (emitCUpdate sr kind width) { σ with env := declared kind status s d width ++ σ.env } =
      some
        { σ with
          env := declared kind status s d width ++
            withStatus σ sr (apply status kind s d width) } := by
  simp only [locals, innerLocals, List.mem_cons, List.not_mem_nil, or_false, not_or] at hx hi
  have h4 : (status.setWidth 32 &&& 4#32 = 0#32) ↔ status &&& 4#16 = 0#16 := status_test status 4#16
  cases kind
  all_goals
    simp [emitCUpdate, h4, flag, hsr, hx, hi, evaluate, declared, apply, State.leave, carryExpr, overflowExpr, withStatus, setWidth_ite]

end ExtendedArithmetic

namespace DecimalArithmetic

/-- The byte sum or difference before the final carry is taken off. -/
def pairSum (add : Bool) (src dst x : BitVec 32) : BitVec 32 :=
  let low :=
    if add then (src &&& 0x0F#32) + (dst &&& 0x0F#32) + x
    else (dst &&& 0x0F#32) - (src &&& 0x0F#32) - x
  let res := if 9#32 < low then (if add then low + 6#32 else low - 6#32) else low
  if add then res + ((src &&& 0xF0#32) + (dst &&& 0xF0#32))
  else res + ((dst &&& 0xF0#32) - (src &&& 0xF0#32))

def pairDeclared (add : Bool) (src dst x : BitVec 32) : Env :=
  let low :=
    if add then (src &&& 0x0F#32) + (dst &&& 0x0F#32) + x
    else (dst &&& 0x0F#32) - (src &&& 0x0F#32) - x
  let sum := pairSum add src dst x
  let carry := decide (0x99#32 < sum)
  let masked :=
    (if carry then (if add then sum - 0xA0#32 else sum + 0xA0#32) else sum) &&& 0xFF#32
  [(.name "bcd_result", .holds (.u32 masked)),
   (.name "bcd_clears_zero", .holds (.u32 (flag (decide (masked ≠ 0#32)) 1#32))),
   (.name "bcd_overflow", .holds (.u32 (~~~low &&& masked &&& 0x80#32))),
   (.name "bcd_negative", .holds (.u32 (masked &&& 0x80#32))),
   (.name "bcd_carry", .holds (.u32 (flag carry 1#32))),
   (.name "bcd_v0", .holds (.u32 (~~~low))),
   (.name "bcd_res", .holds (.u32 masked)),
   (.name "bcd_src", .holds (.u32 src))]

theorem exec_emitCPair (add : Bool) {dst x : BitVec 32}
    (hdst : σ.env.find (.name "bcd_dst") = some (.holds (.u32 dst)))
    (hext : σ.env.find (.name "bcd_extend") = some (.holds (.u32 x)))
    (hs : eval ρ σ.env σ.world source = some (.u32 s)) :
    exec ρ (emitCPair add source) σ =
      some { σ with env := pairDeclared add (s &&& 0xFF#32) dst x ++ σ.env } := by
  cases add
  case true =>
    simp only [emitCPair, update, pairDeclared, pairSum, if_true]
    simp [hs, hdst, hext]
    generalize s &&& 255#32 = src
    generalize (src &&& 15#32) + (dst &&& 15#32) + x = low
    by_cases h9 : 9#32 < low
    · simp [h9, State.leave, hdst]
      by_cases h99 : 153#32 < low + 6#32 + ((src &&& 240#32) + (dst &&& 240#32))
      · simp [h99, State.leave]
      · simp [h99, State.leave]
    · simp [h9, State.leave, hdst]
      by_cases h99 : 153#32 < low + ((src &&& 240#32) + (dst &&& 240#32))
      · simp [h99, State.leave]
      · simp [h99, State.leave]
  case false =>
    simp only [emitCPair, update, pairDeclared, pairSum, Bool.false_eq_true, if_false]
    simp [hs, hdst, hext]
    generalize s &&& 255#32 = src
    generalize (dst &&& 15#32) - (src &&& 15#32) - x = low
    by_cases h9 : 9#32 < low
    · simp [h9, State.leave, hdst]
      by_cases h99 : 153#32 < low - 6#32 + ((dst &&& 240#32) - (src &&& 240#32))
      · simp [h99, State.leave]
      · simp [h99, State.leave]
    · simp [h9, State.leave, hdst]
      by_cases h99 : 153#32 < low + ((dst &&& 240#32) - (src &&& 240#32))
      · simp [h99, State.leave]
      · simp [h99, State.leave]

theorem mask_sign_byte (x : BitVec 32) :
    x &&& 0x80#32 = flag (decide (x &&& 0x80#32 ≠ 0#32)) 0x80#32 :=
  (mask_bit (i := 7) x (by decide)).symm

theorem narrow_byte (x : BitVec 32) :
    ((x &&& 0xFF#32).setWidth 8).setWidth 32 = x &&& 0xFF#32 := by
  apply BitVec.eq_of_toNat_eq
  have h : (x &&& 0xFF#32).toNat < 256 := by
    rw [BitVec.toNat_and]
    exact Nat.lt_of_le_of_lt Nat.and_le_right (by decide)
  simp only [BitVec.toNat_setWidth]
  omega

/-- What the computing half leaves for the updating half. -/
structure Locals (declared : Env) (r : DecimalArithmeticResult) : Prop where
  result : declared.find (.name "bcd_result") = some (.holds (.u32 (r.result.setWidth 32)))
  carry : declared.find (.name "bcd_carry") = some (.holds (.u32 (flag r.carry 1#32)))
  negative : declared.find (.name "bcd_negative") = some (.holds (.u32 (flag r.negative 0x80#32)))
  overflow : declared.find (.name "bcd_overflow") = some (.holds (.u32 (flag r.overflow 0x80#32)))
  clearsZero :
    declared.find (.name "bcd_clears_zero") = some (.holds (.u32 (flag r.clearsZero 1#32)))

def negateDeclared (dst x : BitVec 32) : Env :=
  let res := (0x9A#32 - dst - x) &&& 0xFF#32
  let noop := decide (res = 0x9A#32)
  let adjusted :=
    (if res &&& 0x0F#32 = 0x0A#32 then (res &&& 0xF0#32) + 0x10#32 else res) &&& 0xFF#32
  let last := if noop then res else adjusted
  let v0 := if noop then 0#32 else ~~~res
  [(.name "bcd_result", .holds (.u32 (if noop then dst else last))),
   (.name "bcd_clears_zero", .holds (.u32 (flag (!noop && decide (last ≠ 0#32)) 1#32))),
   (.name "bcd_overflow", .holds (.u32 (v0 &&& last &&& 0x80#32))),
   (.name "bcd_negative", .holds (.u32 (last &&& 0x80#32))),
   (.name "bcd_carry", .holds (.u32 (flag (!noop) 1#32))),
   (.name "bcd_v0", .holds (.u32 v0)),
   (.name "bcd_noop", .holds (.u32 (flag noop 1#32))),
   (.name "bcd_res", .holds (.u32 last))]

theorem exec_emitCNegate {dst x : BitVec 32}
    (hdst : σ.env.find (.name "bcd_dst") = some (.holds (.u32 dst)))
    (hext : σ.env.find (.name "bcd_extend") = some (.holds (.u32 x))) :
    exec ρ emitCNegate σ = some { σ with env := negateDeclared dst x ++ σ.env } := by
  simp only [emitCNegate, update, negateDeclared]
  simp [hdst, hext]
  generalize 154#32 - dst - x &&& 255#32 = res
  by_cases h9a : res = 154#32
  · simp [h9a, State.leave, hdst]
  · by_cases h0a : res &&& 15#32 = 10#32
    · simp [h9a, h0a, State.leave, hdst]
    · simp [h9a, h0a, State.leave, hdst]

/-- Both algorithms end alike: the flags are read off the masked byte. -/
theorem locals_of_masked {masked v0 : BitVec 32} {carry : Bool} {rest : Env}
    (h : (masked.setWidth 8).setWidth 32 = masked) :
    Locals
      ((.name "bcd_result", .holds (.u32 masked)) ::
        (.name "bcd_clears_zero", .holds (.u32 (flag (decide (masked ≠ 0#32)) 1#32))) ::
        (.name "bcd_overflow", .holds (.u32 (v0 &&& masked &&& 0x80#32))) ::
        (.name "bcd_negative", .holds (.u32 (masked &&& 0x80#32))) ::
        (.name "bcd_carry", .holds (.u32 (flag carry 1#32))) :: rest)
      { result := masked.setWidth 8
        carry := carry
        negative := decide (masked &&& 0x80#32 ≠ 0#32)
        overflow := decide (v0 &&& masked &&& 0x80#32 ≠ 0#32)
        clearsZero := decide (masked ≠ 0#32) } where
  result := by rw [h]; rfl
  carry := rfl
  negative := by rw [← mask_sign_byte]; rfl
  overflow := by rw [← mask_sign_byte]; rfl
  clearsZero := rfl

theorem negateDeclared_locals (d x : BitVec 32) (rest : Env) :
    Locals (negateDeclared (d &&& 0xFF#32) x ++ rest) (evaluateNegate d x) := by
  unfold negateDeclared evaluateNegate
  by_cases h9a : 0x9A#32 - (d &&& 0xFF#32) - x &&& 0xFF#32 = 0x9A#32
  · simp only [h9a, if_true, decide_true]
    refine ⟨?_, rfl, rfl, rfl, rfl⟩
    rw [narrow_byte]
    rfl
  · simp only [h9a, if_false, decide_false]
    exact locals_of_masked (narrow_byte _)

theorem pairDeclared_locals (add : Bool) (s d x : BitVec 32) (rest : Env) :
    Locals (pairDeclared add (s &&& 0xFF#32) (d &&& 0xFF#32) x ++ rest)
      (evaluatePair add s d x) := by
  unfold pairDeclared evaluatePair pairSum
  cases add
  case true =>
    simp only [if_true, BitVec.add_assoc]
    exact locals_of_masked (narrow_byte _)
  case false =>
    have hsub : ∀ a b c : BitVec 32, a + b - c = a + (b - c) := by
      intro a b c
      rw [BitVec.sub_eq_add_neg, BitVec.sub_eq_add_neg, BitVec.add_assoc]
    simp only [Bool.false_eq_true, if_false, hsub]
    exact locals_of_masked (narrow_byte _)

theorem exec_emitCCompute (kind : DecimalArithmeticKind)
    (hsr : σ.env.find sr = some (.holds (.u16 status)))
    (hs : eval ρ σ.env σ.world source = some (.u32 s))
    (hd : eval ρ σ.env σ.world destination = some (.u32 d))
    (hx : sr ∉ locals) (hfresh : ∀ x ∈ locals, ¬ source.mentions x) :
    ∃ declared : Env,
      Locals declared (evaluate kind s d (decide (status &&& 0x0010#16 ≠ 0#16))) ∧
        declared.find sr = none ∧
        exec ρ (emitCCompute sr kind source destination) σ =
          some { σ with env := declared ++ σ.env } := by
  simp only [locals, List.mem_cons, List.not_mem_nil, or_false, not_or, forall_eq_or_imp,
    forall_eq] at hx hfresh
  obtain ⟨hdst, hext, hres, hnoop, hv0, hcarry, hneg, hover, hclears, hresult, hsrc⟩ := hx
  let x := flag (decide (status &&& 0x0010#16 ≠ 0#16)) 1#32
  let σ₂ : State W :=
    { σ with
      env := (.name "bcd_extend", .holds (.u32 x)) ::
        (.name "bcd_dst", .holds (.u32 (d &&& 0xFF#32))) :: σ.env }
  have hdeclared : ∀ rest : Stmt, exec ρ
      (.all
        [.declare .u32 (.name "bcd_dst") (some (destination &&& u32C 0xFF)),
         .declare .u32 (.name "bcd_extend")
          (some ((.cast .u32 (.var sr) >>> u32C 4) &&& u32C 1)), rest]) σ = exec ρ rest σ₂ := by
    intro rest
    have hb := extend_bit status
    simp only [ne_eq, decide_not, flag_not, decide_eq_true_eq] at hb
    simp [hd, hsr, hdst, hb, σ₂, x]
  have hs₂ : eval ρ σ₂.env σ₂.world source = some (.u32 s) := by
    simp only [σ₂]
    rw [eval_cons ρ hfresh.2.1, eval_cons ρ hfresh.1, hs]
  have hdst₂ : σ₂.env.find (.name "bcd_dst") = some (.holds (.u32 (d &&& 0xFF#32))) := by
    simp [σ₂]
  have hext₂ : σ₂.env.find (.name "bcd_extend") = some (.holds (.u32 x)) := by
    simp [σ₂]
  let tail : Env :=
    [(.name "bcd_extend", .holds (.u32 x)), (.name "bcd_dst", .holds (.u32 (d &&& 0xFF#32)))]
  have hpair : ∀ add : Bool,
      (pairDeclared add (s &&& 0xFF#32) (d &&& 0xFF#32) x ++ tail).find sr = none := by
    intro add
    simp [pairDeclared, tail, *]
  have hnegate : (negateDeclared (d &&& 0xFF#32) x ++ tail).find sr = none := by
    simp [negateDeclared, tail, *]
  cases kind
  case negate =>
    refine ⟨negateDeclared (d &&& 0xFF#32) x ++ tail, negateDeclared_locals d x tail, hnegate, ?_⟩
    rw [emitCCompute, const, const, hdeclared, exec_emitCNegate hdst₂ hext₂]
    simp [σ₂, tail]
  case add =>
    refine ⟨pairDeclared true (s &&& 0xFF#32) (d &&& 0xFF#32) x ++ tail,
      pairDeclared_locals true s d x tail, hpair true, ?_⟩
    rw [emitCCompute, const, const, hdeclared, exec_emitCPair true hdst₂ hext₂ hs₂]
    simp [σ₂, tail]
  case subtract =>
    refine ⟨pairDeclared false (s &&& 0xFF#32) (d &&& 0xFF#32) x ++ tail,
      pairDeclared_locals false s d x tail, hpair false, ?_⟩
    rw [emitCCompute, const, const, hdeclared, exec_emitCPair false hdst₂ hext₂ hs₂]
    simp [σ₂, tail]

theorem exec_emitCUpdate {declared : Env} (kind : DecimalArithmeticKind)
    (hsr : σ.env.find sr = some (.holds (.u16 status)))
    (hl : Locals declared (evaluate kind s d (decide (status &&& 0x0010#16 ≠ 0#16))))
    (hn : declared.find sr = none) :
    exec ρ (emitCUpdate sr) { σ with env := declared ++ σ.env } =
      some { σ with env := declared ++ withStatus σ sr (apply status kind s d) } := by
  have h4 : (status.setWidth 32 &&& 4#32 = 0#32) ↔ status &&& 4#16 = 0#16 :=
    status_test status 4#16
  have hfind : (declared ++ σ.env).find sr = some (.holds (.u16 status)) := by
    rw [Env.find_append_of_none hn, hsr]
  have hcarry : (declared ++ σ.env).find (.name "bcd_carry") = _ :=
    Env.find_append_of_some hl.carry
  have hnegative : (declared ++ σ.env).find (.name "bcd_negative") = _ :=
    Env.find_append_of_some hl.negative
  have hoverflow : (declared ++ σ.env).find (.name "bcd_overflow") = _ :=
    Env.find_append_of_some hl.overflow
  have hclears : (declared ++ σ.env).find (.name "bcd_clears_zero") = _ :=
    Env.find_append_of_some hl.clearsZero
  simp only [apply]
  revert hcarry hnegative hoverflow hclears
  generalize evaluate kind s d (decide (status &&& 0x0010#16 ≠ 0#16)) = r
  intro hcarry hnegative hoverflow hclears
  simp [emitCUpdate, hfind, hcarry, hnegative, hoverflow, hclears, flag_eq_zero,
    Env.set_append_of_none hn, State.leave, withStatus, setWidth_ite, h4]
  simp [flag]

end DecimalArithmetic

theorem Logical.exec_emitCUpdate (width : MemoryAccessWidth)
    (hsr : σ.env.find sr = some (.holds (.u16 status)))
    (hr : eval ρ σ.env σ.world source = some (.u32 s)) :
    exec ρ (emitCUpdate sr source width) σ =
      some { σ with env := withStatus σ sr (apply status s width) } := by
  simp [emitCUpdate, hsr, hr, withStatus, apply, evaluate, setWidth_ite]

namespace Multiply

/-- The product of the two word operands. -/
def product (isSigned : Bool) (s d : BitVec 32) : BitVec 32 :=
  if isSigned then (s.setWidth 16).signExtend 32 * (d.setWidth 16).signExtend 32
  else (s.setWidth 16).setWidth 32 * (d.setWidth 16).setWidth 32

theorem smulOverflow_words (x y : BitVec 16) :
    (x.signExtend 32).smulOverflow (y.signExtend 32) = false := by
  have hsx : (x.signExtend 32).toInt = x.toInt := BitVec.toInt_signExtend_of_le (by decide)
  have hsy : (y.signExtend 32).toInt = y.toInt := BitVec.toInt_signExtend_of_le (by decide)
  have hx : -2 ^ 15 ≤ x.toInt ∧ x.toInt < 2 ^ 15 := ⟨BitVec.le_toInt x, BitVec.toInt_lt⟩
  have hy : -2 ^ 15 ≤ y.toInt ∧ y.toInt < 2 ^ 15 := ⟨BitVec.le_toInt y, BitVec.toInt_lt⟩
  have hlow : -2 ^ 31 ≤ x.toInt * y.toInt := by nlinarith
  have hhigh : x.toInt * y.toInt < 2 ^ 31 := by nlinarith
  simp only [BitVec.smulOverflow, hsx, hsy]
  simp
  omega

def declared (isSigned : Bool) (s d : BitVec 32) : Env :=
  let operand (x : BitVec 32) : Value :=
    if isSigned then .i32 ((x.setWidth 16).signExtend 32) else .u32 ((x.setWidth 16).setWidth 32)
  [(.suffixed (stem isSigned) "_result", .holds (.u32 (product isSigned s d))),
   (.suffixed (stem isSigned) "_destination", .holds (operand d)),
   (.suffixed (stem isSigned) "_source", .holds (operand s))]

theorem runs_emitC (isSigned : Bool)
    (hsr : σ.env.find sr = some (.holds (.u16 status)))
    (hs : eval ρ σ.env σ.world source = some (.u32 s))
    (hd : eval ρ σ.env σ.world destination = some (.u32 d))
    (hx : sr ∉ locals isSigned) (hfresh : ∀ x ∈ locals isSigned, ¬ destination.mentions x) :
    Runs ρ (emitC sr isSigned source destination) σ
      (withStatus σ sr (Logical.apply status (product isSigned s d) .longWord))
      [(.suffixed (stem isSigned) "_result", .u32 (product isSigned s d))] := by
  simp only [locals, List.mem_cons, List.not_mem_nil, or_false, not_or, forall_eq_or_imp,
    forall_eq] at hx hfresh
  refine ⟨declared isSigned s d, ?_, ?_⟩
  · simp [declared]
  · cases isSigned
    all_goals
      simp [emitC, Logical.emitCUpdate, hsr, hs, hd, hx, eval_cons, hfresh, declared, product,
        withStatus, Logical.apply, Logical.evaluate, setWidth_ite, smulOverflow_words]

end Multiply

namespace Division

theorem signExtend_twice (x : BitVec 16) :
    (x.signExtend 32).signExtend 64 = x.signExtend 64 := by
  apply BitVec.eq_of_toInt_eq
  rw [BitVec.toInt_signExtend_of_le (by decide), BitVec.toInt_signExtend_of_le (by decide),
    BitVec.toInt_signExtend_of_le (by decide)]

theorem signExtend_ne_zero {x : BitVec 16} (h : x ≠ 0#16) : x.signExtend 64 ≠ 0#64 := by
  intro h0
  apply h
  apply BitVec.eq_of_toInt_eq
  have hx : (x.signExtend 64).toInt = x.toInt := BitVec.toInt_signExtend_of_le (by decide)
  rw [← hx, h0]
  rfl

theorem setWidth_ne_zero {x : BitVec 16} (h : x ≠ 0#16) : x.setWidth 32 ≠ 0#32 := by
  intro h0
  apply h
  have := congrArg (BitVec.setWidth 16) h0
  simpa using this

/-- A dividend of 32 bits is never the least 64-bit integer. -/
theorem sdivOverflow_words (x : BitVec 32) (y : BitVec 64) :
    (x.signExtend 64).sdivOverflow y = false := by
  have hx : (x.signExtend 64).toInt = x.toInt := BitVec.toInt_signExtend_of_le (by decide)
  have hlow : -2 ^ 31 ≤ x.toInt := BitVec.le_toInt x
  have hhigh : x.toInt < 2 ^ 31 := BitVec.toInt_lt
  have habs : |x.toInt / y.toInt| ≤ |x.toInt| := Int.abs_ediv_le_abs _ _
  have hquot := abs_le.mp (le_trans habs (abs_le.mpr ⟨hlow, le_of_lt hhigh⟩))
  simp [BitVec.sdivOverflow, hx]
  omega

def signedDeclared (resultVar : String) (d : BitVec 32) (y : BitVec 16) (r : DivisionResult) :
    Env :=
  [(.name resultVar, .holds (.u32 r.result)),
   (.suffixed resultVar "_overflow", .holds (.ofBool r.overflow)),
   (.suffixed resultVar "_r", .holds (.i64 ((d.signExtend 64).srem (y.signExtend 64)))),
   (.suffixed resultVar "_q", .holds (.i64 ((d.signExtend 64).sdiv (y.signExtend 64)))),
   (.suffixed resultVar "_divisor", .holds (.i32 (y.signExtend 32))),
   (.suffixed resultVar "_dividend", .holds (.u32 d))]

theorem runs_emitCSigned (resultVar : String) {r : DivisionResult}
    (hsr : σ.env.find sr = some (.holds (.u16 status)))
    (hd : eval ρ σ.env σ.world destination = some (.u32 d))
    (hs : eval ρ σ.env σ.world source = some (.u32 s))
    (hx : sr ∉ locals resultVar) (hfresh : ∀ x ∈ locals resultVar, ¬ source.mentions x)
    (hr : evaluate d (s.setWidth 16) true = some r) :
    Runs ρ (emitCSigned sr destination source resultVar) σ (withStatus σ sr (ccr status r))
      [(.name resultVar, .u32 r.result),
       (.suffixed resultVar "_overflow", .ofBool r.overflow)] := by
  simp only [locals, List.mem_cons, List.not_mem_nil, or_false, not_or, forall_eq_or_imp,
    forall_eq] at hx hfresh
  refine ⟨signedDeclared resultVar d (s.setWidth 16) r, by simp [signedDeclared], ?_⟩
  simp only [evaluate] at hr
  by_cases h0 : s.setWidth 16 = 0#16
  · simp [h0] at hr
  have h64 := signExtend_ne_zero h0
  simp only [h0, if_false, if_true] at hr
  simp [emitCSigned, hd, hs, eval_cons, hfresh, signExtend_twice, sdivOverflow_words, h64, signedDeclared]
  generalize (d.signExtend 64).sdiv ((s.setWidth 16).signExtend 64) = q at hr ⊢
  generalize (d.signExtend 64).srem ((s.setWidth 16).signExtend 64) = m at hr ⊢
  have hneg : (32768#32).negOverflow = false := rfl
  by_cases hlow : q.slt 0xFFFFFFFFFFFF8000#64
  · simp [hlow] at hr
    subst hr
    simp [hneg, hlow, hsr, hx, State.leave, withStatus, ccr]
  · by_cases hhigh : (32767#64).slt q
    · simp [hhigh] at hr
      subst hr
      simp [hneg, hlow, hhigh, hsr, hx, State.leave, withStatus, ccr]
    · simp [hlow, hhigh] at hr
      subst hr
      simp [hneg, hlow, hhigh, hsr, hx, State.leave, withStatus, ccr, flag]

def unsignedDeclared (resultVar : String) (d : BitVec 32) (y : BitVec 16) (r : DivisionResult) :
    Env :=
  [(.name resultVar, .holds (.u32 r.result)),
   (.suffixed resultVar "_overflow", .holds (.ofBool r.overflow)),
   (.suffixed resultVar "_r", .holds (.u32 (d % y.setWidth 32))),
   (.suffixed resultVar "_q", .holds (.u32 (d / y.setWidth 32))),
   (.suffixed resultVar "_divisor", .holds (.u32 (y.setWidth 32))),
   (.suffixed resultVar "_dividend", .holds (.u32 d))]

theorem runs_emitCUnsigned (resultVar : String) {r : DivisionResult}
    (hsr : σ.env.find sr = some (.holds (.u16 status)))
    (hd : eval ρ σ.env σ.world destination = some (.u32 d))
    (hs : eval ρ σ.env σ.world source = some (.u32 s))
    (hx : sr ∉ locals resultVar) (hfresh : ∀ x ∈ locals resultVar, ¬ source.mentions x)
    (hr : evaluate d (s.setWidth 16) false = some r) :
    Runs ρ (emitCUnsigned sr destination source resultVar) σ (withStatus σ sr (ccr status r))
      [(.name resultVar, .u32 r.result),
       (.suffixed resultVar "_overflow", .ofBool r.overflow)] := by
  simp only [locals, List.mem_cons, List.not_mem_nil, or_false, not_or, forall_eq_or_imp,
    forall_eq] at hx hfresh
  refine ⟨unsignedDeclared resultVar d (s.setWidth 16) r, by simp [unsignedDeclared], ?_⟩
  simp only [evaluate] at hr
  by_cases h0 : s.setWidth 16 = 0#16
  · simp [h0] at hr
  have h32 := setWidth_ne_zero h0
  simp only [h0, if_false, Bool.false_eq_true] at hr
  simp [emitCUnsigned, hd, hs, eval_cons, hfresh, h32, unsignedDeclared]
  generalize d / (s.setWidth 16).setWidth 32 = q at hr ⊢
  generalize d % (s.setWidth 16).setWidth 32 = m at hr ⊢
  by_cases hhigh : 0xFFFF#32 < q
  · have hle : ¬ q ≤ 0xFFFF#32 := BitVec.not_le.mpr hhigh
    simp [hhigh] at hr
    subst hr
    simp [hhigh, hle, hsr, hx, State.leave, withStatus, ccr]
  · have hle : q ≤ 0xFFFF#32 := BitVec.not_lt.mp hhigh
    simp [hhigh] at hr
    subst hr
    simp [hhigh, hle, hsr, hx, State.leave, withStatus, ccr]

theorem exec_emitCUpdate_zero (isSigned : Bool) (resultVar : String)
    (hd : eval ρ σ.env σ.world destination = some (.u32 d))
    (hs : eval ρ σ.env σ.world source = some (.u32 s))
    (hfresh : ∀ x ∈ locals resultVar, ¬ source.mentions x)
    (hr : evaluate d (s.setWidth 16) isSigned = none) :
    exec ρ (emitCUpdate sr destination source isSigned resultVar) σ = none := by
  simp only [locals, List.mem_cons, List.not_mem_nil, or_false, forall_eq_or_imp,
    forall_eq] at hfresh
  have h0 : s.setWidth 16 = 0#16 := by
    simp only [evaluate] at hr
    split at hr
    · assumption
    · split at hr
      · split at hr <;> cases hr
      · split at hr <;> cases hr
  cases isSigned
  all_goals
    simp [emitCUpdate, emitCSigned, emitCUnsigned, hd, hs, eval_cons, hfresh, h0]

end Division

theorem BitOperation.runs_emitCUpdate (kind : BitOperationKind) (width : MemoryAccessWidth)
    (names : Names) (hnames : names.locals.Nodup)
    (ho : eval ρ σ.env σ.world source = some (.u32 s))
    (hn : eval ρ σ.env σ.world destination = some (.u32 d))
    (hfresh : ∀ x ∈ names.locals, ¬ source.mentions x) :
    Runs ρ (emitCUpdate kind source destination width names) σ σ.env
      [(.name names.bitSet, .ofBool (evaluate kind s d width).originalBitSet),
       (.name names.result, .u32 (evaluate kind s d width).result)] := by
  obtain ⟨index, mask, set, result⟩ := names
  simp [Names.locals] at hnames hfresh
  have hcount : d.toNat &&& (widthMaskBits width).toNat < 32 := by
    apply Nat.lt_of_le_of_lt Nat.and_le_right
    cases width <;> decide
  refine ⟨[(.name result, .holds (.u32 (evaluate kind s d width).result)),
    (.name set, .holds (.ofBool (evaluate kind s d width).originalBitSet)),
    (.name mask, .holds (.u32 (1#32 <<< (d &&& widthMaskBits width)))),
    (.name index, .holds (.u32 (d &&& widthMaskBits width)))], ?_, ?_⟩
  · simp [hnames]
  · cases kind
    all_goals
      simp [emitCUpdate, evaluate, ho, hn, hcount, hnames, eval_cons, hfresh]
    

theorem BitTestCcr.exec_emitCUpdate {bitSet : Bool}
    (hsr : σ.env.find sr = some (.holds (.u16 status)))
    (hb : eval ρ σ.env σ.world source = some (.ofBool bitSet)) :
    exec ρ (emitCUpdate sr source) σ =
      some { σ with env := withStatus σ sr (apply status bitSet) } := by
  simp [emitCUpdate, hsr, hb, withStatus, apply, setWidth_ite, preservedMask, zeroMask]

theorem Condition.eval_cExpr (condition : M68kCondition)
    (hsr : σ.env.find sr = some (.holds (.u16 status))) :
    eval ρ σ.env σ.world (cExpr sr condition) = some (.ofBool (evaluate condition status)) := by
  have test : ∀ m : BitVec 16, (status.setWidth 32 &&& m.setWidth 32 = 0#32) ↔ status &&& m = 0#16 :=
    status_test status
  have h8 := test 8#16
  have h4 := test 4#16
  have h2 := test 2#16
  have h1 := test 1#16
  simp only [BitVec.reduceSetWidth] at h8 h4 h2 h1
  cases condition
  case always => rfl
  case never => rfl
  all_goals
    by_cases hz : status &&& 4#16 = 0#16
  all_goals
    simp [cExpr, evaluate, hsr, h8, h4, h2, h1, hz]

namespace DbccDecrement

theorem exec_emitCUpdate {dn : Ident} {original : BitVec 32}
    (hdn : σ.env.find dn = some (.holds (.u32 original))) :
    exec ρ (emitCUpdate dn).1 σ =
      some { σ with env := σ.env.set dn (.holds (.u32 (evaluate original).updatedRegister)) } := by
  simp [emitCUpdate, hdn, evaluate]

theorem low_word (original : BitVec 32) (low : BitVec 16) :
    ((original &&& 0xFFFF0000#32) ||| low.setWidth 32) &&& 0xFFFF#32 = low.setWidth 32 := by
  have hhigh : original &&& 0xFFFF0000#32 &&& 0xFFFF#32 = 0#32 := by
    rw [BitVec.and_assoc]
    simp
  have hlow : low.setWidth 32 &&& 0xFFFF#32 = low.setWidth 32 := by
    have : low &&& 0xFFFF#16 = low := BitVec.and_allOnes
    calc
      low.setWidth 32 &&& 0xFFFF#32 = (low &&& 0xFFFF#16).setWidth 32 := by
        rw [BitVec.setWidth_and]
        rfl
      _ = low.setWidth 32 := by rw [this]
  rw [BitVec.and_comm, BitVec.and_or_distrib_left, BitVec.and_comm, hhigh, BitVec.and_comm, hlow,
    BitVec.zero_or]

theorem eval_expired {dn : Ident} {original : BitVec 32}
    (hdn : σ.env.find dn = some (.holds (.u32 original))) :
    eval ρ (σ.env.set dn (.holds (.u32 (evaluate original).updatedRegister))) σ.world
        (emitCUpdate dn).2 = some (.ofBool (evaluate original).expired) := by
  simp [emitCUpdate, evaluate, Env.find_set_self hdn]
  rw [low_word]
  have hiff : ∀ low : BitVec 16, low.setWidth 32 = 0xFFFF#32 ↔ low = 0xFFFF#16 := by
    intro low
    constructor
    · intro h
      have := congrArg (BitVec.setWidth 16) h
      simpa using this
    · intro h
      rw [h]
      rfl
  simp [hiff]

end DbccDecrement

end Arithmetic

end Segarecomp.M68k.Effects

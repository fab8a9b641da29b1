import Segarecomp.M68k.EffectsShift

/-!
# One function, written twice

`Agrees` collects, specification by specification, that the emitted text computes
the host's result and the host's status register.
-/

namespace Segarecomp.M68k.Effects

open Lib.CLang

section Agreement

variable {W : Type*} (ρ : Externs W) (σ : State W) (sr : Ident)

/-- The operand text denotes `v` where the emitted statement starts. -/
def Denotes (e : Expr) (v : BitVec 32) : Prop :=
  eval ρ σ.env σ.world e = some (.u32 v)

/-- The statement changes the status register to `flags` and nothing else. -/
def Updates (s : Stmt) (flags : BitVec 16) : Prop :=
  exec ρ s σ = some { σ with env := withStatus σ sr flags }

/-- None of the names captures the status register or a name of the operand. -/
structure Clear (names : List Ident) (sr : Ident) (operand : Expr) : Prop where
  status : sr ∉ names
  operand : ∀ x ∈ names, ¬ operand.mentions x

/-- The emitted C of every result specification and its host evaluator are the
same function of the operands and of the incoming status register. -/
structure Agrees (status : BitVec 16) : Prop where
  moveResultCcr : ∀ {result : Expr} {r : BitVec 32}, Denotes ρ σ result r →
    Updates ρ σ sr (MoveResultCcr.emitCUpdate sr result) (MoveResultCcr.apply status r)
  subtraction : ∀ {source destination : Expr} {s d : BitVec 32} (width : MemoryAccessWidth)
    (policy : ExtendFlagPolicy), Denotes ρ σ source s → Denotes ρ σ destination d →
    Clear Subtraction.locals sr destination →
    Runs ρ (Subtraction.emitCBody sr source destination width policy) σ
        (withStatus σ sr (Subtraction.apply status s d width policy))
        [(.name "compare_result", .u32 (Subtraction.evaluate s d width).result)] ∧
      Updates ρ σ sr (Subtraction.emitCUpdate sr source destination width policy)
        (Subtraction.apply status s d width policy)
  addition : ∀ {source destination : Expr} {s d : BitVec 32} (width : MemoryAccessWidth),
    Denotes ρ σ source s → Denotes ρ σ destination d → Clear Addition.locals sr destination →
    Runs ρ (Addition.emitCBody sr source destination width) σ
        (withStatus σ sr (Addition.apply status s d width))
        [(.name "add_ccr_result", .u32 (Addition.evaluate s d width).result)] ∧
      Updates ρ σ sr (Addition.emitCUpdate sr source destination width)
        (Addition.apply status s d width)
  extendedArithmetic : ∀ {source destination : Expr} {s d : BitVec 32}
    (kind : ExtendedArithmeticKind) (width : MemoryAccessWidth),
    Denotes ρ σ source s → Denotes ρ σ destination d →
    Clear ExtendedArithmetic.locals sr destination → sr ∉ ExtendedArithmetic.innerLocals →
    Runs ρ
      (.seq (ExtendedArithmetic.emitCCompute sr kind source destination width)
        (ExtendedArithmetic.emitCUpdate sr kind width)) σ
      (withStatus σ sr (ExtendedArithmetic.apply status kind s d width))
      [(.name "xa_result", .u32
        (ExtendedArithmetic.evaluate kind s d (ShiftRotate.extendBit status) width).result)]
  decimalArithmetic : ∀ {source destination : Expr} {s d : BitVec 32}
    (kind : DecimalArithmeticKind), Denotes ρ σ source s → Denotes ρ σ destination d →
    Clear DecimalArithmetic.locals sr source →
    Runs ρ
      (.seq (DecimalArithmetic.emitCCompute sr kind source destination)
        (DecimalArithmetic.emitCUpdate sr)) σ
      (withStatus σ sr (DecimalArithmetic.apply status kind s d))
      [(.name "bcd_result", .u32
        ((DecimalArithmetic.evaluate kind s d (ShiftRotate.extendBit status)).result.setWidth 32))]
  logical : ∀ {result : Expr} {r : BitVec 32} (width : MemoryAccessWidth), Denotes ρ σ result r →
    Updates ρ σ sr (Logical.emitCUpdate sr result width) (Logical.apply status r width)
  multiply : ∀ {source destination : Expr} {s d : BitVec 32} (isSigned : Bool),
    Denotes ρ σ source s → Denotes ρ σ destination d →
    Clear (Multiply.locals isSigned) sr destination →
    Runs ρ (Multiply.emitC sr isSigned source destination) σ
      (withStatus σ sr (Logical.apply status (Multiply.product isSigned s d) .longWord))
      [(.suffixed (Multiply.stem isSigned) "_result", .u32 (Multiply.product isSigned s d))]
  division : ∀ {dividend divisor : Expr} {d s : BitVec 32} (isSigned : Bool) (resultVar : String),
    Denotes ρ σ dividend d → Denotes ρ σ divisor s →
    Clear (Division.locals resultVar) sr divisor →
    match Division.evaluate d (s.setWidth 16) isSigned with
    | some r =>
        Runs ρ (Division.emitCUpdate sr dividend divisor isSigned resultVar) σ
          (withStatus σ sr (Division.ccr status r))
          [(.name resultVar, .u32 r.result),
           (.suffixed resultVar "_overflow", .ofBool r.overflow)]
    | none => exec ρ (Division.emitCUpdate sr dividend divisor isSigned resultVar) σ = none
  bitOperation : ∀ {original bitNumber : Expr} {o n : BitVec 32} (kind : BitOperationKind)
    (width : MemoryAccessWidth) (names : BitOperation.Names), names.locals.Nodup →
    Denotes ρ σ original o → Denotes ρ σ bitNumber n →
    (∀ x ∈ names.locals, ¬ original.mentions x) →
    Runs ρ (BitOperation.emitCUpdate kind original bitNumber width names) σ σ.env
      [(.name names.bitSet, .ofBool (BitOperation.evaluate kind o n width).originalBitSet),
       (.name names.result, .u32 (BitOperation.evaluate kind o n width).result)]
  bitTestCcr : ∀ {bitSet : Expr} {b : Bool},
    eval ρ σ.env σ.world bitSet = some (.ofBool b) →
    Updates ρ σ sr (BitTestCcr.emitCUpdate sr bitSet) (BitTestCcr.apply status b)
  condition : ∀ condition : M68kCondition,
    eval ρ σ.env σ.world (Condition.cExpr sr condition) =
      some (.ofBool (Condition.evaluate condition status))
  shiftRotate : ∀ {original count : Expr} {o n : BitVec 32} (kind : ShiftRotateKind)
    (width : MemoryAccessWidth) (ordinal : ℕ), Denotes ρ σ original o → Denotes ρ σ count n →
    Clear (ShiftRotate.locals ordinal) sr original →
    Runs ρ (ShiftRotate.emitCUpdate sr width kind original count ordinal).1 σ
      (withStatus σ sr (ShiftRotate.ccr status
        (ShiftRotate.evaluate kind o n width (ShiftRotate.extendBit status))))
      [((ShiftRotate.emitCUpdate sr width kind original count ordinal).2, .u32
        (ShiftRotate.evaluate kind o n width (ShiftRotate.extendBit status)).result)]
  dbccDecrement : ∀ {dn : Ident} {original : BitVec 32},
    σ.env.find dn = some (.holds (.u32 original)) →
    ∃ env : Env,
      exec ρ (DbccDecrement.emitCUpdate dn).1 σ = some { σ with env := env } ∧
        env = σ.env.set dn (.holds (.u32 (DbccDecrement.evaluate original).updatedRegister)) ∧
        eval ρ env σ.world (DbccDecrement.emitCUpdate dn).2 =
          some (.ofBool (DbccDecrement.evaluate original).expired)

variable {ρ σ sr} {status : BitVec 16} {source destination : Expr} {s d : BitVec 32}

/-- A body that only sets the status register, put between braces. -/
theorem updates_of_runs {body : Stmt} {flags : BitVec 16} {outs : List (Ident × Value)}
    (h : Runs ρ body σ (withStatus σ sr flags) outs) : Updates ρ σ sr (.block body) flags := by
  apply Runs.block h
  exact length_withStatus flags

theorem ExtendedArithmetic.runs_emitC (kind : ExtendedArithmeticKind) (width : MemoryAccessWidth)
    (hsr : σ.env.find sr = some (.holds (.u16 status)))
    (hs : Denotes ρ σ source s) (hd : Denotes ρ σ destination d)
    (hc : Clear locals sr destination) (hi : sr ∉ innerLocals) :
    Runs ρ (.seq (emitCCompute sr kind source destination width) (emitCUpdate sr kind width)) σ
      (withStatus σ sr (apply status kind s d width))
      [(.name "xa_result", .u32
        (evaluate kind s d (ShiftRotate.extendBit status) width).result)] := by
  refine ⟨declared kind status s d width, ?_, ?_⟩
  · simp [declared, ShiftRotate.extendBit]
  · calc
      exec ρ (.seq (emitCCompute sr kind source destination width) (emitCUpdate sr kind width)) σ
          = exec ρ (emitCUpdate sr kind width)
              { σ with env := declared kind status s d width ++ σ.env } := by
            rw [exec_seq, exec_emitCCompute kind width hsr hs hd hc.status hc.operand]
            rfl
      _ = _ := runs_emitCUpdate kind width hsr hc.status hi

theorem DecimalArithmetic.runs_emitC (kind : DecimalArithmeticKind)
    (hsr : σ.env.find sr = some (.holds (.u16 status)))
    (hs : Denotes ρ σ source s) (hd : Denotes ρ σ destination d) (hc : Clear locals sr source) :
    Runs ρ (.seq (emitCCompute sr kind source destination) (emitCUpdate sr)) σ
      (withStatus σ sr (apply status kind s d))
      [(.name "bcd_result", .u32
        ((evaluate kind s d (ShiftRotate.extendBit status)).result.setWidth 32))] := by
  obtain ⟨declared, hl, hn, hcompute⟩ :=
    exec_emitCCompute kind hsr hs hd hc.status hc.operand
  refine ⟨declared, ?_, ?_⟩
  · intro out hout
    rw [List.mem_singleton] at hout
    subst hout
    exact hl.result
  · calc
      exec ρ (.seq (emitCCompute sr kind source destination) (emitCUpdate sr)) σ
          = exec ρ (emitCUpdate sr) { σ with env := declared ++ σ.env } := by
            rw [exec_seq, hcompute]
            rfl
      _ = _ := exec_emitCUpdate kind hsr hl hn

theorem Division.agrees (isSigned : Bool) (resultVar : String)
    (hsr : σ.env.find sr = some (.holds (.u16 status)))
    (hd : Denotes ρ σ destination d) (hs : Denotes ρ σ source s)
    (hc : Clear (locals resultVar) sr source) :
    match evaluate d (s.setWidth 16) isSigned with
    | some r =>
        Runs ρ (emitCUpdate sr destination source isSigned resultVar) σ
          (withStatus σ sr (ccr status r))
          [(.name resultVar, .u32 r.result),
           (.suffixed resultVar "_overflow", .ofBool r.overflow)]
    | none => exec ρ (emitCUpdate sr destination source isSigned resultVar) σ = none := by
  cases hr : evaluate d (s.setWidth 16) isSigned with
  | none => exact exec_emitCUpdate_zero isSigned resultVar hd hs hc.operand hr
  | some r =>
      cases isSigned with
      | true => exact runs_emitCSigned resultVar hsr hd hs hc.status hc.operand hr
      | false => exact runs_emitCUnsigned resultVar hsr hd hs hc.status hc.operand hr

theorem host_and_emitted_agree (hsr : σ.env.find sr = some (.holds (.u16 status))) :
    Agrees ρ σ sr status where
  moveResultCcr hr := MoveResultCcr.exec_emitCUpdate hsr hr
  subtraction width policy hs hd hc :=
    have h := Subtraction.runs_emitCBody width policy hsr hs hd hc.status hc.operand
    ⟨h, updates_of_runs h⟩
  addition width hs hd hc :=
    have h := Addition.runs_emitCBody width hsr hs hd hc.status hc.operand
    ⟨h, updates_of_runs h⟩
  extendedArithmetic kind width hs hd hc hi :=
    ExtendedArithmetic.runs_emitC kind width hsr hs hd hc hi
  decimalArithmetic kind hs hd hc := DecimalArithmetic.runs_emitC kind hsr hs hd hc
  logical width hr := Logical.exec_emitCUpdate width hsr hr
  multiply isSigned hs hd hc := Multiply.runs_emitC isSigned hsr hs hd hc.status hc.operand
  division isSigned resultVar hd hs hc := Division.agrees isSigned resultVar hsr hd hs hc
  bitOperation kind width names hnames ho hn hfresh :=
    BitOperation.runs_emitCUpdate kind width names hnames ho hn hfresh
  bitTestCcr hb := BitTestCcr.exec_emitCUpdate hsr hb
  condition c := Condition.eval_cExpr c hsr
  shiftRotate kind width ordinal ho hn hc :=
    ShiftRotate.runs_emitCUpdate kind width ordinal hsr ho hn hc.status hc.operand
  dbccDecrement hdn :=
    ⟨_, DbccDecrement.exec_emitCUpdate hdn, rfl, DbccDecrement.eval_expired hdn⟩

end Agreement

/-- The specifications agree where the status register is the only object. -/
theorem host_and_emitted_agree_alone :
    Agrees (W := Unit)
      { resultType := fun _ => .u32, read := fun _ _ _ => none, act := fun _ _ _ => none }
      { env := [(.name "state->sr", .holds (.u16 0x2704))], world := () }
      (.name "state->sr") 0x2704#16 :=
  host_and_emitted_agree rfl

end Segarecomp.M68k.Effects

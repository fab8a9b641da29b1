import Segarecomp.M68k.StaticDiscovery

/-! The fixed control successors of a lifted operation. Of an effect only what concerns the stack and the program
counter is kept, and of an operation what decides it. -/

namespace Segarecomp.M68k.ControlSuccessors

open DirectFlow (Address InstructionProvenance)
open Effects (MemoryAccessWidth)
open StaticDiscovery (M68kCondition M68kDecodedInstruction M68kEffectiveAddress M68kInstructionKind m68kBranchTarget
  m68kCanonicalEaAddress m68kIsStaticallyFoldableControlEa)

inductive M68kIrKind where
  | writeMoveq | subtractQuickLongD0 | branchNeShort | branchAlwaysShort | returnFromSubroutine | returnFromException
  | testOperand | compare | compareImmediate | compareAddress | add | addAddress | addImmediate | addQuick
  | subtract | subtractAddress | subtractImmediate | subtractQuick | logicalAnd | logicalAndImmediate | logicalOr
  | logicalOrImmediate | exclusiveOr | exclusiveOrImmediate | writeMove | writeMovea | writeClr | loadEffectiveAddress
  | jumpGeneral | callGeneral | writeSwap | signExtendWord | signExtendLong | pushEffectiveAddress | linkFrame
  | unlinkFrame | bitTest | bitChange | bitClear | bitSet | generalBranch | bsrCall | dbccLoop | movemTransfer
  | shiftRotateRegister | shiftRotateMemory | writeUserStackPointer | readUserStackPointer | logicalImmediateToCcr
  | logicalImmediateToSr | writeStatusRegister | noOperation | readStatusRegister | writeConditionCodes | logicalNot
  | negateWord | negateExtended | addExtended | subtractExtended | compareMemory | addDecimal | subtractDecimal
  | negateDecimal | exchangeRegisters | movepTransfer | setConditional | testAndSet | multiplySignedWord
  | multiplyUnsignedWord | divideSignedWord | divideUnsignedWord | trapException | trapOnOverflow | checkBounds
  | returnRestoreConditionCodes | instructionException | stopUntilInterrupt
  deriving DecidableEq, Repr

structure M68kIrOperation where
  provenance : InstructionProvenance := {}
  kind : M68kIrKind := .writeMoveq
  size : MemoryAccessWidth := .longWord
  sourceEa : M68kEffectiveAddress := {}
  condition : M68kCondition := .always
  deriving DecidableEq, Repr

def liftKind (instruction : M68kDecodedInstruction) : M68kIrKind :=
  match instruction.kind with
  | .moveq => .writeMoveq
  | .subqL1D0 => .subtractQuickLongD0
  | .bneShort => .branchNeShort
  | .braShort => .branchAlwaysShort
  | .rts => .returnFromSubroutine
  | .rte => .returnFromException
  | .tst => .testOperand
  | .cmp => .compare
  | .cmpi => .compareImmediate
  | .cmpa => .compareAddress
  | .add => .add
  | .adda => .addAddress
  | .addi => .addImmediate
  | .addq => .addQuick
  | .sub => .subtract
  | .suba => .subtractAddress
  | .subi => .subtractImmediate
  | .subq => .subtractQuick
  | .logicalAnd => .logicalAnd
  | .andi => .logicalAndImmediate
  | .logicalOr => .logicalOr
  | .ori => .logicalOrImmediate
  | .eor => .exclusiveOr
  | .eori => .exclusiveOrImmediate
  | .move => .writeMove
  | .movea => .writeMovea
  | .clr => .writeClr
  | .notOperand => .logicalNot
  | .negateWord => .negateWord
  | .negateExtended => .negateExtended
  | .addExtended => .addExtended
  | .subtractExtended => .subtractExtended
  | .compareMemory => .compareMemory
  | .addDecimal => .addDecimal
  | .subtractDecimal => .subtractDecimal
  | .negateDecimal => .negateDecimal
  | .exchangeRegisters => .exchangeRegisters
  | .movep => .movepTransfer
  | .setConditional => .setConditional
  | .testAndSet => .testAndSet
  | .lea => .loadEffectiveAddress
  | .jmp => .jumpGeneral
  | .jsr => .callGeneral
  | .swap => .writeSwap
  | .extW => .signExtendWord
  | .extL => .signExtendLong
  | .pea => .pushEffectiveAddress
  | .link => .linkFrame
  | .unlk => .unlinkFrame
  | .btst => .bitTest
  | .bchg => .bitChange
  | .bclr => .bitClear
  | .bset => .bitSet
  | .branch => .generalBranch
  | .bsr => .bsrCall
  | .dbcc => .dbccLoop
  | .movem => .movemTransfer
  | .shiftRotate => if instruction.destinationEa.mode = .dataRegister then .shiftRotateRegister else .shiftRotateMemory
  | .moveAnToUsp => .writeUserStackPointer
  | .moveToSr => .writeStatusRegister
  | .moveUspToAn => .readUserStackPointer
  | .logicalImmediateToCcr => .logicalImmediateToCcr
  | .logicalImmediateToSr => .logicalImmediateToSr
  | .nop => .noOperation
  | .moveFromSr => .readStatusRegister
  | .moveToCcr => .writeConditionCodes
  | .multiplySignedWord => .multiplySignedWord
  | .multiplyUnsignedWord => .multiplyUnsignedWord
  | .divideSignedWord => .divideSignedWord
  | .divideUnsignedWord => .divideUnsignedWord
  | .trap => .trapException
  | .trapv => .trapOnOverflow
  | .chk => .checkBounds
  | .rtr => .returnRestoreConditionCodes
  | .instructionException => .instructionException
  | .stop => .stopUntilInterrupt

def liftM68kInstruction (instruction : M68kDecodedInstruction) : M68kIrOperation where
  provenance := instruction.provenance
  kind := liftKind instruction
  size := instruction.size
  sourceEa := instruction.sourceEa
  condition := instruction.condition

/-! ## Effects -/

inductive M68kStackEffectKind where
  | none | pushStaticContinuation | popStaticReturn | pushDataLong | popDataLong | popExceptionFrame
  deriving DecidableEq, Repr

inductive M68kPcEffectKind where
  | none | advance | directTarget | observedStackReturn | observedExceptionReturn | exceptionEntry
  deriving DecidableEq, Repr

structure M68kOperationEffect where
  stack : M68kStackEffectKind := .none
  pc : M68kPcEffectKind := .none
  pcDelta : BitVec 32 := 0
  directTarget : Address := 0
  deriving DecidableEq, Repr

/-- The displacement of a branch, a byte or a word. -/
def branchDisplacement (operation : M68kIrOperation) : BitVec 32 :=
  if operation.size = .byte then (operation.sourceEa.immediateValue.setWidth 8).signExtend 32
  else (operation.sourceEa.immediateValue.setWidth 16).signExtend 32

/-- Every kind that is not named advances by its length. -/
def m68kOperationEffect (operation : M68kIrOperation) : M68kOperationEffect :=
  let address := operation.provenance.address
  let advance : M68kOperationEffect := { pc := .advance, pcDelta := BitVec.ofNat 32 operation.provenance.length }
  match operation.kind with
  | .writeMoveq => { pc := .advance, pcDelta := 2 }
  | .returnFromSubroutine => { stack := .popStaticReturn, pc := .observedStackReturn }
  | .returnFromException => { stack := .popExceptionFrame, pc := .observedExceptionReturn }
  | .returnRestoreConditionCodes => { stack := .popExceptionFrame, pc := .observedExceptionReturn }
  | .subtractQuickLongD0 => {}
  | .branchNeShort => {}
  | .branchAlwaysShort => {}
  | .instructionException => { pc := .exceptionEntry }
  | .pushEffectiveAddress => { advance with stack := .pushDataLong }
  | .linkFrame => { advance with stack := .pushDataLong }
  | .unlinkFrame => { advance with stack := .popDataLong }
  | .generalBranch => { pc := .directTarget, directTarget := m68kBranchTarget address (branchDisplacement operation) }
  | .bsrCall =>
    { stack := .pushStaticContinuation, pc := .directTarget
      directTarget := m68kBranchTarget address (branchDisplacement operation) }
  | .dbccLoop =>
    { pc := .directTarget
      directTarget := m68kBranchTarget address ((operation.sourceEa.immediateValue.setWidth 16).signExtend 32) }
  | .jumpGeneral =>
    if m68kIsStaticallyFoldableControlEa operation.sourceEa then
      { pc := .directTarget, directTarget := m68kCanonicalEaAddress operation.sourceEa }
    else {}
  | .callGeneral =>
    if m68kIsStaticallyFoldableControlEa operation.sourceEa then
      { stack := .pushStaticContinuation, pc := .directTarget
        directTarget := m68kCanonicalEaAddress operation.sourceEa }
    else { stack := .pushStaticContinuation }
  | _ => advance

/-! ## Control successors -/

inductive M68kControlSuccessorKind where
  | fallthrough | branchTarget | conditionalTarget | conditionalFallthrough | callTarget
  deriving DecidableEq, Repr

inductive M68kStackedContinuationKind where
  | none | callContinuation | exceptionContinuation | pushedCodeAddress
  deriving DecidableEq, Repr

inductive M68kDynamicControlFamily where
  | none | returnFromSubroutine | returnFromException | returnRestoreConditionCodes | jumpAddressIndirect
  | callAddressIndirect | jumpAddressDisp16 | callAddressDisp16 | jumpAddressIndex | callAddressIndex | jumpPcIndex
  | callPcIndex | unclassified
  deriving DecidableEq, Repr

structure M68kControlSuccessor where
  kind : M68kControlSuccessorKind := .fallthrough
  target : Address := 0
  deriving DecidableEq, Repr

structure M68kControlSuccessors where
  successors : List M68kControlSuccessor := []
  stacked : M68kStackedContinuationKind := .none
  stackedAddress : Address := 0
  dynamic : M68kDynamicControlFamily := .none
  alwaysRaisesException : Bool := false
  deriving DecidableEq, Repr

def indirectFamily (operation : M68kIrOperation) : M68kDynamicControlFamily :=
  let call : Bool := operation.kind = .callGeneral
  match operation.sourceEa.mode with
  | .addressIndirect => if call then .callAddressIndirect else .jumpAddressIndirect
  | .addressDisp16 => if call then .callAddressDisp16 else .jumpAddressDisp16
  | .addressIndex8 => if call then .callAddressIndex else .jumpAddressIndex
  | .pcIndex8 => if call then .callPcIndex else .jumpPcIndex
  | _ => .unclassified

/-- The switch over the program counter's effect. -/
def m68kControlFlow (operation : M68kIrOperation) (effect : M68kOperationEffect) (out : M68kControlSuccessors) :
    M68kControlSuccessors :=
  let address := operation.provenance.address
  let next := address + BitVec.ofNat 32 operation.provenance.length
  match effect.pc with
  | .advance =>
    let out := { out with successors := [⟨.fallthrough, address + effect.pcDelta⟩] }
    if operation.kind = .trapException then
      { out with successors := [], stacked := .exceptionContinuation, stackedAddress := next }
    else if operation.kind = .trapOnOverflow then { out with stacked := .exceptionContinuation, stackedAddress := next }
    else out
  | .directTarget =>
    if operation.kind = .generalBranch ∧ operation.condition = .always then
      { out with successors := [⟨.branchTarget, effect.directTarget⟩] }
    else if operation.kind = .generalBranch ∨ operation.kind = .dbccLoop ∨ operation.kind = .branchNeShort then
      { out with successors := [⟨.conditionalTarget, effect.directTarget⟩, ⟨.conditionalFallthrough, next⟩] }
    else if effect.stack = .pushStaticContinuation then
      { out with successors := [⟨.callTarget, effect.directTarget⟩] }
    else { out with successors := [⟨.branchTarget, effect.directTarget⟩] }
  | .observedStackReturn => { out with dynamic := .returnFromSubroutine }
  | .observedExceptionReturn =>
    { out with
      dynamic := if operation.kind = .returnRestoreConditionCodes then .returnRestoreConditionCodes
        else .returnFromException }
  | .exceptionEntry => { out with alwaysRaisesException := true }
  | .none =>
    if operation.kind = .jumpGeneral ∨ operation.kind = .callGeneral then
      { out with dynamic := indirectFamily operation }
    else { out with dynamic := .unclassified }

def m68kControlSuccessors (operation : M68kIrOperation) : M68kControlSuccessors :=
  let effect := m68kOperationEffect operation
  let next := operation.provenance.address + BitVec.ofNat 32 operation.provenance.length
  let out : M68kControlSuccessors :=
    if effect.stack = .pushStaticContinuation then { stacked := .callContinuation, stackedAddress := next } else {}
  let out := m68kControlFlow operation effect out
  if operation.kind = .pushEffectiveAddress ∧ m68kIsStaticallyFoldableControlEa operation.sourceEa then
    { out with stacked := .pushedCodeAddress, stackedAddress := m68kCanonicalEaAddress operation.sourceEa }
  else out

theorem length_controlFlow (operation : M68kIrOperation) (effect : M68kOperationEffect) {out : M68kControlSuccessors}
    (none : out.successors = []) : (m68kControlFlow operation effect out).successors.length ≤ 2 := by
  unfold m68kControlFlow
  cases effect.pc with
  | none => split_ifs <;> simp [none]
  | advance => split_ifs <;> simp
  | directTarget => split_ifs <;> simp
  | observedStackReturn => simp [none]
  | observedExceptionReturn => simp [none]
  | exceptionEntry => simp [none]

/-- At most the target and the fall-through of a conditional branch. -/
theorem length_successors (operation : M68kIrOperation) : (m68kControlSuccessors operation).successors.length ≤ 2 := by
  have start : (if (m68kOperationEffect operation).stack = .pushStaticContinuation then
      ({ stacked := .callContinuation
         stackedAddress := operation.provenance.address + BitVec.ofNat 32 operation.provenance.length } :
        M68kControlSuccessors) else {}).successors = [] := by
    split_ifs <;> rfl
  have flow := length_controlFlow operation (m68kOperationEffect operation) start
  unfold m68kControlSuccessors
  dsimp only
  split_ifs at flow ⊢ <;> exact flow

end Segarecomp.M68k.ControlSuccessors

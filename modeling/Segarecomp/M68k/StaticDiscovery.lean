import Mathlib
import Segarecomp.M68k.DirectFlow
import Segarecomp.M68k.Effects

/-! What the static graph walk asks of its scenario and of the decoder, and the decode boundary
with its operand checks. -/

namespace Segarecomp.M68k.StaticDiscovery

open DirectFlow (Address Byte InstructionProvenance MappingClaim)
open Effects (MemoryAccessWidth)

inductive DirectFlowDiagnostic where
  | oddInstructionAddress | unmappedInstructionAddress | truncatedInstruction | illegalInstruction
  | validButUnsupportedInstruction | unsupportedInstructionForm | oddDirectTarget
  | conflictingAddressMapping | invalidAddressMapping | unmappedDirectTarget
  | midInstructionDirectTarget | reachedUnresolvedDirectEdge | invalidFrontendImageSourceId
  | frontendImageByteLengthMismatch | invalidMappingClaim | vectorFixtureIdMismatch
  | vectorImageSha256Mismatch | vectorCpuVariantMismatch | vectorExecutionEntrySpaceMismatch
  | executionEntryInsideDiscoveredInstruction | executionEntryInsideDiscoveredBlock
  | executionEntryNotDiscoveredBlockStart | vectorBlockInstructionCountMismatch
  | effectiveAddressNot24bit | oddEffectiveAddress | romWriteProhibited | unmappedDataAccess
  | unsupportedDeviceRegionControllerIo | invalidStackAlignment | invalidStackRange
  | returnContextMissing | returnTargetMismatch | startupGraphMismatch | discoveryBudgetExhausted
  | authoritativeExactTargetClosureExhausted
  deriving DecidableEq, Repr

inductive M68kEaMode where
  | unused | dataRegister | addressRegister | addressIndirect | addressPostinc | addressPredec
  | addressDisp16 | absoluteWord | absoluteLong | pcDisp16 | immediate | addressIndex8 | pcIndex8
  deriving DecidableEq, Repr

structure M68kEffectiveAddress where
  mode : M68kEaMode := .unused
  reg : BitVec 8 := 0
  displacement : BitVec 16 := 0
  absoluteAddress : Address := 0
  immediateValue : BitVec 32 := 0
  extensionWords : BitVec 8 := 0
  indexIsAddress : Bool := false
  indexIsLong : Bool := false
  deriving DecidableEq, Repr

inductive M68kInstructionKind where
  | moveq | subqL1D0 | bneShort | braShort | rts | rte
  | tst | cmp | cmpi | cmpa | add | adda | addi | addq | sub | suba | subi | subq
  | logicalAnd | andi | logicalOr | ori | eor | eori | move | movea | clr | lea | jmp | jsr
  | notOperand | negateWord | negateExtended | addExtended | subtractExtended | compareMemory
  | addDecimal | subtractDecimal | negateDecimal | exchangeRegisters | movep | setConditional
  | testAndSet | swap | extW | extL | pea | link | unlk | btst | bchg | bclr | bset
  | branch | bsr | dbcc | movem | shiftRotate | moveAnToUsp | moveUspToAn
  | logicalImmediateToCcr | logicalImmediateToSr | moveToSr | nop | moveFromSr | moveToCcr
  | multiplySignedWord | multiplyUnsignedWord | divideSignedWord | divideUnsignedWord
  | trap | trapv | chk | rtr | instructionException | stop
  deriving DecidableEq, Repr

inductive M68kCondition where
  | always | never | hi | ls | cc | cs | ne | eq | vc | vs | pl | mi | ge | lt | gt | le
  deriving DecidableEq, Repr

inductive M68kMemoryAccessDirection where
  | read | write
  deriving DecidableEq, Repr

inductive M68kMovemDirection where
  | registersToMemory | memoryToRegisters
  deriving DecidableEq, Repr

/-- `operand` and `immediateValue` hold the displacements of the branch kinds. -/
structure M68kDecodedInstruction where
  provenance : InstructionProvenance := {}
  kind : M68kInstructionKind := .moveq
  operand : BitVec 8 := 0
  size : MemoryAccessWidth := .longWord
  condition : M68kCondition := .always
  sourceEa : M68kEffectiveAddress := {}
  destinationEa : M68kEffectiveAddress := {}
  movemDirection : M68kMovemDirection := .registersToMemory
  movemRegisterMask : BitVec 16 := 0
  deriving DecidableEq, Repr

/-! ## Effective addresses -/

def m68kIsStaticallyFoldableControlEa (ea : M68kEffectiveAddress) : Bool :=
  ea.mode = .absoluteWord || ea.mode = .absoluteLong || ea.mode = .pcDisp16

def m68kIsSupportedComputedControlEa (ea : M68kEffectiveAddress) : Bool :=
  if ea.mode = .pcIndex8 ∨ ea.mode = .addressIndex8 then true
  else ea.mode = .addressIndirect && ea.displacement = 0 && ea.extensionWords = 0

def m68kStartupAbsoluteOperandAlignment (address : Address) (width : MemoryAccessWidth) :
    Option DirectFlowDiagnostic :=
  if address &&& 0xFF000000 ≠ 0 then some .effectiveAddressNot24bit
  else if width ≠ .byte ∧ address &&& 1 ≠ 0 then some .oddEffectiveAddress
  else none

def m68kCanonicalEaAddress (ea : M68kEffectiveAddress) : Address :=
  if ea.mode = .absoluteWord then ea.absoluteAddress &&& 0x00FFFFFF else ea.absoluteAddress

def m68kDataAccessEaAddress (ea : M68kEffectiveAddress) : Address :=
  if ea.mode = .absoluteLong ∧ ea.absoluteAddress &&& 0xFF800000 = 0xFF800000 then
    ea.absoluteAddress &&& 0x00FFFFFF
  else m68kCanonicalEaAddress ea

def m68kDestinationReadValueDiscarded (kind : M68kInstructionKind) : Bool :=
  kind = .clr || kind = .setConditional || kind = .moveFromSr

def m68kBranchTarget (sourceAddress : Address) (signedDisplacement : BitVec 32) : Address :=
  sourceAddress + 2 + signedDisplacement

inductive M68kMovemTransferOrder where
  | ascending | predecrement
  deriving DecidableEq, Repr

def m68kMovemTransferOrder (registerMask : BitVec 16) (order : M68kMovemTransferOrder) : List ℕ :=
  ((List.range 16).filter registerMask.getLsbD).map fun index =>
    match order with
    | .predecrement => 15 - index
    | .ascending => index

/-! ## The scenario -/

structure M68kInstructionSource where
  bytes : List Byte := []
  address : Address := 0
  imageOffset : ℕ := 0
  provenanceImageOffset : ℕ := 0
  deriving DecidableEq, Repr

inductive M68kInstructionSourceIssueKind where
  | unmapped | conflictingMapping
  deriving DecidableEq, Repr

structure M68kInstructionSourceIssue where
  kind : M68kInstructionSourceIssueKind := .unmapped
  matchedClaims : List MappingClaim := []
  deriving DecidableEq, Repr

structure M68kCpuMemoryAccessRequest where
  address : Address
  width : MemoryAccessWidth
  direction : M68kMemoryAccessDirection
  provenance : InstructionProvenance
  deriving DecidableEq, Repr

inductive M68kDiscoveryTargetRole where
  | directBranch | directCall | interruptVector | synchronousExceptionVector
  deriving DecidableEq, Repr

structure M68kMappingIssue where
  category : DirectFlowDiagnostic
  matchedClaims : List MappingClaim := []
  deriving DecidableEq, Repr

structure M68kStaticDiscoveryEnvironment where
  instructionSource : Address → Except M68kInstructionSourceIssue M68kInstructionSource
  admitTarget : Address → M68kDiscoveryTargetRole → Option M68kMappingIssue
  classifyMemoryAccess : M68kCpuMemoryAccessRequest → Option DirectFlowDiagnostic
  classifyDiscardedRead : M68kCpuMemoryAccessRequest → Option DirectFlowDiagnostic
  isCompletionRts : InstructionProvenance → Bool
  source_address : ∀ pc source, instructionSource pc = .ok source → source.address = pc

inductive DecodeOutcome where
  | decodedMoveq | unsupportedCpuVariant | unsupportedAddressSpace | oddInstructionAddress
  | truncatedInstruction | illegalInstruction | validButUnsupportedInstruction
  deriving DecidableEq, Repr

structure RejectedM68kDecode where
  outcome : DecodeOutcome
  availableBytes : ℕ := 0
  requestedLength : ℕ := 2
  instructionLength : Option ℕ := none
  provenance : Option InstructionProvenance := none
  unsupportedInstructionForm : Bool := false
  deriving DecidableEq, Repr

/-- The decoder under the `general_startup` profile. -/
structure Decoder where
  decodeM68kInstruction : M68kInstructionSource → Except RejectedM68kDecode M68kDecodedInstruction
  decoded_address : ∀ source decoded, decodeM68kInstruction source = .ok decoded →
    decoded.provenance.address = source.address

/-! ## Issues -/

structure M68kDiscoveryIssue where
  category : DirectFlowDiagnostic
  address : Address
  provenance : Option InstructionProvenance := none
  target : Option Address := none
  instructionLength : Option ℕ := none
  availableBytes : Option ℕ := none
  requestedLength : Option ℕ := none
  mappingClaims : Option (List MappingClaim) := none
  unresolvedReason : Option String := none
  access : Option M68kCpuMemoryAccessRequest := none
  reconstructSingleMappingClaim : Bool := false
  reconstructInstructionReadAccess : Bool := false
  setPcBasedImageOffset : Bool := false
  deriving DecidableEq, Repr

def provenanceIssue (category : DirectFlowDiagnostic) (source : InstructionProvenance)
    (target : Option Address := none) : M68kDiscoveryIssue :=
  { category, address := source.address, provenance := some source,
    instructionLength := some source.length, target }

def sourceIssue (pc : Address) (issue : M68kInstructionSourceIssue) : M68kDiscoveryIssue :=
  { category := if issue.kind = .unmapped then .unmappedInstructionAddress else .conflictingAddressMapping
    address := pc, mappingClaims := some issue.matchedClaims }

def decodeCategory (rejection : RejectedM68kDecode) : DirectFlowDiagnostic :=
  if rejection.outcome = .truncatedInstruction then .truncatedInstruction
  else if rejection.outcome = .illegalInstruction then .illegalInstruction
  else if rejection.unsupportedInstructionForm then .unsupportedInstructionForm
  else .validButUnsupportedInstruction

/-- The issue of a rejected decode, with the image offset of the source restored. -/
def decodeIssue (pc : Address) (source : M68kInstructionSource) (rejection : RejectedM68kDecode) :
    M68kDiscoveryIssue :=
  let truncated := decodeCategory rejection = .truncatedInstruction
  { category := decodeCategory rejection, address := pc
    setPcBasedImageOffset := true, reconstructSingleMappingClaim := true
    availableBytes := if truncated then some rejection.availableBytes else none
    requestedLength := if truncated then some rejection.requestedLength else none
    instructionLength := rejection.instructionLength
    provenance := rejection.provenance.map fun p => { p with imageOffset := source.provenanceImageOffset }
    reconstructInstructionReadAccess := rejection.provenance.isSome }

/-! ## Operands -/

/-- The diagnostic of an operand, with the request where the scenario was asked. -/
def resolveOperand (env : M68kStaticDiscoveryEnvironment) (ea : M68kEffectiveAddress)
    (width : MemoryAccessWidth) (direction : M68kMemoryAccessDirection) (provenance : InstructionProvenance)
    (valueDiscarded : Bool) : Option (DirectFlowDiagnostic × Option M68kCpuMemoryAccessRequest) :=
  if ¬m68kIsStaticallyFoldableControlEa ea then none
  else
    let address := m68kDataAccessEaAddress ea
    match m68kStartupAbsoluteOperandAlignment address width with
    | some misaligned => some (misaligned, none)
    | none =>
      let request := ⟨address, width, direction, provenance⟩
      let diagnostic :=
        if valueDiscarded ∧ direction = .read then env.classifyDiscardedRead request
        else env.classifyMemoryAccess request
      diagnostic.map fun category => (category, some request)

structure OperandAccess where
  ea : M68kEffectiveAddress
  direction : M68kMemoryAccessDirection
  valueDiscarded : Bool := false
  deriving DecidableEq, Repr

def widthBytes : MemoryAccessWidth → BitVec 32
  | .byte => 1
  | .word => 2
  | .longWord => 4

def movemAccesses (decoded : M68kDecodedInstruction) : List OperandAccess :=
  let toMemory := decoded.movemDirection = .registersToMemory
  let memoryEa := if toMemory then decoded.destinationEa else decoded.sourceEa
  let order := m68kMovemTransferOrder decoded.movemRegisterMask
    (if memoryEa.mode = .addressPredec then .predecrement else .ascending)
  (List.range order.length).map fun slot =>
    { ea := { memoryEa with
        absoluteAddress := memoryEa.absoluteAddress + BitVec.ofNat 32 slot * widthBytes decoded.size }
      direction := if toMemory then .write else .read }

/-- The operands a kind validates, in order. -/
def operandAccesses (decoded : M68kDecodedInstruction) : List OperandAccess :=
  let readSource : OperandAccess := ⟨decoded.sourceEa, .read, false⟩
  let readDestination : OperandAccess := ⟨decoded.destinationEa, .read, false⟩
  let writeDestination : OperandAccess := ⟨decoded.destinationEa, .write, false⟩
  match decoded.kind with
  | .move => [readSource, writeDestination]
  | .tst | .cmp | .cmpa | .moveToSr | .moveToCcr | .chk => [readSource]
  | .cmpi => [readSource, readDestination]
  | .sub | .suba | .subi | .subq | .add | .adda | .addi | .addq =>
    if decoded.destinationEa.mode ≠ .dataRegister ∧ decoded.destinationEa.mode ≠ .addressRegister then
      [readSource, readDestination, writeDestination]
    else [readSource]
  | .logicalAnd | .andi | .logicalOr | .ori | .eor | .eori =>
    if decoded.destinationEa.mode ≠ .dataRegister then [readSource, readDestination, writeDestination]
    else [readSource]
  | .movea => [readSource]
  | .clr | .notOperand | .negateWord | .negateExtended | .negateDecimal | .testAndSet | .setConditional
  | .moveFromSr =>
    [⟨decoded.destinationEa, .read, m68kDestinationReadValueDiscarded decoded.kind⟩, writeDestination]
  | .btst => [readDestination]
  | .bchg | .bclr | .bset => [readDestination, writeDestination]
  | .movem => movemAccesses decoded
  | .shiftRotate => [readDestination, writeDestination]
  | _ => []

def rejectOperand (decoded : M68kDecodedInstruction) (access : OperandAccess)
    (found : DirectFlowDiagnostic × Option M68kCpuMemoryAccessRequest) : M68kDiscoveryIssue :=
  { provenanceIssue found.1 decoded.provenance (some access.ea.absoluteAddress) with
    reconstructSingleMappingClaim := true, reconstructInstructionReadAccess := true, access := found.2 }

/-- The first operand rejected. -/
def operandIssue (env : M68kStaticDiscoveryEnvironment) (decoded : M68kDecodedInstruction) :
    Option M68kDiscoveryIssue :=
  (operandAccesses decoded).findSome? fun access =>
    (resolveOperand env access.ea decoded.size access.direction decoded.provenance
      access.valueDiscarded).map (rejectOperand decoded access)

/-! ## What stands at an address -/

/-- The decoded instruction as the cache keeps it, without its span and operand checks. -/
def decodedAt (env : M68kStaticDiscoveryEnvironment) (decoder : Decoder) (pc : Address) :
    Except M68kDiscoveryIssue (M68kInstructionSource × M68kDecodedInstruction) :=
  match env.instructionSource pc with
  | .error issue => .error (sourceIssue pc issue)
  | .ok source =>
    match decoder.decodeM68kInstruction source with
    | .error rejection => .error (decodeIssue pc source rejection)
    | .ok accepted =>
      .ok (source, { accepted with
        provenance := { accepted.provenance with imageOffset := source.provenanceImageOffset } })

/-- `source.bytes.size() - local` on `std::size_t`. -/
def bytesLeft (source : M68kInstructionSource) : ℕ :=
  (source.bytes.length + (2 ^ 64 - source.imageOffset % 2 ^ 64)) % 2 ^ 64

/-- The checks on an instruction that is in the cache already. -/
def spanIssue (env : M68kStaticDiscoveryEnvironment) (pc : Address) (source : M68kInstructionSource)
    (decoded : M68kDecodedInstruction) : Option M68kDiscoveryIssue :=
  if decoded.provenance.length > bytesLeft source then
    some { category := .truncatedInstruction, address := pc, reconstructSingleMappingClaim := true }
  else operandIssue env decoded

def instructionAt (env : M68kStaticDiscoveryEnvironment) (decoder : Decoder) (pc : Address) :
    Option M68kDecodedInstruction :=
  match decodedAt env decoder pc with
  | .error _ => none
  | .ok (source, decoded) => if spanIssue env pc source decoded = none then some decoded else none

theorem instructionAt_address {env : M68kStaticDiscoveryEnvironment} {decoder : Decoder} {pc : Address}
    {decoded : M68kDecodedInstruction} (found : instructionAt env decoder pc = some decoded) :
    decoded.provenance.address = pc := by
  rw [instructionAt] at found
  cases eq : decodedAt env decoder pc with
  | error issue => simp [eq] at found
  | ok pair =>
    simp only [eq, Option.ite_none_right_eq_some, Option.some.injEq] at found
    rw [← found.2]
    rw [decodedAt] at eq
    cases source : env.instructionSource pc with
    | error issue => simp [source] at eq
    | ok source' =>
      cases accepted : decoder.decodeM68kInstruction source' with
      | error rejection => simp [source, accepted] at eq
      | ok decoded' =>
        simp only [source, accepted, Except.ok.injEq] at eq
        rw [← eq]
        calc
          _ = decoded'.provenance.address := rfl
          _ = source'.address := decoder.decoded_address source' decoded' accepted
          _ = pc := env.source_address pc source' source

end Segarecomp.M68k.StaticDiscovery

import Mathlib

/-! The direct-flow route: decode with the `direct_flow` profile, FIFO discovery, block and edge
construction, and the block executor. `std::map` and `std::set` are lists in insertion order;
the fifo holds exactly the members of `entries`. -/

namespace Segarecomp.M68k.DirectFlow

abbrev Byte := BitVec 8
abbrev Address := BitVec 32

structure MappingClaim where
  name : String
  targetBegin : Address
  targetEnd : Address
  imageBegin : ℕ
  imageEnd : ℕ
  deriving DecidableEq, Repr

structure InstructionProvenance where
  address : Address := 0
  imageOffset : ℕ := 0
  bytes : Byte × Byte := (0, 0)
  length : ℕ := 2
  deriving DecidableEq, Repr

inductive DirectFlowDiagnostic
  | oddInstructionAddress | unmappedInstructionAddress | truncatedInstruction | illegalInstruction
  | validButUnsupportedInstruction | oddDirectTarget | conflictingAddressMapping
  | invalidAddressMapping | unmappedDirectTarget | midInstructionDirectTarget
  | reachedUnresolvedDirectEdge
  deriving DecidableEq, Repr

structure RejectedDirectFlow where
  category : DirectFlowDiagnostic
  block : Address
  provenance : Option InstructionProvenance := none
  availableBytes : ℕ := 0
  requestedLength : ℕ := 0
  instructionLength : Option ℕ := none
  target : Option Address := none
  mappingClaims : List MappingClaim := []
  unresolvedReason : String := ""
  deriving DecidableEq, Repr

structure DirectFlowProgram where
  mappings : List MappingClaim
  resetEntry : Address
  structuralIntervals : List InstructionProvenance := []
  unresolvedTargets : List Address := []
  deriving DecidableEq, Repr

def MappingClaim.contains (mapping : MappingClaim) (address : Address) : Bool :=
  address ≥ mapping.targetBegin && address < mapping.targetEnd

def claims (program : DirectFlowProgram) (address : Address) : List MappingClaim :=
  program.mappings.filter (·.contains address)

def mappingIsValid (mapping : MappingClaim) (imageSize : ℕ) : Bool :=
  if mapping.targetBegin ≥ mapping.targetEnd ∨ mapping.imageBegin ≥ mapping.imageEnd ∨
      mapping.imageBegin > imageSize ∨ mapping.imageEnd > imageSize then false
  else mapping.targetEnd.toNat - mapping.targetBegin.toNat = mapping.imageEnd - mapping.imageBegin

def reject (category : DirectFlowDiagnostic) (entry : Address)
    (provenance : Option InstructionProvenance := none) : RejectedDirectFlow :=
  { category, block := entry, provenance }

def mappingFor (program : DirectFlowProgram) (address : Address) (failure : RejectedDirectFlow) :
    Except RejectedDirectFlow MappingClaim :=
  match claims program address with
  | [] => .error { failure with category := .unmappedInstructionAddress }
  | [mapping] => .ok mapping
  | found => .error { failure with category := .conflictingAddressMapping, mappingClaims := found }

def checkTarget (program : DirectFlowProgram) (target entry : Address)
    (provenance : InstructionProvenance) : Except RejectedDirectFlow Unit :=
  let failure := { reject .oddDirectTarget entry (some provenance) with target := some target }
  if target &&& 1 ≠ 0 then .error failure
  else
    match claims program target with
    | [] => .error { failure with category := .unmappedDirectTarget }
    | [_] =>
        if program.structuralIntervals.any (fun interval =>
            target > interval.address && target.toNat < interval.address.toNat + interval.length) then
          .error { failure with category := .midInstructionDirectTarget }
        else .ok ()
    | found => .error { failure with category := .conflictingAddressMapping, mappingClaims := found }

/-! The shared decoder as the `direct_flow` profile selects it. -/

inductive M68kInstructionKind
  | moveq | subqL1D0 | bneShort | braShort
  deriving DecidableEq, Repr

structure M68kDecodedInstruction where
  provenance : InstructionProvenance
  kind : M68kInstructionKind
  destination : Fin 8
  operand : BitVec 8
  deriving DecidableEq, Repr

inductive DecodeOutcome
  | truncatedInstruction | illegalInstruction | validButUnsupportedInstruction | oddInstructionAddress
  deriving DecidableEq, Repr

structure RejectedM68kDecode where
  outcome : DecodeOutcome
  availableBytes : ℕ
  requestedLength : ℕ
  instructionLength : Option ℕ
  provenance : Option InstructionProvenance
  deriving DecidableEq, Repr

def decodeM68kInstruction (image : List Byte) (address : Address) (offset : ℕ) :
    Except RejectedM68kDecode M68kDecodedInstruction :=
  let available := image.length - offset
  if address &&& 1 ≠ 0 then .error ⟨.oddInstructionAddress, available, 2, none, none⟩
  else if available < 2 then .error ⟨.truncatedInstruction, available, 2, none, none⟩
  else
    let high := image.getD offset 0
    let low := image.getD (offset + 1) 0
    let word : BitVec 16 := high.setWidth 16 <<< 8 ||| low.setWidth 16
    let provenance : InstructionProvenance := ⟨address, offset, (high, low), 2⟩
    let rejectWord := fun (outcome : DecodeOutcome) (requested : ℕ) =>
      Except.error (RejectedM68kDecode.mk outcome available requested (some 2) (some provenance))
    let destination : Fin 8 := ((word >>> 9).setWidth 3).toFin
    if word = 0x4AFC then rejectWord .illegalInstruction 2
    else if word &&& 0xF100 = 0x7000 ∧ destination = 0 then
      .ok ⟨provenance, .moveq, destination, low⟩
    else if word = 0x5380 then .ok ⟨provenance, .subqL1D0, 0, 0⟩
    else if word &&& 0xFF00 = 0x6600 ∧ low ≠ 0 then .ok ⟨provenance, .bneShort, destination, low⟩
    else if word &&& 0xFF00 = 0x6000 ∧ low ≠ 0 then .ok ⟨provenance, .braShort, destination, low⟩
    else if word &&& 0xFF00 = 0x6600 ∨ word &&& 0xFF00 = 0x6000 then
      if available < 4 then rejectWord .truncatedInstruction 4
      else rejectWord .validButUnsupportedInstruction 4
    else rejectWord .validButUnsupportedInstruction 2

inductive M68kIrKind
  | writeMoveq | subtractQuickLongD0 | branchNeShort | branchAlwaysShort
  deriving DecidableEq, Repr

structure M68kIrOperation where
  provenance : InstructionProvenance
  kind : M68kIrKind
  destination : Fin 8
  operand : BitVec 8
  deriving DecidableEq, Repr

def liftM68kInstruction (instruction : M68kDecodedInstruction) : M68kIrOperation where
  provenance := instruction.provenance
  kind :=
    match instruction.kind with
    | .moveq => .writeMoveq
    | .subqL1D0 => .subtractQuickLongD0
    | .bneShort => .branchNeShort
    | .braShort => .branchAlwaysShort
  destination := instruction.destination
  operand := instruction.operand

def m68kIrIsTransfer (operation : M68kIrOperation) : Bool :=
  operation.kind = .branchNeShort || operation.kind = .branchAlwaysShort

/-! The direct-flow view of instructions and operations. -/

inductive DirectFlowKind
  | moveqD0 | subqL1D0 | bneShort | braShort
  deriving DecidableEq, Repr

structure DirectInstruction where
  provenance : InstructionProvenance
  kind : DirectFlowKind
  operand : BitVec 8
  deriving DecidableEq, Repr

def directKind : M68kInstructionKind → DirectFlowKind
  | .moveq => .moveqD0
  | .subqL1D0 => .subqL1D0
  | .bneShort => .bneShort
  | .braShort => .braShort

/-- The decoder sees the mapped part of the image only; its local offset is projected back. -/
def decode (image : List Byte) (program : DirectFlowProgram) (pc : Address) :
    Except RejectedDirectFlow (DirectInstruction × M68kDecodedInstruction) :=
  let failure := reject .oddInstructionAddress pc
  if pc &&& 1 ≠ 0 then .error failure
  else do
    let mapping ← mappingFor program pc failure
    let localOffset := (pc - mapping.targetBegin).toNat
    let offset := mapping.imageBegin + localOffset
    let mappedImage := (image.drop mapping.imageBegin).take (mapping.imageEnd - mapping.imageBegin)
    match decodeM68kInstruction mappedImage pc localOffset with
    | .error rejected =>
        .error { failure with
          category :=
            match rejected.outcome with
            | .truncatedInstruction => .truncatedInstruction
            | .illegalInstruction => .illegalInstruction
            | _ => .validButUnsupportedInstruction
          availableBytes := rejected.availableBytes
          requestedLength := rejected.requestedLength
          instructionLength := rejected.instructionLength
          provenance := rejected.provenance.map ({ · with imageOffset := offset }) }
    | .ok decoded =>
        let shared := { decoded with provenance := { decoded.provenance with imageOffset := offset } }
        .ok (⟨shared.provenance, directKind shared.kind, shared.operand⟩, shared)

inductive DirectFlowIrKind
  | writeMoveqD0 | subtractQuickLongD0 | branchNeShort | branchAlwaysShort
  deriving DecidableEq, Repr

structure DirectFlowIrOperation where
  provenance : InstructionProvenance
  kind : DirectFlowIrKind
  operand : BitVec 8
  deriving DecidableEq, Repr

def projectDirectOperation (lifted : M68kIrOperation) : DirectFlowIrOperation where
  provenance := lifted.provenance
  kind :=
    match lifted.kind with
    | .writeMoveq => .writeMoveqD0
    | .subtractQuickLongD0 => .subtractQuickLongD0
    | .branchNeShort => .branchNeShort
    | .branchAlwaysShort => .branchAlwaysShort
  operand := lifted.operand

def sharedOperation (operation : DirectFlowIrOperation) : M68kIrOperation where
  provenance := operation.provenance
  kind :=
    match operation.kind with
    | .writeMoveqD0 => .writeMoveq
    | .subtractQuickLongD0 => .subtractQuickLongD0
    | .branchNeShort => .branchNeShort
    | .branchAlwaysShort => .branchAlwaysShort
  destination := 0
  operand := operation.operand

def transfer (operation : DirectFlowIrOperation) : Bool := m68kIrIsTransfer (sharedOperation operation)

/-! Discovery. -/

structure Discovery where
  decoded : List (Address × DirectInstruction × M68kDecodedInstruction) := []
  fifo : List Address
  deriving DecidableEq, Repr

def Discovery.insert (s : Discovery) (entry : Address) : Discovery :=
  if entry ∈ s.fifo then s else { s with fifo := s.fifo ++ [entry] }

def branchTarget (pc : Address) (operand : BitVec 8) : Address := pc + 2 + operand.signExtend 32

/-- The straight-line scan from one entry. `room` bounds the addresses left; it never runs out. -/
def scan (image : List Byte) (program : DirectFlowProgram) (entry : Address) :
    (room : ℕ) → (pc : Address) → Discovery → Except RejectedDirectFlow Discovery
  | 0, _, s => .ok s
  | room + 1, pc, s =>
      if (s.decoded.lookup pc).isSome then .ok s
      else do
        let (instruction, shared) ← decode image program pc
        let s := { s with decoded := s.decoded ++ [(pc, instruction, shared)] }
        let target := branchTarget pc instruction.operand
        match instruction.kind with
        | .moveqD0 | .subqL1D0 =>
            if pc > 0xFFFFFFFD then .error (reject .unmappedInstructionAddress entry)
            else if pc + 2 ∈ s.fifo ∧ pc + 2 ≠ entry then .ok s
            else scan image program entry room (pc + 2) s
        | .bneShort =>
            checkTarget program (pc + 2) entry instruction.provenance
            let s := s.insert (pc + 2)
            checkTarget program target entry instruction.provenance
            .ok (s.insert target)
        | .braShort =>
            checkTarget program target entry instruction.provenance
            .ok (s.insert target)

def discoverFifo (image : List Byte) (program : DirectFlowProgram) :
    (room next : ℕ) → Discovery → Except RejectedDirectFlow Discovery
  | 0, _, s => .ok s
  | room + 1, next, s =>
      match s.fifo[next]? with
      | none => .ok s
      | some entry => do
          let s ← scan image program entry (2 ^ 32) entry s
          discoverFifo image program room (next + 1) s

/-! Blocks and edges. -/

structure BlockProvenance where
  entry : Address
  entryInstruction : InstructionProvenance
  instructions : List InstructionProvenance
  deriving DecidableEq, Repr

structure DirectBlock where
  provenance : BlockProvenance
  operations : List DirectFlowIrOperation
  deriving DecidableEq, Repr

def DirectBlock.entry (block : DirectBlock) : Address := block.provenance.entry

inductive DirectEdgeKind
  | fallthrough | bneTaken | bneFallthrough | braTaken
  deriving DecidableEq, Repr

inductive DirectCondition
  | always | zClear | zSet
  deriving DecidableEq, Repr

structure DirectEdge where
  sourceBlock : Address
  sourceInstruction : InstructionProvenance
  kind : DirectEdgeKind
  condition : DirectCondition
  target : Address
  unresolved : Bool
  unresolvedReason : String
  deriving DecidableEq, Repr

structure DirectFlowAnalysis where
  blocks : List DirectBlock
  edges : List DirectEdge
  decoded : List M68kDecodedInstruction
  ir : List M68kIrOperation
  deriving DecidableEq, Repr

def blockLines (decoded : List (Address × DirectInstruction × M68kDecodedInstruction))
    (entries : List Address) (entry : Address) :
    (room : ℕ) → (pc : Address) → List (InstructionProvenance × DirectFlowIrOperation)
  | 0, _ => []
  | room + 1, pc =>
      match decoded.lookup pc with
      | none => []
      | some (instruction, shared) =>
          let operation := projectDirectOperation (liftM68kInstruction shared)
          (instruction.provenance, operation) ::
            if transfer operation ∨ (pc + 2 ≠ entry ∧ pc + 2 ∈ entries) then []
            else blockLines decoded entries entry room (pc + 2)

def buildBlock (decoded : List (Address × DirectInstruction × M68kDecodedInstruction))
    (entries : List Address) (entry : Address) : Except RejectedDirectFlow DirectBlock :=
  match blockLines decoded entries entry (2 ^ 32) entry with
  | [] => .error (reject .unmappedInstructionAddress entry)
  | line :: lines =>
      .ok ⟨⟨entry, line.1, (line :: lines).map (·.1)⟩, (line :: lines).map (·.2)⟩

def edgeTo (program : DirectFlowProgram) (block : DirectBlock) (last : DirectFlowIrOperation)
    (kind : DirectEdgeKind) (condition : DirectCondition) (target : Address) : DirectEdge :=
  let unresolved := program.unresolvedTargets.contains target
  ⟨block.entry, last.provenance, kind, condition, target, unresolved,
    if unresolved then "persisted_unresolved" else ""⟩

def blockEdges (program : DirectFlowProgram) (block : DirectBlock) : List DirectEdge :=
  match block.operations.getLast? with
  | none => []
  | some last =>
      let source := last.provenance.address
      match last.kind with
      | .branchNeShort =>
          [edgeTo program block last .bneFallthrough .zSet (source + 2),
           edgeTo program block last .bneTaken .zClear (branchTarget source last.operand)]
      | .branchAlwaysShort =>
          [edgeTo program block last .braTaken .always (branchTarget source last.operand)]
      | _ =>
          [edgeTo program block last .fallthrough .always (source + BitVec.ofNat 32 last.provenance.length)]

def discoverEntries (image : List Byte) (program : DirectFlowProgram) (suppliedEntries : List Address) :
    Except RejectedDirectFlow DirectFlowAnalysis :=
  if suppliedEntries = [] then .error (reject .unmappedInstructionAddress program.resetEntry)
  else
    match suppliedEntries.find? (fun entry => entry &&& 1 ≠ 0) with
    | some entry => .error (reject .oddInstructionAddress entry)
    | none =>
        match program.mappings.find? (fun mapping => !mappingIsValid mapping image.length) with
        | some mapping =>
            .error { reject .invalidAddressMapping program.resetEntry with mappingClaims := [mapping] }
        | none => do
            let seeded := suppliedEntries.foldl Discovery.insert { fifo := [] }
            let s ← discoverFifo image program (2 ^ 32 + 1) 0 seeded
            let blocks ← (s.fifo.insertionSort (· ≤ ·)).mapM (buildBlock s.decoded s.fifo)
            .ok {
              blocks := blocks.insertionSort (fun left right => left.entry ≤ right.entry)
              edges := blocks.flatMap (blockEdges program)
              decoded := s.decoded.map (·.2.2)
              ir := s.decoded.map (fun line => liftM68kInstruction line.2.2) }

def discover (image : List Byte) (program : DirectFlowProgram) :
    Except RejectedDirectFlow DirectFlowAnalysis :=
  discoverEntries image program [program.resetEntry]

/-! Execution. -/

structure DirectFlowState where
  d : Fin 8 → BitVec 32
  pc : Address
  sr : BitVec 16

def m68kMoveResultCcr (statusRegister : BitVec 16) (result : BitVec 32) : BitVec 16 :=
  (statusRegister &&& 0xFFF0) ||| (if result = 0 then 0x0004 else 0) |||
    (if result &&& 0x80000000 ≠ 0 then 0x0008 else 0)

def executeOp (operation : DirectFlowIrOperation) (state : DirectFlowState) : DirectFlowState :=
  match operation.kind with
  | .writeMoveqD0 =>
      let value := operation.operand.signExtend 32
      { state with d := Function.update state.d 0 value, sr := m68kMoveResultCcr state.sr value }
  | .subtractQuickLongD0 =>
      let old := state.d 0
      let value := old - 1
      let flags : BitVec 32 := (if value = 0 then 4 else 0) |||
        (if value &&& 0x80000000 ≠ 0 then 8 else 0) ||| (if old = 0x80000000 then 2 else 0) |||
        (if old = 0 then 0x11 else 0)
      { state with
        d := Function.update state.d 0 value
        sr := (((state.sr &&& 0xFFE0).setWidth 32) ||| flags).setWidth 16 }
  | .branchNeShort | .branchAlwaysShort => state

def choose (analysis : DirectFlowAnalysis) (block : DirectBlock) (sr : BitVec 16) : Option DirectEdge :=
  analysis.edges.find? (fun edge => edge.sourceBlock = block.entry &&
    (edge.condition = .always || (decide (edge.condition = .zClear) == decide (sr &&& 4 = 0))))

def blockAt (analysis : DirectFlowAnalysis) (pc : Address) : Option DirectBlock :=
  analysis.blocks.find? (fun block => block.entry = pc)

structure BlockBoundary where
  ordinal : ℕ
  block : BlockProvenance
  incomingEdge : Option DirectEdge
  incomingIsResetSeed : Bool
  state : DirectFlowState
  outgoingEdge : Option DirectEdge
  executedBlocks : ℕ
  budget : ℕ
  stopReason : String

structure DirectFlowExecution where
  boundaries : List BlockBoundary
  finalState : DirectFlowState
  stopReason : String

/-- The block loop; `room` is `budget - done`, so it is spent exactly when `done == budget`. -/
def executeLoop (analysis : DirectFlowAnalysis) (budget : ℕ) : (room done : ℕ) →
    (incoming : Option DirectEdge) → (incomingIsResetSeed : Bool) → List BlockBoundary →
    DirectFlowState → Except RejectedDirectFlow DirectFlowExecution
  | 0, _, _, _, boundaries, state => .ok ⟨boundaries, state, "instruction_budget_exhausted"⟩
  | room + 1, done, incoming, incomingIsResetSeed, boundaries, state =>
      match blockAt analysis state.pc with
      | none => .error { reject .unmappedDirectTarget state.pc with target := some state.pc }
      | some block =>
          let state := block.operations.foldl (fun state operation => executeOp operation state) state
          match choose analysis block state.sr with
          | none => .error (reject .unmappedDirectTarget block.entry)
          | some edge =>
              if edge.unresolved then
                .error { reject .reachedUnresolvedDirectEdge block.entry (some edge.sourceInstruction) with
                  target := some edge.target, unresolvedReason := edge.unresolvedReason }
              else
                let state := { state with pc := edge.target }
                let done := done + 1
                let stopReason := if done = budget then "instruction_budget_exhausted" else "continue"
                executeLoop analysis budget room done (some edge) false
                  (boundaries ++ [⟨done, block.provenance, incoming, incomingIsResetSeed, state, some edge, done,
                    budget, stopReason⟩]) state

def execute (analysis : DirectFlowAnalysis) (state : DirectFlowState) (budget : ℕ) :
    Except RejectedDirectFlow DirectFlowExecution :=
  if budget = 0 then .error (reject .validButUnsupportedInstruction state.pc)
  else
    match blockAt analysis state.pc with
    | none => .error (reject .unmappedDirectTarget state.pc)
    | some initialBlock =>
        executeLoop analysis budget budget 0 none true
          [⟨0, initialBlock.provenance, none, true, state, none, 0, budget, "continue"⟩] state

/-! The MC68000 meaning of the four instructions, with the condition codes as X N Z V C. -/

def ccr (sr : BitVec 16) (x n z v c : Bool) : BitVec 16 :=
  (sr &&& 0xFFE0) ||| (if x then 0x10 else 0) ||| (if n then 8 else 0) ||| (if z then 4 else 0) |||
    (if v then 2 else 0) ||| (if c then 1 else 0)

def zFlag (sr : BitVec 16) : Bool := sr.getLsbD 2
def xFlag (sr : BitVec 16) : Bool := sr.getLsbD 4

def instrEffect (instruction : DirectInstruction) (s : DirectFlowState) : DirectFlowState :=
  match instruction.kind with
  | .moveqD0 =>
      let result := instruction.operand.signExtend 32
      { d := Function.update s.d 0 result, pc := s.pc + 2,
        sr := ccr s.sr (xFlag s.sr) result.msb (result = 0) false false }
  | .subqL1D0 =>
      let result := s.d 0 - 1
      let borrow := decide ((s.d 0).toNat < 1)
      { d := Function.update s.d 0 result, pc := s.pc + 2,
        sr := ccr s.sr borrow result.msb (result = 0) ((s.d 0).ssubOverflow 1) borrow }
  | .bneShort => { s with pc := if zFlag s.sr then s.pc + 2 else branchTarget s.pc instruction.operand }
  | .braShort => { s with pc := branchTarget s.pc instruction.operand }

end Segarecomp.M68k.DirectFlow

import Mathlib
import Segarecomp.M68k.StaticDiscovery

/-! The static graph walk: one FIFO worklist, boundary sets at which a walk stitches instead of
walking on, and the issues of what it could not decode or validate. -/

namespace Segarecomp.M68k.StaticDiscovery

open DirectFlow (Address Byte InstructionProvenance MappingClaim)
open Effects (MemoryAccessWidth)

local instance addressLawfulBEq : LawfulBEq Address := inferInstance

structure M68kStaticCall where
  caller : InstructionProvenance
  continuation : Address
  callee : Address
  deriving DecidableEq, Repr

inductive M68kStaticEdgeKind where
  | fallthrough | directCall | returnToContinuation | directBranch | indirectBranch | indirectCall
  | fallthroughContinuation
  deriving DecidableEq, Repr

structure M68kStaticEdge where
  sourceInstruction : InstructionProvenance
  kind : M68kStaticEdgeKind
  target : Address
  call : Option M68kStaticCall := none
  deriving DecidableEq, Repr

structure M68kStaticFrame where
  call : M68kStaticCall
  deriving DecidableEq, Repr

structure M68kIndirectTargetEaSet where
  sourceInstruction : InstructionProvenance
  controlEa : M68kEffectiveAddress
  candidates : List Address
  deriving DecidableEq, Repr

structure M68kUnprovenIndirectControlEaSet where
  sourceInstruction : InstructionProvenance
  controlEa : M68kEffectiveAddress
  isCall : Bool
  deriving DecidableEq, Repr

def m68kMakeStaticCall (call : M68kDecodedInstruction) (calleeAddress : Address) : M68kStaticCall :=
  ⟨call.provenance, call.provenance.address + BitVec.ofNat 32 call.provenance.length, calleeAddress⟩

def m68kMakeStaticCallEdge (call : M68kStaticCall) : M68kStaticEdge :=
  ⟨call.caller, .directCall, call.callee, some call⟩

def m68kMakeStaticReturnEdge (call : M68kStaticCall) (returnInstruction : M68kDecodedInstruction) :
    M68kStaticEdge :=
  ⟨returnInstruction.provenance, .returnToContinuation, call.continuation, some call⟩

/-- `std::map` and the entry order are one list in insertion order; each `std::set` is a `Finset`.
`visited_states_` is the loop's own. -/
structure M68kStaticGraphWalker where
  worklist : List Address := []
  decodeCache : List (Address × M68kDecodedInstruction) := []
  decodeOrder : List Address := []
  blockEntryOrder : List Address := []
  instructionsUsed : ℕ := 0
  completionRts : Option InstructionProvenance := none
  branchEdgesEmitted : Finset Address := ∅
  callsEmitted : Finset Address := ∅
  acceptedBranchTargets : List (Address × InstructionProvenance) := []
  edges : List M68kStaticEdge := []
  frames : List M68kStaticFrame := []
  indirectEmitted : Finset Address := ∅
  indirectTargetEaSets : List M68kIndirectTargetEaSet := []
  unprovenIndirectControlEaSets : List M68kUnprovenIndirectControlEaSet := []
  tier2EligibleControlSources : Finset Address := ∅
  deferredIndirectAn : List Address := []
  indirectAnFinalPass : Bool := false
  stitchedBoundaryEdges : BitVec 32 := 0
  stitchedBoundaryAddresses : Finset Address := ∅
  stitchedFallthroughContinuationEdges : BitVec 32 := 0
  continuationEdgesEmitted : Finset Address := ∅
  nextPcReached : Finset Address := ∅
  controlTargetReached : Finset Address := ∅
  fallthroughContinuationFrontier : List Address := []
  resolvedControlTargetFrontier : List Address := []
  primaryIssue : Option M68kDiscoveryIssue := none
  secondaryIssues : List M68kDiscoveryIssue := []
  deriving DecidableEq

/-- The finite-value analyses: the candidates a computed control transfer was proven to have, from
what the walk has decoded and the edges it has, and the calls each reachable return belongs to. -/
structure Analyses where
  computeIndirectTargetSet : M68kStaticGraphWalker → Address → M68kDecodedInstruction → Option (List Address)
  computeIndirectTargetSetAn : M68kStaticGraphWalker → Address → M68kDecodedInstruction → Option (List Address)
  reachableReturns : List (Address × M68kDecodedInstruction) → List M68kStaticFrame →
    List (M68kStaticCall × M68kDecodedInstruction)

/-- What a walker is built with. -/
structure Pass where
  environment : M68kStaticDiscoveryEnvironment
  decoder : Decoder
  analyses : Analyses
  maxInstructions : ℕ
  entry : Address
  boundaries : Finset Address
  continuationBoundaries : Finset Address

/-- A walker after an operation, with the failure it recorded. -/
abbrev Outcome := M68kStaticGraphWalker × Option M68kDiscoveryIssue

def Outcome.andThen : Outcome → (M68kStaticGraphWalker → Outcome) → Outcome
  | (w, none), next => next w
  | (w, some issue), _ => (w, some issue)

namespace M68kStaticGraphWalker

def cached (w : M68kStaticGraphWalker) (address : Address) : Option M68kDecodedInstruction :=
  (w.decodeCache.find? (·.1 = address)).map Prod.snd

def accept (w : M68kStaticGraphWalker) (target : Address) (source : InstructionProvenance) :
    M68kStaticGraphWalker :=
  { w with acceptedBranchTargets := w.acceptedBranchTargets ++ [(target, source)] }

def noteBlockEntry (w : M68kStaticGraphWalker) (address : Address) : M68kStaticGraphWalker :=
  if address ∈ w.blockEntryOrder then w else { w with blockEntryOrder := w.blockEntryOrder ++ [address] }

def enqueueControlTarget (pass : Pass) (w : M68kStaticGraphWalker) (target : Address) :
    M68kStaticGraphWalker :=
  if target ≠ pass.entry ∧ target ∈ pass.boundaries then
    { w with stitchedBoundaryEdges := w.stitchedBoundaryEdges + 1
             stitchedBoundaryAddresses := insert target w.stitchedBoundaryAddresses }
  else { w with controlTargetReached := insert target w.controlTargetReached
                worklist := w.worklist ++ [target] }

def continuationEdge (source : InstructionProvenance) (nextPc : Address) : M68kStaticEdge :=
  ⟨source, .fallthroughContinuation, nextPc, none⟩

def enqueueNextPc (pass : Pass) (w : M68kStaticGraphWalker) (nextPc : Address)
    (source : InstructionProvenance) : M68kStaticGraphWalker :=
  if nextPc ≠ pass.entry ∧ nextPc ∈ pass.continuationBoundaries then
    let w := w.noteBlockEntry nextPc
    if source.address ∈ w.continuationEdgesEmitted then w
    else { w with continuationEdgesEmitted := insert source.address w.continuationEdgesEmitted
                  edges := w.edges ++ [continuationEdge source nextPc]
                  stitchedFallthroughContinuationEdges := w.stitchedFallthroughContinuationEdges + 1 }
  else { w with nextPcReached := insert nextPc w.nextPcReached
                worklist := w.worklist ++ [nextPc] }

def emitBranch (w : M68kStaticGraphWalker) (address : Address) (edges : List M68kStaticEdge) :
    M68kStaticGraphWalker :=
  if address ∈ w.branchEdgesEmitted then w
  else { w with branchEdgesEmitted := insert address w.branchEdgesEmitted, edges := w.edges ++ edges }

def emitCall (w : M68kStaticGraphWalker) (address : Address) (call : M68kStaticCall) :
    M68kStaticGraphWalker :=
  if address ∈ w.callsEmitted then w
  else { w with callsEmitted := insert address w.callsEmitted
                frames := w.frames ++ [⟨call⟩]
                edges := w.edges ++ [m68kMakeStaticCallEdge call] }

end M68kStaticGraphWalker

open M68kStaticGraphWalker

/-! ## Direct-branch targets -/

/-- `std::prev(entries.upper_bound(target))`: the entry with the greatest address up to `target`. -/
def entryUpTo (entries : List (Address × M68kDecodedInstruction)) (target : Address) :
    Option (Address × M68kDecodedInstruction) :=
  entries.foldl (fun best entry =>
    if entry.1 ≤ target ∧ best.all (fun old => old.1 < entry.1) then some entry else best) none

/-- `target` lies strictly inside the span that starts at `begin`. -/
def InsideSpan (target start : Address) (length : ℕ) : Prop :=
  start < target ∧ target.toNat < start.toNat + length

instance (target start : Address) (length : ℕ) : Decidable (InsideSpan target start length) :=
  inferInstanceAs (Decidable (_ ∧ _))

/-- What `validate_branch_target` finds wrong with a target. -/
def branchTargetIssue (pass : Pass) (entries : List (Address × M68kDecodedInstruction)) (target : Address)
    (source : InstructionProvenance) : Option M68kDiscoveryIssue :=
  if target &&& 1 ≠ 0 then some (provenanceIssue .oddDirectTarget source (some target))
  else
    match pass.environment.admitTarget target .directBranch with
    | some mapping =>
      let issue := provenanceIssue mapping.category source (some target)
      some (if mapping.category = .conflictingAddressMapping then
        { issue with mappingClaims := some mapping.matchedClaims } else issue)
    | none =>
      if (entryUpTo entries target).any (fun prev => InsideSpan target prev.1 prev.2.provenance.length) then
        some (provenanceIssue .midInstructionDirectTarget source (some target))
      else none

def validateBranchTarget (pass : Pass) (w : M68kStaticGraphWalker) (target : Address)
    (source : InstructionProvenance) : Outcome :=
  match branchTargetIssue pass w.decodeCache target source with
  | some issue => (w, some issue)
  | none => (w.accept target source, none)

/-! ## Decoding -/

/-- The ceiling: one probe of what stands at the address, which no other state sees. -/
def budgetExhausted (pass : Pass) (w : M68kStaticGraphWalker) (pc : Address) :
    M68kStaticGraphWalker × M68kDiscoveryIssue :=
  match decodedAt pass.environment pass.decoder pc with
  | .ok (_, probe) =>
    let issue := { provenanceIssue .discoveryBudgetExhausted probe.provenance with
      setPcBasedImageOffset := true, reconstructSingleMappingClaim := true
      reconstructInstructionReadAccess := true }
    if pc ∈ w.nextPcReached ∧ pc ∉ w.fallthroughContinuationFrontier then
      ({ w with fallthroughContinuationFrontier := w.fallthroughContinuationFrontier ++ [pc] }, issue)
    else if pc ∉ w.nextPcReached ∧ pc ∈ w.controlTargetReached ∧ pc ∉ w.resolvedControlTargetFrontier then
      ({ w with resolvedControlTargetFrontier := w.resolvedControlTargetFrontier ++ [pc] }, issue)
    else (w, issue)
  | .error _ =>
    (w, { category := .discoveryBudgetExhausted, address := pc
          unresolvedReason := some "m68k_discovery_max_instructions" })

/-- An accepted direct-branch target strictly inside a span. -/
def acceptedInside (w : M68kStaticGraphWalker) (pc : Address) (length : ℕ) :
    Option (Address × InstructionProvenance) :=
  w.acceptedBranchTargets.find? fun accepted => InsideSpan accepted.1 pc length

def decodeInstruction (pass : Pass) (w : M68kStaticGraphWalker) (pc : Address) :
    M68kStaticGraphWalker × Except M68kDiscoveryIssue M68kDecodedInstruction :=
  if w.instructionsUsed = pass.maxInstructions then
    let exhausted := budgetExhausted pass w pc
    (exhausted.1, .error exhausted.2)
  else
    match decodedAt pass.environment pass.decoder pc with
    | .error issue => (w, .error issue)
    | .ok (source, decoded) =>
      let w := { w with decodeCache := w.decodeCache ++ [(pc, decoded)] }
      match spanIssue pass.environment pc source decoded with
      | some issue => (w, .error issue)
      | none =>
        match acceptedInside w pc decoded.provenance.length with
        | some accepted =>
          (w, .error (provenanceIssue .midInstructionDirectTarget accepted.2 (some accepted.1)))
        | none => ({ w with instructionsUsed := w.instructionsUsed + 1 }, .ok decoded)

/-! ## Computed control transfers -/

def recordUnprovenTier2Owner (w : M68kStaticGraphWalker) (address : Address)
    (decoded : M68kDecodedInstruction) : M68kStaticGraphWalker :=
  if address ∈ w.indirectEmitted then w
  else { w with
    indirectEmitted := insert address w.indirectEmitted
    unprovenIndirectControlEaSets := w.unprovenIndirectControlEaSets ++
      [⟨decoded.provenance, decoded.sourceEa, decoded.kind = .jsr⟩] }

def unresolvedEdge (decoded : M68kDecodedInstruction) : M68kDiscoveryIssue :=
  provenanceIssue .reachedUnresolvedDirectEdge decoded.provenance

def emitCandidate (decoded : M68kDecodedInstruction) (w : M68kStaticGraphWalker) (candidate : Address) :
    M68kStaticGraphWalker :=
  let w := w.noteBlockEntry candidate
  if decoded.kind = .jsr then
    let call := m68kMakeStaticCall decoded candidate
    { w with frames := w.frames ++ [⟨call⟩]
             edges := w.edges ++ [⟨decoded.provenance, .indirectCall, candidate, some call⟩] }
  else { w with edges := w.edges ++ [⟨decoded.provenance, .indirectBranch, candidate, none⟩] }

def retainSet (w : M68kStaticGraphWalker) (address : Address) (decoded : M68kDecodedInstruction)
    (candidates : List Address) : M68kStaticGraphWalker :=
  { w with
    indirectEmitted := insert address w.indirectEmitted
    indirectTargetEaSets := w.indirectTargetEaSets ++ [⟨decoded.provenance, decoded.sourceEa, candidates⟩] }

/-- The set of a computed transfer, with one edge for each candidate and the continuation of a call. -/
def emitCandidateSet (pass : Pass) (w : M68kStaticGraphWalker) (address : Address)
    (decoded : M68kDecodedInstruction) (candidates : List Address) : M68kStaticGraphWalker :=
  let w := candidates.foldl (emitCandidate decoded) (retainSet w address decoded candidates)
  if decoded.kind = .jsr then
    let nextPc := address + BitVec.ofNat 32 decoded.provenance.length
    (w.noteBlockEntry nextPc).enqueueNextPc pass nextPc decoded.provenance
  else w

/-- The admitted candidates of a computed transfer: its set once, then its work. -/
def emitCandidates (pass : Pass) (w : M68kStaticGraphWalker) (address : Address)
    (decoded : M68kDecodedInstruction) (candidates : List Address) : M68kStaticGraphWalker :=
  candidates.foldl (enqueueControlTarget pass)
    (if address ∈ w.indirectEmitted then w else emitCandidateSet pass w address decoded candidates)

def everyCandidateAdmitted (pass : Pass) (candidates : List Address) : Bool :=
  candidates.all fun candidate => (pass.environment.admitTarget candidate .directCall).isNone

def markTier2Eligible (w : M68kStaticGraphWalker) (address : Address) : M68kStaticGraphWalker :=
  { w with tier2EligibleControlSources := insert address w.tier2EligibleControlSources }

def processIndirectControl (pass : Pass) (w : M68kStaticGraphWalker) (address : Address)
    (decoded : M68kDecodedInstruction) : Outcome :=
  let eligible := !decoded.sourceEa.indexIsAddress && !decoded.sourceEa.indexIsLong
  let w := if eligible then markTier2Eligible w address else w
  let unproven := if eligible then recordUnprovenTier2Owner w address decoded else w
  match pass.analyses.computeIndirectTargetSet w address decoded with
  | none => (unproven, some (unresolvedEdge decoded))
  | some candidates =>
    if everyCandidateAdmitted pass candidates then (emitCandidates pass w address decoded candidates, none)
    else (unproven, some (unresolvedEdge decoded))

/-- A7 is not eligible for the finite address proof. -/
def m68kAnFiniteProofEligible (reg : BitVec 8) : Bool := reg < 7

def processIndirectControlAn (pass : Pass) (w : M68kStaticGraphWalker) (address : Address)
    (decoded : M68kDecodedInstruction) : Outcome :=
  if ¬m68kAnFiniteProofEligible decoded.sourceEa.reg then (w, some (unresolvedEdge decoded))
  else
    let w := markTier2Eligible w address
    match pass.analyses.computeIndirectTargetSetAn w address decoded with
    | none =>
      if ¬w.indirectAnFinalPass then
        (if address ∈ w.deferredIndirectAn then w
          else { w with deferredIndirectAn := w.deferredIndirectAn ++ [address] }, none)
      else (recordUnprovenTier2Owner w address decoded, some (unresolvedEdge decoded))
    | some candidates =>
      if everyCandidateAdmitted pass candidates then (emitCandidates pass w address decoded candidates, none)
      else (recordUnprovenTier2Owner w address decoded, some (unresolvedEdge decoded))

def processIndirectControlIndex8 (w : M68kStaticGraphWalker) (address : Address)
    (decoded : M68kDecodedInstruction) : Outcome :=
  (recordUnprovenTier2Owner w address decoded, some (unresolvedEdge decoded))

/-! ## One address -/

def signedDisplacement (decoded : M68kDecodedInstruction) : BitVec 32 :=
  if decoded.size = .byte then (decoded.sourceEa.immediateValue.setWidth 8).signExtend 32
  else (decoded.sourceEa.immediateValue.setWidth 16).signExtend 32

/-- The shared body of a direct call. -/
def dispatchCall (pass : Pass) (w : M68kStaticGraphWalker) (address : Address)
    (decoded : M68kDecodedInstruction) (target : Address) : Outcome :=
  let nextPc := address + BitVec.ofNat 32 decoded.provenance.length
  let call := m68kMakeStaticCall decoded target
  let w := (w.noteBlockEntry call.callee).noteBlockEntry nextPc
  let w := (w.emitCall address call).enqueueControlTarget pass call.callee
  (w.enqueueNextPc pass nextPc decoded.provenance, none)

/-- `JMP` and `JSR`, folded statically or computed. -/
def dispatchJump (pass : Pass) (w : M68kStaticGraphWalker) (address : Address)
    (decoded : M68kDecodedInstruction) : Outcome :=
  let source := decoded.provenance
  if ¬m68kIsStaticallyFoldableControlEa decoded.sourceEa then
    if decoded.sourceEa.mode = .pcIndex8 then processIndirectControl pass w address decoded
    else if decoded.sourceEa.mode = .addressIndirect ∧ decoded.sourceEa.displacement = 0 ∧
        decoded.sourceEa.extensionWords = 0 then processIndirectControlAn pass w address decoded
    else if decoded.sourceEa.mode = .addressIndex8 then processIndirectControlIndex8 w address decoded
    else (w, some (unresolvedEdge decoded))
  else
    let target := m68kCanonicalEaAddress decoded.sourceEa
    match pass.environment.admitTarget target .directCall with
    | some callIssue => (w, some (provenanceIssue callIssue.category source (some target)))
    | none =>
      if decoded.kind = .jmp then
        let w := (w.noteBlockEntry target).emitBranch address [⟨source, .directBranch, target, none⟩]
        (w.enqueueControlTarget pass target, none)
      else dispatchCall pass w address decoded target

/-- The successors of a decoded instruction, by its kind. -/
def dispatch (pass : Pass) (w : M68kStaticGraphWalker) (address : Address)
    (decoded : M68kDecodedInstruction) : Outcome :=
  let source := decoded.provenance
  let nextPc := address + BitVec.ofNat 32 source.length
  let twoEdges (taken : Address) : List M68kStaticEdge :=
    [⟨source, .fallthrough, nextPc, none⟩, ⟨source, .directBranch, taken, none⟩]
  match decoded.kind with
  | .bneShort =>
    let taken := m68kBranchTarget address (decoded.operand.signExtend 32)
    (validateBranchTarget pass w nextPc source).andThen fun w =>
      (validateBranchTarget pass w taken source).andThen fun w =>
        let w := ((w.noteBlockEntry nextPc).noteBlockEntry taken).emitBranch address (twoEdges taken)
        ((w.enqueueNextPc pass nextPc source).enqueueControlTarget pass taken, none)
  | .braShort =>
    let taken := m68kBranchTarget address (decoded.operand.signExtend 32)
    (validateBranchTarget pass w taken source).andThen fun w =>
      let w := (w.noteBlockEntry taken).emitBranch address [⟨source, .directBranch, taken, none⟩]
      (w.enqueueControlTarget pass taken, none)
  | .branch =>
    let taken := m68kBranchTarget address (signedDisplacement decoded)
    (validateBranchTarget pass w taken source).andThen fun w =>
      let w := w.noteBlockEntry taken
      if decoded.condition = .always then
        ((w.emitBranch address [⟨source, .directBranch, taken, none⟩]).enqueueControlTarget pass taken, none)
      else
        (validateBranchTarget pass w nextPc source).andThen fun w =>
          let w := (w.noteBlockEntry nextPc).emitBranch address (twoEdges taken)
          ((w.enqueueNextPc pass nextPc source).enqueueControlTarget pass taken, none)
  | .rts =>
    (if pass.environment.isCompletionRts source then { w with completionRts := some source } else w, none)
  | .rte | .rtr | .instructionException => (w, none)
  | .jmp | .jsr => dispatchJump pass w address decoded
  | .bsr =>
    let target := m68kBranchTarget address (signedDisplacement decoded)
    match pass.environment.admitTarget target .directCall with
    | some callIssue => (w, some (provenanceIssue callIssue.category source (some target)))
    | none => dispatchCall pass w address decoded target
  | .dbcc =>
    let taken := m68kBranchTarget address
      ((decoded.sourceEa.immediateValue.setWidth 16).signExtend 32)
    (validateBranchTarget pass w taken source).andThen fun w =>
      (validateBranchTarget pass w nextPc source).andThen fun w =>
        let w := ((w.noteBlockEntry taken).noteBlockEntry nextPc).emitBranch address (twoEdges taken)
        ((w.enqueueNextPc pass nextPc source).enqueueControlTarget pass taken, none)
  | _ =>
    let w := if (w.cached nextPc).isSome then w.noteBlockEntry nextPc else w
    (w.enqueueNextPc pass nextPc source, none)

def processOne (pass : Pass) (w : M68kStaticGraphWalker) (address : Address) : Outcome :=
  match w.cached address with
  | some decoded => dispatch pass w address decoded
  | none =>
    match decodeInstruction pass w address with
    | (w, .error issue) => (w, some issue)
    | (w, .ok decoded) => dispatch pass { w with decodeOrder := w.decodeOrder ++ [address] } address decoded

/-! ## The walk -/

/-- The first failure is the primary issue. -/
def recordFailure : Outcome → M68kStaticGraphWalker
  | (w, none) => w
  | (w, some issue) =>
    if w.primaryIssue.isSome then { w with secondaryIssues := w.secondaryIssues ++ [issue] }
    else { w with primaryIssue := some issue }

/-- Takes the front of the worklist, and processes it unless it was visited. -/
def drainStep (pass : Pass) : Finset Address × M68kStaticGraphWalker → Finset Address × M68kStaticGraphWalker
  | (visited, w) =>
    match w.worklist with
    | [] => (visited, w)
    | address :: rest =>
      if address ∈ visited then (visited, { w with worklist := rest })
      else (insert address visited, recordFailure (processOne pass { w with worklist := rest } address))

theorem drainStep_lt (pass : Pass) (s : Finset Address × M68kStaticGraphWalker) (busy : s.2.worklist ≠ []) :
    Prod.Lex (· < ·) (· < ·) ((Finset.univ \ (drainStep pass s).1).card, (drainStep pass s).2.worklist.length)
      ((Finset.univ \ s.1).card, s.2.worklist.length) := by
  obtain ⟨visited, w⟩ := s
  cases front : w.worklist with
  | nil => exact absurd front busy
  | cons address rest =>
    by_cases old : address ∈ visited
    · simp only [drainStep, front, if_pos old, List.length_cons]
      exact .right _ (Nat.lt_succ_self _)
    · simp only [drainStep, front, if_neg old]
      refine .left _ _ (Finset.card_lt_card ?_)
      rw [Finset.ssubset_iff_of_subset (Finset.sdiff_subset_sdiff subset_rfl (Finset.subset_insert _ _))]
      exact ⟨address, by simp [old], by simp⟩

def drain (pass : Pass) (s : Finset Address × M68kStaticGraphWalker) : Finset Address × M68kStaticGraphWalker :=
  if s.2.worklist = [] then s else drain pass (drainStep pass s)
termination_by ((Finset.univ \ s.1).card, s.2.worklist.length)
decreasing_by exact drainStep_lt pass s ‹_›

def start (pass : Pass) : M68kStaticGraphWalker :=
  { blockEntryOrder := [pass.entry], worklist := [pass.entry] }

/-- The one retry of the deferred sites, once every reachable callee is decoded. -/
def finalIndirectPass (pass : Pass) (w : M68kStaticGraphWalker) : M68kStaticGraphWalker :=
  w.deferredIndirectAn.foldl (fun w site =>
    match w.cached site with
    | none => w
    | some decoded => recordFailure (processIndirectControlAn pass w site decoded))
    { w with indirectAnFinalPass := true }

structure M68kStaticDiscoveryResult where
  decodeCache : List (Address × M68kDecodedInstruction)
  decodeOrder : List Address
  blockEntries : List Address
  edges : List M68kStaticEdge
  frames : List M68kStaticFrame
  indirectTargetEaSets : List M68kIndirectTargetEaSet
  unprovenIndirectControlEaSets : List M68kUnprovenIndirectControlEaSet
  ownerlessTier2EligibleControlSources : Finset Address
  completionRts : Option InstructionProvenance
  primaryIssue : Option M68kDiscoveryIssue
  secondaryIssues : List M68kDiscoveryIssue
  stitchedBoundaryEdges : BitVec 32
  stitchedBoundaryAddresses : Finset Address
  stitchedFallthroughContinuationEdges : BitVec 32
  fallthroughContinuationFrontier : List Address
  resolvedControlTargetFrontier : List Address

def synthesizeReturnEdges (pass : Pass) (w : M68kStaticGraphWalker) : List M68kStaticEdge :=
  (pass.analyses.reachableReturns w.decodeCache w.frames).map fun found =>
    m68kMakeStaticReturnEdge found.1 found.2

def result (pass : Pass) (w : M68kStaticGraphWalker) : M68kStaticDiscoveryResult :=
  { decodeCache := w.decodeCache, decodeOrder := w.decodeOrder, blockEntries := w.blockEntryOrder
    edges := w.edges ++ synthesizeReturnEdges pass w, frames := w.frames
    indirectTargetEaSets := w.indirectTargetEaSets
    unprovenIndirectControlEaSets := w.unprovenIndirectControlEaSets
    ownerlessTier2EligibleControlSources := w.tier2EligibleControlSources \ w.indirectEmitted
    completionRts := w.completionRts, primaryIssue := w.primaryIssue, secondaryIssues := w.secondaryIssues
    stitchedBoundaryEdges := w.stitchedBoundaryEdges
    stitchedBoundaryAddresses := w.stitchedBoundaryAddresses
    stitchedFallthroughContinuationEdges := w.stitchedFallthroughContinuationEdges
    fallthroughContinuationFrontier := w.fallthroughContinuationFrontier
    resolvedControlTargetFrontier := w.resolvedControlTargetFrontier }

def discoverM68kStaticGraph (pass : Pass) : M68kStaticDiscoveryResult :=
  let drained := drain pass (∅, start pass)
  if drained.2.deferredIndirectAn = [] then result pass drained.2
  else result pass (drain pass (drained.1, finalIndirectPass pass drained.2)).2

end Segarecomp.M68k.StaticDiscovery

import Mathlib
import Segarecomp.M68k.StaticWalk

/-! What one address of the static walk adds: the flow of a decoded instruction as data, and the
walker after an instruction whose targets pass. -/

namespace Segarecomp.M68k.StaticDiscovery

open DirectFlow (Address Byte InstructionProvenance MappingClaim)
open M68kStaticGraphWalker

/-- The direct flow of an instruction: the branch targets it validates, the call target it has
admitted, its edges and frames, and its two kinds of successor. -/
structure Flow where
  targets : List Address := []
  callee : Option Address := none
  edges : List M68kStaticEdge := []
  frames : List M68kStaticFrame := []
  control : Option Address := none
  next : Option Address := none

def nextPc (address : Address) (decoded : M68kDecodedInstruction) : Address :=
  address + BitVec.ofNat 32 decoded.provenance.length

def twoWayFlow (address : Address) (decoded : M68kDecodedInstruction) (taken : Address) : Flow :=
  { targets := [nextPc address decoded, taken]
    edges := [⟨decoded.provenance, .fallthrough, nextPc address decoded, none⟩,
      ⟨decoded.provenance, .directBranch, taken, none⟩]
    control := some taken, next := some (nextPc address decoded) }

def oneWayFlow (decoded : M68kDecodedInstruction) (taken : Address) : Flow :=
  { targets := [taken], edges := [⟨decoded.provenance, .directBranch, taken, none⟩], control := some taken }

def jumpFlow (decoded : M68kDecodedInstruction) (target : Address) : Flow :=
  { callee := some target, edges := [⟨decoded.provenance, .directBranch, target, none⟩]
    control := some target }

def callFlow (address : Address) (decoded : M68kDecodedInstruction) (target : Address) : Flow :=
  let call := m68kMakeStaticCall decoded target
  { callee := some target, edges := [m68kMakeStaticCallEdge call], frames := [⟨call⟩]
    control := some target, next := some (nextPc address decoded) }

def flow (address : Address) (decoded : M68kDecodedInstruction) : Flow :=
  match decoded.kind with
  | .bneShort => twoWayFlow address decoded (m68kBranchTarget address (decoded.operand.signExtend 32))
  | .braShort => oneWayFlow decoded (m68kBranchTarget address (decoded.operand.signExtend 32))
  | .branch =>
    let taken := m68kBranchTarget address (signedDisplacement decoded)
    if decoded.condition = .always then oneWayFlow decoded taken else twoWayFlow address decoded taken
  | .rts | .rte | .rtr | .instructionException => {}
  | .jmp => jumpFlow decoded (m68kCanonicalEaAddress decoded.sourceEa)
  | .jsr => callFlow address decoded (m68kCanonicalEaAddress decoded.sourceEa)
  | .bsr => callFlow address decoded (m68kBranchTarget address (signedDisplacement decoded))
  | .dbcc =>
    twoWayFlow address decoded
      (m68kBranchTarget address ((decoded.sourceEa.immediateValue.setWidth 16).signExtend 32))
  | _ => { next := some (nextPc address decoded) }

/-- The kinds whose successors are not the straight line alone. -/
def branchKinds : List M68kInstructionKind :=
  [.bneShort, .braShort, .branch, .rts, .rte, .rtr, .instructionException, .jmp, .jsr, .bsr, .dbcc]

theorem flow_straight {address : Address} {decoded : M68kDecodedInstruction} (straight : decoded.kind ∉ branchKinds) :
    flow address decoded = { next := some (nextPc address decoded) } := by
  rw [flow]
  cases kind : decoded.kind with
  | bneShort | braShort | branch | rts | rte | rtr | instructionException | jmp | jsr | bsr | dbcc =>
    rw [kind] at straight
    exact absurd (by decide) straight
  | _ => rfl

/-- A jump or call through an effective address that is not folded statically. -/
def Jumps (decoded : M68kDecodedInstruction) : Prop := decoded.kind = .jmp ∨ decoded.kind = .jsr

/-- A computed jump or call the walk hands to the finite-value analyses. -/
def Computed (decoded : M68kDecodedInstruction) : Prop :=
  Jumps decoded ∧ m68kIsSupportedComputedControlEa decoded.sourceEa

/-- What the dispatch of an instruction asks of its targets. -/
structure Passes (pass : Pass) (entries : List (Address × M68kDecodedInstruction)) (address : Address)
    (decoded : M68kDecodedInstruction) : Prop where
  targets : ∀ target ∈ (flow address decoded).targets,
    branchTargetIssue pass entries target decoded.provenance = none
  callee : ∀ target, (flow address decoded).callee = some target →
    pass.environment.admitTarget target .directCall = none
  foldable : Jumps decoded → m68kIsStaticallyFoldableControlEa decoded.sourceEa

def StitchesControl (pass : Pass) (target : Address) : Prop :=
  target ≠ pass.entry ∧ target ∈ pass.boundaries

def StitchesNext (pass : Pass) (nextPc : Address) : Prop :=
  nextPc ≠ pass.entry ∧ nextPc ∈ pass.continuationBoundaries

/-- The walker `w'` is `w` with what the flow of one instruction adds. -/
structure Advanced (pass : Pass) (w w' : M68kStaticGraphWalker) (address : Address)
    (decoded : M68kDecodedInstruction) : Prop where
  accepted : ∀ entry ∈ w'.acceptedBranchTargets,
    entry ∈ w.acceptedBranchTargets ∨ entry.1 ∈ (flow address decoded).targets
  worklist : ∀ x, x ∈ w'.worklist ↔ x ∈ w.worklist ∨
    ((flow address decoded).control = some x ∧ ¬StitchesControl pass x) ∨
    ((flow address decoded).next = some x ∧ ¬StitchesNext pass x)
  edges : ∀ e, e ∈ w'.edges ↔ e ∈ w.edges ∨ e ∈ (flow address decoded).edges ∨
    ∃ x, (flow address decoded).next = some x ∧ StitchesNext pass x ∧ e = continuationEdge decoded.provenance x
  frames : ∀ f, f ∈ w'.frames ↔ f ∈ w.frames ∨ f ∈ (flow address decoded).frames
  stitched : ∀ x, x ∈ w'.stitchedBoundaryAddresses ↔ x ∈ w.stitchedBoundaryAddresses ∨
    ((flow address decoded).control = some x ∧ StitchesControl pass x)
  branchEdgesEmitted : w'.branchEdgesEmitted ⊆ insert address w.branchEdgesEmitted
  callsEmitted : w'.callsEmitted ⊆ insert address w.callsEmitted
  continuationEdgesEmitted : w'.continuationEdgesEmitted ⊆ insert address w.continuationEdgesEmitted
  deferredIndirectAn : w'.deferredIndirectAn = w.deferredIndirectAn

/-- Nothing was emitted yet for the instruction at `address`. -/
structure Fresh (w : M68kStaticGraphWalker) (address : Address) : Prop where
  branch : address ∉ w.branchEdgesEmitted
  call : address ∉ w.callsEmitted
  continuation : address ∉ w.continuationEdgesEmitted

/-! ## What no dispatch touches -/

structure Keeps (w w' : M68kStaticGraphWalker) : Prop where
  decodeCache : w'.decodeCache = w.decodeCache
  decodeOrder : w'.decodeOrder = w.decodeOrder
  instructionsUsed : w'.instructionsUsed = w.instructionsUsed
  primaryIssue : w'.primaryIssue = w.primaryIssue
  secondaryIssues : w'.secondaryIssues = w.secondaryIssues

theorem Keeps.refl (w : M68kStaticGraphWalker) : Keeps w w := ⟨rfl, rfl, rfl, rfl, rfl⟩

theorem Keeps.trans {w w' w'' : M68kStaticGraphWalker} (first : Keeps w w') (second : Keeps w' w'') :
    Keeps w w'' :=
  ⟨second.decodeCache.trans first.decodeCache, second.decodeOrder.trans first.decodeOrder,
    second.instructionsUsed.trans first.instructionsUsed, second.primaryIssue.trans first.primaryIssue,
    second.secondaryIssues.trans first.secondaryIssues⟩

variable {pass : Pass} {w w' : M68kStaticGraphWalker} {address target : Address}
  {decoded : M68kDecodedInstruction} {source : InstructionProvenance}

theorem noteBlockEntry_keeps : Keeps w (w.noteBlockEntry target) := by
  rw [noteBlockEntry]
  split
  · exact .refl w
  · exact ⟨rfl, rfl, rfl, rfl, rfl⟩

theorem enqueueControlTarget_keeps : Keeps w (w.enqueueControlTarget pass target) := by
  rw [enqueueControlTarget]
  split
  · exact ⟨rfl, rfl, rfl, rfl, rfl⟩
  · exact ⟨rfl, rfl, rfl, rfl, rfl⟩

theorem enqueueNextPc_keeps : Keeps w (w.enqueueNextPc pass target source) := by
  rw [enqueueNextPc]
  split
  · dsimp only
    split
    · exact noteBlockEntry_keeps
    · exact noteBlockEntry_keeps.trans ⟨rfl, rfl, rfl, rfl, rfl⟩
  · exact ⟨rfl, rfl, rfl, rfl, rfl⟩

theorem emitBranch_keeps {edges : List M68kStaticEdge} : Keeps w (w.emitBranch address edges) := by
  rw [emitBranch]
  split
  · exact .refl w
  · exact ⟨rfl, rfl, rfl, rfl, rfl⟩

theorem emitCall_keeps {call : M68kStaticCall} : Keeps w (w.emitCall address call) := by
  rw [emitCall]
  split
  · exact .refl w
  · exact ⟨rfl, rfl, rfl, rfl, rfl⟩

theorem recordUnprovenTier2Owner_keeps : Keeps w (recordUnprovenTier2Owner w address decoded) := by
  rw [recordUnprovenTier2Owner]
  split
  · exact .refl w
  · exact ⟨rfl, rfl, rfl, rfl, rfl⟩

theorem foldl_keeps {add : M68kStaticGraphWalker → Address → M68kStaticGraphWalker}
    (each : ∀ w x, Keeps w (add w x)) (targets : List Address) (w : M68kStaticGraphWalker) :
    Keeps w (targets.foldl add w) := by
  induction targets generalizing w with
  | nil => exact .refl w
  | cons x rest ih => exact (each w x).trans (ih (add w x))

theorem emitCandidate_keeps (w : M68kStaticGraphWalker) (target : Address) (decoded : M68kDecodedInstruction) :
    Keeps w (emitCandidate decoded w target) := by
  rw [emitCandidate]
  dsimp only
  split
  · exact noteBlockEntry_keeps.trans ⟨rfl, rfl, rfl, rfl, rfl⟩
  · exact noteBlockEntry_keeps.trans ⟨rfl, rfl, rfl, rfl, rfl⟩

theorem emitCandidateSet_keeps {candidates : List Address} :
    Keeps w (emitCandidateSet pass w address decoded candidates) := by
  rw [emitCandidateSet]
  dsimp only
  have retained : Keeps w (retainSet w address decoded candidates) := ⟨rfl, rfl, rfl, rfl, rfl⟩
  have emitted := retained.trans (foldl_keeps (fun w x => emitCandidate_keeps w x decoded) candidates _)
  split
  · exact emitted.trans (noteBlockEntry_keeps.trans enqueueNextPc_keeps)
  · exact emitted

theorem emitCandidates_keeps {candidates : List Address} :
    Keeps w (emitCandidates pass w address decoded candidates) := by
  rw [emitCandidates]
  apply Keeps.trans _ (foldl_keeps (fun _ _ => enqueueControlTarget_keeps) candidates _)
  split
  · exact .refl w
  · exact emitCandidateSet_keeps

theorem validateBranchTarget_keeps : Keeps w (validateBranchTarget pass w target source).1 := by
  rw [validateBranchTarget]
  split
  · exact .refl w
  · exact ⟨rfl, rfl, rfl, rfl, rfl⟩

theorem andThen_keeps {outcome : Outcome} {next : M68kStaticGraphWalker → Outcome} (first : Keeps w outcome.1)
    (second : ∀ v, Keeps v (next v).1) : Keeps w (outcome.andThen next).1 := by
  obtain ⟨v, failure⟩ := outcome
  cases failure with
  | none => exact first.trans (second v)
  | some issue => exact first

theorem processIndirectControl_keeps : Keeps w (processIndirectControl pass w address decoded).1 := by
  rw [processIndirectControl]
  by_cases eligible : (!decoded.sourceEa.indexIsAddress && !decoded.sourceEa.indexIsLong) = true
  · have marked : Keeps w (markTier2Eligible w address) := ⟨rfl, rfl, rfl, rfl, rfl⟩
    simp only [if_pos eligible]
    split
    · exact marked.trans recordUnprovenTier2Owner_keeps
    · split
      · exact marked.trans emitCandidates_keeps
      · exact marked.trans recordUnprovenTier2Owner_keeps
  · simp only [if_neg eligible]
    split
    · exact .refl w
    · split
      · exact emitCandidates_keeps
      · exact .refl w

theorem processIndirectControlAn_keeps : Keeps w (processIndirectControlAn pass w address decoded).1 := by
  rw [processIndirectControlAn]
  have eligible : Keeps w (markTier2Eligible w address) := ⟨rfl, rfl, rfl, rfl, rfl⟩
  split
  · exact .refl w
  · dsimp only
    split
    · split
      · split
        · exact eligible
        · exact eligible.trans ⟨rfl, rfl, rfl, rfl, rfl⟩
      · exact eligible.trans recordUnprovenTier2Owner_keeps
    · split
      · exact eligible.trans emitCandidates_keeps
      · exact eligible.trans recordUnprovenTier2Owner_keeps

theorem dispatchCall_keeps : Keeps w (dispatchCall pass w address decoded target).1 := by
  rw [dispatchCall]
  exact ((noteBlockEntry_keeps.trans noteBlockEntry_keeps).trans
    (emitCall_keeps.trans enqueueControlTarget_keeps)).trans enqueueNextPc_keeps

theorem dispatchJump_keeps : Keeps w (dispatchJump pass w address decoded).1 := by
  rw [dispatchJump]
  dsimp only
  split
  · split
    · exact processIndirectControl_keeps
    · split
      · exact processIndirectControlAn_keeps
      · split
        · exact recordUnprovenTier2Owner_keeps
        · exact .refl w
  · split
    · exact .refl w
    · split
      · exact (noteBlockEntry_keeps.trans emitBranch_keeps).trans enqueueControlTarget_keeps
      · exact dispatchCall_keeps

theorem dispatch_keeps : Keeps w (dispatch pass w address decoded).1 := by
  have twoWay (v : M68kStaticGraphWalker) (first second : Address) (edges : List M68kStaticEdge) :
      Keeps v ((((v.noteBlockEntry first).noteBlockEntry second).emitBranch address edges).enqueueNextPc pass
        (address + BitVec.ofNat 32 decoded.provenance.length) decoded.provenance) :=
    ((noteBlockEntry_keeps.trans noteBlockEntry_keeps).trans emitBranch_keeps).trans enqueueNextPc_keeps
  have oneWay (v : M68kStaticGraphWalker) (taken : Address) (edges : List M68kStaticEdge) :
      Keeps v (((v.noteBlockEntry taken).emitBranch address edges).enqueueControlTarget pass taken) :=
    (noteBlockEntry_keeps.trans emitBranch_keeps).trans enqueueControlTarget_keeps
  rw [dispatch]
  dsimp only
  split
  · apply andThen_keeps validateBranchTarget_keeps
    exact fun _ => andThen_keeps validateBranchTarget_keeps
      fun v => (twoWay v _ _ _).trans enqueueControlTarget_keeps
  · exact andThen_keeps validateBranchTarget_keeps fun v => oneWay v _ _
  · apply andThen_keeps validateBranchTarget_keeps
    intro v
    split
    · exact oneWay v _ _
    · exact noteBlockEntry_keeps.trans (andThen_keeps validateBranchTarget_keeps fun v =>
        ((noteBlockEntry_keeps.trans emitBranch_keeps).trans enqueueNextPc_keeps).trans
          enqueueControlTarget_keeps)
  · split
    · exact ⟨rfl, rfl, rfl, rfl, rfl⟩
    · exact .refl w
  iterate 3 exact .refl w
  iterate 2 exact dispatchJump_keeps
  · split
    · exact .refl w
    · exact dispatchCall_keeps
  · apply andThen_keeps validateBranchTarget_keeps
    exact fun _ => andThen_keeps validateBranchTarget_keeps
      fun v => (twoWay v _ _ _).trans enqueueControlTarget_keeps
  · split
    · exact noteBlockEntry_keeps.trans enqueueNextPc_keeps
    · exact enqueueNextPc_keeps

/-! ## What a dispatch adds -/

structure Addition where
  accepted : List (Address × InstructionProvenance) := []
  worklist : List Address := []
  edges : List M68kStaticEdge := []
  frames : List M68kStaticFrame := []
  stitched : Finset Address := ∅
  branch : Finset Address := ∅
  call : Finset Address := ∅
  continuation : Finset Address := ∅

def Addition.append (first second : Addition) : Addition :=
  { accepted := first.accepted ++ second.accepted
    worklist := first.worklist ++ second.worklist
    edges := first.edges ++ second.edges
    frames := first.frames ++ second.frames
    stitched := first.stitched ∪ second.stitched
    branch := first.branch ∪ second.branch
    call := first.call ∪ second.call
    continuation := first.continuation ∪ second.continuation }

@[simp] theorem Addition.append_empty (added : Addition) : added.append {} = added := by
  simp [Addition.append]

@[simp] theorem Addition.empty_append (added : Addition) : Addition.append {} added = added := by
  simp [Addition.append]

structure Adds (w w' : M68kStaticGraphWalker) (added : Addition) : Prop where
  accepted : w'.acceptedBranchTargets = w.acceptedBranchTargets ++ added.accepted
  worklist : w'.worklist = w.worklist ++ added.worklist
  edges : w'.edges = w.edges ++ added.edges
  frames : w'.frames = w.frames ++ added.frames
  stitched : w'.stitchedBoundaryAddresses = w.stitchedBoundaryAddresses ∪ added.stitched
  branch : w'.branchEdgesEmitted = w.branchEdgesEmitted ∪ added.branch
  call : w'.callsEmitted = w.callsEmitted ∪ added.call
  continuation : w'.continuationEdgesEmitted = w.continuationEdgesEmitted ∪ added.continuation
  deferred : w'.deferredIndirectAn = w.deferredIndirectAn

theorem Adds.trans {w w' w'' : M68kStaticGraphWalker} {first second : Addition} (one : Adds w w' first)
    (two : Adds w' w'' second) : Adds w w'' (first.append second) where
  accepted := by rw [two.accepted, one.accepted, List.append_assoc]; rfl
  worklist := by rw [two.worklist, one.worklist, List.append_assoc]; rfl
  edges := by rw [two.edges, one.edges, List.append_assoc]; rfl
  frames := by rw [two.frames, one.frames, List.append_assoc]; rfl
  stitched := by rw [two.stitched, one.stitched, Finset.union_assoc]; rfl
  branch := by rw [two.branch, one.branch, Finset.union_assoc]; rfl
  call := by rw [two.call, one.call, Finset.union_assoc]; rfl
  continuation := by rw [two.continuation, one.continuation, Finset.union_assoc]; rfl
  deferred := two.deferred.trans one.deferred

theorem adds_nothing {w w' : M68kStaticGraphWalker} (accepted : w'.acceptedBranchTargets = w.acceptedBranchTargets)
    (worklist : w'.worklist = w.worklist) (edges : w'.edges = w.edges) (frames : w'.frames = w.frames)
    (stitched : w'.stitchedBoundaryAddresses = w.stitchedBoundaryAddresses)
    (branch : w'.branchEdgesEmitted = w.branchEdgesEmitted) (call : w'.callsEmitted = w.callsEmitted)
    (continuation : w'.continuationEdgesEmitted = w.continuationEdgesEmitted)
    (deferred : w'.deferredIndirectAn = w.deferredIndirectAn) : Adds w w' {} :=
  ⟨by simpa using accepted, by simpa using worklist, by simpa using edges, by simpa using frames,
    by simpa using stitched, by simpa using branch, by simpa using call, by simpa using continuation, deferred⟩

theorem noteBlockEntry_adds : Adds w (w.noteBlockEntry target) {} := by
  rw [noteBlockEntry]
  split
  · exact adds_nothing rfl rfl rfl rfl rfl rfl rfl rfl rfl
  · exact adds_nothing rfl rfl rfl rfl rfl rfl rfl rfl rfl

instance : Decidable (StitchesControl pass target) := inferInstanceAs (Decidable (_ ∧ _))

instance : Decidable (StitchesNext pass target) := inferInstanceAs (Decidable (_ ∧ _))

def controlAddition (pass : Pass) (target : Address) : Addition :=
  if StitchesControl pass target then { stitched := {target} } else { worklist := [target] }

def nextAddition (pass : Pass) (source : InstructionProvenance) (nextPc : Address) : Addition :=
  if StitchesNext pass nextPc then
    { edges := [continuationEdge source nextPc], continuation := {source.address} }
  else { worklist := [nextPc] }

theorem enqueueControlTarget_adds :
    Adds w (w.enqueueControlTarget pass target) (controlAddition pass target) := by
  rw [enqueueControlTarget, controlAddition]
  by_cases cut : StitchesControl pass target
  · rw [if_pos cut, if_pos (show target ≠ pass.entry ∧ target ∈ pass.boundaries from cut)]
    exact ⟨by simp, by simp, by simp, by simp, by simp, by simp, by simp, by simp, rfl⟩
  · rw [if_neg cut, if_neg (show ¬(target ≠ pass.entry ∧ target ∈ pass.boundaries) from cut)]
    exact ⟨by simp, by simp, by simp, by simp, by simp, by simp, by simp, by simp, rfl⟩

theorem enqueueNextPc_adds (fresh : source.address ∉ w.continuationEdgesEmitted) :
    Adds w (w.enqueueNextPc pass target source) (nextAddition pass source target) := by
  have noted : Adds w (w.noteBlockEntry target) {} := noteBlockEntry_adds
  rw [enqueueNextPc, nextAddition]
  by_cases cut : StitchesNext pass target
  · rw [if_pos cut, if_pos (show target ≠ pass.entry ∧ target ∈ pass.continuationBoundaries from cut)]
    have still : source.address ∉ (w.noteBlockEntry target).continuationEdgesEmitted := by
      simpa [noted.continuation] using fresh
    dsimp only
    rw [if_neg still]
    refine ⟨?_, ?_, ?_, ?_, ?_, ?_, ?_, ?_, noted.deferred⟩
    · simp [noted.accepted]
    · simp [noted.worklist]
    · simp [noted.edges]
    · simp [noted.frames]
    · simp [noted.stitched]
    · simp [noted.branch]
    · simp [noted.call]
    · simp [noted.continuation]
  · rw [if_neg cut, if_neg (show ¬(target ≠ pass.entry ∧ target ∈ pass.continuationBoundaries) from cut)]
    exact ⟨by simp, by simp, by simp, by simp, by simp, by simp, by simp, by simp, rfl⟩

theorem emitBranch_adds {edges : List M68kStaticEdge} (fresh : address ∉ w.branchEdgesEmitted) :
    Adds w (w.emitBranch address edges) { edges, branch := {address} } := by
  rw [emitBranch, if_neg fresh]
  exact ⟨by simp, by simp, by simp, by simp, by simp, by simp, by simp, by simp, rfl⟩

theorem emitCall_adds {call : M68kStaticCall} (fresh : address ∉ w.callsEmitted) :
    Adds w (w.emitCall address call)
      { edges := [m68kMakeStaticCallEdge call], frames := [⟨call⟩], call := {address} } := by
  rw [emitCall, if_neg fresh]
  exact ⟨by simp, by simp, by simp, by simp, by simp, by simp, by simp, by simp, rfl⟩

theorem validate_andThen {next : M68kStaticGraphWalker → Outcome}
    (passes : branchTargetIssue pass w.decodeCache target source = none) :
    (validateBranchTarget pass w target source).andThen next =
      next (w.accept target source) := by
  rw [validateBranchTarget, passes]
  rfl

theorem validate_passes {next : M68kStaticGraphWalker → Outcome}
    (done : ((validateBranchTarget pass w target source).andThen next).2 = none) :
    branchTargetIssue pass w.decodeCache target source = none ∧
      (next (w.accept target source)).2 = none := by
  cases eq : branchTargetIssue pass w.decodeCache target source with
  | none => exact ⟨rfl, by rwa [validate_andThen eq] at done⟩
  | some issue =>
    rw [validateBranchTarget, eq] at done
    exact absurd done (Option.some_ne_none issue)

/-! ## The additions of a dispatch are its flow -/

variable {x : Address} {e : M68kStaticEdge}

@[simp] theorem mem_controlAddition_worklist :
    x ∈ (controlAddition pass target).worklist ↔ target = x ∧ ¬StitchesControl pass x := by
  rw [controlAddition]
  split
  · exact ⟨fun none => absurd none List.not_mem_nil, fun ⟨same, uncut⟩ => absurd (same ▸ ‹_›) uncut⟩
  · rw [List.mem_singleton, eq_comm]
    exact ⟨fun same => ⟨same, same ▸ ‹_›⟩, And.left⟩

@[simp] theorem mem_controlAddition_stitched :
    x ∈ (controlAddition pass target).stitched ↔ target = x ∧ StitchesControl pass x := by
  rw [controlAddition]
  split
  · rw [Finset.mem_singleton, eq_comm]
    exact ⟨fun same => ⟨same, same ▸ ‹_›⟩, And.left⟩
  · exact ⟨fun none => absurd none (Finset.notMem_empty _), fun ⟨same, cut⟩ => absurd (same ▸ cut) ‹_›⟩

@[simp] theorem mem_nextAddition_worklist :
    x ∈ (nextAddition pass source target).worklist ↔ target = x ∧ ¬StitchesNext pass x := by
  rw [nextAddition]
  split
  · exact ⟨fun none => absurd none List.not_mem_nil, fun ⟨same, uncut⟩ => absurd (same ▸ ‹_›) uncut⟩
  · rw [List.mem_singleton, eq_comm]
    exact ⟨fun same => ⟨same, same ▸ ‹_›⟩, And.left⟩

@[simp] theorem mem_nextAddition_edges :
    e ∈ (nextAddition pass source target).edges ↔ StitchesNext pass target ∧ e = continuationEdge source target := by
  rw [nextAddition]
  split
  · simp [*]
  · simp [*]

@[simp] theorem controlAddition_rest :
    (controlAddition pass target).accepted = [] ∧ (controlAddition pass target).edges = [] ∧
      (controlAddition pass target).frames = [] ∧ (controlAddition pass target).branch = ∅ ∧
      (controlAddition pass target).call = ∅ ∧ (controlAddition pass target).continuation = ∅ := by
  rw [controlAddition]
  split
  · exact ⟨rfl, rfl, rfl, rfl, rfl, rfl⟩
  · exact ⟨rfl, rfl, rfl, rfl, rfl, rfl⟩

@[simp] theorem nextAddition_rest :
    (nextAddition pass source target).accepted = [] ∧ (nextAddition pass source target).frames = [] ∧
      (nextAddition pass source target).stitched = ∅ ∧ (nextAddition pass source target).branch = ∅ ∧
      (nextAddition pass source target).call = ∅ := by
  rw [nextAddition]
  split
  · exact ⟨rfl, rfl, rfl, rfl, rfl⟩
  · exact ⟨rfl, rfl, rfl, rfl, rfl⟩

theorem nextAddition_continuation : (nextAddition pass source target).continuation ⊆ {source.address} := by
  rw [nextAddition]
  split
  · exact subset_rfl
  · exact Finset.empty_subset _

/-- An addition holds what a flow says. -/
structure Carries (pass : Pass) (added : Addition) (f : Flow) (source : InstructionProvenance) : Prop where
  accepted : ∀ entry ∈ added.accepted, entry.1 ∈ f.targets
  worklist : ∀ x, x ∈ added.worklist ↔
    (f.control = some x ∧ ¬StitchesControl pass x) ∨ (f.next = some x ∧ ¬StitchesNext pass x)
  edges : ∀ e, e ∈ added.edges ↔
    e ∈ f.edges ∨ ∃ x, f.next = some x ∧ StitchesNext pass x ∧ e = continuationEdge source x
  frames : added.frames = f.frames
  stitched : ∀ x, x ∈ added.stitched ↔ f.control = some x ∧ StitchesControl pass x
  branch : added.branch ⊆ {source.address}
  call : added.call ⊆ {source.address}
  continuation : added.continuation ⊆ {source.address}

theorem Adds.advanced {added : Addition} (adds : Adds w w' added)
    (carries : Carries pass added (flow address decoded) decoded.provenance)
    (placed : decoded.provenance.address = address) : Advanced pass w w' address decoded where
  accepted entry mem := by
    rw [adds.accepted, List.mem_append] at mem
    exact mem.imp_right (carries.accepted entry)
  worklist x := by rw [adds.worklist, List.mem_append, carries.worklist]
  edges e := by rw [adds.edges, List.mem_append, carries.edges]
  frames f := by rw [adds.frames, List.mem_append, carries.frames]
  stitched x := by rw [adds.stitched, Finset.mem_union, carries.stitched]
  branchEdgesEmitted := by
    rw [adds.branch, Finset.insert_eq, Finset.union_comm, ← placed]
    exact Finset.union_subset_union_left carries.branch
  callsEmitted := by
    rw [adds.call, Finset.insert_eq, Finset.union_comm, ← placed]
    exact Finset.union_subset_union_left carries.call
  continuationEdgesEmitted := by
    rw [adds.continuation, Finset.insert_eq, Finset.union_comm, ← placed]
    exact Finset.union_subset_union_left carries.continuation
  deferredIndirectAn := adds.deferred

/-- What a validated branch emits once its targets are accepted. -/
def branchEmission (accepted : List (Address × InstructionProvenance)) (source : InstructionProvenance)
    (edges : List M68kStaticEdge) : Addition :=
  { accepted, edges, branch := {source.address} }

theorem twoWay_carries {taken : Address} {accepted : List (Address × InstructionProvenance)}
    (known : ∀ entry ∈ accepted, entry.1 ∈ [nextPc address decoded, taken]) :
    Carries pass (((branchEmission accepted decoded.provenance (twoWayFlow address decoded taken).edges).append
        (nextAddition pass decoded.provenance (nextPc address decoded))).append (controlAddition pass taken))
      (twoWayFlow address decoded taken) decoded.provenance where
  accepted := by simpa [Addition.append, branchEmission, twoWayFlow] using known
  worklist x := by simp [Addition.append, branchEmission, twoWayFlow, or_comm]
  edges e := by simp [Addition.append, branchEmission, twoWayFlow, or_assoc]
  frames := by simp [Addition.append, branchEmission, twoWayFlow]
  stitched x := by simp [Addition.append, branchEmission, twoWayFlow]
  branch := by simp [Addition.append, branchEmission]
  call := by simp [Addition.append, branchEmission]
  continuation := by simpa [Addition.append, branchEmission] using nextAddition_continuation

theorem oneWay_carries {taken : Address} {accepted : List (Address × InstructionProvenance)} {f : Flow}
    (known : ∀ entry ∈ accepted, entry.1 ∈ f.targets) (frames : f.frames = []) (control : f.control = some taken)
    (next : f.next = none) :
    Carries pass ((branchEmission accepted decoded.provenance f.edges).append (controlAddition pass taken)) f
      decoded.provenance where
  accepted := by simpa [Addition.append, branchEmission] using known
  worklist x := by simp [Addition.append, branchEmission, control, next]
  edges e := by simp [Addition.append, branchEmission, next]
  frames := by simp [Addition.append, branchEmission, frames]
  stitched x := by simp [Addition.append, branchEmission, control]
  branch := by simp [Addition.append, branchEmission]
  call := by simp [Addition.append, branchEmission]
  continuation := by simp [Addition.append, branchEmission]

theorem call_carries :
    Carries pass ((({ edges := (callFlow address decoded target).edges, frames := (callFlow address decoded target).frames
                      call := {decoded.provenance.address} } : Addition).append
        (controlAddition pass target)).append (nextAddition pass decoded.provenance (nextPc address decoded)))
      (callFlow address decoded target) decoded.provenance where
  accepted := by simp [Addition.append]
  worklist x := by simp [Addition.append, callFlow]
  edges e := by simp [Addition.append, callFlow]
  frames := by simp [Addition.append]
  stitched x := by simp [Addition.append, callFlow]
  branch := by simp [Addition.append]
  call := by simp [Addition.append]
  continuation := by simpa [Addition.append] using nextAddition_continuation

theorem next_carries :
    Carries pass (nextAddition pass decoded.provenance (nextPc address decoded))
      { next := some (nextPc address decoded) } decoded.provenance where
  accepted := by simp
  worklist x := by simp
  edges e := by simp
  frames := by simp
  stitched x := by simp
  branch := by simp
  call := by simp
  continuation := nextAddition_continuation

/-! ## Dispatch by kind -/

theorem emission_adds {v : M68kStaticGraphWalker} {accepted : List (Address × InstructionProvenance)}
    {edges : List M68kStaticEdge} (fresh : Fresh w address) (placed : decoded.provenance.address = address)
    (taken : Adds w v { accepted }) :
    Adds w (v.emitBranch address edges) (branchEmission accepted decoded.provenance edges) := by
  have still : address ∉ v.branchEdgesEmitted := by simpa [taken.branch] using fresh.branch
  have whole := taken.trans (@emitBranch_adds _ _ edges still)
  simpa [Addition.append, branchEmission, placed] using whole

theorem twoWay_adds {v : M68kStaticGraphWalker} {taken : Address}
    {accepted : List (Address × InstructionProvenance)} {edges : List M68kStaticEdge} (fresh : Fresh w address)
    (placed : decoded.provenance.address = address) (before : Adds w v { accepted }) :
    Adds w (((v.emitBranch address edges).enqueueNextPc pass (nextPc address decoded)
        decoded.provenance).enqueueControlTarget pass taken)
      (((branchEmission accepted decoded.provenance edges).append
        (nextAddition pass decoded.provenance (nextPc address decoded))).append (controlAddition pass taken)) := by
  have emitted : Adds w (v.emitBranch address edges) (branchEmission accepted decoded.provenance edges) :=
    emission_adds fresh placed before
  have still : decoded.provenance.address ∉ (v.emitBranch address edges).continuationEdgesEmitted := by
    simpa [emitted.continuation, branchEmission, placed] using fresh.continuation
  exact (emitted.trans (enqueueNextPc_adds still)).trans enqueueControlTarget_adds

theorem accept_one : Adds w (w.accept target source) { accepted := [(target, source)] } :=
  ⟨rfl, by simp [accept], by simp [accept], by simp [accept], by simp [accept], by simp [accept],
    by simp [accept], by simp [accept], rfl⟩

theorem accept_two {v : M68kStaticGraphWalker} {first second : Address}
    (before : Adds w v { accepted := [(first, source)] }) :
    Adds w (v.accept second source) { accepted := [(first, source), (second, source)] } := by
  have whole := before.trans (@accept_one _ second source)
  simpa [Addition.append] using whole

theorem noteBlockEntry_after {v : M68kStaticGraphWalker} {added : Addition} (before : Adds w v added) :
    Adds w (v.noteBlockEntry target) added := by
  have whole := before.trans (@noteBlockEntry_adds _ target)
  simpa using whole

theorem dispatchCall_advanced (fresh : Fresh w address) (placed : decoded.provenance.address = address)
    (calls : flow address decoded = callFlow address decoded target) :
    Advanced pass w (dispatchCall pass w address decoded target).1 address decoded := by
  rw [dispatchCall]
  have noted : Adds w ((w.noteBlockEntry target).noteBlockEntry (nextPc address decoded)) {} :=
    noteBlockEntry_after noteBlockEntry_adds
  have still : address ∉ ((w.noteBlockEntry target).noteBlockEntry (nextPc address decoded)).callsEmitted := by
    simpa [noted.call] using fresh.call
  have called := noted.trans (@emitCall_adds _ _ (m68kMakeStaticCall decoded target) still)
  have queued := called.trans (@enqueueControlTarget_adds pass _ target)
  have unstitched : decoded.provenance.address ∉ (((((w.noteBlockEntry target).noteBlockEntry
      (nextPc address decoded)).emitCall address (m68kMakeStaticCall decoded target)).enqueueControlTarget pass
      target)).continuationEdgesEmitted := by
    simpa [queued.continuation, Addition.append, placed] using fresh.continuation
  have whole := queued.trans (@enqueueNextPc_adds pass _ (nextPc address decoded) _ unstitched)
  apply whole.advanced _ placed
  rw [calls, Addition.empty_append, ← placed]
  exact call_carries

theorem branchTargetIssue_accept (passes : branchTargetIssue pass w.decodeCache target source = none)
    (other : Address) : branchTargetIssue pass (w.accept other source).decodeCache target source = none := passes

theorem twoWay_advanced {v : M68kStaticGraphWalker} {taken : Address}
    {accepted : List (Address × InstructionProvenance)} (fresh : Fresh w address)
    (placed : decoded.provenance.address = address) (ways : flow address decoded = twoWayFlow address decoded taken)
    (before : Adds w v { accepted }) (known : ∀ entry ∈ accepted, entry.1 ∈ [nextPc address decoded, taken]) :
    Advanced pass w (((v.emitBranch address (twoWayFlow address decoded taken).edges).enqueueNextPc pass
      (nextPc address decoded) decoded.provenance).enqueueControlTarget pass taken) address decoded := by
  apply (twoWay_adds fresh placed before).advanced _ placed
  rw [ways]
  exact twoWay_carries known

theorem oneWay_advanced {v : M68kStaticGraphWalker} {taken : Address} {f : Flow}
    {accepted : List (Address × InstructionProvenance)} (fresh : Fresh w address)
    (placed : decoded.provenance.address = address) (ways : flow address decoded = f)
    (before : Adds w v { accepted }) (known : ∀ entry ∈ accepted, entry.1 ∈ f.targets) (frames : f.frames = [])
    (control : f.control = some taken) (next : f.next = none) :
    Advanced pass w ((v.emitBranch address f.edges).enqueueControlTarget pass taken) address decoded := by
  have adds := (@emission_adds _ _ _ _ _ f.edges fresh placed before).trans
    (@enqueueControlTarget_adds pass _ taken)
  apply adds.advanced _ placed
  rw [ways]
  exact oneWay_carries known frames control next

theorem still_advanced (before : Adds w w' {}) (placed : decoded.provenance.address = address)
    (ways : flow address decoded = {}) : Advanced pass w w' address decoded := by
  apply before.advanced _ placed
  rw [ways]
  exact ⟨by simp, by simp, by simp, rfl, by simp, by simp, by simp, by simp⟩

theorem dispatchJump_of_passes (jumps : Jumps decoded) (passes : Passes pass w.decodeCache address decoded)
    (fresh : Fresh w address) (placed : decoded.provenance.address = address) :
    (dispatchJump pass w address decoded).2 = none ∧
      Advanced pass w (dispatchJump pass w address decoded).1 address decoded := by
  have foldable := passes.foldable jumps
  rw [dispatchJump]
  dsimp only
  rw [if_neg (not_not.mpr foldable)]
  by_cases kind : decoded.kind = .jmp
  · have ways : flow address decoded = jumpFlow decoded (m68kCanonicalEaAddress decoded.sourceEa) := by
      simp only [flow, kind]
    have admitted := passes.callee (m68kCanonicalEaAddress decoded.sourceEa) (by rw [ways]; rfl)
    rw [admitted]
    dsimp only
    rw [if_pos kind]
    exact ⟨rfl, oneWay_advanced fresh placed ways noteBlockEntry_adds (fun _ mem => absurd mem List.not_mem_nil)
      rfl rfl rfl⟩
  · have isCall := jumps.resolve_left kind
    have ways : flow address decoded = callFlow address decoded (m68kCanonicalEaAddress decoded.sourceEa) := by
      simp only [flow, isCall]
    have admitted := passes.callee (m68kCanonicalEaAddress decoded.sourceEa) (by rw [ways]; rfl)
    rw [admitted]
    dsimp only
    rw [if_neg kind]
    exact ⟨rfl, dispatchCall_advanced fresh placed ways⟩

/-- A dispatch whose targets pass succeeds and adds its flow. -/
theorem dispatch_of_passes (passes : Passes pass w.decodeCache address decoded) (fresh : Fresh w address)
    (placed : decoded.provenance.address = address) :
    (dispatch pass w address decoded).2 = none ∧
      Advanced pass w (dispatch pass w address decoded).1 address decoded := by
  have known := passes.targets
  rw [dispatch]
  dsimp only
  split
  case h_1 kind =>
    have ways : flow address decoded = twoWayFlow address decoded
        (m68kBranchTarget address (decoded.operand.signExtend 32)) := by simp only [flow, kind]
    rw [ways] at known
    have next := known _ List.mem_cons_self
    have taken := known _ (List.mem_cons_of_mem _ List.mem_cons_self)
    rw [nextPc] at next
    rw [validate_andThen next, validate_andThen (branchTargetIssue_accept taken _)]
    exact ⟨rfl, twoWay_advanced fresh placed ways (noteBlockEntry_after (noteBlockEntry_after
      (accept_two accept_one))) (by simp [nextPc])⟩
  case h_2 kind =>
    have ways : flow address decoded = oneWayFlow decoded
        (m68kBranchTarget address (decoded.operand.signExtend 32)) := by simp only [flow, kind]
    rw [ways] at known
    rw [validate_andThen (known _ List.mem_cons_self)]
    exact ⟨rfl, oneWay_advanced fresh placed ways (noteBlockEntry_after accept_one) (by simp [oneWayFlow]) rfl rfl
      rfl⟩
  case h_3 kind =>
    by_cases always : decoded.condition = .always
    · have ways : flow address decoded = oneWayFlow decoded
          (m68kBranchTarget address (signedDisplacement decoded)) := by simp only [flow, kind, if_pos always]
      rw [ways] at known
      rw [validate_andThen (known _ List.mem_cons_self), if_pos always]
      exact ⟨rfl, oneWay_advanced fresh placed ways (noteBlockEntry_after accept_one) (by simp [oneWayFlow]) rfl rfl
        rfl⟩
    · have ways : flow address decoded = twoWayFlow address decoded
          (m68kBranchTarget address (signedDisplacement decoded)) := by simp only [flow, kind, if_neg always]
      rw [ways] at known
      have next := known _ List.mem_cons_self
      have taken := known _ (List.mem_cons_of_mem _ List.mem_cons_self)
      rw [nextPc] at next
      rw [validate_andThen taken, if_neg always]
      have cache : ((w.accept (m68kBranchTarget address (signedDisplacement decoded)) decoded.provenance).noteBlockEntry
          (m68kBranchTarget address (signedDisplacement decoded))).decodeCache = w.decodeCache :=
        noteBlockEntry_keeps.decodeCache
      rw [← cache] at next
      rw [validate_andThen next]
      exact ⟨rfl, twoWay_advanced fresh placed ways (noteBlockEntry_after (accept_two (noteBlockEntry_after
        accept_one))) (by simp [nextPc])⟩
  case h_4 kind =>
    refine ⟨rfl, still_advanced ?_ placed (by simp only [flow, kind])⟩
    split
    · exact adds_nothing rfl rfl rfl rfl rfl rfl rfl rfl rfl
    · exact adds_nothing rfl rfl rfl rfl rfl rfl rfl rfl rfl
  case h_5 kind =>
    exact ⟨rfl, still_advanced (adds_nothing rfl rfl rfl rfl rfl rfl rfl rfl rfl) placed (by simp only [flow, kind])⟩
  case h_6 kind =>
    exact ⟨rfl, still_advanced (adds_nothing rfl rfl rfl rfl rfl rfl rfl rfl rfl) placed (by simp only [flow, kind])⟩
  case h_7 kind =>
    exact ⟨rfl, still_advanced (adds_nothing rfl rfl rfl rfl rfl rfl rfl rfl rfl) placed (by simp only [flow, kind])⟩
  case h_8 kind => exact dispatchJump_of_passes (.inl kind) passes fresh placed
  case h_9 kind => exact dispatchJump_of_passes (.inr kind) passes fresh placed
  case h_10 kind =>
    have ways : flow address decoded = callFlow address decoded
        (m68kBranchTarget address (signedDisplacement decoded)) := by simp only [flow, kind]
    have admitted := passes.callee (m68kBranchTarget address (signedDisplacement decoded)) (by rw [ways]; rfl)
    rw [admitted]
    exact ⟨rfl, dispatchCall_advanced fresh placed ways⟩
  case h_11 kind =>
    have ways : flow address decoded = twoWayFlow address decoded
        (m68kBranchTarget address ((decoded.sourceEa.immediateValue.setWidth 16).signExtend 32)) := by
      simp only [flow, kind]
    rw [ways] at known
    have next := known _ List.mem_cons_self
    have taken := known _ (List.mem_cons_of_mem _ List.mem_cons_self)
    rw [nextPc] at next
    rw [validate_andThen taken, validate_andThen (branchTargetIssue_accept next _)]
    exact ⟨rfl, twoWay_advanced fresh placed ways (noteBlockEntry_after (noteBlockEntry_after
      (accept_two accept_one))) (by simp [nextPc])⟩
  case h_12 =>
    have straight : decoded.kind ∉ branchKinds := by
      simp_all [branchKinds]
    have ways := @flow_straight address _ straight
    have unstitched : decoded.provenance.address ∉ w.continuationEdgesEmitted := by
      rw [placed]
      exact fresh.continuation
    refine ⟨rfl, ?_⟩
    have carries : Carries pass (nextAddition pass decoded.provenance (nextPc address decoded))
        (flow address decoded) decoded.provenance := by
      rw [ways]
      exact next_carries
    split
    · have noted : Adds w (w.noteBlockEntry (nextPc address decoded)) {} := noteBlockEntry_adds
      have still : decoded.provenance.address ∉
          (w.noteBlockEntry (nextPc address decoded)).continuationEdgesEmitted := by
        simpa [noted.continuation] using unstitched
      have adds := noted.trans (@enqueueNextPc_adds pass _ (nextPc address decoded) _ still)
      rw [Addition.empty_append] at adds
      exact adds.advanced carries placed
    · exact (enqueueNextPc_adds unstitched).advanced carries placed

/-! ## A dispatch that succeeds had targets that pass -/

/-- The effective address of a jump that is not folded is computed, or the dispatch fails. -/
theorem foldable_of_dispatchJump (direct : ¬m68kIsSupportedComputedControlEa decoded.sourceEa)
    (done : (dispatchJump pass w address decoded).2 = none) :
    m68kIsStaticallyFoldableControlEa decoded.sourceEa := by
  by_contra computed
  rw [m68kIsSupportedComputedControlEa] at direct
  by_cases indexed : decoded.sourceEa.mode = .pcIndex8 ∨ decoded.sourceEa.mode = .addressIndex8
  · exact direct (by rw [if_pos indexed])
  · rw [if_neg indexed, Bool.and_eq_true, Bool.and_eq_true, decide_eq_true_eq, decide_eq_true_eq,
      decide_eq_true_eq, and_assoc] at direct
    rw [dispatchJump, if_pos computed, if_neg (fun mode => indexed (.inl mode)), if_neg direct,
      if_neg (fun mode => indexed (.inr mode))] at done
    exact absurd done (Option.some_ne_none _)

theorem callee_of_dispatchJump (foldable : m68kIsStaticallyFoldableControlEa decoded.sourceEa)
    (done : (dispatchJump pass w address decoded).2 = none) :
    pass.environment.admitTarget (m68kCanonicalEaAddress decoded.sourceEa) .directCall = none := by
  rw [dispatchJump, if_neg (not_not.mpr foldable)] at done
  dsimp only at done
  cases admitted : pass.environment.admitTarget (m68kCanonicalEaAddress decoded.sourceEa) .directCall with
  | none => rfl
  | some issue =>
    rw [admitted] at done
    exact absurd done (Option.some_ne_none _)

theorem not_jumps {kind : M68kInstructionKind} (is : decoded.kind = kind) (noJmp : kind ≠ .jmp)
    (noJsr : kind ≠ .jsr) : ¬Jumps decoded := by
  rw [Jumps, is]
  tauto

theorem passes_of_twoWay {taken : Address} (ways : flow address decoded = twoWayFlow address decoded taken)
    (next : branchTargetIssue pass w.decodeCache (nextPc address decoded) decoded.provenance = none)
    (branch : branchTargetIssue pass w.decodeCache taken decoded.provenance = none) (direct : ¬Jumps decoded) :
    Passes pass w.decodeCache address decoded where
  targets target mem := by
    rw [ways] at mem
    rcases List.mem_cons.mp mem with same | last
    · exact same ▸ next
    · exact (List.mem_singleton.mp last) ▸ branch
  callee target is := by
    rw [ways] at is
    exact absurd is.symm (Option.some_ne_none _)
  foldable jumps := absurd jumps direct

theorem passes_of_oneWay {taken : Address} (ways : flow address decoded = oneWayFlow decoded taken)
    (branch : branchTargetIssue pass w.decodeCache taken decoded.provenance = none) (direct : ¬Jumps decoded) :
    Passes pass w.decodeCache address decoded where
  targets target mem := by
    rw [ways] at mem
    exact (List.mem_singleton.mp mem) ▸ branch
  callee target is := by
    rw [ways] at is
    exact absurd is.symm (Option.some_ne_none _)
  foldable jumps := absurd jumps direct

theorem passes_of_callee (targets : (flow address decoded).targets = [])
    (callee : ∀ target, (flow address decoded).callee = some target →
      pass.environment.admitTarget target .directCall = none)
    (foldable : Jumps decoded → m68kIsStaticallyFoldableControlEa decoded.sourceEa) :
    Passes pass w.decodeCache address decoded :=
  ⟨fun _ mem => absurd (targets ▸ mem) List.not_mem_nil, callee, foldable⟩

theorem passes_of_dispatchJump (jumps : Jumps decoded) (direct : ¬Computed decoded)
    (done : (dispatchJump pass w address decoded).2 = none) : Passes pass w.decodeCache address decoded := by
  have foldable := foldable_of_dispatchJump (fun computed => direct ⟨jumps, computed⟩) done
  have admitted := callee_of_dispatchJump foldable done
  have flows : (flow address decoded).targets = [] ∧
      (flow address decoded).callee = some (m68kCanonicalEaAddress decoded.sourceEa) := by
    rcases jumps with kind | kind
    · simp only [flow, kind]
      exact ⟨rfl, rfl⟩
    · simp only [flow, kind]
      exact ⟨rfl, rfl⟩
  apply passes_of_callee flows.1 _ fun _ => foldable
  intro target is
  rw [flows.2] at is
  exact Option.some.inj is ▸ admitted

theorem passes_of_dispatch (direct : ¬Computed decoded) (done : (dispatch pass w address decoded).2 = none) :
    Passes pass w.decodeCache address decoded := by
  rw [dispatch] at done
  dsimp only at done
  split at done
  case h_1 kind =>
    obtain ⟨next, done⟩ := validate_passes done
    obtain ⟨taken, -⟩ := validate_passes done
    exact passes_of_twoWay (by simp only [flow, kind]) next taken (not_jumps kind nofun nofun)
  case h_2 kind =>
    obtain ⟨taken, -⟩ := validate_passes done
    exact passes_of_oneWay (by simp only [flow, kind]) taken (not_jumps kind nofun nofun)
  case h_3 kind =>
    obtain ⟨taken, done⟩ := validate_passes done
    by_cases always : decoded.condition = .always
    · exact passes_of_oneWay (by simp only [flow, kind, if_pos always]) taken (not_jumps kind nofun nofun)
    · rw [if_neg always] at done
      obtain ⟨next, -⟩ := validate_passes done
      rw [noteBlockEntry_keeps.decodeCache] at next
      exact passes_of_twoWay (by simp only [flow, kind, if_neg always]) next taken (not_jumps kind nofun nofun)
  case h_8 kind => exact passes_of_dispatchJump (.inl kind) direct done
  case h_9 kind => exact passes_of_dispatchJump (.inr kind) direct done
  case h_10 kind =>
    have flows : flow address decoded = callFlow address decoded
        (m68kBranchTarget address (signedDisplacement decoded)) := by simp only [flow, kind]
    apply passes_of_callee (by rw [flows]; rfl) _ fun jumps => absurd jumps (not_jumps kind nofun nofun)
    intro _ is
    rw [flows] at is
    cases admitted : pass.environment.admitTarget (m68kBranchTarget address (signedDisplacement decoded))
      .directCall with
    | none => exact Option.some.inj is ▸ admitted
    | some issue =>
      rw [admitted] at done
      exact absurd done (Option.some_ne_none _)
  case h_11 kind =>
    obtain ⟨taken, done⟩ := validate_passes done
    obtain ⟨next, -⟩ := validate_passes done
    exact passes_of_twoWay (by simp only [flow, kind]) next taken (not_jumps kind nofun nofun)
  case h_12 =>
    have straight : decoded.kind ∉ branchKinds := by
      simp_all [branchKinds]
    have direct : ¬Jumps decoded := by
      rw [Jumps]
      simp_all
    exact passes_of_callee (by rw [flow_straight straight]) (by simp [flow_straight straight])
      fun jumps => absurd jumps direct
  case h_4 kind =>
    exact passes_of_callee (by simp only [flow, kind]) (by simp [flow, kind])
      fun jumps => absurd jumps (not_jumps kind nofun nofun)
  case h_5 kind =>
    exact passes_of_callee (by simp only [flow, kind]) (by simp [flow, kind])
      fun jumps => absurd jumps (not_jumps kind nofun nofun)
  case h_6 kind =>
    exact passes_of_callee (by simp only [flow, kind]) (by simp [flow, kind])
      fun jumps => absurd jumps (not_jumps kind nofun nofun)
  case h_7 kind =>
    exact passes_of_callee (by simp only [flow, kind]) (by simp [flow, kind])
      fun jumps => absurd jumps (not_jumps kind nofun nofun)

end Segarecomp.M68k.StaticDiscovery

import Segarecomp.M68k.StaticWalkPartition

/-! Whether a direct branch that was accepted lands inside a decoded instruction: what the check of a
target and the check of a decode leave out when instructions overlap. -/

namespace Segarecomp.M68k.StaticDiscovery

open DirectFlow (Address Byte InstructionProvenance MappingClaim)
open M68kStaticGraphWalker

/-! ## The two checks -/

/-- The nearest entry up to a target contains it. -/
def nearestContains (entries : List (Address × M68kDecodedInstruction)) (target : Address) : Bool :=
  (entryUpTo entries target).any fun prev => InsideSpan target prev.1 prev.2.provenance.length

/-- An entry contains the target, but the nearest one up to it does not. -/
def shadowed (entries : List (Address × M68kDecodedInstruction)) (target : Address) : Bool :=
  (entries.any fun entry => InsideSpan target entry.1 entry.2.provenance.length) && !nearestContains entries target

/-- The targets of an instruction in the order of their checks. -/
def checks (address : Address) (decoded : M68kDecodedInstruction) : List Address :=
  match decoded.kind with
  | .bneShort => [nextPc address decoded, m68kBranchTarget address (decoded.operand.signExtend 32)]
  | .braShort => [m68kBranchTarget address (decoded.operand.signExtend 32)]
  | .branch =>
    let taken := m68kBranchTarget address (signedDisplacement decoded)
    if decoded.condition = .always then [taken] else [taken, nextPc address decoded]
  | .dbcc =>
    [m68kBranchTarget address ((decoded.sourceEa.immediateValue.setWidth 16).signExtend 32), nextPc address decoded]
  | _ => []

/-- The checks that are made: none after the first that fails. -/
def reachedChecks (pass : Pass) (entries : List (Address × M68kDecodedInstruction)) (source : InstructionProvenance) :
    List Address → List Address
  | [] => []
  | target :: rest =>
    target :: if (branchTargetIssue pass entries target source).isNone then reachedChecks pass entries source rest else []

def checksMeet (pass : Pass) (entries : List (Address × M68kDecodedInstruction)) (address : Address)
    (decoded : M68kDecodedInstruction) : Bool :=
  (reachedChecks pass entries decoded.provenance (checks address decoded)).all fun target => !shadowed entries target

/-- No check made at an address is of a shadowed target, and an instruction rejected there for what it
accesses, which is not checked against the accepted targets, contains none. -/
def visitMeets (pass : Pass) (w : M68kStaticGraphWalker) (address : Address) : Bool :=
  match w.cached address with
  | some decoded => checksMeet pass w.decodeCache address decoded
  | none =>
    if w.instructionsUsed = pass.maxInstructions then true
    else
      match decodedAt pass.environment pass.decoder address with
      | .error _ => true
      | .ok (source, decoded) =>
        if (spanIssue pass.environment address source decoded).isSome then
          (acceptedInside w address decoded.provenance.length).isNone
        else if (acceptedInside w address decoded.provenance.length).isSome then true
        else checksMeet pass (w.decodeCache ++ [(address, decoded)]) address decoded

def stepMeets (pass : Pass) (s : Finset Address × M68kStaticGraphWalker) : Bool :=
  match s.2.worklist with
  | [] => true
  | address :: rest => decide (address ∈ s.1) || visitMeets pass { s.2 with worklist := rest } address

/-! ## The states of a walk -/

inductive WalkState (pass : Pass) : Finset Address × M68kStaticGraphWalker → Prop
  | start : WalkState pass (∅, start pass)
  | step {s : Finset Address × M68kStaticGraphWalker} (reached : WalkState pass s) : WalkState pass (drainStep pass s)
  | retry {s : Finset Address × M68kStaticGraphWalker} (reached : WalkState pass s) (drained : s.2.worklist = [])
      (deferred : s.2.deferredIndirectAn ≠ []) : WalkState pass (s.1, finalIndirectPass pass s.2)

/-- Everything a walk has reported so far. -/
def reports (w : M68kStaticGraphWalker) : List M68kDiscoveryIssue := w.primaryIssue.toList ++ w.secondaryIssues

def MidReported (w : M68kStaticGraphWalker) : Prop :=
  ∃ issue ∈ reports w, issue.category = .midInstructionDirectTarget

/-- No accepted direct-branch target lies strictly inside a decoded instruction. -/
def Apart (w : M68kStaticGraphWalker) : Prop :=
  ∀ accepted ∈ w.acceptedBranchTargets, ∀ entry ∈ w.decodeCache,
    ¬InsideSpan accepted.1 entry.1 entry.2.provenance.length

variable {pass : Pass} {w w' : M68kStaticGraphWalker} {address target : Address} {decoded : M68kDecodedInstruction}
  {source : InstructionProvenance}

/-! ## What a dispatch accepts -/

/-- What is accepted from `w` to `w'` has passed a check among `targets`. -/
def Accepts (pass : Pass) (entries : List (Address × M68kDecodedInstruction)) (source : InstructionProvenance)
    (targets : List Address) (w w' : M68kStaticGraphWalker) : Prop :=
  ∀ accepted ∈ w'.acceptedBranchTargets, accepted ∈ w.acceptedBranchTargets ∨
    accepted.1 ∈ reachedChecks pass entries source targets ∧ branchTargetIssue pass entries accepted.1 source = none

section Accepted

theorem accepted_noteBlockEntry : (w.noteBlockEntry address).acceptedBranchTargets = w.acceptedBranchTargets := by
  rw [noteBlockEntry]
  split <;> rfl

theorem accepted_enqueueControlTarget :
    (w.enqueueControlTarget pass target).acceptedBranchTargets = w.acceptedBranchTargets := by
  rw [enqueueControlTarget]
  split <;> rfl

theorem accepted_enqueueNextPc :
    (w.enqueueNextPc pass target source).acceptedBranchTargets = w.acceptedBranchTargets := by
  rw [enqueueNextPc]
  dsimp only
  split
  · split
    · exact accepted_noteBlockEntry
    · exact accepted_noteBlockEntry
  · rfl

theorem accepted_emitBranch {edges : List M68kStaticEdge} :
    (w.emitBranch address edges).acceptedBranchTargets = w.acceptedBranchTargets := by
  rw [emitBranch]
  split <;> rfl

theorem accepted_emitCall {call : M68kStaticCall} :
    (w.emitCall address call).acceptedBranchTargets = w.acceptedBranchTargets := by
  rw [emitCall]
  split <;> rfl

theorem accepted_recordUnproven :
    (recordUnprovenTier2Owner w address decoded).acceptedBranchTargets = w.acceptedBranchTargets := by
  rw [recordUnprovenTier2Owner]
  split <;> rfl

theorem accepted_foldl {add : M68kStaticGraphWalker → Address → M68kStaticGraphWalker}
    (same : ∀ v candidate, (add v candidate).acceptedBranchTargets = v.acceptedBranchTargets) (candidates : List Address)
    (v : M68kStaticGraphWalker) : (candidates.foldl add v).acceptedBranchTargets = v.acceptedBranchTargets := by
  induction candidates generalizing v with
  | nil => rfl
  | cons candidate rest ih => exact (ih _).trans (same v candidate)

theorem accepted_emitCandidate (decoded : M68kDecodedInstruction) (w : M68kStaticGraphWalker) (candidate : Address) :
    (emitCandidate decoded w candidate).acceptedBranchTargets = w.acceptedBranchTargets := by
  rw [emitCandidate]
  dsimp only
  split <;> exact accepted_noteBlockEntry

theorem accepted_emitCandidates {candidates : List Address} :
    (emitCandidates pass w address decoded candidates).acceptedBranchTargets = w.acceptedBranchTargets := by
  rw [emitCandidates, accepted_foldl (fun _ _ => accepted_enqueueControlTarget)]
  split
  · rfl
  · have emitted := accepted_foldl (accepted_emitCandidate decoded) candidates
      (retainSet w address decoded candidates)
    rw [emitCandidateSet]
    dsimp only
    split
    · rw [accepted_enqueueNextPc, accepted_noteBlockEntry, emitted]
      rfl
    · rw [emitted]
      rfl

theorem accepted_processIndirectControl :
    (processIndirectControl pass w address decoded).1.acceptedBranchTargets = w.acceptedBranchTargets := by
  rw [processIndirectControl]
  repeat' split
  all_goals first
    | rfl
    | exact accepted_emitCandidates
    | exact accepted_recordUnproven

theorem accepted_processIndirectControlAn :
    (processIndirectControlAn pass w address decoded).1.acceptedBranchTargets = w.acceptedBranchTargets := by
  rw [processIndirectControlAn]
  dsimp only
  repeat' split
  all_goals first
    | rfl
    | exact accepted_emitCandidates
    | exact accepted_recordUnproven

theorem accepted_dispatchCall :
    (dispatchCall pass w address decoded target).1.acceptedBranchTargets = w.acceptedBranchTargets := by
  rw [dispatchCall]
  dsimp only
  rw [accepted_enqueueNextPc, accepted_enqueueControlTarget, accepted_emitCall, accepted_noteBlockEntry,
    accepted_noteBlockEntry]

theorem accepted_dispatchJump :
    (dispatchJump pass w address decoded).1.acceptedBranchTargets = w.acceptedBranchTargets := by
  rw [dispatchJump]
  dsimp only
  repeat' split
  all_goals first
    | rfl
    | exact accepted_processIndirectControl
    | exact accepted_processIndirectControlAn
    | exact accepted_recordUnproven
    | exact accepted_dispatchCall
    | rw [accepted_enqueueControlTarget, accepted_emitBranch, accepted_noteBlockEntry]

theorem accepts_same {targets : List Address} {entries : List (Address × M68kDecodedInstruction)}
    (same : w'.acceptedBranchTargets = w.acceptedBranchTargets) : Accepts pass entries source targets w w' :=
  fun _ mem => .inl (same ▸ mem)

theorem validate_accepts {next : M68kStaticGraphWalker → Outcome} {rest : List Address}
    (after : ∀ v : M68kStaticGraphWalker, v.decodeCache = w.decodeCache →
      Accepts pass w.decodeCache source rest v (next v).1) :
    Accepts pass w.decodeCache source (target :: rest) w ((validateBranchTarget pass w target source).andThen next).1 := by
  rw [validateBranchTarget]
  cases issue : branchTargetIssue pass w.decodeCache target source with
  | some found => exact accepts_same rfl
  | none =>
    intro accepted mem
    rw [reachedChecks, issue]
    rcases after (w.accept target source) rfl accepted mem with earlier | later
    · rcases List.mem_append.mp earlier with old | new
      · exact .inl old
      · rw [List.mem_singleton.mp new]
        exact .inr ⟨List.mem_cons_self, issue⟩
    · exact .inr ⟨List.mem_cons_of_mem _ later.1, later.2⟩

/-- A dispatch accepts only targets whose checks are made and pass. -/
theorem dispatch_accepts :
    Accepts pass w.decodeCache decoded.provenance (checks address decoded) w (dispatch pass w address decoded).1 := by
  have twoWay (v : M68kStaticGraphWalker) (first second next control : Address) (edges : List M68kStaticEdge) :
      ((((((v.noteBlockEntry first).noteBlockEntry second).emitBranch address edges).enqueueNextPc pass next
        decoded.provenance).enqueueControlTarget pass control)).acceptedBranchTargets = v.acceptedBranchTargets := by
    rw [accepted_enqueueControlTarget, accepted_enqueueNextPc, accepted_emitBranch, accepted_noteBlockEntry,
      accepted_noteBlockEntry]
  rw [dispatch, checks]
  dsimp only
  cases kind : decoded.kind with
  | bneShort =>
    exact validate_accepts fun v same => same ▸ validate_accepts fun _ _ => accepts_same (twoWay _ _ _ _ _ _)
  | braShort =>
    apply validate_accepts
    intro v _
    apply accepts_same
    rw [accepted_enqueueControlTarget, accepted_emitBranch, accepted_noteBlockEntry]
  | branch =>
    dsimp only
    by_cases always : decoded.condition = .always
    · rw [if_pos always]
      apply validate_accepts
      intro v _
      rw [if_pos always]
      apply accepts_same
      rw [accepted_enqueueControlTarget, accepted_emitBranch, accepted_noteBlockEntry]
    · rw [if_neg always]
      apply validate_accepts
      intro v same accepted mem
      rw [if_neg always] at mem
      have cache : (v.noteBlockEntry (m68kBranchTarget address (signedDisplacement decoded))).decodeCache =
          w.decodeCache := noteBlockEntry_keeps.decodeCache.trans same
      rw [← cache, ← accepted_noteBlockEntry (w := v)]
      refine validate_accepts (fun u _ => accepts_same ?_) accepted mem
      rw [accepted_enqueueControlTarget, accepted_enqueueNextPc, accepted_emitBranch, accepted_noteBlockEntry]
  | dbcc =>
    exact validate_accepts fun v same => same ▸ validate_accepts fun _ _ => accepts_same (twoWay _ _ _ _ _ _)
  | jmp => exact accepts_same accepted_dispatchJump
  | jsr => exact accepts_same accepted_dispatchJump
  | bsr =>
    dsimp only
    split
    · exact accepts_same rfl
    · exact accepts_same accepted_dispatchCall
  | rts =>
    dsimp only
    split
    · exact accepts_same rfl
    · exact accepts_same rfl
  | rte => exact accepts_same rfl
  | rtr => exact accepts_same rfl
  | instructionException => exact accepts_same rfl
  | _ =>
    apply accepts_same
    dsimp only
    split
    · rw [accepted_enqueueNextPc, accepted_noteBlockEntry]
    · rw [accepted_enqueueNextPc]

end Accepted

/-! ## One address -/

section Visit

/-- A check that passes and is not shadowed is of a target outside every entry. -/
theorem outside_of_check {entries : List (Address × M68kDecodedInstruction)}
    (passes : branchTargetIssue pass entries target source = none) (clear : shadowed entries target = false) :
    ∀ entry ∈ entries, ¬InsideSpan target entry.1 entry.2.provenance.length := by
  have nearest : nearestContains entries target = false := by
    rw [branchTargetIssue] at passes
    split at passes
    · cases passes
    · split at passes
      · cases passes
      · split at passes
        · cases passes
        · next outside => exact Bool.eq_false_of_not_eq_true outside
  rw [shadowed, nearest, Bool.not_false, Bool.and_true] at clear
  intro entry mem inside
  exact List.any_eq_false.mp clear entry mem (decide_eq_true inside)

theorem Apart.dispatch (apart : Apart w) (meets : checksMeet pass w.decodeCache address decoded = true) :
    Apart (dispatch pass w address decoded).1 := by
  intro accepted mem entry standing
  rw [dispatch_keeps.decodeCache] at standing
  rcases dispatch_accepts accepted mem with old | ⟨made, passes⟩
  · exact apart accepted old entry standing
  · have clear := List.all_eq_true.mp meets accepted.1 made
    exact outside_of_check passes (by simpa using clear) entry standing

theorem Apart.decode (apart : Apart w) (clear : acceptedInside w address decoded.provenance.length = none)
    (accepted : w'.acceptedBranchTargets = w.acceptedBranchTargets)
    (cache : w'.decodeCache = w.decodeCache ++ [(address, decoded)]) : Apart w' := by
  intro target mem entry standing
  rw [accepted] at mem
  rw [cache] at standing
  rcases List.mem_append.mp standing with old | new
  · exact apart target mem entry old
  · rw [List.mem_singleton.mp new]
    exact fun inside => absurd (decide_eq_true inside) (List.find?_eq_none.mp clear target mem)

theorem budgetExhausted_accepted :
    (budgetExhausted pass w address).1.acceptedBranchTargets = w.acceptedBranchTargets := by
  rw [budgetExhausted]
  repeat' split
  all_goals rfl

/-- An address keeps accepted targets and decoded instructions apart, or the walk reports one inside. -/
theorem processOne_apart (apart : Apart w) (meets : visitMeets pass w address = true) :
    Apart (processOne pass w address).1 ∨
      ∃ issue, (processOne pass w address).2 = some issue ∧ issue.category = .midInstructionDirectTarget := by
  rw [visitMeets] at meets
  rw [processOne]
  cases known : w.cached address with
  | some decoded =>
    rw [known] at meets
    exact .inl (apart.dispatch meets)
  | none =>
    rw [known] at meets
    dsimp only at meets ⊢
    rw [decodeInstruction]
    by_cases budget : w.instructionsUsed = pass.maxInstructions
    · rw [if_pos budget]
      refine .inl fun accepted mem entry standing => ?_
      rw [budgetExhausted_accepted] at mem
      rw [budgetExhausted_keeps.decodeCache] at standing
      exact apart accepted mem entry standing
    · rw [if_neg budget] at meets ⊢
      cases stands : decodedAt pass.environment pass.decoder address with
      | error issue => exact .inl apart
      | ok pair =>
        rw [stands] at meets
        dsimp only at meets ⊢
        cases operands : spanIssue pass.environment address pair.1 pair.2 with
        | some issue =>
          rw [operands, Option.isSome_some, if_pos rfl] at meets
          exact .inl (apart.decode (Option.isNone_iff_eq_none.mp meets) rfl rfl)
        | none =>
          rw [operands, Option.isSome_none, if_neg Bool.false_ne_true] at meets
          dsimp only
          cases clear : acceptedInside w address pair.2.provenance.length with
          | some accepted =>
            rw [show acceptedInside { w with decodeCache := w.decodeCache ++ [(address, pair.2)] } address
              pair.2.provenance.length = some accepted from clear]
            exact .inr ⟨_, rfl, rfl⟩
          | none =>
            rw [clear, Option.isSome_none, if_neg Bool.false_ne_true] at meets
            rw [show acceptedInside { w with decodeCache := w.decodeCache ++ [(address, pair.2)] } address
              pair.2.provenance.length = none from clear]
            have decodes : Apart
                { w with
                  decodeCache := w.decodeCache ++ [(address, pair.2)]
                  instructionsUsed := w.instructionsUsed + 1
                  decodeOrder := w.decodeOrder ++ [address] } := apart.decode clear rfl rfl
            exact .inl (decodes.dispatch meets)

/-! ## A walk -/

theorem budgetExhausted_reports : reports (budgetExhausted pass w address).1 = reports w := by
  rw [reports, budgetExhausted_keeps.primaryIssue, budgetExhausted_keeps.secondaryIssues]
  rfl

theorem processOne_reports : reports (processOne pass w address).1 = reports w := by
  have dispatched (v : M68kStaticGraphWalker) (decoded : M68kDecodedInstruction) :
      reports (dispatch pass v address decoded).1 = reports v := by
    rw [reports, dispatch_keeps.primaryIssue, dispatch_keeps.secondaryIssues]
    rfl
  have decodes : reports (decodeInstruction pass w address).1 = reports w := by
    rw [decodeInstruction]
    split
    · exact budgetExhausted_reports
    · split
      · rfl
      · dsimp only
        repeat' split
        all_goals rfl
  rw [processOne]
  split
  · exact dispatched w _
  · split
    · next v issue read =>
      rw [read] at decodes
      exact decodes
    · next v decoded read =>
      rw [read] at decodes
      exact (dispatched _ decoded).trans decodes

theorem recordFailure_reports (outcome : Outcome) :
    reports (recordFailure outcome) = reports outcome.1 ++ outcome.2.toList ∨
      outcome.1.primaryIssue = none ∧ reports (recordFailure outcome) = outcome.2.toList ++ reports outcome.1 := by
  rcases outcome with ⟨v, none | issue⟩
  · exact .inl (List.append_nil _).symm
  · rw [recordFailure]
    cases primary : v.primaryIssue with
    | none =>
      refine .inr ⟨rfl, ?_⟩
      simp [reports, primary]
    | some first =>
      refine .inl ?_
      simp [reports, primary]

theorem recordFailure_mem (outcome : Outcome) (issue : M68kDiscoveryIssue) :
    issue ∈ reports (recordFailure outcome) ↔ issue ∈ reports outcome.1 ∨ outcome.2 = some issue := by
  rcases recordFailure_reports outcome with same | ⟨-, same⟩
  · rw [same, List.mem_append, Option.mem_toList]
  · rw [same, List.mem_append, Option.mem_toList, or_comm]

theorem recordFailure_apart {outcome : Outcome} (apart : Apart outcome.1) : Apart (recordFailure outcome) := by
  rcases outcome with ⟨v, none | issue⟩
  · exact apart
  · rw [recordFailure]
    split <;> exact apart

/-- What holds in every state of a walk that meets the condition. -/
def Kept (w : M68kStaticGraphWalker) : Prop := MidReported w ∨ Apart w

theorem Kept.record {outcome : Outcome} (reported : MidReported w → MidReported outcome.1)
    (visited : Apart w → Apart outcome.1 ∨
      ∃ issue, outcome.2 = some issue ∧ issue.category = .midInstructionDirectTarget)
    (kept : Kept w) : Kept (recordFailure outcome) := by
  rcases kept with mid | apart
  · rcases reported mid with ⟨issue, mem, category⟩
    exact .inl ⟨issue, (recordFailure_mem outcome issue).mpr (.inl mem), category⟩
  · rcases visited apart with still | ⟨issue, failed, category⟩
    · exact .inr (recordFailure_apart still)
    · exact .inl ⟨issue, (recordFailure_mem outcome issue).mpr (.inr failed), category⟩

theorem Kept.step {s : Finset Address × M68kStaticGraphWalker} (kept : Kept s.2) (meets : stepMeets pass s = true) :
    Kept (drainStep pass s).2 := by
  rcases s with ⟨visited, w⟩
  rw [stepMeets] at meets
  rw [drainStep]
  cases front : w.worklist with
  | nil => exact kept
  | cons address rest =>
    dsimp only at meets ⊢
    rw [front] at meets
    by_cases old : address ∈ visited
    · rw [if_pos old]
      exact kept
    · rw [if_neg old]
      have shorter : Kept { w with worklist := rest } := kept
      have visit : visitMeets pass { w with worklist := rest } address = true := by
        simpa [old] using meets
      apply shorter.record
      · rw [MidReported, MidReported, processOne_reports]
        exact id
      · exact fun apart => processOne_apart apart visit

theorem foldl_kept {visit : M68kStaticGraphWalker → Address → M68kStaticGraphWalker}
    (keeps : ∀ v site, Kept v → Kept (visit v site)) (sites : List Address) {v : M68kStaticGraphWalker} (kept : Kept v) :
    Kept (sites.foldl visit v) := by
  induction sites generalizing v with
  | nil => exact kept
  | cons site rest ih =>
    rw [List.foldl_cons]
    exact ih (keeps v site kept)

theorem Kept.retry (kept : Kept w) : Kept (finalIndirectPass pass w) := by
  refine foldl_kept (fun v site holds => ?_) _ (v := { w with indirectAnFinalPass := true }) kept
  cases v.cached site with
  | none => exact holds
  | some decoded =>
    have keeps : Keeps v (processIndirectControlAn pass v site decoded).1 := processIndirectControlAn_keeps
    apply holds.record
    · rw [MidReported, MidReported, reports, reports, keeps.primaryIssue, keeps.secondaryIssues]
      exact id
    · intro apart
      refine .inl fun accepted mem entry standing => ?_
      rw [accepted_processIndirectControlAn] at mem
      rw [keeps.decodeCache] at standing
      exact apart accepted mem entry standing

theorem WalkState.kept {s : Finset Address × M68kStaticGraphWalker}
    (meets : ∀ s, WalkState pass s → stepMeets pass s = true) (reached : WalkState pass s) : Kept s.2 := by
  induction reached with
  | start => exact .inr fun accepted mem => absurd mem List.not_mem_nil
  | step earlier ih => exact ih.step (meets _ earlier)
  | retry earlier drained deferred ih => exact ih.retry

theorem discover_state (pass : Pass) :
    ∃ s, WalkState pass s ∧ s.2.worklist = [] ∧ discoverM68kStaticGraph pass = result pass s.2 := by
  have first : WalkState pass (drain pass (∅, start pass)) ∧ _ :=
    drain_spec (fun _ reached _ => WalkState.step reached) (∅, start pass) .start
  rw [discoverM68kStaticGraph]
  by_cases deferred : (drain pass (∅, start pass)).2.deferredIndirectAn = []
  · rw [if_pos deferred]
    exact ⟨_, first.1, first.2, rfl⟩
  · rw [if_neg deferred]
    have retried := first.1.retry first.2 deferred
    have second : WalkState pass (drain pass (_, finalIndirectPass pass _)) ∧ _ :=
      drain_spec (fun _ reached _ => WalkState.step reached) _ retried
    exact ⟨_, second.1, second.2, rfl⟩

/-- In a walk whose checks are of no shadowed target, nothing accepted lies inside a decoded instruction
unless a target inside one has been reported. -/
theorem accepted_targets_apart (pass : Pass) (meets : ∀ s, WalkState pass s → stepMeets pass s = true) :
    (∀ s, WalkState pass s → (∀ issue ∈ reports s.2, issue.category ≠ .midInstructionDirectTarget) →
      ∀ accepted ∈ s.2.acceptedBranchTargets, ∀ entry ∈ s.2.decodeCache,
        ¬InsideSpan accepted.1 entry.1 entry.2.provenance.length) ∧
    ∃ s, WalkState pass s ∧ s.2.worklist = [] ∧ discoverM68kStaticGraph pass = result pass s.2 := by
  constructor
  · intro s reached unreported
    rcases reached.kept meets with ⟨issue, mem, category⟩ | apart
    · exact absurd category (unreported issue mem)
    · exact apart
  · exact discover_state pass

/-- A walk that is done after `n` addresses and defers nothing has no other states. -/
theorem state_of_walk {n : ℕ} (done : ((drainStep pass)^[n] (∅, start pass)).2.worklist = [])
    (direct : ∀ k ≤ n, ((drainStep pass)^[k] (∅, start pass)).2.deferredIndirectAn = [])
    {s : Finset Address × M68kStaticGraphWalker} (reached : WalkState pass s) :
    ∃ k ≤ n, s = (drainStep pass)^[k] (∅, start pass) := by
  induction reached with
  | start => exact ⟨0, Nat.zero_le n, rfl⟩
  | step earlier ih =>
    rcases ih with ⟨k, bound, rfl⟩
    rcases Nat.lt_or_eq_of_le bound with more | rfl
    · exact ⟨k + 1, more, (Function.iterate_succ_apply' _ _ _).symm⟩
    · refine ⟨k, le_rfl, ?_⟩
      generalize (drainStep pass)^[k] (∅, start pass) = s at done ⊢
      rcases s with ⟨visited, w⟩
      rw [drainStep, show w.worklist = [] from done]
  | retry earlier drained deferred ih =>
    rcases ih with ⟨k, bound, rfl⟩
    exact absurd (direct k bound) deferred

theorem walkState_iterate (pass : Pass) (n : ℕ) : WalkState pass ((drainStep pass)^[n] (∅, start pass)) := by
  induction n with
  | zero => exact .start
  | succ n ih =>
    rw [Function.iterate_succ_apply']
    exact ih.step

theorem loop_steps_meet : ((drainStep (wholePass loopPass))^[4] (∅, start (wholePass loopPass))).2.worklist = [] ∧
    ∀ k < 5, ((drainStep (wholePass loopPass))^[k] (∅, start (wholePass loopPass))).2.deferredIndirectAn = [] ∧
      stepMeets (wholePass loopPass) ((drainStep (wholePass loopPass))^[k] (∅, start (wholePass loopPass))) = true := by
  decide

theorem accepted_targets_apart_loop :
    ∃ s, WalkState (wholePass loopPass) s ∧ s.2.worklist = [] ∧
      discoverM68kStaticGraph (wholePass loopPass) = result (wholePass loopPass) s.2 := by
  refine (accepted_targets_apart (wholePass loopPass) fun s reached => ?_).2
  rcases state_of_walk loop_steps_meet.1 (fun k bound => (loop_steps_meet.2 k (Nat.lt_succ_of_le bound)).1) reached with
    ⟨k, bound, rfl⟩
  exact (loop_steps_meet.2 k (Nat.lt_succ_of_le bound)).2

/-- A call into the operand of an instruction hides that instruction from the check of a later branch
to the same place: the walk reports nothing. -/
theorem overlap_accepts_inside : ∃ s, WalkState (wholePass overlapPass) s ∧
    s.2.worklist = [] ∧ reports s.2 = [] ∧ discoverM68kStaticGraph (wholePass overlapPass) = result (wholePass overlapPass) s.2 ∧
    ∃ accepted ∈ s.2.acceptedBranchTargets, ∃ entry ∈ s.2.decodeCache, entry.1 ∈ s.2.decodeOrder ∧
      InsideSpan accepted.1 entry.1 entry.2.provenance.length := by
  have run : ((drainStep (wholePass overlapPass))^[6] (∅, start (wholePass overlapPass))).2.worklist = [] ∧
      ((drainStep (wholePass overlapPass))^[6] (∅, start (wholePass overlapPass))).2.deferredIndirectAn = [] ∧
      reports ((drainStep (wholePass overlapPass))^[6] (∅, start (wholePass overlapPass))).2 = [] ∧
      ∃ accepted ∈ ((drainStep (wholePass overlapPass))^[6] (∅, start (wholePass overlapPass))).2.acceptedBranchTargets,
        ∃ entry ∈ ((drainStep (wholePass overlapPass))^[6] (∅, start (wholePass overlapPass))).2.decodeCache,
          entry.1 ∈ ((drainStep (wholePass overlapPass))^[6] (∅, start (wholePass overlapPass))).2.decodeOrder ∧
            InsideSpan accepted.1 entry.1 entry.2.provenance.length := by
    decide
  exact ⟨_, walkState_iterate _ 6, run.1, run.2.2.1, discover_of_iterate run.1 run.2.1, run.2.2.2⟩

end Visit

end Segarecomp.M68k.StaticDiscovery

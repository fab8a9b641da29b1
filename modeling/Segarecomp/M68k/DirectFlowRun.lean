import Segarecomp.Lib.BitTests
import Segarecomp.M68k.DirectFlowDiscovery

/-! The block executor against the instruction-by-instruction machine. -/

namespace Segarecomp.M68k.DirectFlow

open Lib.Leaders Lib.BitTests

variable {image : List Byte} {program : DirectFlowProgram}

/-- One instruction at `s.pc`, decoded from the image. -/
def instrStep (image : List Byte) (program : DirectFlowProgram) (s : DirectFlowState) :
    Option DirectFlowState :=
  match decode image program s.pc with
  | .ok (instruction, _) => some (instrEffect instruction s)
  | .error _ => none

/-- `n` instructions: the states they start in, and the state after them. -/
def instrRun (image : List Byte) (program : DirectFlowProgram) :
    ℕ → DirectFlowState → Option (List DirectFlowState × DirectFlowState)
  | 0, s => some ([], s)
  | n + 1, s => do
      let after ← instrStep image program s
      let (visited, last) ← instrRun image program n after
      some (s :: visited, last)

/-- The states a block's operations start in, each at its own instruction's address. -/
def opStates : List (InstructionProvenance × DirectFlowIrOperation) → DirectFlowState → List DirectFlowState
  | [], _ => []
  | (provenance, operation) :: rest, s =>
      { s with pc := provenance.address } :: opStates rest (executeOp operation s)

def runOps (operations : List DirectFlowIrOperation) (s : DirectFlowState) : DirectFlowState :=
  operations.foldl (fun state operation => executeOp operation state) s

theorem sign_bit_iff (value : BitVec 32) : value &&& 0x80000000 ≠ 0 ↔ value.msb = true :=
  and_sign_ne_zero_iff value

theorem overflow_iff (old : BitVec 32) : old.ssubOverflow 1 = true ↔ old = 0x80000000 := by
  have one : (1 : BitVec 32).toInt = 1 := by decide
  simp only [BitVec.ssubOverflow, one, Bool.or_eq_true, decide_eq_true_eq]
  constructor
  · intro wraps
    apply BitVec.eq_of_toInt_eq
    have low := old.le_toInt
    have high := old.toInt_lt
    have least : (0x80000000 : BitVec 32).toInt = -2147483648 := by decide
    omega
  · intro same
    subst same
    right
    decide

theorem kept_x (sr : BitVec 16) : sr &&& 0xFFF0 = (sr &&& 0xFFE0) ||| (if xFlag sr then 0x10 else 0) := by
  apply BitVec.eq_of_getLsbD_eq
  intro i below
  unfold xFlag
  rw [BitVec.getLsbD_eq_getElem (by decide : 4 < 16)]
  cases flag : sr[4] <;> interval_cases i <;> simp [flag]

theorem moveq_flags (sr : BitVec 16) (result : BitVec 32) :
    m68kMoveResultCcr sr result = ccr sr (xFlag sr) result.msb (result = 0) false false := by
  unfold m68kMoveResultCcr ccr
  rw [kept_x]
  simp only [sign_bit_iff]
  cases xFlag sr <;> cases result.msb <;> by_cases zero : result = 0#32 <;>
    simp [zero, BitVec.or_assoc]

theorem subq_flags (sr : BitVec 16) (old : BitVec 32) :
    ((((sr &&& 0xFFE0).setWidth 32) ||| ((if old - 1 = 0 then 4 else 0) |||
      (if (old - 1) &&& 0x80000000 ≠ 0 then 8 else 0) ||| (if old = 0x80000000 then 2 else 0) |||
      (if old = 0 then 0x11 else 0))).setWidth 16) =
      ccr sr (old.toNat < 1) (old - 1).msb (old - 1 = 0) (old.ssubOverflow 1) (old.toNat < 1) := by
  have narrow : ∀ flags : BitVec 32, (((sr &&& 0xFFE0).setWidth 32) ||| flags).setWidth 16 =
      (sr &&& 0xFFE0) ||| flags.setWidth 16 := by
    intro flags
    simp
  rw [narrow]
  unfold ccr
  simp only [sign_bit_iff, ← overflow_iff]
  have borrows : old.toNat < 1 ↔ old = 0 := by
    rw [Nat.lt_one_iff, ← BitVec.toNat_inj]
    rfl
  simp only [borrows]
  cases old.ssubOverflow 1 <;> cases (old - 1).msb <;> by_cases zero : old - 1#32 = 0#32 <;>
    by_cases under : old = 0#32 <;> simp [zero, under, BitVec.or_assoc]

/-- Where control goes after the instruction at `pc`, given the status register it leaves. -/
def successor (instruction : DirectInstruction) (pc : Address) (sr : BitVec 16) : Address :=
  match instruction.kind with
  | .moveqD0 | .subqL1D0 => pc + 2
  | .bneShort => if zFlag sr then pc + 2 else branchTarget pc instruction.operand
  | .braShort => branchTarget pc instruction.operand

theorem executeOp_pc (operation : DirectFlowIrOperation) (s : DirectFlowState) (pc : Address) :
    executeOp operation { s with pc } = { executeOp operation s with pc } := by
  unfold executeOp
  cases operation.kind <;> rfl

theorem runOps_pc (operations : List DirectFlowIrOperation) (s : DirectFlowState) (pc : Address) :
    runOps operations { s with pc } = { runOps operations s with pc } := by
  induction operations generalizing s with
  | nil => rfl
  | cons operation rest ih =>
      have head := executeOp_pc operation s pc
      have tail := ih (executeOp operation s)
      simp only [runOps, List.foldl_cons] at tail ⊢
      rw [head, tail]

theorem opStates_pc (lines : List (InstructionProvenance × DirectFlowIrOperation)) (s : DirectFlowState)
    (pc : Address) : opStates lines { s with pc } = opStates lines s := by
  induction lines generalizing s with
  | nil => rfl
  | cons line rest ih =>
      rcases line with ⟨provenance, operation⟩
      rw [opStates, opStates, executeOp_pc, ih]

/-- The lifted operation, run on the registers, is the instruction. -/
theorem instrStep_eq {i : DirectInstruction} {shared : M68kDecodedInstruction} {s : DirectFlowState}
    (decodes : decode image program s.pc = .ok (i, shared)) :
    instrStep image program s =
      some { executeOp (projectDirectOperation (liftM68kInstruction shared)) s with
        pc := successor i s.pc (executeOp (projectDirectOperation (liftM68kInstruction shared)) s).sr } := by
  rcases decode_kind decodes with ⟨_, kind, operand⟩
  simp only [instrStep, decodes, instrEffect, executeOp, successor, projectDirectOperation,
    liftM68kInstruction, kind, operand]
  cases shared.kind
  · simp only [directKind, moveq_flags]
  · simp only [directKind, subq_flags]
  · rfl
  · rfl

theorem instrRun_succ {n : ℕ} {s after : DirectFlowState} (step : instrStep image program s = some after) :
    instrRun image program (n + 1) s =
      (instrRun image program n after).map (fun run => (s :: run.1, run.2)) := by
  rw [instrRun, step]
  cases rest : instrRun image program n after <;> simp [rest]

theorem instrRun_append {m n : ℕ} {s middle last : DirectFlowState} {first second : List DirectFlowState}
    (one : instrRun image program m s = some (first, middle))
    (two : instrRun image program n middle = some (second, last)) :
    instrRun image program (m + n) s = some (first ++ second, last) := by
  induction m generalizing s first with
  | zero =>
      rw [instrRun] at one
      injection one with same
      injection same with empty here
      subst empty
      subst here
      simpa using two
  | succ m ih =>
      cases step : instrStep image program s with
      | none => simp [instrRun, step] at one
      | some after =>
          rw [instrRun_succ step] at one
          rcases Option.map_eq_some_iff.mp one with ⟨⟨visited, stop⟩, run, same⟩
          injection same with whole here
          subst whole
          subst here
          rw [Nat.add_right_comm, instrRun_succ step, ih run]
          rfl

/-- The instructions at `pcs`, executed one by one from `state`, do what their operations do, and
control goes where the last of them sends it. -/
def LineRun (image : List Byte) (program : DirectFlowProgram) (s : Discovery) (pcs : List Address)
    (state : DirectFlowState) : Prop :=
  ∃ p i shared, pcs.getLast? = some p ∧ s.decoded.lookup p = some (i, shared) ∧
    instrRun image program pcs.length state =
      some (opStates (pcs.map (lineAt s.decoded)) state,
        { runOps (pcs.map (fun q => (lineAt s.decoded q).2)) state with
          pc := successor i p (runOps (pcs.map (fun q => (lineAt s.decoded q).2)) state).sr })

theorem LineRun.one {s : Discovery} (h : Finished image program s) {state : DirectFlowState}
    (known : Known s.decoded state.pc) : LineRun image program s [state.pc] state := by
  rcases h.decoded_at known with ⟨i, shared, found, decodes⟩
  refine ⟨state.pc, i, shared, rfl, found, ?_⟩
  rw [List.length_singleton, instrRun_succ (instrStep_eq decodes)]
  simp only [instrRun, List.map_cons, List.map_nil, lineAt, found, opStates, (decode_provenance decodes).1]
  rfl

theorem LineRun.cons {s : Discovery} (h : Finished image program s) {state : DirectFlowState}
    (known : Known s.decoded state.pc) (straight : Straight s.decoded state.pc) {pcs : List Address}
    (rest : LineRun image program s pcs
      { executeOp (lineAt s.decoded state.pc).2 state with pc := state.pc + 2 }) :
    LineRun image program s (state.pc :: pcs) state := by
  rcases h.decoded_at known with ⟨j, shared, found, decodes⟩
  have kind : j.kind.straight = true := by
    rcases straight with ⟨i, other, member, kind⟩
    rw [← lookup_eq_some_iff h.consistent.keys_nodup, found] at member
    injection member with same
    injection same with same
    exact same ▸ kind
  have onward : ∀ sr, successor j state.pc sr = state.pc + 2 := by
    intro sr
    unfold successor
    cases which : j.kind <;> simp [which, DirectFlowKind.straight] at kind ⊢
  have line : lineAt s.decoded state.pc =
      (j.provenance, projectDirectOperation (liftM68kInstruction shared)) := by
    simp only [lineAt, found]
  rcases rest with ⟨p, i, last, final, known, run⟩
  refine ⟨p, i, last, ?_, known, ?_⟩
  · rw [List.getLast?_cons, final]
    rfl
  · rw [line, opStates_pc, runOps_pc] at run
    rw [List.length_cons, instrRun_succ (instrStep_eq decodes), onward, run]
    simp only [Option.map_some, List.map_cons, line, opStates, runOps, List.foldl_cons,
      (decode_provenance decodes).1]

theorem block_run {s : Discovery} (h : Finished image program s) {room : ℕ} {state : DirectFlowState}
    (known : Known s.decoded state.pc) (enough : 2 ^ 32 ≤ room + state.pc.toNat) :
    LineRun image program s (block (fallsTo s.decoded) s.fifo room state.pc) state := by
  induction room generalizing state with
  | zero =>
      have small := state.pc.isLt
      omega
  | succ room ih =>
      rw [block]
      cases falls : fallsTo s.decoded state.pc with
      | none => exact LineRun.one h known
      | some b =>
          by_cases leads : b ∈ s.fifo
          · simp only [leads, if_true]
            exact LineRun.one h known
          · have splits := h.splittable (List.Perm.refl _)
            have inside := splits.closed _ known _ falls
            have higher := splits.climbs _ known _ falls
            rcases (fallsTo_eq_some_iff h.consistent _ _).mp falls with ⟨straight, rfl⟩
            simp only [leads, if_false]
            apply LineRun.cons h known straight
            have there : Known s.decoded
                ({ executeOp (lineAt s.decoded state.pc).2 state with pc := state.pc + 2 } : DirectFlowState).pc :=
              inside
            have left : 2 ^ 32 ≤ room + (state.pc + 2).toNat := by omega
            exact ih there left

/-! The executor. -/

def DirectBlock.lines (b : DirectBlock) : List (InstructionProvenance × DirectFlowIrOperation) :=
  b.provenance.instructions.zip b.operations

theorem blockOf_lines (s : Discovery) (entry : Address) :
    (blockOf s entry).lines = (blockPcs s entry).map (lineAt s.decoded) := by
  simp [DirectBlock.lines, blockOf, List.zip_map']

theorem blockAt_eq {s : Discovery} {analysis : DirectFlowAnalysis} (h : Analysed image program s analysis)
    {entry : Address} (member : entry ∈ s.fifo) : blockAt analysis entry = some (blockOf s entry) := by
  have inside : blockOf s entry ∈ analysis.blocks :=
    h.blocks.mem_iff.mpr (List.mem_map.mpr ⟨entry, member, rfl⟩)
  cases found : blockAt analysis entry with
  | none =>
      have never := List.find?_eq_none.mp found _ inside
      simp [DirectBlock.entry, blockOf] at never
  | some b =>
      have here : b.entry = entry := by simpa using List.find?_some found
      rcases List.mem_map.mp (h.blocks.mem_iff.mp (List.mem_of_find?_eq_some found)) with ⟨e, _, rfl⟩
      have same : e = entry := here
      rw [same]

theorem blockEdges_made {b : DirectBlock} {edge : DirectEdge} (member : edge ∈ blockEdges program b) :
    ∃ last kind condition target, edge = edgeTo program b last kind condition target := by
  unfold blockEdges at member
  split at member
  · cases member
  · split at member <;> simp only [List.mem_cons, List.not_mem_nil, or_false] at member
    · rcases member with rfl | rfl <;> exact ⟨_, _, _, _, rfl⟩
    · exact ⟨_, _, _, _, member⟩
    · exact ⟨_, _, _, _, member⟩

theorem blockEdges_source {b : DirectBlock} {edge : DirectEdge} (member : edge ∈ blockEdges program b) :
    edge.sourceBlock = b.entry := by
  rcases blockEdges_made member with ⟨_, _, _, _, rfl⟩
  rfl

theorem edge_of_mem {s : Discovery} {analysis : DirectFlowAnalysis} (h : Analysed image program s analysis)
    {entry : Address} {edge : DirectEdge} (member : edge ∈ analysis.edges) (source : edge.sourceBlock = entry) :
    edge ∈ blockEdges program (blockOf s entry) := by
  rcases (h.edges edge).mp member with ⟨e, _, inside⟩
  have same : edge.sourceBlock = e := blockEdges_source inside
  rw [← source, same]
  exact inside

/-- The edges of a block, by the instruction that ends it. -/
def endEdges (program : DirectFlowProgram) (block : DirectBlock) (i : DirectInstruction) (p : Address)
    (last : DirectFlowIrOperation) : List DirectEdge :=
  match i.kind with
  | .moveqD0 | .subqL1D0 => [edgeTo program block last .fallthrough .always (p + 2)]
  | .bneShort =>
      [edgeTo program block last .bneFallthrough .zSet (p + 2),
       edgeTo program block last .bneTaken .zClear (branchTarget p i.operand)]
  | .braShort => [edgeTo program block last .braTaken .always (branchTarget p i.operand)]

theorem blockEdges_eq {s : Discovery} (h : Finished image program s) {entry p : Address}
    {i : DirectInstruction} {shared : M68kDecodedInstruction}
    (final : (blockPcs s entry).getLast? = some p) (found : s.decoded.lookup p = some (i, shared)) :
    blockEdges program (blockOf s entry) =
      endEdges program (blockOf s entry) i p (projectDirectOperation (liftM68kInstruction shared)) := by
  have decodes := h.consistent.decodes p i shared
    ((lookup_eq_some_iff h.consistent.keys_nodup _ _).mp found)
  have last : (blockOf s entry).operations.getLast? =
      some (projectDirectOperation (liftM68kInstruction shared)) := by
    rw [blockOf, List.getLast?_map, final]
    simp only [Option.map_some, lineAt, found]
  rcases decode_kind decodes with ⟨provenance, kind, operand⟩
  rcases decode_provenance decodes with ⟨address, length⟩
  rw [provenance] at address length
  simp only [blockEdges, last, endEdges, kind, operand, projectDirectOperation, liftM68kInstruction,
    address, length]
  cases shared.kind <;> simp only [directKind]
  all_goals rfl

/-- The test `choose` makes of an edge out of the block. -/
def enabled (sr : BitVec 16) (edge : DirectEdge) : Bool :=
  edge.condition = .always || (decide (edge.condition = .zClear) == decide (sr &&& 4 = 0))

theorem zero_clear_iff (sr : BitVec 16) : sr &&& 4 = 0 ↔ zFlag sr = false := by
  have single : (4 : BitVec 16) = BitVec.twoPow 16 2 := by decide
  rw [single, BitVec.and_twoPow, zFlag]
  cases sr.getLsbD 2
  · simp
  · simp only [if_true, Bool.true_eq_false, iff_false]
    decide

theorem endEdges_enabled (block : DirectBlock) (i : DirectInstruction) (p : Address)
    (last : DirectFlowIrOperation) (sr : BitVec 16) :
    (∃ edge ∈ endEdges program block i p last, enabled sr edge = true) ∧
      ∀ edge ∈ endEdges program block i p last, enabled sr edge = true →
        edge.target = successor i p sr := by
  unfold endEdges successor enabled
  simp only [zero_clear_iff]
  cases i.kind <;> cases zFlag sr <;> simp [edgeTo]

theorem choose_spec {s : Discovery} {analysis : DirectFlowAnalysis} (h : Analysed image program s analysis)
    {entry p : Address} (member : entry ∈ s.fifo) {i : DirectInstruction} {shared : M68kDecodedInstruction}
    (final : (blockPcs s entry).getLast? = some p) (found : s.decoded.lookup p = some (i, shared))
    (sr : BitVec 16) :
    ∃ edge ∈ analysis.edges, choose analysis (blockOf s entry) sr = some edge ∧
      edge.target = successor i p sr := by
  have shape : blockEdges program (blockOf s entry) = _ := blockEdges_eq h.finished final found
  rcases @endEdges_enabled program (blockOf s entry) i p
    (projectDirectOperation (liftM68kInstruction shared)) sr with ⟨⟨own, inside, ready⟩, only⟩
  rw [← shape] at inside only
  have listed : own ∈ analysis.edges := (h.edges own).mpr ⟨entry, member, inside⟩
  cases chosen : choose analysis (blockOf s entry) sr with
  | none =>
      have never := List.find?_eq_none.mp chosen own listed
      have source : own.sourceBlock = (blockOf s entry).entry := blockEdges_source inside
      exact absurd (Bool.and_eq_true_iff.mpr ⟨decide_eq_true source, ready⟩) never
  | some edge =>
      have inEdges := List.mem_of_find?_eq_some chosen
      have passes := List.find?_some chosen
      simp only [Bool.and_eq_true, decide_eq_true_eq] at passes
      exact ⟨edge, inEdges, rfl, only edge (edge_of_mem h inEdges passes.1) passes.2⟩

theorem successor_mem {s : Discovery} (h : Finished image program s) {entry p : Address}
    (member : entry ∈ s.fifo) {i : DirectInstruction} {shared : M68kDecodedInstruction}
    (final : (blockPcs s entry).getLast? = some p) (found : s.decoded.lookup p = some (i, shared))
    (sr : BitVec 16) : successor i p sr ∈ s.fifo := by
  have splits := h.splittable (List.Perm.refl _)
  rcases block_last splits (h.entries entry member) (Nat.le_add_right _ _) with ⟨q, last, _, ends⟩
  have same : q = p := Option.some.inj (last.symm.trans final)
  subst same
  have listed := (lookup_eq_some_iff h.consistent.keys_nodup _ _).mp found
  have branches := h.consistent.branches q i shared listed
  have falls : i.kind.straight = true → q + 2 ∈ s.fifo := by
    intro straight
    exact ends _ ((fallsTo_eq_some_iff h.consistent _ _).mpr ⟨⟨i, shared, listed, straight⟩, rfl⟩)
  unfold successor
  unfold branchSuccessors at branches
  cases kind : i.kind <;> simp only [kind] at branches ⊢
  · exact falls (by simp [kind, DirectFlowKind.straight])
  · exact falls (by simp [kind, DirectFlowKind.straight])
  · split
    · exact branches _ (by simp)
    · exact branches _ (by simp)
  · exact branches _ (by simp)

theorem edge_unresolved {s : Discovery} {analysis : DirectFlowAnalysis} (h : Analysed image program s analysis)
    {edge : DirectEdge} (member : edge ∈ analysis.edges) :
    edge.unresolved = true ↔ edge.target ∈ program.unresolvedTargets := by
  rcases (h.edges edge).mp member with ⟨_, _, inside⟩
  rcases blockEdges_made inside with ⟨_, _, _, _, rfl⟩
  simp [edgeTo]

/-- A block from its entry: its operations are the instructions there, and the chosen edge leads
where the last of them goes. -/
theorem block_agrees {s : Discovery} {analysis : DirectFlowAnalysis} (h : Analysed image program s analysis)
    {state : DirectFlowState} (member : state.pc ∈ s.fifo) :
    ∃ edge ∈ analysis.edges,
      choose analysis (blockOf s state.pc) (runOps (blockOf s state.pc).operations state).sr = some edge ∧
      edge.target ∈ s.fifo ∧
      instrRun image program (blockOf s state.pc).operations.length state =
        some (opStates (blockOf s state.pc).lines state,
          { runOps (blockOf s state.pc).operations state with pc := edge.target }) := by
  have room : 2 ^ 32 ≤ 2 ^ 32 + state.pc.toNat := Nat.le_add_right _ _
  rcases block_run h.finished (h.finished.entries _ member) room with
    ⟨p, i, shared, final, found, run⟩
  rcases choose_spec h member final found (runOps (blockOf s state.pc).operations state).sr with
    ⟨edge, inEdges, chosen, target⟩
  refine ⟨edge, inEdges, chosen, ?_, ?_⟩
  · rw [target]
    exact successor_mem h.finished member final found _
  · rw [target, blockOf_lines]
    have length : (blockOf s state.pc).operations.length = (blockPcs s state.pc).length := by
      simp [blockOf]
    rw [length]
    exact run

/-- One executed block between two boundary records. -/
def BlockStep (image : List Byte) (program : DirectFlowProgram) (analysis : DirectFlowAnalysis)
    (x y : BlockBoundary) : Prop :=
  ∃ b ∈ analysis.blocks, b.entry = x.state.pc ∧ y.block = b.provenance ∧
    instrRun image program b.operations.length x.state = some (opStates b.lines x.state, y.state)

/-- What an execution from `s` may give: the whole budget of blocks, or an unresolved edge. -/
def Agrees (image : List Byte) (program : DirectFlowProgram) (analysis : DirectFlowAnalysis)
    (s : DirectFlowState) (budget : ℕ) : Except RejectedDirectFlow DirectFlowExecution → Prop
  | .ok execution =>
      execution.boundaries.length = budget + 1 ∧
      execution.boundaries.head?.map (·.state) = some s ∧
      execution.boundaries.IsChain (BlockStep image program analysis) ∧
      execution.boundaries.getLast?.map (·.state) = some execution.finalState ∧
      execution.stopReason = "instruction_budget_exhausted" ∧
      ∃ n visited, instrRun image program n s = some (visited, execution.finalState)
  | .error failure =>
      failure.category = .reachedUnresolvedDirectEdge ∧
      ∃ n visited last, instrRun image program (n + 1) s = some (visited, last) ∧
        failure.target = some last.pc ∧ last.pc ∈ program.unresolvedTargets

theorem executeLoop_agrees {s : Discovery} {analysis : DirectFlowAnalysis}
    (h : Analysed image program s analysis) {start : DirectFlowState} {budget room done : ℕ}
    (left : done + room = budget) {incoming : Option DirectEdge} {seed : Bool}
    {boundaries : List BlockBoundary} {state : DirectFlowState} (member : state.pc ∈ s.fifo)
    (length : boundaries.length = done + 1) (head : boundaries.head?.map (·.state) = some start)
    (chain : boundaries.IsChain (BlockStep image program analysis))
    (last : boundaries.getLast?.map (·.state) = some state)
    (ran : ∃ n visited, instrRun image program n start = some (visited, state)) :
    Agrees image program analysis start budget
      (executeLoop analysis budget room done incoming seed boundaries state) := by
  induction room generalizing done incoming seed boundaries state with
  | zero =>
      have full : boundaries.length = budget + 1 := by omega
      exact ⟨full, head, chain, last, rfl, ran⟩
  | succ room ih =>
      rcases block_agrees h member with ⟨edge, inEdges, chosen, target, run⟩
      have unfolded : (blockOf s state.pc).operations.foldl
          (fun state operation => executeOp operation state) state =
            runOps (blockOf s state.pc).operations state := rfl
      rw [executeLoop, blockAt_eq h member]
      simp only [unfolded, chosen]
      rcases ran with ⟨n, visited, ran⟩
      have nonempty : ∃ k, (blockOf s state.pc).operations.length = k + 1 := ⟨_, rfl⟩
      rcases nonempty with ⟨k, size⟩
      have onward := instrRun_append ran run
      by_cases unresolved : edge.unresolved = true
      · rw [if_pos unresolved]
        rw [size, ← Nat.add_assoc] at onward
        exact ⟨rfl, n + k, _, _, onward, rfl, (edge_unresolved h inEdges).mp unresolved⟩
      · rw [if_neg unresolved]
        apply ih (by omega) target
        · simp [length]
        · cases boundaries with
          | nil => simp at length
          | cons first rest => simpa using head
        · apply chain.append (List.isChain_singleton _)
          intro x final y first
          rw [Option.mem_def] at final first
          rw [final, Option.map_some] at last
          injection last with here
          simp only [List.head?_cons, Option.some.injEq] at first
          subst first
          refine ⟨blockOf s state.pc, h.blocks.mem_iff.mpr (List.mem_map.mpr ⟨_, member, rfl⟩), ?_, rfl, ?_⟩
          · rw [here]
            rfl
          · rw [here]
            exact run
        · simp
        · exact ⟨_, _, onward⟩

/-- What an accepted analysis is worth. -/
structure DirectFlowExact (image : List Byte) (program : DirectFlowProgram) (analysis : DirectFlowAnalysis) :
    Prop where
  decoded_once : (analysis.decoded.map (·.provenance.address)).Nodup
  decoded_real : ∀ shared ∈ analysis.decoded, ∃ i,
    decode image program shared.provenance.address = .ok (i, shared)
  partition : (analysis.blocks.flatMap (·.provenance.instructions)).Perm (analysis.decoded.map (·.provenance))
  block_entry : ∀ b ∈ analysis.blocks, b.provenance.instructions.head?.map (·.address) = some b.entry
  edges_closed : ∀ edge ∈ analysis.edges, ∃ b ∈ analysis.blocks, b.entry = edge.target
  executes : ∀ b ∈ analysis.blocks, ∀ state : DirectFlowState, state.pc = b.entry → ∀ budget, 0 < budget →
    Agrees image program analysis state budget (execute analysis state budget)
  no_budget : ∀ state, execute analysis state 0 = .error (reject .validButUnsupportedInstruction state.pc)

theorem lineAt_of_mem {s : Discovery} (h : Finished image program s) {line : Line} (member : line ∈ s.decoded) :
    (lineAt s.decoded line.1).1 = line.2.2.provenance ∧ line.2.2.provenance.address = line.1 := by
  rcases line with ⟨pc, i, shared⟩
  have decodes := h.consistent.decodes pc i shared member
  have found := (lookup_eq_some_iff h.consistent.keys_nodup _ _).mpr member
  have same := (decode_kind decodes).1
  constructor
  · simp only [lineAt, found, same]
  · exact same ▸ (decode_provenance decodes).1

theorem blocks_instructions {s : Discovery} {analysis : DirectFlowAnalysis}
    (h : Analysed image program s analysis) :
    (analysis.blocks.flatMap (·.provenance.instructions)).Perm (analysis.decoded.map (·.provenance)) := by
  have splits := h.finished.splittable (List.Perm.refl _)
  have pieces : (s.fifo.map (blockOf s)).flatMap (·.provenance.instructions) =
      (s.fifo.flatMap (blockPcs s)).map (fun pc => (lineAt s.decoded pc).1) := by
    simp [List.flatMap_map, List.map_flatMap, blockOf]
  have whole : (s.decoded.map Prod.fst).map (fun pc => (lineAt s.decoded pc).1) =
      analysis.decoded.map (·.provenance) := by
    rw [h.decoded, List.map_map, List.map_map]
    exact List.map_congr_left (fun line member => (lineAt_of_mem h.finished member).1)
  calc (analysis.blocks.flatMap (·.provenance.instructions)).Perm
        ((s.fifo.map (blockOf s)).flatMap (·.provenance.instructions)) := h.blocks.flatMap_right _
    _ = (s.fifo.flatMap (blockPcs s)).map (fun pc => (lineAt s.decoded pc).1) := pieces
    List.Perm _ ((s.decoded.map Prod.fst).map (fun pc => (lineAt s.decoded pc).1)) :=
      (blocks_partition splits).map _
    _ = analysis.decoded.map (·.provenance) := whole

theorem edge_target_mem {s : Discovery} {analysis : DirectFlowAnalysis} (h : Analysed image program s analysis)
    {edge : DirectEdge} (member : edge ∈ analysis.edges) : edge.target ∈ s.fifo := by
  rcases (h.edges edge).mp member with ⟨entry, entryMember, inside⟩
  have splits := h.finished.splittable (List.Perm.refl _)
  have known := h.finished.entries entry entryMember
  rcases block_last splits known (Nat.le_add_right _ _) with ⟨p, final, there, _⟩
  rcases h.finished.decoded_at there with ⟨i, shared, found, _⟩
  rw [blockEdges_eq h.finished final found] at inside
  have taken : ∃ sr, enabled sr edge = true := by
    cases condition : edge.condition with
    | always => exact ⟨0, by simp [enabled, condition]⟩
    | zClear => exact ⟨0, by simp [enabled, condition]⟩
    | zSet => exact ⟨4, by simp [enabled, condition]⟩
  rcases taken with ⟨sr, taken⟩
  rw [(endEdges_enabled _ i p _ sr).2 edge inside taken]
  exact successor_mem h.finished entryMember final found sr

theorem discoverEntries_exact {entries : List Address} {analysis : DirectFlowAnalysis}
    (accepted : discoverEntries image program entries = .ok analysis) :
    DirectFlowExact image program analysis := by
  rcases discoverEntries_analysed accepted with ⟨s, h⟩
  have addresses : analysis.decoded.map (·.provenance.address) = s.decoded.map Prod.fst := by
    rw [h.decoded, List.map_map]
    exact List.map_congr_left (fun line member => (lineAt_of_mem h.finished member).2)
  have blockMem : ∀ b, b ∈ analysis.blocks ↔ ∃ entry ∈ s.fifo, blockOf s entry = b := by
    intro b
    rw [h.blocks.mem_iff, List.mem_map]
  constructor
  · rw [addresses]
    exact h.finished.consistent.keys_nodup
  · intro shared member
    rw [h.decoded, List.mem_map] at member
    rcases member with ⟨⟨pc, i, _⟩, inside, rfl⟩
    refine ⟨i, ?_⟩
    rw [(lineAt_of_mem h.finished inside).2]
    exact h.finished.consistent.decodes _ _ _ inside
  · exact blocks_instructions h
  · intro b member
    rcases (blockMem b).mp member with ⟨entry, leader, rfl⟩
    rcases h.finished.decoded_at (h.finished.entries entry leader) with ⟨i, shared, found, decodes⟩
    have shape : ∃ rest, blockPcs s entry = entry :: rest := ⟨_, rfl⟩
    rcases shape with ⟨rest, shape⟩
    simp only [blockOf, shape, List.map_cons, List.head?_cons, Option.map_some, lineAt, found,
      (decode_provenance decodes).1, DirectBlock.entry]
  · intro edge member
    exact ⟨_, (blockMem _).mpr ⟨_, edge_target_mem h member, rfl⟩, rfl⟩
  · intro b member state here budget positive
    rcases (blockMem b).mp member with ⟨entry, leader, rfl⟩
    have start : state.pc ∈ s.fifo := by
      rw [here]
      exact leader
    unfold execute
    rw [if_neg (by omega), blockAt_eq h start]
    exact executeLoop_agrees h (by omega) start rfl rfl (List.isChain_singleton _) rfl ⟨0, [], rfl⟩
  · intro state
    rfl

/-- `moveq #5,d0; subq.l #1,d0; bne *-2; bra *-6`: three blocks. -/
def countdown : List Byte := [0x70, 0x05, 0x53, 0x80, 0x66, 0xFC, 0x60, 0xF8]
def countdownProgram : DirectFlowProgram := { mappings := [⟨"rom", 0, 8, 0, 8⟩], resetEntry := 0 }

def countdownAnalysis : DirectFlowAnalysis :=
  match discoverEntries countdown countdownProgram [0] with
  | .ok analysis => analysis
  | .error _ => ⟨[], [], [], []⟩

theorem discoverEntries_exact_countdown :
    countdownAnalysis.blocks.length = 3 ∧ DirectFlowExact countdown countdownProgram countdownAnalysis := by
  have accepted : discoverEntries countdown countdownProgram [0] = .ok countdownAnalysis := by
    decide
  exact ⟨by decide, discoverEntries_exact accepted⟩

end Segarecomp.M68k.DirectFlow

import Segarecomp.Sms.Machine
import Segarecomp.Z80.RuntimeRun

/-! Runs of the Master System: the cycles a caller stops at leave no trace, every scanline event
happens in its place among the accesses, and the INT level follows the VDP. -/

namespace Segarecomp.Sms

open Z80 Z80.Runtime Lib.RunUntil

variable {D : Type} {program : Program CodeView} {board : Board D} {m : Machine D} {c : Context D}
  {cycles : ℕ}

/-! ## Scanline events -/

theorem advanceLoop_done {driven : Driven D}
    (done : driven.context.failed = true ∨ cycles < driven.context.nextEventCycles) (fuel : ℕ) :
    advanceLoop board cycles fuel driven = driven := by
  cases fuel with
  | zero => rfl
  | succ fuel =>
      have waits : ¬ (driven.context.failed = false ∧ driven.context.nextEventCycles ≤ cycles) := by
        rintro ⟨well, due⟩
        rcases done with failed | early
        · exact Bool.false_ne_true (well.symm.trans failed)
        · omega
      rw [advanceLoop, if_neg waits]

theorem advanceEvents_done (done : c.failed = true ∨ cycles < c.nextEventCycles) :
    advanceEvents board c cycles = { context := c } :=
  advanceLoop_done (show ({ context := c } : Driven D).context.failed = true ∨
    cycles < ({ context := c } : Driven D).context.nextEventCycles from done) _

theorem applyInput_frame (frame fuel : ℕ) (c : Context D) (nmi : Bool) :
    ∃ input next, (applyInputAtFrameStart board frame fuel (c, nmi)).1 =
      { c with input := input, inputNext := next } := by
  induction fuel generalizing c nmi with
  | zero => exact ⟨c.input, c.inputNext, rfl⟩
  | succ fuel ih =>
      rw [applyInputAtFrameStart]
      cases event : board.inputEvents[c.inputNext]? with
      | none => exact ⟨c.input, c.inputNext, rfl⟩
      | some ev =>
          dsimp only
          split_ifs
          · obtain ⟨input, next, same⟩ :=
              ih { c with inputNext := c.inputNext + 1, input := ⟨ev.p1, ev.p2, ev.pause⟩ } _
            exact ⟨input, next, same⟩
          · exact ⟨c.input, c.inputNext, rfl⟩

/-- The INT level that the VDP asks for. -/
def irqActive (board : Board D) (c : Context D) : Bool := irqSourceMask board c.devices ≠ 0

variable (board) in
theorem beginLine_frame (c : Context D) (nmi : Bool) :
    (beginLine board c nmi).1.nextLine = c.nextLine ∧
      (beginLine board c nmi).1.happened = c.happened ∧ (beginLine board c nmi).1.mem = c.mem := by
  rw [beginLine]
  split_ifs
  · obtain ⟨input, next, same⟩ := applyInput_frame (c.nextLine / linesPerFrame)
      (board.inputEvents.length - c.inputNext) c nmi
    rw [same]
    exact ⟨rfl, rfl, rfl⟩
  · exact ⟨rfl, rfl, rfl⟩

theorem latchError_failed (c : Context D) (latch : Latch) :
    { c with mem := c.mem.latchError latch }.failed = true := by
  cases h : c.mem.error <;> simp [Context.failed, Memory.latchError, h]

theorem latch_frame (c : Context D) (t : ℕ) (error : Option DeviceError) :
    (c.latch t error).nextLine = c.nextLine ∧ (c.latch t error).happened = c.happened ∧
      ((c.latch t error).failed = true ∨ (c.latch t error).mem = c.mem) := by
  cases error with
  | none => exact ⟨rfl, rfl, .inr rfl⟩
  | some e => exact ⟨rfl, rfl, .inl (latchError_failed c _)⟩

variable (board) in
theorem scanDevice_frame (c : Context D) :
    (scanDevice board c).nextLine = c.nextLine ∧ (scanDevice board c).happened = c.happened ∧
      ((scanDevice board c).failed = true ∨ (scanDevice board c).mem = c.mem) := by
  rw [scanDevice]
  cases board.scanline with
  | none => exact ⟨rfl, rfl, .inr rfl⟩
  | some scanline => exact latch_frame _ _ _

structure EventDone (board : Board D) (before after : Driven D) : Prop where
  nextLine : after.context.nextLine = before.context.nextLine + 1
  happened : after.context.happened =
    before.context.happened ++ [.scanline before.context.nextLine]
  intLine : after.intLine = some (irqActive board after.context)
  mem : after.context.failed = true ∨ after.context.mem = before.context.mem

variable (board) in
theorem scanlineEvent_done (driven : Driven D) :
    EventDone board driven (scanlineEvent board driven) := by
  obtain ⟨line, happened, mem⟩ := beginLine_frame board driven.context driven.nmi
  obtain ⟨line', happened', mem'⟩ :=
    scanDevice_frame board (beginLine board driven.context driven.nmi).1
  refine ⟨?_, ?_, rfl, mem'.imp_right (·.trans mem)⟩
  · change (scanDevice board (beginLine board driven.context driven.nmi).1).nextLine + 1 = _
    rw [line', line]
  · change (scanDevice board (beginLine board driven.context driven.nmi).1).happened ++
      [.scanline (scanDevice board (beginLine board driven.context driven.nmi).1).nextLine] = _
    rw [line', line, happened', happened]

/-- What one scanline event keeps, all events that are due keep. -/
theorem advanceLoop_keeps {P : Driven D → Prop} (step : ∀ driven, driven.context.failed = false →
    driven.context.nextEventCycles ≤ cycles → P driven → P (scanlineEvent board driven))
    (fuel : ℕ) {driven : Driven D} (h : P driven) : P (advanceLoop board cycles fuel driven) := by
  induction fuel generalizing driven with
  | zero => exact h
  | succ fuel ih =>
      rw [advanceLoop]
      split_ifs with due
      · exact ih (step driven due.1 due.2 h)
      · exact h

theorem advanceLoop_ends (fuel : ℕ) (driven : Driven D)
    (enough : cycles / cyclesPerLine + 1 ≤ driven.context.nextLine + fuel) :
    (advanceLoop board cycles fuel driven).context.failed = true ∨
      cycles < (advanceLoop board cycles fuel driven).context.nextEventCycles := by
  induction fuel generalizing driven with
  | zero =>
      refine .inr ?_
      change cycles < driven.context.nextLine * 228
      have : cycles / 228 + 1 ≤ driven.context.nextLine + 0 := enough
      omega
  | succ fuel ih =>
      rw [advanceLoop]
      split_ifs with due
      · refine ih _ ?_
        rw [(scanlineEvent_done board driven).nextLine]
        omega
      · rw [not_and_or, Bool.not_eq_false, Nat.not_le] at due
        exact due

/-- After the events that are due, none is, or one of them latched an error. -/
theorem advanceEvents_ends (board : Board D) (c : Context D) (cycles : ℕ) :
    (advanceEvents board c cycles).context.failed = true ∨
      cycles < (advanceEvents board c cycles).context.nextEventCycles := by
  refine advanceLoop_ends _ { context := c } ?_
  change cycles / cyclesPerLine + 1 ≤ c.nextLine + (cycles / cyclesPerLine + 1 - c.nextLine)
  omega

theorem advanceEvents_level (board : Board D) (c : Context D) (cycles : ℕ) (level : Bool)
    (h : level = irqActive board c) :
    (advanceEvents board c cycles).intLine.getD level =
      irqActive board (advanceEvents board c cycles).context := by
  refine advanceLoop_keeps (P := fun driven => driven.intLine.getD level = irqActive board driven.context)
    (fun driven _ _ _ => ?_) _ h
  rw [(scanlineEvent_done board driven).intLine]
  rfl

theorem advanceEvents_mem (board : Board D) (c : Context D) (cycles : ℕ)
    (well : (advanceEvents board c cycles).context.failed = false) :
    (advanceEvents board c cycles).context.mem = c.mem := by
  have kept : (advanceEvents board c cycles).context.failed = true ∨
      (advanceEvents board c cycles).context.mem = c.mem := by
    refine advanceLoop_keeps (P := fun driven => driven.context.failed = true ∨ driven.context.mem = c.mem)
      (fun driven alive _ h => ?_) _ (.inr rfl)
    have same := h.resolve_left (by rw [alive]; exact Bool.false_ne_true)
    exact (scanlineEvent_done board driven).mem.imp_right (·.trans same)
  exact kept.resolve_left (by rw [well]; exact Bool.false_ne_true)

/-! ## Callbacks with no event due -/

/-- The callbacks without the scanline events: what they do before the next event is due. -/
def accessHost (board : Board D) : Z80Host (Context D) CodeView where
  read c address cycles := accessRead c address cycles
  write c address value cycles := accessWrite c address value cycles
  ioIn c port cycles := accessIoIn board c port cycles
  ioOut c port value cycles := accessIoOut board c port value cycles
  interruptAcknowledge c _ := { host := c }
  code c := c.mem.codeImage

theorem afterEvents_early (early : cycles < c.nextEventCycles)
    (access : Context D → Reply (Context D)) : afterEvents board c cycles access = access c := by
  rw [afterEvents, advanceEvents_done (.inr early)]
  simp only [Option.or_none, Bool.or_false]

theorem serve_early (early : cycles < c.nextEventCycles) (request : Access) :
    (z80Host board).serve c cycles request = (accessHost board).serve c cycles request := by
  cases request with
  | read address => exact afterEvents_early early fun c => accessRead c address cycles
  | write address value => exact afterEvents_early early fun c => accessWrite c address value cycles
  | io_in port => exact afterEvents_early early fun c => accessIoIn board c port cycles
  | io_out port value => exact afterEvents_early early fun c => accessIoOut board c port value cycles
  | interrupt_acknowledge => exact afterEvents_early early fun c => { host := c }

/-- What a callback does between events. -/
structure Accessed (board : Board D) (before : Context D) (cycles : ℕ) (reply : Reply (Context D)) :
    Prop where
  nextLine : reply.host.nextLine = before.nextLine
  wait : reply.wait = 0
  stop : before.failed = false → reply.stop = reply.host.failed
  stays : before.failed = true → reply.host.failed = true
  happened : reply.host.happened = before.happened ∨
    reply.host.happened = before.happened ++ [.access cycles]
  level : ∀ level, level = irqActive board before →
    reply.intLine.getD level = irqActive board reply.host

theorem memRead_stays (mem : Memory) (address : Addr) (failed : mem.error.isSome = true) :
    (mem.read address cycles).2.error.isSome = true := by
  rw [Memory.read, if_pos failed]
  exact failed

theorem memWrite_stays (mem : Memory) (address : Addr) (value : Byte)
    (failed : mem.error.isSome = true) : (mem.write address value cycles).error.isSome = true := by
  rw [Memory.write, if_pos failed]
  exact failed

theorem device_accessed (board : Board D) (c : Context D) (cycles : ℕ) (devices : D)
    (ioControl value : Byte) (error : Option DeviceError) :
    let after := ({ c.note (.access cycles) with
      devices := devices, ioControl := ioControl } : Context D).latch cycles error
    Accessed board c cycles
      { host := (sampleIrq board after).1, value := value, stop := (sampleIrq board after).1.failed
        intLine := some (sampleIrq board after).2 } := by
  obtain ⟨line, happened, _⟩ := latch_frame
    ({ c.note (.access cycles) with devices := devices, ioControl := ioControl } : Context D) cycles error
  refine ⟨line, rfl, fun _ => rfl, fun failed => ?_, .inr happened, fun _ _ => rfl⟩
  cases error with
  | none => exact failed
  | some e =>
      have same : c.mem.error.isSome = true := failed
      change (c.mem.error.or _).isSome = true
      rw [Option.isSome_or, same, Bool.true_or]

theorem unimplemented_accessed (board : Board D) (c : Context D) (port : Addr) (value : Byte)
    (cycles : ℕ) : Accessed board c cycles (unimplemented (c.note (.access cycles)) port value cycles) := by
  have failed := latchError_failed (c.note (.access cycles)) ⟨.port_unimplemented, port, value, cycles⟩
  exact ⟨rfl, rfl, fun _ => failed.symm, fun _ => failed, .inr rfl, fun _ h => h⟩

theorem ioIn_accessed (board : Board D) (c : Context D) (port : Addr) (cycles : ℕ) :
    Accessed board c cycles (accessIoIn board c port cycles) := by
  have quiet : c.failed = false → Accessed board c cycles { host := c.note (.access cycles) } :=
    fun well => ⟨rfl, rfl, fun _ => well.symm, fun h => h, .inr rfl, fun _ h => h⟩
  rw [accessIoIn]
  dsimp only
  split_ifs with failed absent disabled
  · refine ⟨rfl, rfl, fun well => ?_, fun h => h, .inr rfl, fun _ h => h⟩
    exact absurd (well.symm.trans failed) Bool.false_ne_true
  · exact quiet (Bool.eq_false_of_not_eq_true failed)
  · exact quiet (Bool.eq_false_of_not_eq_true failed)
  · split
    · exact unimplemented_accessed board c port 0xFF cycles
    · exact device_accessed board c cycles _ c.ioControl _ _

theorem controlWrite_stays (mem : Memory) (port : Addr) (value : Byte)
    (failed : mem.error.isSome = true) :
    (mem.controlWrite port value cycles).error.isSome = true := by
  rw [Memory.controlWrite, if_pos failed]
  exact failed

theorem ioOut_accessed (board : Board D) (c : Context D) (port : Addr) (value : Byte) (cycles : ℕ) :
    Accessed board c cycles (accessIoOut board c port value cycles) := by
  rw [accessIoOut]
  dsimp only
  split_ifs with failed absent memory control
  · refine ⟨rfl, rfl, fun well => ?_, fun h => h, .inr rfl, fun _ h => h⟩
    exact absurd (well.symm.trans failed) Bool.false_ne_true
  · exact ⟨rfl, rfl, fun well => well.symm, fun h => h, .inr rfl, fun _ h => h⟩
  · exact ⟨rfl, rfl, fun _ => rfl, controlWrite_stays c.mem port value, .inr rfl, fun _ h => h⟩
  · split
    · exact unimplemented_accessed board c port value cycles
    · exact device_accessed board c cycles _ value _ _
  · split
    · exact unimplemented_accessed board c port value cycles
    · exact device_accessed board c cycles _ c.ioControl _ _

theorem serve_accessed (board : Board D) (c : Context D) (cycles : ℕ) (request : Access) :
    Accessed board c cycles ((accessHost board).serve c cycles request) := by
  cases request with
  | read address =>
      exact ⟨rfl, rfl, fun _ => rfl, memRead_stays c.mem address, .inr rfl, fun _ h => h⟩
  | write address value =>
      exact ⟨rfl, rfl, fun _ => rfl, memWrite_stays c.mem address value, .inr rfl, fun _ h => h⟩
  | io_in port => exact ioIn_accessed board c port cycles
  | io_out port value => exact ioOut_accessed board c port value cycles
  | interrupt_acknowledge =>
      exact ⟨rfl, rfl, fun h => h.symm, fun h => h, .inl rfl, fun _ h => h⟩

theorem accessHost_latching (board : Board D) : Latching (accessHost board) Context.failed :=
  ⟨fun c cycles request => (serve_accessed board c cycles request).stop,
    fun c cycles request => (serve_accessed board c cycles request).stays⟩

theorem hosts_agree (board : Board D) (d : ℕ) :
    AgreeBelow (z80Host board) (accessHost board) (fun c => d ≤ c.nextEventCycles) d where
  serve c cycles request due early := serve_early (lt_of_lt_of_le early due) request
  keeps c cycles request due _ := by
    change d ≤ _ * cyclesPerLine
    rw [(serve_accessed board c cycles request).nextLine]
    exact due
  wait c cycles request := (serve_accessed board c cycles request).wait
  code := rfl

/-! ## Single steps of the machine -/

namespace Machine

/-- The machine without what the next `z80_run` overwrites. -/
def settle (m : Machine D) : Machine D := { m with rt := m.rt.settle }

def goOn (board : Board D) (m : Machine D) : Machine D :=
  if m.dead.isSome then m else m.arrive board

def step (program : Program CodeView) (board : Board D) (m : Machine D) : Machine D :=
  ({ m with rt := z80Unit program (accessHost board) m.rt }.leave).goOn board

def line (program : Program CodeView) (board : Board D) : Clocked (Machine D) where
  now m := m.rt.state.cycles
  stopped m := m.dead.isSome = true
  step := step program board

/-- A machine between two steps: not dead, the events that are due done. -/
structure Going (program : Program CodeView) (board : Board D) (m : Machine D) : Prop where
  ready : Ready program (accessHost board) m.rt
  healthy : m.rt.outcome.isError = false
  well : m.rt.host.failed = false
  alive : m.dead = none
  early : m.rt.state.cycles < m.rt.host.nextEventCycles

theorem goOn_cycles (m : Machine D) : (m.goOn board).rt.state.cycles = m.rt.state.cycles := by
  rw [goOn, arrive]
  split_ifs <;> rfl

theorem leave_cycles (m : Machine D) : m.leave.rt.state.cycles = m.rt.state.cycles := by
  rw [leave]
  split_ifs <;> rfl

theorem leave_well (well : m.rt.host.failed = false) (healthy : m.rt.outcome.isError = false) :
    m.leave = m := by
  rw [leave, well, healthy]
  rfl

theorem applyEvents_early (early : m.rt.state.cycles < m.rt.host.nextEventCycles) :
    m.applyEvents board = m := by
  rw [applyEvents, advanceEvents_done (.inr early)]
  simp only [Option.getD_none, Bool.or_false]

theorem goOn_early (alive : m.dead = none) (well : m.rt.host.failed = false)
    (early : m.rt.state.cycles < m.rt.host.nextEventCycles) : m.goOn board = m := by
  rw [goOn, alive, arrive, applyEvents_early early, well]
  rfl

theorem leave_dead (h : m.rt.outcome.isError = true ∨ m.rt.host.failed = true) :
    m.leave.dead.isSome = true := by
  rw [leave]
  cases failed : m.rt.host.failed with
  | true => rfl
  | false =>
      have error := h.resolve_right (by simp [failed])
      simp only [Bool.false_eq_true, if_false, error, if_true]
      rfl

theorem goOn_dead (h : m.dead.isSome = true) : m.goOn board = m := by
  rw [goOn, if_pos h]

theorem makeStop_settle (same : m.rt.settle.outcome = m.rt.outcome) (kind : StopKind) :
    m.settle.makeStop kind = m.makeStop kind := by
  simp only [makeStop]
  congr 1

theorem leave_settle (same : m.rt.settle.outcome = m.rt.outcome) :
    m.settle.leave = m.leave.settle := by
  have failed : m.settle.rt.host.failed = m.rt.host.failed := rfl
  have error : m.settle.rt.outcome.isError = m.rt.outcome.isError := congrArg _ same
  rw [leave, leave, failed, error]
  split_ifs
  · rw [die, makeStop_settle same]
    rfl
  · rw [die, makeStop_settle same]
    rfl
  · rfl

theorem applyEvents_settle (m : Machine D) :
    m.settle.applyEvents board = (m.applyEvents board).settle := rfl

theorem applyEvents_outcome (same : m.rt.settle.outcome = m.rt.outcome) :
    (m.applyEvents board).rt.settle.outcome = (m.applyEvents board).rt.outcome := same

theorem arrive_settle (same : m.rt.settle.outcome = m.rt.outcome) :
    m.settle.arrive board = (m.arrive board).settle := by
  rw [arrive, applyEvents_settle, arrive]
  have failed : (m.applyEvents board).settle.rt.host.failed = (m.applyEvents board).rt.host.failed := rfl
  rw [failed]
  split_ifs
  · rw [die, makeStop_settle (applyEvents_outcome same)]
    rfl
  · rfl

theorem goOn_settle (same : m.rt.settle.outcome = m.rt.outcome) :
    m.settle.goOn board = (m.goOn board).settle := by
  have dead : m.settle.dead = m.dead := rfl
  rw [goOn, goOn, dead]
  split_ifs
  · rfl
  · exact arrive_settle same

theorem leave_outcome (same : m.rt.settle.outcome = m.rt.outcome) :
    m.leave.rt.settle.outcome = m.leave.rt.outcome := by
  rw [leave]
  split_ifs <;> exact same

/-! ## Slices -/

/-- The processor states inside a slice: no event due, and ready until it stops. -/
def Within (program : Program CodeView) (board : Board D) (d : ℕ) (rt : Z80Runtime (Context D)) :
    Prop :=
  d ≤ rt.host.nextEventCycles ∧
    (¬ (clock program (accessHost board) Context.failed).stopped rt →
      Ready program (accessHost board) rt)

theorem nextLine_kept (board : Board D) (line : ℕ) :
    KeptBy (accessHost board) fun (c : Context D) _ _ => c.nextLine = line := by
  intro c level cycles request h
  exact (serve_accessed board c cycles request).nextLine.trans h

theorem Within.step {d : ℕ} {rt : Z80Runtime (Context D)} (within : Within program board d rt)
    (run : ¬ (clock program (accessHost board) Context.failed).stopped rt) :
    Within program board d (z80Unit program (accessHost board) rt) := by
  obtain ⟨due, ready⟩ := within
  obtain ⟨fine, alive⟩ := not_or.mp run
  obtain ⟨_, _, line⟩ := (nextLine_kept board rt.host.nextLine).unit program _ rt rfl
  refine ⟨?_, fun run' => ?_⟩
  · change d ≤ _ * cyclesPerLine
    rw [line]
    exact due
  · rcases z80Unit_spec (accessHost_latching board) (ready run) (Bool.eq_false_of_not_eq_true fine)
      (Bool.eq_false_of_not_eq_true alive) with failed | ⟨ready', _⟩
    · exact absurd (Or.inl failed) run'
    · exact ready'

def around (board : Board D) (m : Machine D) (rt : Z80Runtime (Context D)) : Machine D :=
  ({ m with rt := rt }.leave).goOn board

theorem around_cycles (m : Machine D) (rt : Z80Runtime (Context D)) :
    (around board m rt).rt.state.cycles = rt.state.cycles := by
  rw [around, goOn_cycles, leave_cycles]

theorem around_running {d : ℕ} {rt : Z80Runtime (Context D)} (alive : m.dead = none)
    (within : Within program board d rt)
    (run : ¬ (clock program (accessHost board) Context.failed).stopped rt)
    (before : rt.state.cycles < d) : around board m rt = { m with rt := rt } := by
  obtain ⟨fine, well⟩ := not_or.mp run
  have left : ({ m with rt := rt } : Machine D).leave = { m with rt := rt } :=
    leave_well (Bool.eq_false_of_not_eq_true well) (Bool.eq_false_of_not_eq_true fine)
  rw [around, left]
  exact goOn_early alive (Bool.eq_false_of_not_eq_true well) (lt_of_lt_of_le before within.1)

theorem around_settle {rt : Z80Runtime (Context D)} (same : rt.settle.outcome = rt.outcome) :
    around board m rt.settle = (around board m rt).settle := by
  have left : ({ m with rt := rt.settle } : Machine D).leave = ({ m with rt := rt } : Machine D).leave.settle :=
    leave_settle (m := { m with rt := rt }) same
  rw [around, left, goOn_settle (leave_outcome (m := { m with rt := rt }) same)]
  rfl

theorem Going.slice (going : Going program board m) {tState : ℕ} (short : m.rt.state.cycles < tState) :
    Runs (line program board) (m.sliceDeadline tState) m.settle
        (((m.runSlice program board (m.sliceDeadline tState)).goOn board).settle) ∧
      ((m.runSlice program board (m.sliceDeadline tState)).dead = none →
        Ready program (accessHost board) (m.runSlice program board (m.sliceDeadline tState)).rt ∧
        (m.runSlice program board (m.sliceDeadline tState)).rt.outcome.isError = false ∧
        m.sliceDeadline tState ≤ (m.runSlice program board (m.sliceDeadline tState)).rt.state.cycles) := by
  let d := m.sliceDeadline tState
  let final := z80Run program (accessHost board) m.rt d
  have due : d ≤ m.rt.host.nextEventCycles := min_le_left _ _
  have first : m.rt.state.cycles < d := lt_min going.early short
  have result : m.runSlice program board d = ({ m with rt := final } : Machine D).leave := by
    rw [runSlice, ((hosts_agree board d).z80Run program m.rt due).1]
  obtain ⟨run, outcome⟩ := z80Run_runs (accessHost_latching board) going.ready going.healthy going.well d
  have start : Within program board d m.rt.settle :=
    ⟨due, fun _ => ⟨going.ready.lock, going.ready.reject⟩⟩
  obtain ⟨before, running⟩ := settle_early program (accessHost board) m.rt going.healthy going.well first
  have begun : around board m m.rt.settle = m.settle :=
    around_running going.alive start running before
  have mapped : Runs (line program board) d (around board m m.rt.settle) (around board m final.settle) := by
    refine run.map (fun rt within run _ => within.step run) (fun rt _ => ?_) (fun rt _ stopped => ?_)
      (fun rt within run before => ?_) (fun rt within run before => ?_) start
    · change d ≤ (around board m rt).rt.state.cycles ↔ _
      rw [around_cycles]
      exact Iff.rfl
    · have dead := leave_dead (m := { m with rt := rt }) stopped
      change (around board m rt).dead.isSome = true
      rw [around, goOn_dead dead]
      exact dead
    · rw [around_running going.alive within run before]
      intro dead
      exact Bool.false_ne_true ((congrArg Option.isSome going.alive).symm.trans dead)
    · rw [around_running going.alive within run before]
      rfl
  rw [begun, around_settle outcome] at mapped
  rw [show m.sliceDeadline tState = d from rfl, result]
  refine ⟨mapped, fun dead => ?_⟩
  have stays : ∀ rt, Within program board d rt →
      ¬ (clock program (accessHost board) Context.failed).stopped rt → rt.state.cycles < d →
      Within program board d (z80Unit program (accessHost board) rt) :=
    fun rt within run _ => within.step run
  have within : Within program board d final.settle := run.keeps stays start
  have running' : ¬ (final.outcome.isError = true ∨ final.host.failed = true) := by
    intro stopped
    have := leave_dead (m := { m with rt := final }) stopped
    rw [dead] at this
    exact Bool.false_ne_true this
  obtain ⟨fine, well⟩ := not_or.mp running'
  have left : ({ m with rt := final } : Machine D).leave = { m with rt := final } :=
    leave_well (Bool.eq_false_of_not_eq_true well) (Bool.eq_false_of_not_eq_true fine)
  have settled : ¬ (clock program (accessHost board) Context.failed).stopped final.settle := by
    rintro (failed | failed)
    · rw [settle_isError] at failed
      exact fine failed
    · exact well failed
  have ready := within.2 settled
  rw [left]
  exact ⟨⟨ready.lock, ready.reject⟩, Bool.eq_false_of_not_eq_true fine, run.ended.resolve_right settled⟩

/-! ## The run loop -/

/-- A machine that a caller may run: dead, or left by a run. -/
def Consistent (program : Program CodeView) (board : Board D) (m : Machine D) : Prop :=
  m.dead = none → Ready program (accessHost board) m.rt ∧ m.rt.outcome.isError = false

theorem arrive_dead (m : Machine D) (alive : m.dead = none) :
    (m.arrive board).dead = none ↔ (m.applyEvents board).rt.host.failed = false := by
  rw [arrive]
  cases failed : (m.applyEvents board).rt.host.failed with
  | true => simp [die]
  | false => simp [applyEvents, alive]

theorem Consistent.arrive (consistent : Consistent program board m) (alive : m.dead = none)
    (survives : (m.arrive board).dead = none) : Going program board (m.arrive board) := by
  obtain ⟨ready, healthy⟩ := consistent alive
  have well := (arrive_dead m alive).mp survives
  have same : m.arrive board = m.applyEvents board := by
    rw [Machine.arrive, well]
    rfl
  rw [same] at survives ⊢
  refine ⟨⟨?_, ready.reject⟩, healthy, well, survives, ?_⟩
  · intro inside
    have mem := advanceEvents_mem board m.rt.host m.rt.state.cycles well
    have locked := ready.lock inside
    change program.entry (advanceEvents board m.rt.host m.rt.state.cycles).context.mem.codeImage _ = _
    rw [mem]
    exact locked
  · exact (advanceEvents_ends board m.rt.host m.rt.state.cycles).resolve_left (by
      rw [show (advanceEvents board m.rt.host m.rt.state.cycles).context.failed = false from well]
      exact Bool.false_ne_true)

theorem Going.consistent (going : Going program board m) : Consistent program board m :=
  fun _ => ⟨going.ready, going.healthy⟩

theorem Going.goOn (going : Going program board m) : m.goOn board = m :=
  goOn_early going.alive going.well going.early

theorem goOn_alive (alive : m.dead = none) : m.goOn board = m.arrive board := by
  rw [Machine.goOn, alive]
  rfl

/-- What a run of the machine to a cycle leaves: the steps that start before it, every event that
is due by then done, and a machine that may run on. -/
structure Ran (program : Program CodeView) (board : Board D) (tState : ℕ) (before after : Machine D) :
    Prop where
  runs : Runs (line program board) tState (before.goOn board).settle (after.goOn board).settle
  arrived : after.goOn board = after
  consistent : Consistent program board after

theorem Consistent.loop (steady : board.stopOnHaltIdle = false) {tState fuel : ℕ}
    (consistent : Consistent program board m) (alive : m.dead = none)
    (enough : tState - m.rt.state.cycles < fuel) :
    Ran program board tState m (m.runLoop program board fuel tState).1 := by
  induction fuel generalizing m with
  | zero => omega
  | succ fuel ih =>
      rw [runLoop]
      have arrived : m.goOn board = m.arrive board := goOn_alive alive
      cases dead : (m.arrive board).dead with
      | some stop =>
          have died : (m.arrive board).dead.isSome = true := by rw [dead]; rfl
          simp only
          refine ⟨?_, goOn_dead died, fun h => absurd (dead.symm.trans h) (by simp)⟩
          rw [arrived, goOn_dead died]
          exact .rest (.inr died)
      | none =>
          simp only
          have going := consistent.arrive alive dead
          have cycles : (m.arrive board).rt.state.cycles = m.rt.state.cycles := by
            rw [← arrived, goOn_cycles]
          rcases Nat.lt_or_ge m.rt.state.cycles tState with short | late
          · rw [if_neg (by rw [cycles]; omega)]
            obtain ⟨run, kept⟩ := going.slice 
              (show (m.arrive board).rt.state.cycles < tState by rw [cycles]; exact short)
            have within : (m.arrive board).sliceDeadline tState ≤ tState := min_le_right _ _
            generalize (m.arrive board).runSlice program board ((m.arrive board).sliceDeadline tState) = m'
              at run kept ⊢
            have kept' : Consistent program board m' := fun h => ⟨(kept h).1, (kept h).2.1⟩
            cases dead' : m'.dead with
            | some stop =>
                have died : m'.dead.isSome = true := by rw [dead']; rfl
                refine ⟨?_, goOn_dead died, kept'⟩
                rw [arrived]
                refine run.trans within (.rest (.inr ?_))
                change (m'.goOn board).dead.isSome = true
                rw [goOn_dead died, died]
            | none =>
                have awake : m'.haltIdle board = false := by rw [haltIdle, steady]; rfl
                simp only [awake, Bool.false_eq_true, if_false]
                have aim : (m.arrive board).rt.state.cycles < (m.arrive board).sliceDeadline tState :=
                  lt_min going.early (by rw [cycles]; exact short)
                have forward : m.rt.state.cycles < m'.rt.state.cycles :=
                  lt_of_lt_of_le (cycles ▸ aim) (kept dead').2.2
                obtain ⟨run', done, kept''⟩ := ih kept' dead' (by omega)
                refine ⟨?_, done, kept''⟩
                rw [arrived]
                exact run.trans within run'
          · rw [if_pos (by rw [cycles]; exact late)]
            refine ⟨?_, going.goOn, going.consistent⟩
            rw [arrived, going.goOn]
            exact .rest (.inl (by rw [← cycles] at late; exact late))

theorem Consistent.runUntil (steady : board.stopOnHaltIdle = false)
    (consistent : Consistent program board m) (tState : ℕ) :
    Ran program board tState m (m.runUntilCycle program board tState).1 := by
  rw [runUntilCycle]
  cases dead : m.dead with
  | some stop =>
      have died : m.dead.isSome = true := by rw [dead]; rfl
      refine ⟨.rest (.inr ?_), goOn_dead died, consistent⟩
      rw [goOn_dead died]
      exact died
  | none => exact consistent.loop steady dead (Nat.lt_succ_self (tState - m.rt.state.cycles))

/-- Calls with one target after the other. -/
def runTargets (program : Program CodeView) (board : Board D) (targets : List ℕ) (m : Machine D) :
    Machine D :=
  Lib.Slicing.advanceAll (fun t m => (m.runUntilCycle program board t).1) targets m

theorem Consistent.targets (steady : board.stopOnHaltIdle = false)
    (consistent : Consistent program board m) {targets : List ℕ} {last : ℕ}
    (ordered : (targets ++ [last]).Pairwise (· ≤ ·)) :
    (m.runTargets program board (targets ++ [last])).settle =
      (m.runUntilCycle program board last).1.settle := by
  have keeps : ∀ t (m : Machine D), Consistent program board m →
      Consistent program board (m.runUntilCycle program board t).1 :=
    fun t m h => (h.runUntil steady t).consistent
  have same := advanceAll_eq (f := fun m => (m.goOn board).settle) keeps
    (fun t m h => (h.runUntil steady t).runs) ordered consistent
  have whole : (m.runTargets program board (targets ++ [last])).goOn board =
      m.runTargets program board (targets ++ [last]) := by
    rw [runTargets, Lib.Slicing.advanceAll, List.foldl_append]
    have before : Consistent program board (targets.foldl (fun m t => (m.runUntilCycle program board t).1) m) := by
      clear same ordered
      induction targets generalizing m with
      | nil => exact consistent
      | cons t targets ih => exact ih (keeps t m consistent)
    exact (before.runUntil steady last).arrived
  rw [(consistent.runUntil steady last).arrived] at same
  rw [← whole]
  exact same

end Machine

/-! ## Events among accesses -/

def Happening.line? : Happening → Option ℕ
  | .scanline line => some line
  | .access _ => none

/-- The scanline events from `first` on happened once each and in order, and an access finds
exactly those done whose time is not after it. -/
structure InPlace (first : ℕ) (c : Context D) : Prop where
  since : first ≤ c.nextLine
  lines : c.happened.filterMap Happening.line? = List.range' first (c.nextLine - first)
  accesses : ∀ before after cycles, c.happened = before ++ .access cycles :: after →
    ∀ line, first ≤ line → (.scanline line ∈ before ↔ line * cyclesPerLine ≤ cycles)

theorem InPlace.mem {first : ℕ} (inPlace : InPlace first c) (line : ℕ) :
    .scanline line ∈ c.happened ↔ first ≤ line ∧ line < c.nextLine := by
  have listed : .scanline line ∈ c.happened ↔ line ∈ c.happened.filterMap Happening.line? := by
    rw [List.mem_filterMap]
    constructor
    · exact fun member => ⟨_, member, rfl⟩
    · rintro ⟨happening, member, found⟩
      cases happening with
      | scanline n =>
          obtain rfl := Option.some.inj found
          exact member
      | access n => cases found
  have since := inPlace.since
  rw [listed, inPlace.lines, List.mem_range'_1]
  omega

theorem append_entry {α : Type} {log before after : List α} {x y : α}
    (h : log ++ [x] = before ++ y :: after) :
    (log = before ∧ x = y) ∨ ∃ rest, log = before ++ y :: rest := by
  rcases List.eq_nil_or_concat after with rfl | ⟨rest, z, rfl⟩
  · obtain ⟨same, last⟩ := List.append_inj' h rfl
    exact .inl ⟨same, List.singleton_inj.mp last⟩
  · have grouped : log ++ [x] = (before ++ y :: rest) ++ [z] := by simpa using h
    exact .inr ⟨rest, (List.append_inj' grouped rfl).1⟩

theorem InPlace.access {first : ℕ} (inPlace : InPlace first c) {after : Context D}
    (line : after.nextLine = c.nextLine) (happened : after.happened = c.happened ++ [.access cycles])
    (done : ∀ line, first ≤ line → line < c.nextLine → line * cyclesPerLine ≤ cycles)
    (early : cycles < c.nextEventCycles) : InPlace first after := by
  refine ⟨line ▸ inPlace.since, ?_, ?_⟩
  · rw [happened, List.filterMap_append, inPlace.lines, line]
    simp [Happening.line?]
  · intro pre post at_cycles split n since
    rw [happened] at split
    rcases append_entry split with ⟨rfl, entry⟩ | ⟨rest, old⟩
    · obtain rfl := Happening.access.inj entry
      rw [inPlace.mem]
      constructor
      · exact fun found => done n since found.2
      · intro due
        refine ⟨since, ?_⟩
        by_contra later
        have := Nat.mul_le_mul_right cyclesPerLine (Nat.not_lt.mp later)
        rw [Context.nextEventCycles] at early
        omega
    · exact inPlace.accesses pre rest at_cycles old n since

theorem InPlace.event {first : ℕ} (inPlace : InPlace first c) {after : Context D}
    (line : after.nextLine = c.nextLine + 1)
    (happened : after.happened = c.happened ++ [.scanline c.nextLine]) : InPlace first after := by
  have since := inPlace.since
  refine ⟨by omega, ?_, ?_⟩
  · have count : after.nextLine - first = c.nextLine - first + 1 := by omega
    have last : first + (c.nextLine - first) = c.nextLine := by omega
    rw [happened, List.filterMap_append, inPlace.lines, count, List.range'_concat]
    simp [Happening.line?, last]
  · intro pre post at_cycles split n since
    rw [happened] at split
    rcases append_entry split with ⟨_, entry⟩ | ⟨rest, old⟩
    · cases entry
    · exact inPlace.accesses pre rest at_cycles old n since

/-- The events so far are in place, and none is later than the cycle count. -/
def InPlaceBy (first cycles : ℕ) (c : Context D) : Prop :=
  InPlace first c ∧ ∀ line, first ≤ line → line < c.nextLine → line * cyclesPerLine ≤ cycles

theorem InPlaceBy.events {first : ℕ} (h : InPlaceBy first cycles c) :
    InPlaceBy first cycles (advanceEvents board c cycles).context := by
  refine advanceLoop_keeps (P := fun driven => InPlaceBy first cycles driven.context)
    (fun driven _ due h => ?_) _ h
  have event := scanlineEvent_done board driven
  refine ⟨h.1.event event.nextLine event.happened, fun line since before => ?_⟩
  rw [event.nextLine] at before
  rcases Nat.lt_succ_iff_lt_or_eq.mp before with old | rfl
  · exact h.2 line since old
  · exact due

theorem inPlace_kept (board : Board D) (first line now : ℕ) :
    KeptBy (accessHost board) fun (c : Context D) _ cycles =>
      cycles = now ∧ c.nextLine = line ∧ InPlaceBy first now c ∧ now < c.nextEventCycles := by
  rintro c level cycles request ⟨rfl, rfl, inPlace, early⟩
  have accessed := serve_accessed board c cycles request
  have line := accessed.nextLine
  have early' : cycles < ((accessHost board).serve c cycles request).host.nextEventCycles := by
    rw [Context.nextEventCycles, line]
    exact early
  refine ⟨by rw [accessed.wait]; rfl, line, ⟨?_, ?_⟩, early'⟩
  · rcases accessed.happened with same | more
    · exact ⟨line ▸ inPlace.1.since, by rw [same, line]; exact inPlace.1.lines, by rw [same]; exact inPlace.1.accesses⟩
    · exact inPlace.1.access line more inPlace.2 early
  · rw [line]
    exact inPlace.2

namespace Machine

/-- The log of a machine between two steps. -/
def Logged (first : ℕ) (m : Machine D) : Prop :=
  InPlaceBy first m.rt.state.cycles m.rt.host ∧
    (m.dead = none → m.rt.state.cycles < m.rt.host.nextEventCycles)

theorem arrive_logged {first : ℕ} (h : InPlaceBy first m.rt.state.cycles m.rt.host) :
    Logged first (m.arrive board) := by
  have events : InPlaceBy first m.rt.state.cycles (m.applyEvents board).rt.host := h.events
  rw [arrive]
  cases failed : (m.applyEvents board).rt.host.failed with
  | true => exact ⟨events, fun alive => by cases alive⟩
  | false =>
      refine ⟨events, fun _ => ?_⟩
      have ends := advanceEvents_ends board m.rt.host m.rt.state.cycles
      exact ends.resolve_left (by
        rw [show (advanceEvents board m.rt.host m.rt.state.cycles).context.failed = false from failed]
        exact Bool.false_ne_true)

theorem Logged.step {first : ℕ} (logged : Logged first m) (alive : m.dead = none) :
    Logged first (m.step program board) := by
  obtain ⟨_, before, rfl, _, inPlace, _⟩ := (inPlace_kept board first m.rt.host.nextLine
    m.rt.state.cycles).unit program _ m.rt ⟨rfl, rfl, logged.1, logged.2 alive⟩
  let m' : Machine D := { m with rt := z80Unit program (accessHost board) m.rt }
  have stepped : InPlaceBy first m'.rt.state.cycles m'.rt.host :=
    ⟨inPlace.1, fun line since early => (inPlace.2 line since early).trans before⟩
  have left : m'.leave.rt = m'.rt := by
    rw [leave]
    split_ifs <;> rfl
  change Logged first (m'.leave.goOn board)
  rw [Machine.goOn]
  split_ifs with died
  · refine ⟨left ▸ stepped, fun alive => ?_⟩
    rw [alive] at died
    exact absurd died Bool.false_ne_true
  · exact arrive_logged (left ▸ stepped)

theorem Consistent.logged (steady : board.stopOnHaltIdle = false)
    (consistent : Consistent program board m) (clean : m.rt.host.happened = []) (tState : ℕ) :
    InPlace m.rt.host.nextLine (m.runUntilCycle program board tState).1.rt.host := by
  have ran := consistent.runUntil steady tState
  have start : InPlaceBy m.rt.host.nextLine m.rt.state.cycles m.rt.host := by
    refine ⟨⟨le_rfl, ?_, ?_⟩, fun line since early => by omega⟩
    · rw [clean, Nat.sub_self]
      rfl
    · intro before after cycles split
      rw [clean] at split
      exact absurd split (by simp)
  have begun : Logged m.rt.host.nextLine (m.goOn board) := by
    rw [Machine.goOn]
    split_ifs with died
    · refine ⟨start, fun alive => ?_⟩
      rw [alive] at died
      exact absurd died Bool.false_ne_true
    · exact arrive_logged start
  have stays : ∀ m' : Machine D, Logged m.rt.host.nextLine m' → ¬ (line program board).stopped m' →
      m'.rt.state.cycles < tState → Logged m.rt.host.nextLine (m'.step program board) :=
    fun m' logged alive _ => logged.step (Option.not_isSome_iff_eq_none.mp alive)
  have last : Logged m.rt.host.nextLine
      ((m.runUntilCycle program board tState).1.goOn board).settle := ran.runs.keeps stays begun
  rw [ran.arrived] at last
  exact last.1.1

/-! ## The INT level -/

def Synced (board : Board D) (rt : Z80Runtime (Context D)) : Prop :=
  rt.state.intLine = irqActive board rt.host

theorem level_kept (board : Board D) :
    KeptBy (z80Host board) fun c level _ => level = irqActive board c := by
  intro c level cycles request synced
  have events := advanceEvents_level board c cycles level synced
  have accessed := (serve_accessed board (advanceEvents board c cycles).context cycles request).level _ events
  have chain : ∀ (a b : Option Bool), (a.or b).getD level = a.getD (b.getD level) := by
    intro a b
    cases a <;> rfl
  cases request <;> exact (chain _ _).trans accessed

theorem Synced.loop {rt : Z80Runtime (Context D)} (synced : Synced board rt) (k : ℕ) :
    Synced board (z80Loop program (z80Host board) k rt) := by
  induction k generalizing rt with
  | zero => exact synced
  | succ k ih =>
      obtain ⟨_, _, turned⟩ := (level_kept board).turn program _ rt synced
      rw [z80Loop]
      cases turn : z80Turn program (z80Host board) rt with
      | mk last go =>
          rw [turn] at turned
          cases go with
          | true => exact ih turned
          | false => exact turned

theorem Synced.arrive (synced : Synced board m.rt) : Synced board (m.arrive board).rt := by
  have events : Synced board (m.applyEvents board).rt :=
    advanceEvents_level board m.rt.host m.rt.state.cycles m.rt.state.intLine synced
  rw [Machine.arrive]
  split_ifs <;> exact events

theorem leave_rt (m : Machine D) : m.leave.rt = m.rt := by
  rw [leave]
  split_ifs <;> rfl

theorem Synced.until {rt : Z80Runtime (Context D)} (synced : Synced board rt) (d : ℕ) :
    Synced board (rt.until d) := synced

theorem Synced.runSlice (synced : Synced board m.rt) (program : Program CodeView) (deadline : ℕ) :
    Synced board (m.runSlice program board deadline).rt := by
  rw [Machine.runSlice, leave_rt]
  exact (synced.until deadline).loop _

theorem Synced.runLoop (synced : Synced board m.rt) (n tState : ℕ) :
    Synced board (m.runLoop program board n tState).1.rt := by
  induction n generalizing m with
  | zero => exact synced
  | succ n ih =>
      have arrived := synced.arrive
      rw [Machine.runLoop]
      cases dead : (m.arrive board).dead with
      | some stop => exact arrived
      | none =>
          simp only
          by_cases late : tState ≤ (m.arrive board).rt.state.cycles
          · rw [if_pos late]
            exact arrived
          · rw [if_neg late]
            have ran := arrived.runSlice program ((m.arrive board).sliceDeadline tState)
            generalize (m.arrive board).runSlice program board ((m.arrive board).sliceDeadline tState) = m'
              at ran ⊢
            cases m'.dead with
            | some stop => exact ran
            | none =>
                simp only
                split_ifs
                · exact ran
                · exact ih ran

theorem Synced.runUntil (synced : Synced board m.rt) (tState : ℕ) :
    Synced board (m.runUntilCycle program board tState).1.rt := by
  rw [runUntilCycle]
  cases m.dead with
  | some stop => exact synced
  | none => exact synced.runLoop _ _

theorem Synced.targets (synced : Synced board m.rt) (targets : List ℕ) :
    Synced board (m.runTargets program board targets).rt := by
  induction targets generalizing m with
  | nil => exact synced
  | cons t targets ih => exact ih (synced.runUntil t)

/-- The processor at the `k`-th boundary of the `n`-th slice of a run to `tState`. -/
def boundaryState (program : Program CodeView) (board : Board D) (m : Machine D) (tState n k : ℕ) :
    Z80Runtime (Context D) :=
  let m := (m.runLoop program board n tState).1.arrive board
  z80Loop program (z80Host board) k (m.rt.until (m.sliceDeadline tState))

end Machine

open Machine

/-- Runs from a reset: the targets on the way leave the same machine but for the deadline that
every run overwrites; the scanline events are in place among the accesses; at every boundary of
every call the INT level is what the VDP asks for. -/
theorem run_slicing (program : Program CodeView) (board : Board D)
    (steady : board.stopOnHaltIdle = false) (mem : Memory) (devices : D) {targets : List ℕ} {last : ℕ}
    (ordered : (targets ++ [last]).Pairwise (· ≤ ·)) :
    let m := Machine.reset mem devices board
    (m.runTargets program board (targets ++ [last])).settle =
        (m.runUntilCycle program board last).1.settle ∧
      InPlace 0 (m.runUntilCycle program board last).1.rt.host ∧
      ∀ (earlier : List ℕ) (tState n k : ℕ),
        Synced board (boundaryState program board (m.runTargets program board earlier) tState n k) := by
  intro m
  have consistent : Consistent program board m := fun _ =>
    ⟨⟨fun inside => absurd inside Bool.false_ne_true, fun reject => absurd reject Bool.false_ne_true⟩, rfl⟩
  have synced : Synced board m.rt := rfl
  refine ⟨consistent.targets steady ordered, consistent.logged steady rfl last, fun earlier tState n k => ?_⟩
  exact ((((synced.targets earlier).runLoop n tState).arrive).until _).loop k

/-- A ROM of NOPs. -/
def nops : Program CodeView where
  entry code pc := if (code pc).isNone then .reject .mutable_code else .instr nop
  lock_next code pc h := by split_ifs at h

def blank : Memory where
  rom _ := 0
  romSize := 0x8000
  family := .rom_only
  ram _ := 0
  cartRam _ := 0
  mapperRegs _ := 0

theorem run_slicing_nops :
    let m := Machine.reset blank () {}
    (m.runTargets nops {} ([1] ++ [2])).settle = (m.runUntilCycle nops {} 2).1.settle ∧
      InPlace 0 (m.runUntilCycle nops {} 2).1.rt.host ∧
      ∀ (earlier : List ℕ) (tState n k : ℕ),
        Synced {} (boundaryState nops {} (m.runTargets nops {} earlier) tState n k) :=
  run_slicing nops {} rfl blank () (by decide)

/-- The deadline field tells the last target that ran. -/
theorem deadline_visible :
    ((Machine.reset blank () {}).runTargets nops {} [1, 2]).rt.state ≠
      ((Machine.reset blank () {}).runUntilCycle nops {} 2).1.rt.state := by
  decide

end Segarecomp.Sms

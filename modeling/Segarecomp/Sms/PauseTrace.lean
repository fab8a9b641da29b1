import Segarecomp.Sms.RunSlicing
import Segarecomp.Z80.NmiSamples

/-! The PAUSE entries of the interrupt trace: an acceptance is logged at the entry of a slice, before
the processor runs. The trace is taken without its capacity, and without the VDP's entries. -/

namespace Segarecomp.Sms

open Z80 Z80.Runtime

variable {D : Type}

/-! ## The traced machine -/

inductive SmsIrqEvent
  | asserted | deasserted | accepted
  deriving DecidableEq, Repr

structure PauseEntry where
  cycles : ℕ
  event : SmsIrqEvent
  deriving DecidableEq, Repr

/-- The presses that `apply_input_at_frame_start` traces, at the time `t` of the event. -/
def tracedPresses (board : Board D) (frame t : ℕ) : ℕ → Context D → List ℕ
  | 0, _ => []
  | fuel + 1, c =>
      match board.inputEvents[c.inputNext]? with
      | none => []
      | some ev =>
          if ev.frame ≤ frame then
            let later := tracedPresses board frame t fuel
              { c with inputNext := c.inputNext + 1, input := ⟨ev.p1, ev.p2, ev.pause⟩ }
            if c.input.pause = 0 ∧ ev.pause ≠ 0 then t :: later else later
          else []

def linePresses (board : Board D) (c : Context D) : List ℕ :=
  if c.nextLine % linesPerFrame = 0 then
    tracedPresses board (c.nextLine / linesPerFrame) c.nextEventCycles
      (board.inputEvents.length - c.inputNext) c
  else []

def loopPresses (board : Board D) (cycles : ℕ) : ℕ → Driven D → List ℕ
  | 0, _ => []
  | fuel + 1, driven =>
      if driven.context.failed = false ∧ driven.context.nextEventCycles ≤ cycles then
        linePresses board driven.context ++ loopPresses board cycles fuel (scanlineEvent board driven)
      else []

/-- The presses that `advance_events` traces. -/
def eventPresses (board : Board D) (c : Context D) (cycles : ℕ) : List ℕ :=
  loopPresses board cycles (cycles / cyclesPerLine + 1 - c.nextLine) { context := c }

/-- The context with the trace it writes; `history` is what really happened, boundary by boundary. -/
structure Traced (D : Type) where
  context : Context D
  irqTrace : List PauseEntry := []
  history : List NmiEvent := []

namespace Traced

def press (x : Traced D) (times : List ℕ) : Traced D :=
  { x with
    irqTrace := x.irqTrace ++ times.map (⟨·, .asserted⟩)
    history := x.history ++ times.map .pressed }

def note (x : Traced D) (events : List NmiEvent) : Traced D := { x with history := x.history ++ events }

def reply (board : Board D) (x : Traced D) (cycles : ℕ) (reply : Reply (Context D)) : Reply (Traced D) :=
  reply.map fun context => { x.press (eventPresses board x.context cycles) with context := context }

end Traced

def tracedHost (board : Board D) : Z80Host (Traced D) CodeView where
  read x address cycles := x.reply board cycles ((z80Host board).read x.context address cycles)
  write x address value cycles := x.reply board cycles ((z80Host board).write x.context address value cycles)
  ioIn x port cycles := x.reply board cycles ((z80Host board).ioIn x.context port cycles)
  ioOut x port value cycles := x.reply board cycles ((z80Host board).ioOut x.context port value cycles)
  interruptAcknowledge x cycles := x.reply board cycles ((z80Host board).interruptAcknowledge x.context cycles)
  code x := (z80Host board).code x.context

structure TracedMachine (D : Type) where
  machine : Machine D
  irqTrace : List PauseEntry := []
  history : List NmiEvent := []

/-- What a slice entry makes of the flags it finds. -/
def nmiPrediction (s : Z80State) (deadline : ℕ) : List PauseEntry :=
  if s.nmiPending = true ∧ s.inPrefixRun = false ∧ s.cycles < deadline then
    [⟨s.cycles, if s.nmiReject then .deasserted else .accepted⟩]
  else []

namespace TracedMachine

def arrive (board : Board D) (x : TracedMachine D) : TracedMachine D :=
  let times := eventPresses board x.machine.rt.host x.machine.rt.state.cycles
  { machine := x.machine.arrive board
    irqTrace := x.irqTrace ++ times.map (⟨·, .asserted⟩)
    history := x.history ++ times.map .pressed }

def runSlice (program : Program CodeView) (board : Board D) (x : TracedMachine D) (deadline : ℕ) :
    TracedMachine D :=
  let traced : Traced D :=
    { context := x.machine.rt.host
      irqTrace := x.irqTrace ++ nmiPrediction x.machine.rt.state deadline
      history := x.history }
  let ran := watchedRun program (tracedHost board) Traced.note (x.machine.rt.map fun _ => traced) deadline
  { machine := { x.machine with rt := ran.map Traced.context }.leave
    irqTrace := ran.host.irqTrace
    history := ran.host.history }

def runLoop (program : Program CodeView) (board : Board D) :
    ℕ → TracedMachine D → ℕ → TracedMachine D × SmsStop
  | 0, x, _ => (x, x.machine.makeStop .cycle)
  | fuel + 1, x, tState =>
      let x := x.arrive board
      match x.machine.dead with
      | some stop => (x, stop)
      | none =>
          if tState ≤ x.machine.rt.state.cycles then (x, x.machine.makeStop .cycle)
          else
            let x := x.runSlice program board (x.machine.sliceDeadline tState)
            match x.machine.dead with
            | some stop => (x, stop)
            | none =>
                if x.machine.haltIdle board then (x, x.machine.makeStop .halt_idle)
                else runLoop program board fuel x tState

def runUntilCycle (program : Program CodeView) (board : Board D) (x : TracedMachine D) (tState : ℕ) :
    TracedMachine D × SmsStop :=
  match x.machine.dead with
  | some stop => (x, stop)
  | none => runLoop program board (tState - x.machine.rt.state.cycles + 1) x tState

def runTargets (program : Program CodeView) (board : Board D) (targets : List ℕ) (x : TracedMachine D) :
    TracedMachine D :=
  Lib.Slicing.advanceAll (fun t x => (x.runUntilCycle program board t).1) targets x

end TracedMachine

variable {program : Program CodeView} {board : Board D} {c : Context D} {cycles d : ℕ}

/-! ## The trace leaves the machine alone -/

theorem tracedHost_forgets (board : Board D) : Forgets Traced.context (tracedHost board) (z80Host board) where
  serve x cycles request := by
    cases request <;> rfl
  code _ := rfl

theorem runSlice_machine (program : Program CodeView) (board : Board D) (x : TracedMachine D) (deadline : ℕ) :
    (x.runSlice program board deadline).machine = x.machine.runSlice program board deadline := by
  have watched := (tracedHost_forgets board).watchedRun program Traced.note (fun _ _ => rfl)
    (x.machine.rt.map fun context => ({ context := x.machine.rt.host
                                        irqTrace := x.irqTrace ++ nmiPrediction x.machine.rt.state deadline
                                        history := x.history } : Traced D)) deadline
  rw [TracedMachine.runSlice, Machine.runSlice]
  dsimp only
  rw [watched]
  rfl

theorem runLoop_machine (x : TracedMachine D) (fuel tState : ℕ) :
    (x.runLoop program board fuel tState).1.machine = (x.machine.runLoop program board fuel tState).1 := by
  induction fuel generalizing x with
  | zero => rfl
  | succ fuel ih =>
      have arrived : (x.arrive board).machine = x.machine.arrive board := rfl
      rw [TracedMachine.runLoop, Machine.runLoop]
      dsimp only
      rw [arrived]
      cases (x.machine.arrive board).dead with
      | some stop => exact arrived
      | none =>
          dsimp only
          by_cases late : tState ≤ (x.machine.arrive board).rt.state.cycles
          · rw [if_pos late, if_pos late]
            exact arrived
          · rw [if_neg late, if_neg late, runSlice_machine, arrived]
            have ran := runSlice_machine program board (x.arrive board) ((x.machine.arrive board).sliceDeadline tState)
            rw [arrived] at ran
            generalize (x.arrive board).runSlice program board ((x.machine.arrive board).sliceDeadline tState) = y at ran
            rw [← ran]
            cases y.machine.dead with
            | some stop => rfl
            | none =>
                dsimp only
                split_ifs
                · rfl
                · exact ih y

theorem runTargets_machine (x : TracedMachine D) (targets : List ℕ) :
    (x.runTargets program board targets).machine = x.machine.runTargets program board targets := by
  induction targets generalizing x with
  | nil => rfl
  | cons t targets ih =>
      have first : (x.runUntilCycle program board t).1.machine = (x.machine.runUntilCycle program board t).1 := by
        rw [TracedMachine.runUntilCycle, Machine.runUntilCycle]
        cases x.machine.dead with
        | some stop => rfl
        | none => exact runLoop_machine x _ t
      have rest := ih (x.runUntilCycle program board t).1
      rw [first] at rest
      exact rest

/-! ## Slices raise no NMI -/

theorem serve_nmi (board : Board D) (c : Context D) (cycles : ℕ) (request : Access) :
    ((accessHost board).serve c cycles request).nmi = false := by
  cases request with
  | read address => rfl
  | write address value => rfl
  | io_in port =>
      change (accessIoIn board c port cycles).nmi = false
      rw [accessIoIn]
      dsimp only
      split_ifs
      · rfl
      · rfl
      · rfl
      · split <;> rfl
  | io_out port value =>
      change (accessIoOut board c port value cycles).nmi = false
      rw [accessIoOut]
      dsimp only
      split_ifs
      · rfl
      · rfl
      · rfl
      · split <;> rfl
      · split <;> rfl
  | interrupt_acknowledge => rfl

theorem eventPresses_early (early : cycles < c.nextEventCycles) : eventPresses board c cycles = [] := by
  rw [eventPresses]
  cases cycles / cyclesPerLine + 1 - c.nextLine with
  | zero => rfl
  | succ fuel =>
      have waits : ¬ (({ context := c } : Driven D).context.failed = false ∧
          ({ context := c } : Driven D).context.nextEventCycles ≤ cycles) := fun due =>
        absurd due.2 (Nat.not_le.mpr early)
      rw [loopPresses, if_neg waits]

/-- A traced context inside a slice to `d`. -/
structure Slicing (trace : List PauseEntry) (before : List NmiEvent) (d : ℕ) (events : List NmiEvent)
    (x : Traced D) : Prop where
  due : d ≤ x.context.nextEventCycles
  trace : x.irqTrace = trace
  history : x.history = before ++ events

theorem tracedHost_noted (board : Board D) (trace : List PauseEntry) (before : List NmiEvent) (d : ℕ) :
    Noted (tracedHost board) Traced.note (Slicing trace before d) d where
  calm events x cycles request slicing early := by
    have soon : cycles < x.context.nextEventCycles := early.trans_le slicing.due
    have served : (tracedHost board).serve x cycles request =
        x.reply board cycles ((accessHost board).serve x.context cycles request) := by
      rw [← serve_early soon]
      cases request <;> rfl
    have accessed := serve_accessed board x.context cycles request
    rw [served, Traced.reply, eventPresses_early soon]
    refine ⟨⟨?_, ?_, ?_⟩, serve_nmi board x.context cycles request, accessed.wait⟩
    · change d ≤ ((accessHost board).serve x.context cycles request).host.nextLine * cyclesPerLine
      rw [accessed.nextLine]
      exact slicing.due
    · exact (List.append_nil _).trans slicing.trace
    · exact (List.append_nil _).trans slicing.history
  notes events later x slicing :=
    ⟨slicing.due, slicing.trace, by
      change x.history ++ later = _
      rw [slicing.history, List.append_assoc]⟩

/-! ## The trace and what happened -/

def isPress : NmiEvent → Bool
  | .pressed _ => true
  | _ => false

def isIdle : NmiEvent → Bool
  | .idle _ => true
  | _ => false

/-- The entry that reports an event. -/
def pauseEntry : NmiEvent → Option PauseEntry
  | .pressed t => some ⟨t, .asserted⟩
  | .accepted c => some ⟨c, .accepted⟩
  | .discarded c => some ⟨c, .deasserted⟩
  | .idle _ => none

/-- Whether the last thing that happened is a press. -/
def endsPressed (history : List NmiEvent) : Bool :=
  match history.getLast? with
  | some event => isPress event
  | none => false

/-- No boundary that samples the NMI latch finds nothing right after a press. -/
def Answered (history : List NmiEvent) : Prop :=
  history.IsChain fun event next => isPress event = true → isIdle next = false

/-- The trace of a machine is what happened, and the NMI latch is a press not yet answered. -/
structure Exact (x : TracedMachine D) : Prop where
  trace : x.irqTrace = x.history.filterMap pauseEntry
  pending : x.machine.rt.state.nmiPending = endsPressed x.history
  answered : Answered x.history

theorem endsPressed_concat (history : List NmiEvent) (event : NmiEvent) :
    endsPressed (history ++ [event]) = isPress event := by
  rw [endsPressed, List.getLast?_concat]

theorem Answered.concat {history : List NmiEvent} (answered : Answered history) {event : NmiEvent}
    (follows : endsPressed history = true → isIdle event = false) : Answered (history ++ [event]) := by
  refine List.isChain_append.mpr ⟨answered, List.isChain_singleton _, ?_⟩
  intro last found next first pressed
  obtain rfl : event = next := by simpa using first
  refine follows ?_
  rw [endsPressed, Option.mem_def.mp found]
  exact pressed

theorem answered_presses {history : List NmiEvent} (answered : Answered history) (times : List ℕ) :
    Answered (history ++ times.map .pressed) ∧
      endsPressed (history ++ times.map .pressed) = (endsPressed history || !times.isEmpty) ∧
      (times.map NmiEvent.pressed).filterMap pauseEntry = times.map (⟨·, .asserted⟩) := by
  induction times generalizing history with
  | nil => exact ⟨by rwa [List.map_nil, List.append_nil], by simp, rfl⟩
  | cons t times ih =>
      have first : Answered (history ++ [.pressed t]) := answered.concat fun _ => rfl
      obtain ⟨rest, ends, entries⟩ := ih first
      rw [List.append_assoc] at rest ends
      refine ⟨rest, ends.trans ?_, ?_⟩
      · rw [endsPressed_concat]
        simp [isPress]
      · have head : pauseEntry (.pressed t) = some ⟨t, .asserted⟩ := rfl
        rw [List.map_cons, List.filterMap_cons_some head, entries]
        rfl

theorem answered_idles {history : List NmiEvent} (answered : Answered history)
    (unpressed : endsPressed history = false) (cycles : List ℕ) :
    Answered (history ++ cycles.map .idle) ∧ endsPressed (history ++ cycles.map .idle) = false ∧
      (cycles.map NmiEvent.idle).filterMap pauseEntry = [] := by
  induction cycles generalizing history with
  | nil => exact ⟨by rwa [List.map_nil, List.append_nil], by rwa [List.map_nil, List.append_nil], rfl⟩
  | cons c cycles ih =>
      have first : Answered (history ++ [.idle c]) :=
        answered.concat fun pressed => absurd (unpressed.symm.trans pressed) Bool.false_ne_true
      obtain ⟨rest, ends, entries⟩ := ih first (endsPressed_concat _ _)
      rw [List.append_assoc] at rest ends
      exact ⟨rest, ends, by rw [List.map_cons, List.filterMap_cons_none rfl, entries]⟩

/-! ## Events and their presses -/

theorem tracedPresses_nmi (board : Board D) (frame t fuel : ℕ) (c : Context D) (nmi : Bool) :
    (applyInputAtFrameStart board frame fuel (c, nmi)).2 =
      (nmi || !(tracedPresses board frame t fuel c).isEmpty) := by
  induction fuel generalizing c nmi with
  | zero => exact (Bool.or_false nmi).symm
  | succ fuel ih =>
      rw [applyInputAtFrameStart, tracedPresses]
      cases board.inputEvents[c.inputNext]? with
      | none => exact (Bool.or_false nmi).symm
      | some ev =>
          dsimp only
          split_ifs with due pressed
          · rw [ih, decide_eq_true pressed]
            simp
          · rw [ih, decide_eq_false pressed, Bool.or_false]
          · exact (Bool.or_false nmi).symm

theorem linePresses_nmi (board : Board D) (driven : Driven D) :
    (scanlineEvent board driven).nmi = (driven.nmi || !(linePresses board driven.context).isEmpty) := by
  change (beginLine board driven.context driven.nmi).2 = _
  rw [beginLine, linePresses]
  split_ifs
  · exact tracedPresses_nmi board _ _ _ _ _
  · exact (Bool.or_false _).symm

theorem loopPresses_nmi (board : Board D) (cycles fuel : ℕ) (driven : Driven D) :
    (advanceLoop board cycles fuel driven).nmi =
      (driven.nmi || !(loopPresses board cycles fuel driven).isEmpty) := by
  induction fuel generalizing driven with
  | zero => exact (Bool.or_false _).symm
  | succ fuel ih =>
      rw [advanceLoop, loopPresses]
      split_ifs
      · rw [ih, linePresses_nmi]
        cases linePresses board driven.context with
        | nil => rw [List.isEmpty_nil, Bool.not_true, Bool.or_false, List.nil_append]
        | cons t times => simp
      · exact (Bool.or_false _).symm

theorem Exact.arrive {x : TracedMachine D} (exact' : Exact x) (board : Board D) : Exact (x.arrive board) := by
  obtain ⟨answered, ends, entries⟩ := answered_presses exact'.answered
    (eventPresses board x.machine.rt.host x.machine.rt.state.cycles)
  have raised := loopPresses_nmi board x.machine.rt.state.cycles
    (x.machine.rt.state.cycles / cyclesPerLine + 1 - x.machine.rt.host.nextLine) { context := x.machine.rt.host }
  refine ⟨?_, ?_, answered⟩
  · change x.irqTrace ++ _ = (x.history ++ _).filterMap pauseEntry
    rw [List.filterMap_append, entries, exact'.trace]
  · have pending : (x.machine.arrive board).rt.state.nmiPending =
        (x.machine.rt.state.nmiPending ||
          (advanceEvents board x.machine.rt.host x.machine.rt.state.cycles).nmi) := by
      rw [Machine.arrive]
      split_ifs <;> rfl
    change (x.machine.arrive board).rt.state.nmiPending = endsPressed (x.history ++ _)
    rw [pending, ends, exact'.pending]
    exact congrArg (endsPressed x.history || ·) (raised.trans (Bool.false_or _))

theorem Exact.leave {x : TracedMachine D} (exact' : Exact x) : Exact { x with machine := x.machine.leave } := by
  refine ⟨exact'.trace, ?_, exact'.answered⟩
  change x.machine.leave.rt.state.nmiPending = _
  rw [Machine.leave_rt, exact'.pending]

theorem sampleNmi_inside (s : Z80State) (deadline : ℕ) (inside : s.inPrefixRun = true) :
    sampleNmi { s with deadline := deadline } = [] := by
  rw [sampleNmi]
  dsimp only
  rw [if_pos inside, ite_self]

theorem sampleNmi_pending {s : Z80State} {deadline : ℕ} (early : s.cycles < deadline)
    (outside : s.inPrefixRun = false) (pending : s.nmiPending = true) :
    sampleNmi { s with deadline := deadline } =
      [if s.nmiReject then .discarded s.cycles else .accepted s.cycles] := by
  rw [sampleNmi]
  dsimp only
  rw [if_neg (Nat.not_le.mpr early), outside, if_neg Bool.false_ne_true, if_pos pending, if_pos pending]
  split_ifs <;> rfl

theorem sampleNmi_idle {s : Z80State} {deadline : ℕ} (early : s.cycles < deadline)
    (outside : s.inPrefixRun = false) (clear : s.nmiPending = false) :
    sampleNmi { s with deadline := deadline } = [.idle s.cycles] := by
  rw [sampleNmi]
  dsimp only
  rw [if_neg (Nat.not_le.mpr early), outside, clear, if_neg Bool.false_ne_true, if_neg Bool.false_ne_true,
    if_neg Bool.false_ne_true, ite_self]

theorem settled_outside {s : Z80State} {deadline : ℕ} (early : s.cycles < deadline)
    (outside : s.inPrefixRun = false) : settled { s with deadline := deadline } = false := by
  rw [settled]
  dsimp only
  rw [if_neg (Nat.not_le.mpr early), outside, if_neg Bool.false_ne_true]

/-- What is predicted at the entry of a slice is what its first boundary does, and that boundary
answers a press. -/
theorem first_boundary (s : Z80State) {deadline : ℕ} (early : s.cycles < deadline) {history : List NmiEvent}
    (answered : Answered history) (pending : s.nmiPending = endsPressed history) :
    (sampleNmi { s with deadline := deadline }).filterMap pauseEntry = nmiPrediction s deadline ∧
      Answered (history ++ sampleNmi { s with deadline := deadline }) ∧
      settled { s with deadline := deadline } = endsPressed (history ++ sampleNmi { s with deadline := deadline }) := by
  rcases Bool.eq_false_or_eq_true s.inPrefixRun with inside | outside
  · have unsampled : ¬ (s.nmiPending = true ∧ s.inPrefixRun = false ∧ s.cycles < deadline) := fun sampled =>
      absurd (inside.symm.trans sampled.2.1) Bool.noConfusion
    have still : settled { s with deadline := deadline } = s.nmiPending := by
      rw [settled]
      dsimp only
      rw [if_pos inside, ite_self]
    rw [sampleNmi_inside s deadline inside, List.append_nil, nmiPrediction, if_neg unsampled, still]
    exact ⟨rfl, answered, pending⟩
  rw [settled_outside early outside]
  rcases Bool.eq_false_or_eq_true s.nmiPending with latched | clear
  · have sampled : s.nmiPending = true ∧ s.inPrefixRun = false ∧ s.cycles < deadline := ⟨latched, outside, early⟩
    rw [sampleNmi_pending early outside latched, nmiPrediction, if_pos sampled, endsPressed_concat]
    cases s.nmiReject with
    | true => exact ⟨rfl, answered.concat fun _ => rfl, rfl⟩
    | false => exact ⟨rfl, answered.concat fun _ => rfl, rfl⟩
  · have unpressed : endsPressed history = true → isIdle (.idle s.cycles) = false := fun pressed =>
      absurd ((clear.symm.trans pending).trans pressed) Bool.false_ne_true
    have unsampled : ¬ (s.nmiPending = true ∧ s.inPrefixRun = false ∧ s.cycles < deadline) := fun sampled =>
      absurd (clear.symm.trans sampled.1) Bool.false_ne_true
    rw [sampleNmi_idle early outside clear, nmiPrediction, if_neg unsampled, endsPressed_concat]
    exact ⟨rfl, answered.concat unpressed, rfl⟩

theorem Exact.runSlice {x : TracedMachine D} (exact' : Exact x) (program : Program CodeView) (board : Board D)
    {deadline : ℕ} (early : x.machine.rt.state.cycles < deadline)
    (due : deadline ≤ x.machine.rt.host.nextEventCycles) : Exact (x.runSlice program board deadline) := by
  let s := x.machine.rt.state
  let traced : Traced D :=
    { context := x.machine.rt.host, irqTrace := x.irqTrace ++ nmiPrediction s deadline, history := x.history }
  let ran := watchedRun program (tracedHost board) Traced.note (x.machine.rt.map fun _ => traced) deadline
  have start : Slicing (x.irqTrace ++ nmiPrediction s deadline) x.history deadline [] traced :=
    ⟨due, rfl, (List.append_nil _).symm⟩
  obtain ⟨cycles, slicing, pending, locked⟩ := (tracedHost_noted board (x.irqTrace ++ nmiPrediction s deadline)
    x.history deadline).watchedRun program (x.machine.rt.map fun _ => traced) start early
  obtain ⟨predicted, answered, settles⟩ := first_boundary s early exact'.answered exact'.pending
  let sampled := sampleNmi { s with deadline := deadline }
  have history : ran.host.history = (x.history ++ sampled) ++ cycles.map .idle := by
    rw [slicing.history, List.nil_append, List.append_assoc]
    rfl
  have trace : ran.host.irqTrace = x.irqTrace ++ nmiPrediction s deadline := slicing.trace
  have idles : Answered ((x.history ++ sampled) ++ cycles.map .idle) ∧
      endsPressed ((x.history ++ sampled) ++ cycles.map .idle) = endsPressed (x.history ++ sampled) ∧
      (cycles.map NmiEvent.idle).filterMap pauseEntry = [] := by
    cases inside : s.inPrefixRun with
    | true =>
        rw [locked inside, List.map_nil, List.append_nil]
        exact ⟨answered, rfl, rfl⟩
    | false =>
        have unpressed := settles.symm.trans (settled_outside early inside)
        obtain ⟨kept, ends, entries⟩ := answered_idles answered unpressed cycles
        exact ⟨kept, ends.trans unpressed.symm, entries⟩
  have exact'' : Exact { machine := { x.machine with rt := ran.map Traced.context }
                         irqTrace := ran.host.irqTrace, history := ran.host.history } := by
    refine ⟨?_, ?_, ?_⟩
    · change ran.host.irqTrace = ran.host.history.filterMap pauseEntry
      rw [history, trace, List.filterMap_append, List.filterMap_append, idles.2.2, predicted, exact'.trace,
        List.append_nil]
    · change ran.state.nmiPending = endsPressed ran.host.history
      rw [history, idles.2.1, ← settles]
      exact pending
    · change Answered ran.host.history
      rw [history]
      exact idles.1
  exact exact''.leave

theorem Exact.runLoop {x : TracedMachine D} (exact' : Exact x) (program : Program CodeView) (board : Board D)
    (fuel tState : ℕ) : Exact (x.runLoop program board fuel tState).1 := by
  induction fuel generalizing x with
  | zero => exact exact'
  | succ fuel ih =>
      have arrived := exact'.arrive board
      have soon : (x.arrive board).machine.dead = none →
          (x.arrive board).machine.rt.state.cycles < (x.arrive board).machine.rt.host.nextEventCycles := by
        intro alive
        have events := advanceEvents_ends board x.machine.rt.host x.machine.rt.state.cycles
        change (x.machine.arrive board).dead = none at alive
        change (x.machine.arrive board).rt.state.cycles < (x.machine.arrive board).rt.host.nextEventCycles
        rw [Machine.arrive] at alive ⊢
        split_ifs at alive ⊢ with broken
        · exact absurd alive (Option.some_ne_none _)
        · exact events.resolve_left broken
      rw [TracedMachine.runLoop]
      dsimp only
      generalize x.arrive board = y at arrived soon
      cases dead : y.machine.dead with
      | some stop => exact arrived
      | none =>
          dsimp only
          by_cases late : tState ≤ y.machine.rt.state.cycles
          · rw [if_pos late]
            exact arrived
          · rw [if_neg late]
            have early : y.machine.rt.state.cycles < y.machine.sliceDeadline tState :=
              lt_min (soon dead) (Nat.not_le.mp late)
            have due : y.machine.sliceDeadline tState ≤ y.machine.rt.host.nextEventCycles := min_le_left _ _
            have ran := arrived.runSlice program board early due
            generalize y.runSlice program board (y.machine.sliceDeadline tState) = z at ran
            cases z.machine.dead with
            | some stop => exact ran
            | none =>
                dsimp only
                split_ifs
                · exact ran
                · exact ih ran

theorem Exact.runTargets {x : TracedMachine D} (exact' : Exact x) (program : Program CodeView) (board : Board D)
    (targets : List ℕ) : Exact (x.runTargets program board targets) := by
  induction targets generalizing x with
  | nil => exact exact'
  | cons t targets ih =>
      refine ih (x := (x.runUntilCycle program board t).1) ?_
      rw [TracedMachine.runUntilCycle]
      cases x.machine.dead with
      | some stop => exact exact'
      | none => exact exact'.runLoop program board _ t

/-- A press that something follows is followed by its answer or by another press. -/
theorem Answered.after_press {before after : List NmiEvent} {t : ℕ}
    (answered : Answered (before ++ .pressed t :: after)) :
    after = [] ∨ ∃ next later, after = next :: later ∧ isIdle next = false := by
  cases after with
  | nil => exact .inl rfl
  | cons next later =>
      have linked := (List.isChain_append.mp answered).2.1
      exact .inr ⟨next, later, rfl, (List.isChain_cons_cons.mp linked).1 rfl⟩

/-- In every run from a reset, however it is sliced, the traced machine is the machine; its PAUSE
entries are the presses, the acceptances and the discards that really happened, in order and with their
cycles; after a press the next thing that happens is its answer or another press, and no boundary that
samples the NMI latch comes between; a press nothing has followed yet is still pending. -/
theorem pauseTrace_exact (program : Program CodeView) (board : Board D) (mem : Memory) (devices : D)
    (targets : List ℕ) :
    let x := ({ machine := Machine.reset mem devices board } : TracedMachine D).runTargets program board targets
    x.machine = (Machine.reset mem devices board).runTargets program board targets ∧
      x.irqTrace = x.history.filterMap pauseEntry ∧
      (∀ before t after, x.history = before ++ .pressed t :: after →
        (after = [] ∧ x.machine.rt.state.nmiPending = true) ∨
          ∃ next later, after = next :: later ∧ isIdle next = false) ∧
      x.machine.rt.state.nmiPending = endsPressed x.history := by
  intro x
  have start : Exact ({ machine := Machine.reset mem devices board } : TracedMachine D) :=
    ⟨rfl, rfl, List.isChain_nil⟩
  have exact' := start.runTargets program board targets
  refine ⟨runTargets_machine _ targets, exact'.trace, ?_, exact'.pending⟩
  intro before t after shape
  have answered := exact'.answered
  have pending := exact'.pending
  rw [shape] at answered pending
  rcases answered.after_press with last | followed
  · rw [last, endsPressed_concat] at pending
    exact .inl ⟨last, pending⟩
  · exact .inr followed

/-- Pause pressed at the start of the first frame. -/
def pausing : Board Unit where
  inputEvents := [⟨0, 0, 0, 1⟩]

example : (({ machine := Machine.reset blank () pausing } : TracedMachine Unit).runTargets nops pausing [2]).irqTrace =
    [⟨0, .asserted⟩, ⟨0, .accepted⟩] := by decide

end Segarecomp.Sms

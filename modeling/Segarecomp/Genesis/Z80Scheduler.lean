import Segarecomp.Genesis.Z80Machine
import Segarecomp.Z80.RuntimeRun

/-! The Z80 scheduler of the Genesis leaves no trace of the master times it is called with. -/

namespace Segarecomp.Genesis.Z80Machine

open Z80 Z80.Runtime Lib.RunUntil

variable {D : Type} {program : Program CodeView} {board : Board D} {m : Machine D}

/-! ## The callbacks -/

def latched (v : View D) : Bool := v.viewStop.isSome

theorem latchStop_latched (v : View D) (diagnostic : Diagnostic) (wait : ℕ) :
    latched (latchStop v diagnostic wait).host = true := by
  cases h : v.viewStop <;> simp [latched, latchStop, h]

/-- What a callback may do: latch and ask for a stop, or neither; the time base, the bound image
and the INT level stay. -/
structure Served (v : View D) (reply : Reply (View D)) : Prop where
  stop : latched v = false → reply.stop = latched reply.host
  stays : latched v = true → latched reply.host = true
  base : reply.host.cycleBase = v.cycleBase
  ordinal : reply.host.boundOrdinal = v.boundOrdinal
  level : reply.intLine = none

theorem latchStop_served (v v' : View D) (diagnostic : Diagnostic) (wait : ℕ)
    (base : v'.cycleBase = v.cycleBase) (ordinal : v'.boundOrdinal = v.boundOrdinal) :
    Served v (latchStop v' diagnostic wait) :=
  ⟨fun _ => (latchStop_latched v' diagnostic wait).symm, fun _ => latchStop_latched v' diagnostic wait,
    base, ordinal, rfl⟩

theorem quiet_served (v : View D) (reply : Reply (View D)) (stop : reply.stop = false)
    (same : reply.host.viewStop = v.viewStop) (base : reply.host.cycleBase = v.cycleBase)
    (ordinal : reply.host.boundOrdinal = v.boundOrdinal) (level : reply.intLine = none) :
    Served v reply := by
  have iff : latched reply.host = latched v := by rw [latched, same, latched]
  exact ⟨fun h => by rw [stop, iff, h], fun h => iff.trans h, base, ordinal, level⟩

theorem viewRead_served (v : View D) (address : Addr) (cycles : ℕ) :
    Served v (z80ViewRead board v address cycles) := by
  rw [z80ViewRead]
  dsimp only
  split_ifs
  · exact quiet_served _ _ rfl rfl rfl rfl rfl
  · split
    · exact latchStop_served _ _ _ _ rfl rfl
    · exact quiet_served _ _ rfl rfl rfl rfl rfl
  · exact latchStop_served _ _ _ _ rfl rfl
  · split
    · exact latchStop_served _ _ _ _ rfl rfl
    · exact quiet_served _ _ rfl rfl rfl rfl rfl

theorem bankWrite_kept {v v' : View D} {target : ℕ} {value : Byte}
    (h : bankWrite board v target value = some v') :
    v'.viewStop = v.viewStop ∧ v'.cycleBase = v.cycleBase ∧ v'.boundOrdinal = v.boundOrdinal := by
  rw [bankWrite] at h
  split at h
  · obtain ⟨d, _, rfl⟩ := Option.map_eq_some_iff.mp h
    exact ⟨rfl, rfl, rfl⟩
  · split_ifs at h
    obtain rfl := Option.some.inj h
    exact ⟨rfl, rfl, rfl⟩

theorem viewWrite_served (v : View D) (address : Addr) (value : Byte) (cycles : ℕ) :
    Served v (z80ViewWrite board v address value cycles) := by
  rw [z80ViewWrite]
  dsimp only
  split_ifs
  · exact quiet_served _ _ rfl rfl rfl rfl rfl
  · split
    · exact latchStop_served _ _ _ _ rfl rfl
    · exact quiet_served _ _ rfl rfl rfl rfl rfl
  · exact quiet_served _ _ rfl rfl rfl rfl rfl
  · exact latchStop_served _ _ _ _ rfl rfl
  · split
    · exact latchStop_served _ _ _ _ rfl rfl
    · exact quiet_served _ _ rfl rfl rfl rfl rfl
  · exact latchStop_served _ _ _ _ rfl rfl
  · split
    · exact latchStop_served _ _ _ _ rfl rfl
    · next written =>
        obtain ⟨stop, base, ordinal⟩ := bankWrite_kept written
        exact quiet_served _ _ rfl stop base ordinal rfl

variable (board) in
theorem serve_served (v : View D) (cycles : ℕ) (request : Access) :
    Served v ((z80Host board).serve v cycles request) := by
  cases request with
  | read address => exact viewRead_served v address cycles
  | write address value => exact viewWrite_served v address value cycles
  | io_in port => exact quiet_served _ _ rfl rfl rfl rfl rfl
  | io_out port value => exact quiet_served _ _ rfl rfl rfl rfl rfl
  | interrupt_acknowledge => exact quiet_served _ _ rfl rfl rfl rfl rfl

theorem latching : Latching (z80Host board) (latched (D := D)) :=
  ⟨fun v cycles request => (serve_served board v cycles request).stop,
    fun v cycles request => (serve_served board v cycles request).stays⟩

variable (board) in
/-- The time base, the bound image and the INT level outlast every callback. -/
theorem fixed_kept (base ordinal : ℕ) (level : Bool) :
    KeptBy (z80Host board) fun (v : View D) line _ =>
      v.cycleBase = base ∧ v.boundOrdinal = ordinal ∧ line = level := by
  rintro v line cycles request ⟨rfl, rfl, rfl⟩
  have served := serve_served board v cycles request
  exact ⟨served.base, served.ordinal, by rw [served.level]; rfl⟩

/-! ## INT edges -/

/-- The three parts of a frame: before the onset line, inside it, after it. -/
theorem nextIntEdge_cases (now : ℕ) :
    (now % 896040 < 766080 ∧ nextIntEdge now = now / 896040 * 896040 + 766080) ∨
      (766080 ≤ now % 896040 ∧ now % 896040 < 769500 ∧
        nextIntEdge now = now / 896040 * 896040 + 769500) ∨
      (769500 ≤ now % 896040 ∧ nextIntEdge now = now / 896040 * 896040 + 1662120) := by
  have base : now - now % 896040 = now / 896040 * 896040 := by omega
  simp only [nextIntEdge, vblankOnsetTick, masterTicksPerLine, masterTicksPerFrame, base]
  rcases Nat.lt_or_ge (now % 896040) 766080 with early | onset
  · refine .inl ⟨early, ?_⟩
    rw [if_pos early]
  · rw [if_neg (Nat.not_lt.mpr onset)]
    rcases Nat.lt_or_ge (now % 896040) (766080 + 3420) with inside | after
    · exact .inr (.inl ⟨onset, by omega, (if_pos inside).trans (by omega)⟩)
    · exact .inr (.inr ⟨by omega, (if_neg (Nat.not_lt.mpr after)).trans (by omega)⟩)

theorem lt_nextIntEdge (now : ℕ) : now < nextIntEdge now := by
  rcases nextIntEdge_cases now with ⟨_, edge⟩ | ⟨_, _, edge⟩ | ⟨_, edge⟩
  all_goals
    rw [edge]
    omega

theorem intLevelAt_iff (t : ℕ) :
    intLevelAt t = true ↔ 766080 ≤ t % 896040 ∧ t % 896040 < 769500 := by
  have line : vblankOnsetTick + masterTicksPerLine = 769500 := rfl
  rw [intLevelAt, Bool.and_eq_true, decide_eq_true_iff, decide_eq_true_iff, line,
    vblankOnsetTick, masterTicksPerFrame]

theorem intLevelAt_eq {now t : ℕ} (after : now ≤ t) (before : t < nextIntEdge now) :
    intLevelAt t = intLevelAt now := by
  rw [Bool.eq_iff_iff, intLevelAt_iff, intLevelAt_iff]
  rcases nextIntEdge_cases now with ⟨_, edge⟩ | ⟨_, _, edge⟩ | ⟨_, edge⟩
  all_goals
    rw [edge] at before
    omega

/-! ## Single steps of the machine -/

/-- The machine without what the next `z80_run` overwrites. -/
def Machine.settle (m : Machine D) : Machine D := { m with cpu := m.cpu.settle }

def machineStep (program : Program CodeView) (board : Board D) (m : Machine D) :
    Machine D × Option RuntimeStop :=
  let m := m.sampled
  { m with cpu := z80Unit program (z80Host board) m.cpu }.afterRun

def line (program : Program CodeView) (board : Board D) : Clocked (Machine D × Option RuntimeStop) where
  now x := x.1.masterTicks
  stopped x := x.2.isSome = true ∨ x.1.soundFault.isSome = true ∨ x.1.runnable = false
  step x := machineStep program board x.1

/-- The machine runs the Z80: it is neither held nor isolated, and no error is pending. -/
structure Going (program : Program CodeView) (board : Board D) (m : Machine D) : Prop where
  ready : Ready program (z80Host board) m.cpu
  healthy : m.cpu.outcome.isError = false
  awake : latched m.cpu.host = false
  unfaulted : m.soundFault = none
  runnable : m.runnable = true

theorem viewStop_none {v : View D} (awake : latched v = false) : v.viewStop = none :=
  Option.isSome_eq_false_iff.mp awake |> Option.isNone_iff_eq_none.mp

theorem afterRun_healthy (awake : latched m.cpu.host = false)
    (healthy : m.cpu.outcome.isError = false) : m.afterRun = (m, none) := by
  rw [Machine.afterRun, viewStop_none awake]
  cases outcome : m.cpu.outcome with
  | error e =>
      rw [outcome] at healthy
      exact absurd healthy.symm Bool.false_ne_true
  | _ => rfl

theorem afterRun_stopped (h : m.cpu.outcome.isError = true ∨ latched m.cpu.host = true) :
    m.afterRun.2.isSome = true ∨ m.afterRun.1.soundFault.isSome = true := by
  rw [Machine.afterRun]
  cases stop : m.cpu.host.viewStop with
  | some fault =>
      dsimp only
      split_ifs
      · exact .inr rfl
      · exact .inl rfl
  | none =>
      have failed : m.cpu.outcome.isError = true := by
        rcases h with failed | stopped
        · exact failed
        · rw [latched, stop] at stopped
          exact absurd stopped Bool.false_ne_true
      cases outcome : m.cpu.outcome with
      | error e =>
          cases e
          all_goals first
            | exact .inl rfl
            | exact .inr rfl
      | none => rw [outcome] at failed; exact absurd failed Bool.false_ne_true
      | deadline => rw [outcome] at failed; exact absurd failed Bool.false_ne_true
      | halted => rw [outcome] at failed; exact absurd failed Bool.false_ne_true
      | prefix_lock => rw [outcome] at failed; exact absurd failed Bool.false_ne_true

theorem afterRun_settle (m : Machine D) :
    m.settle.afterRun = (m.afterRun.1.settle, m.afterRun.2) := by
  have stop : m.settle.cpu.host.viewStop = m.cpu.host.viewStop := rfl
  rw [Machine.afterRun, Machine.afterRun, stop]
  cases m.cpu.host.viewStop with
  | some fault =>
      dsimp only
      change (if m.isolateViewStops then _ else _) = _
      split_ifs <;> rfl
  | none =>
      dsimp only
      cases outcome : m.cpu.outcome with
      | error e =>
          have kept : m.settle.cpu.outcome = .error e := by
            simp [Machine.settle, Z80Runtime.settle, outcome, Z80Outcome.isError]
          rw [kept]
          cases e <;> rfl
      | _ =>
          have healthy : m.settle.cpu.outcome.isError = false := by
            rw [Machine.settle, settle_isError, outcome]
            rfl
          cases settled : m.settle.cpu.outcome with
          | error e =>
              rw [settled] at healthy
              exact absurd healthy.symm Bool.false_ne_true
          | _ => rfl

/-! ## Segments -/

theorem sampled_eq (level : m.cpu.state.intLine = intLevelAt m.masterTicks) : m.sampled = m := by
  rw [Machine.sampled, ← level]

theorem steps_iff {base cycles now target steps c : ℕ} (at_now : base + cycles * 15 = now)
    (later : now < target) (h : steps = (target - now + 15 - 1) / 15) :
    target ≤ base + c * 15 ↔ cycles + steps ≤ c := by
  omega

/-- Where the runs of a segment are: the fixed parts, and a ready state until it stops. -/
def Within (program : Program CodeView) (board : Board D) (m : Machine D)
    (cpu : Z80Runtime (View D)) : Prop :=
  (cpu.host.cycleBase = m.cpu.host.cycleBase ∧ cpu.host.boundOrdinal = m.cpu.host.boundOrdinal ∧
    cpu.state.intLine = intLevelAt m.masterTicks) ∧
  (¬ (clock program (z80Host board) latched).stopped cpu →
    Ready program (z80Host board) cpu ∧ m.cpu.state.cycles ≤ cpu.state.cycles)

theorem Within.step {cpu : Z80Runtime (View D)} (within : Within program board m cpu)
    (going : ¬ (clock program (z80Host board) latched).stopped cpu) :
    Within program board m (z80Unit program (z80Host board) cpu) := by
  obtain ⟨fixed, run⟩ := within
  obtain ⟨ready, since⟩ := run going
  obtain ⟨fine, alive⟩ := not_or.mp going
  obtain ⟨_, _, fixed'⟩ := (fixed_kept board _ _ _).unit program _ cpu fixed
  refine ⟨fixed', fun going' => ?_⟩
  rcases z80Unit_spec latching ready (Bool.eq_false_of_not_eq_true fine)
    (Bool.eq_false_of_not_eq_true alive) with failed | ⟨ready', _, later⟩
  · exact absurd (Or.inl failed) going'
  · exact ⟨ready', since.trans later.le⟩

/-- The machine around a processor state, with what `run_to` makes of it. -/
def Machine.around (m : Machine D) (cpu : Z80Runtime (View D)) : Machine D × Option RuntimeStop :=
  { m with cpu := cpu }.afterRun

theorem afterRun_now (m : Machine D) : m.afterRun.1.masterTicks = m.masterTicks := by
  rw [Machine.afterRun]
  cases m.cpu.host.viewStop with
  | some fault =>
      dsimp only
      split_ifs <;> rfl
  | none =>
      dsimp only
      cases m.cpu.outcome with
      | error e => cases e <;> rfl
      | _ => rfl

theorem around_now (m : Machine D) (cpu : Z80Runtime (View D)) :
    (line program board).now (m.around cpu) = cpu.host.cycleBase + cpu.state.cycles * 15 :=
  afterRun_now _

theorem Going.around_stopped (going : Going program board m) {cpu : Z80Runtime (View D)}
    (within : Within program board m cpu) :
    (line program board).stopped (m.around cpu) ↔ (clock program (z80Host board) latched).stopped cpu := by
  constructor
  · intro stopped
    by_contra run
    obtain ⟨fine, alive⟩ := not_or.mp run
    have same : m.around cpu = ({ m with cpu := cpu }, none) :=
      afterRun_healthy (Bool.eq_false_of_not_eq_true alive) (Bool.eq_false_of_not_eq_true fine)
    rw [same] at stopped
    rcases stopped with stopped | faulted | held
    · exact Bool.false_ne_true stopped
    · rw [show ({ m with cpu := cpu } : Machine D).soundFault = none from going.unfaulted] at faulted
      exact Bool.false_ne_true faulted
    · have runs := going.runnable
      rw [Machine.runnable, ← within.1.2.1] at runs
      exact Bool.false_ne_true (held.symm.trans runs)
  · intro stopped
    rcases afterRun_stopped (m := { m with cpu := cpu }) stopped with stop | fault
    · exact .inl stop
    · exact .inr (.inl fault)

theorem around_step {cpu : Z80Runtime (View D)} (within : Within program board m cpu)
    (run : ¬ (clock program (z80Host board) latched).stopped cpu)
    (before : cpu.host.cycleBase + cpu.state.cycles * 15 < nextIntEdge m.masterTicks) :
    (line program board).step (m.around cpu) = m.around (z80Unit program (z80Host board) cpu) := by
  obtain ⟨fine, alive⟩ := not_or.mp run
  have same : m.around cpu = ({ m with cpu := cpu }, none) :=
    afterRun_healthy (Bool.eq_false_of_not_eq_true alive) (Bool.eq_false_of_not_eq_true fine)
  obtain ⟨⟨base, _, level⟩, since⟩ := within
  have after : m.masterTicks ≤ ({ m with cpu := cpu } : Machine D).masterTicks := by
    have cycles := (since run).2
    change m.cpu.host.cycleBase + m.cpu.state.cycles * 15 ≤ cpu.host.cycleBase + cpu.state.cycles * 15
    rw [base]
    omega
  have sampled : ({ m with cpu := cpu } : Machine D).sampled = { m with cpu := cpu } := by
    apply sampled_eq
    rw [intLevelAt_eq after before]
    exact level
  rw [same]
  change machineStep program board { m with cpu := cpu } = _
  rw [machineStep, sampled]
  rfl

theorem sampled_step (m : Machine D) :
    (line program board).step (m.sampled.settle, none) = (line program board).step (m.settle, none) := rfl

theorem Going.line_going (going : Going program board m) (target : ℕ)
    (early : m.masterTicks < target) :
    (line program board).now (m.settle, none) < target ∧
      ¬ (line program board).stopped (m.settle, none) := by
  refine ⟨early, ?_⟩
  rintro (stop | fault | held)
  · exact Bool.false_ne_true stop
  · rw [show m.settle.soundFault = none from going.unfaulted] at fault
    exact Bool.false_ne_true fault
  · exact Bool.false_ne_true (held.symm.trans going.runnable)

theorem Going.sampled (going : Going program board m) : Going program board m.sampled :=
  ⟨⟨going.ready.lock, going.ready.reject⟩, going.healthy, going.awake, going.unfaulted, going.runnable⟩

theorem Going.segment (going : Going program board m) {target : ℕ} (early : m.masterTicks < target) :
    Runs (line program board) (segmentEnd m target) (m.settle, none)
        ((runSegment program board m target).1.settle, (runSegment program board m target).2) ∧
      ((runSegment program board m target).2 = none →
        (runSegment program board m target).1.soundFault = none →
        Going program board (runSegment program board m target).1) := by
  let last := segmentEnd m target
  let d := m.cpu.state.cycles + (last - m.masterTicks + clockDivider - 1) / clockDivider
  let final := z80Run program (z80Host board) m.sampled.cpu d
  have result : runSegment program board m target = m.around final := rfl
  have last_later : m.masterTicks < last := lt_min (lt_nextIntEdge _) early
  have sampled := going.sampled
  have run := (z80Run_runs latching sampled.ready sampled.healthy sampled.awake d).1
  have start : Within program board m m.sampled.cpu.settle :=
    ⟨⟨rfl, rfl, rfl⟩, fun _ => ⟨⟨sampled.ready.lock, sampled.ready.reject⟩, le_rfl⟩⟩
  have late_iff : ∀ cpu, Within program board m cpu →
      (last ≤ (line program board).now (m.around cpu) ↔ d ≤ (clock program (z80Host board) latched).now cpu) := by
    intro cpu within
    rw [around_now, within.1.1]
    exact steps_iff rfl last_later rfl
  have mapped : Runs (line program board) last (m.around m.sampled.cpu.settle) (m.around final.settle) := by
    refine run.map (fun cpu within run _ => within.step run) late_iff
      (fun cpu within => (going.around_stopped within).mpr)
      (fun cpu within run _ => run ∘ (going.around_stopped within).mp) (fun cpu within run before => ?_) start
    refine around_step within run ?_
    have short : ¬ last ≤ (line program board).now (m.around cpu) := by
      rw [late_iff cpu within]
      exact Nat.not_le.mpr before
    rw [around_now] at short
    exact lt_of_lt_of_le (Nat.not_le.mp short) (min_le_left _ _)
  have first : m.around m.sampled.cpu.settle = (m.sampled.settle, none) := by
    refine afterRun_healthy sampled.awake ?_
    rw [settle_isError]
    exact sampled.healthy
  have settled : m.around final.settle = ((m.around final).1.settle, (m.around final).2) :=
    afterRun_settle { m with cpu := final }
  rw [first, settled] at mapped
  refine ⟨?_, fun stop fault => ?_⟩
  · obtain ⟨before, running⟩ := going.line_going last last_later
    obtain ⟨before', running'⟩ := sampled.line_going last last_later
    refine .step before running ?_
    rw [← sampled_step, result]
    exact mapped.tail before' running'
  · have within : Within program board m final.settle :=
      run.keeps (fun cpu within run _ => within.step run) start
    have running : ¬ (clock program (z80Host board) latched).stopped final := by
      intro stopped
      rcases afterRun_stopped (m := { m with cpu := final }) stopped with some | some
      · rw [result] at stop
        rw [show (({ m with cpu := final } : Machine D).afterRun).2 = none from stop] at some
        exact Bool.false_ne_true some
      · rw [result] at fault
        rw [show (({ m with cpu := final } : Machine D).afterRun).1.soundFault = none from fault] at some
        exact Bool.false_ne_true some
    obtain ⟨fine, alive⟩ := not_or.mp running
    have healthy := Bool.eq_false_of_not_eq_true fine
    have awake := Bool.eq_false_of_not_eq_true alive
    have same : runSegment program board m target = ({ m with cpu := final }, none) :=
      result.trans (afterRun_healthy awake healthy)
    have ready : Ready program (z80Host board) final.settle := by
      refine (within.2 ?_).1
      rw [show (clock program (z80Host board) latched).stopped final.settle ↔
        (final.settle.outcome.isError = true ∨ latched final.host = true) from Iff.rfl, settle_isError]
      exact running
    rw [same]
    refine ⟨⟨ready.lock, ready.reject⟩, healthy, awake, going.unfaulted, ?_⟩
    have runs := going.runnable
    rw [Machine.runnable, ← within.1.2.1] at runs
    exact runs

/-! ## The whole of `run_to` -/

theorem going_now (going : Going program board m) {target : ℕ} (early : m.masterTicks < target)
    (stop : (runSegment program board m target).2 = none)
    (fault : (runSegment program board m target).1.soundFault = none) :
    m.masterTicks < (runSegment program board m target).1.masterTicks := by
  obtain ⟨run, after⟩ := going.segment early
  have kept := after stop fault
  have last_later : m.masterTicks < segmentEnd m target := lt_min (lt_nextIntEdge _) early
  rcases run.ended with late | stopped
  · exact lt_of_lt_of_le last_later late
  · rw [stop] at stopped
    exact absurd stopped (kept.line_going _ (Nat.lt_succ_self _)).2

theorem Going.loop (going : Going program board m) {target fuel : ℕ}
    (enough : target - m.masterTicks < fuel) :
    Runs (line program board) target (m.settle, none)
        ((runLoop program board fuel m target).1.settle, (runLoop program board fuel m target).2) ∧
      ((runLoop program board fuel m target).2 = none →
        (runLoop program board fuel m target).1.soundFault = none →
        Going program board (runLoop program board fuel m target).1) := by
  induction fuel generalizing m with
  | zero => omega
  | succ fuel ih =>
      rw [runLoop]
      rcases Nat.lt_or_ge m.masterTicks target with early | late
      · rw [if_neg (Nat.not_le.mpr early)]
        obtain ⟨run, after⟩ := going.segment early
        have within : segmentEnd m target ≤ target := min_le_right _ _
        cases segment : runSegment program board m target with
        | mk m' stop =>
            rw [segment] at run after
            dsimp only at run after ⊢
            split_ifs with done
            · refine ⟨run.trans within (.rest (.inr ?_)), after⟩
              rw [Bool.or_eq_true] at done
              exact done.imp_right Or.inl
            · rw [Bool.or_eq_true, not_or, Option.not_isSome_iff_eq_none,
                Option.not_isSome_iff_eq_none] at done
              obtain ⟨rfl, fault⟩ := done
              have forward := going_now going early (by rw [segment]) (by rw [segment]; exact fault)
              rw [segment] at forward
              obtain ⟨run', after'⟩ := ih (after rfl fault) (by dsimp only at forward; omega)
              exact ⟨run.trans within run', after'⟩
      · rw [if_pos late]
        exact ⟨.rest (.inl late), fun _ _ => going⟩

/-- No stop is pending in a machine that runs its Z80, and its boundary state is one that the
runtime leaves. -/
def Consistent (program : Program CodeView) (board : Board D) (m : Machine D) : Prop :=
  m.soundFault = none → m.runnable = true → Going program board m

theorem Consistent.runTo (consistent : Consistent program board m) (target : ℕ) :
    Runs (line program board) target (m.settle, none)
        ((runTo program board m target).1.settle, (runTo program board m target).2) ∧
      ((runTo program board m target).2 = none → Consistent program board (runTo program board m target).1) := by
  rw [Z80Machine.runTo]
  split_ifs with held
  · refine ⟨.rest (.inr ?_), fun _ => consistent⟩
    rw [Bool.or_eq_true, Bool.not_eq_true'] at held
    exact .inr held
  · rw [Bool.or_eq_true, not_or, Option.not_isSome_iff_eq_none, Bool.not_eq_true',
      Bool.not_eq_false] at held
    obtain ⟨run, after⟩ := (consistent held.1 held.2).loop (Nat.lt_succ_self _)
    exact ⟨run, fun stop fault _ => after stop fault⟩

/-- Calls with one target after the other, until one stops. -/
def resume (program : Program CodeView) (board : Board D) (target : ℕ)
    (x : Machine D × Option RuntimeStop) : Machine D × Option RuntimeStop :=
  match x.2 with
  | some _ => x
  | none => runTo program board x.1 target

def runTargets (program : Program CodeView) (board : Board D) (targets : List ℕ) (m : Machine D) :
    Machine D × Option RuntimeStop :=
  Lib.Slicing.advanceAll (resume program board) targets (m, none)

def settled (x : Machine D × Option RuntimeStop) : Machine D × Option RuntimeStop := (x.1.settle, x.2)

theorem resume_runs {x : Machine D × Option RuntimeStop}
    (h : x.2 = none → Consistent program board x.1) (target : ℕ) :
    Runs (line program board) target (settled x) (settled (resume program board target x)) ∧
      ((resume program board target x).2 = none →
        Consistent program board (resume program board target x).1) := by
  obtain ⟨m, stop⟩ := x
  cases stop with
  | some stop => exact ⟨.rest (.inr (.inl rfl)), fun none => absurd none (by simp [resume])⟩
  | none => exact (h rfl).runTo target

/-! ## INT at instruction starts -/

/-- The VBlank onset line is line 224 of the 262 of a frame. -/
def inOnsetLine (masterTicks : ℕ) : Prop := masterTicks / masterTicksPerLine % 262 = 224

theorem intLevelAt_onset (t : ℕ) : intLevelAt t = true ↔ inOnsetLine t := by
  rw [intLevelAt_iff, inOnsetLine, masterTicksPerLine]
  omega

/-- Every instruction observed since `m` saw INT asserted exactly in the onset line. -/
def Sampled (m m' : Machine D) : Prop :=
  m'.cpu.host.cycleBase = m.cpu.host.cycleBase ∧
    ∀ start ∈ m'.cpu.observed, start ∈ m.cpu.observed ∨
      (start.intLine = true ↔ inOnsetLine (m.cpu.host.ticks start.cycles))

theorem afterRun_sampled {m' : Machine D} (h : Sampled m m') : Sampled m m'.afterRun.1 := by
  rw [Machine.afterRun]
  cases m'.cpu.host.viewStop with
  | some fault =>
      dsimp only
      split_ifs <;> exact h
  | none =>
      dsimp only
      cases m'.cpu.outcome with
      | error e => cases e <;> exact h
      | _ => exact h

theorem Sampled.step {m' : Machine D} (h : Sampled m m') :
    Sampled m (machineStep program board m').1 := by
  apply afterRun_sampled
  obtain ⟨base, seen⟩ := h
  obtain ⟨_, _, fixed, _⟩ := (fixed_kept board m'.cpu.host.cycleBase m'.cpu.host.boundOrdinal
    m'.sampled.cpu.state.intLine).unit program _ m'.sampled.cpu ⟨rfl, rfl, rfl⟩
  refine ⟨fixed.trans base, ?_⟩
  rcases z80Unit_observed program (z80Host board) m'.sampled.cpu with same | more
  · rw [show ({ m'.sampled with cpu := z80Unit program (z80Host board) m'.sampled.cpu } : Machine D).cpu.observed =
      m'.cpu.observed from same]
    exact seen
  · rw [show ({ m'.sampled with cpu := z80Unit program (z80Host board) m'.sampled.cpu } : Machine D).cpu.observed =
      m'.cpu.observed ++ [⟨m'.cpu.state.pc, m'.cpu.state.cycles, intLevelAt m'.masterTicks⟩] from more]
    intro start member
    rcases List.mem_append.mp member with old | new
    · exact seen start old
    · rw [List.mem_singleton.mp new, intLevelAt_onset, Machine.masterTicks, View.ticks, View.ticks, base]
      exact .inr Iff.rfl

/-- The scheduler is slice-invariant up to the deadline field, which every run overwrites, and an
instruction sees INT asserted exactly when it starts in the VBlank onset line. -/
theorem runTargets_eq (program : Program CodeView) (board : Board D) {targets : List ℕ} {last : ℕ}
    (ordered : (targets ++ [last]).Pairwise (· ≤ ·)) (m : Machine D)
    (consistent : Consistent program board m) :
    settled (runTargets program board (targets ++ [last]) m) = settled (runTo program board m last) ∧
      Sampled m (runTo program board m last).1 := by
  constructor
  · exact advanceAll_eq
      (I := fun x : Machine D × Option RuntimeStop => x.2 = none → Consistent program board x.1)
      (fun t x h => (resume_runs h t).2) (fun t x h => (resume_runs h t).1) ordered
      (r := (m, none)) (fun _ => consistent)
  · have start : Sampled m m.settle := ⟨rfl, fun start member => .inl member⟩
    exact (consistent.runTo last).1.keeps (I := fun x => Sampled m x.1)
      (fun x h _ _ => h.step) start

theorem reset_consistent (program : Program CodeView) (board : Board D)
    (reset : m.cpu.state = z80Reset) (outcome : m.cpu.outcome = .none)
    (clear : m.cpu.host.viewStop = none) : Consistent program board m := by
  refine fun unfaulted runnable => ⟨⟨fun inside => ?_, fun reject => ?_⟩, ?_, ?_, unfaulted, runnable⟩
  · rw [reset] at inside
    exact absurd inside Bool.false_ne_true
  · rw [reset] at reject
    exact absurd reject Bool.false_ne_true
  · rw [outcome]
    rfl
  · rw [latched, clear]
    rfl

/-- An image of NOPs. -/
def nops : Program CodeView where
  entry code pc := if code.1 = 0 ∨ 0x4000 ≤ pc.toNat then .reject .mutable_code else .instr nop
  lock_next code pc h := by split_ifs at h

def silentBoard : Board Unit where
  ports := ⟨fun d _ _ => (none, d), fun d _ _ _ => (false, d), fun d _ _ => (false, d)⟩

def started : Machine Unit where
  cpu :=
    { state := z80Reset
      host := { z80Ram := fun _ => 0, devices := (), workRam := fun _ => 0, boundOrdinal := 1 } }

theorem runTargets_eq_nops :
    settled (runTargets nops silentBoard ([15] ++ [30]) started) = settled (runTo nops silentBoard started 30) ∧
      Sampled started (runTo nops silentBoard started 30).1 :=
  runTargets_eq nops silentBoard (by decide) started (reset_consistent nops silentBoard rfl rfl rfl)

/-- A stop that is already pending. -/
def pending : Machine Unit :=
  { started with cpu := { started.cpu with
      host := { started.cpu.host with viewStop := some .z80_view_unmapped_access } } }

/-- Halted in the onset line with an NMI rejection left over: no response of the runtime leaves
this state. -/
def rejecting : Machine Unit :=
  { started with cpu := { started.cpu with
      state := { z80Reset with halted := true, iff1 := true, nmiReject := true }
      host := { started.cpu.host with cycleBase := 766080 } } }

/-- The deadline field tells the last target that ran; a stop already pending ends every call
after its first segment; a stale NMI rejection hides INT for one call. -/
theorem slices_visible :
    (runTargets nops silentBoard [15, 30] started).1.cpu.state ≠
        (runTo nops silentBoard started 30).1.cpu.state ∧
      (runTargets nops silentBoard [15, 90] pending).1.cpu.state.cycles ≠
        (runTo nops silentBoard pending 90).1.cpu.state.cycles ∧
      (runTargets nops silentBoard [766140, 766200] rejecting).1.cpu.state.cycles ≠
        (runTo nops silentBoard rejecting 766200).1.cpu.state.cycles := by
  decide

end Segarecomp.Genesis.Z80Machine

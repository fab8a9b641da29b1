import Segarecomp.Z80.OwnerBoundary

/-! HALT and prefix-lock time with the 64-bit counters of the source. It is advanced in closed form, to the first
multiple of four T-states at or past the deadline. -/

namespace Segarecomp.Z80.Runtime

variable {H C : Type} {program : Program C} {host : Z80Host H C} {rt : Z80Runtime H}

/-- The M1 cycles until the deadline, in unsigned 64-bit arithmetic. -/
def idleCount (cycles deadline : ℕ) : ℕ := (deadline + 2 ^ 64 - cycles + 3) % 2 ^ 64 / 4

/-- `z80_lock_run`, and the HALT branch of `z80_boundary`, on the 64-bit cycle counter. -/
def idleAdvance (rt : Z80Runtime H) (moves : Bool) (outcome : Z80Outcome) : Z80Runtime H :=
  let s := rt.state
  let count := idleCount s.cycles s.deadline
  { rt with
    state := { s with
      cycles := (s.cycles + 4 * count) % 2 ^ 64
      r := z80RAdd s.r count
      pc := if moves then s.pc + BitVec.ofNat 16 count else s.pc }
    outcome := outcome }

/-- `z80_run` of a processor that is halted or in a prefix lock. `none` when the run accepts an interrupt, or
has an instruction to execute. -/
def z80IdleRun (program : Program C) (host : Z80Host H C) (rt : Z80Runtime H) (deadline : ℕ) :
    Option (Z80Runtime H) :=
  let rt := rt.until deadline
  let s := rt.state
  if s.deadline ≤ s.cycles then some { rt with outcome := idleOutcome s }
  else if s.inPrefixRun then
    match program.entry (host.code rt.host) s.pc with
    | .lock => some (idleAdvance rt true .prefix_lock)
    | _ => none
  else if s.nmiReject then
    if s.halted then
      some (idleAdvance { rt with state := { s with nmiReject := false, nmiPending := false } } false .halted)
    else none
  else if s.nmiPending then none
  else if s.intLine && s.iff1 && !s.intDeferral then none
  else if s.halted then some (idleAdvance rt false .halted)
  else none

/-- Runs to one deadline after the other. -/
def z80IdleRuns (program : Program C) (host : Z80Host H C) : Z80Runtime H → List ℕ → Option (Z80Runtime H)
  | rt, [] => some rt
  | rt, deadline :: rest => (z80IdleRun program host rt deadline).bind fun rt => z80IdleRuns program host rt rest

/-! ## The count -/

/-- Counts that move the counter, R and the program counter alike. -/
def SameCount (m n : ℕ) : Prop := m % 2 ^ 62 = n % 2 ^ 62

section Count

variable {m n cycles : ℕ}

theorem SameCount.counter (same : SameCount m n) (cycles : ℕ) :
    (cycles + 4 * m) % 2 ^ 64 = (cycles + 4 * n) % 2 ^ 64 := by
  unfold SameCount at same
  omega

theorem SameCount.refresh (same : SameCount m n) (r : Byte) : z80RAdd r m = z80RAdd r n := by
  apply BitVec.eq_of_toNat_eq
  rw [z80RAdd_toNat, z80RAdd_toNat]
  unfold SameCount at same
  omega

theorem SameCount.pc (same : SameCount m n) (pc : Addr) : pc + BitVec.ofNat 16 m = pc + BitVec.ofNat 16 n := by
  have low : BitVec.ofNat 16 m = BitVec.ofNat 16 n := by
    apply BitVec.eq_of_toNat_eq
    rw [BitVec.toNat_ofNat, BitVec.toNat_ofNat]
    unfold SameCount at same
    omega
  rw [low]

/-- The count without the wrap: the M1 cycles that reach the deadline. -/
def fullCount (cycles deadline : ℕ) : ℕ := (deadline - cycles + 3) / 4

theorem idleCount_same {deadline : ℕ} (early : cycles < deadline) :
    SameCount (idleCount cycles deadline) (fullCount cycles deadline) := by
  unfold SameCount idleCount fullCount
  omega

/-- Where a run to an earlier deadline leaves the counter, the later one is as far as it was. -/
theorem fullCount_add {first last : ℕ} (early : cycles < first) (le : first ≤ last) :
    SameCount
      (fullCount cycles first +
        if last ≤ (cycles + 4 * fullCount cycles first) % 2 ^ 64 then 0
        else fullCount ((cycles + 4 * fullCount cycles first) % 2 ^ 64) last)
      (fullCount cycles last) := by
  unfold SameCount
  split
  · rename_i late
    unfold fullCount at late ⊢
    omega
  · rename_i more
    unfold fullCount at more ⊢
    omega

end Count

/-! ## One run -/

/-- What idle time moves. -/
structure IdleClock where
  cycles : ℕ
  r : Byte
  pc : Addr
  deriving DecidableEq, Repr

def Z80Runtime.idleClock (rt : Z80Runtime H) : IdleClock := ⟨rt.state.cycles, rt.state.r, rt.state.pc⟩

/-- The clock after an idle run. -/
def IdleClock.run (clock : IdleClock) (moves : Bool) (deadline : ℕ) : IdleClock :=
  let count := if deadline ≤ clock.cycles then 0 else fullCount clock.cycles deadline
  { cycles := (clock.cycles + 4 * count) % 2 ^ 64
    r := z80RAdd clock.r count
    pc := if moves then clock.pc + BitVec.ofNat 16 count else clock.pc }

theorem IdleClock.run_early {clock : IdleClock} {deadline : ℕ} (moves : Bool) (early : clock.cycles < deadline) :
    clock.run moves deadline =
      { cycles := (clock.cycles + 4 * fullCount clock.cycles deadline) % 2 ^ 64
        r := z80RAdd clock.r (fullCount clock.cycles deadline)
        pc := if moves then clock.pc + BitVec.ofNat 16 (fullCount clock.cycles deadline) else clock.pc } := by
  simp only [IdleClock.run, if_neg (Nat.not_le.mpr early)]

theorem IdleClock.run_late (clock : IdleClock) {deadline : ℕ} (moves : Bool) (width : clock.cycles < 2 ^ 64)
    (late : deadline ≤ clock.cycles) : clock.run moves deadline = clock := by
  have none : clock.pc + BitVec.ofNat 16 0 = clock.pc := BitVec.add_zero _
  simp only [IdleClock.run, if_pos late, Nat.mul_zero, Nat.add_zero, Nat.mod_eq_of_lt width, z80RAdd_zero, none,
    ite_self]

/-- Overshoot past one deadline carries over into the next. -/
theorem IdleClock.run_run (clock : IdleClock) (moves : Bool) {first last : ℕ} (le : first ≤ last)
    (width : clock.cycles < 2 ^ 64) : (clock.run moves first).run moves last = clock.run moves last := by
  rcases Nat.lt_or_ge clock.cycles first with early | late
  · have whole := fullCount_add early le
    generalize first_count : fullCount clock.cycles first = k at whole
    generalize rest : (if last ≤ (clock.cycles + 4 * k) % 2 ^ 64 then 0
      else fullCount ((clock.cycles + 4 * k) % 2 ^ 64) last) = l at whole
    have counter := whole.counter clock.cycles
    have pc := whole.pc clock.pc
    rw [BitVec.ofNat_add, ← BitVec.add_assoc] at pc
    unfold IdleClock.run
    simp only [if_neg (Nat.not_le.mpr early), if_neg (Nat.not_le.mpr (Nat.lt_of_lt_of_le early le)), first_count, rest,
      z80RAdd_add, ← whole.refresh clock.r, ← counter, ← pc]
    congr 1
    · omega
    · cases moves <;> rfl
  · rw [clock.run_late moves width late]

theorem idleAdvance_clock (rt : Z80Runtime H) (moves : Bool) (outcome : Z80Outcome) (early : rt.state.cycles < rt.state.deadline) :
    (idleAdvance rt moves outcome).idleClock = rt.idleClock.run moves rt.state.deadline := by
  have same := idleCount_same early
  have ahead : rt.idleClock.cycles < rt.state.deadline := early
  rw [IdleClock.run_early moves ahead]
  simp only [idleAdvance, Z80Runtime.idleClock, same.counter, same.refresh, same.pc]

/-- The boundary of an idle run drops the NMI edge that came too early. -/
def Z80Runtime.cleared (rt : Z80Runtime H) : Z80Runtime H :=
  { rt with state := { rt.state with nmiReject := false, nmiPending := false } }

/-- What an idle run is: over at once, a prefix lock, or HALT time. -/
inductive IdleStep (program : Program C) (host : Z80Host H C) (rt : Z80Runtime H) (deadline : ℕ) :
    Z80Runtime H → Prop
  | late (reached : deadline ≤ rt.state.cycles) :
      IdleStep program host rt deadline { rt.until deadline with outcome := idleOutcome (rt.until deadline).state }
  | lock (early : rt.state.cycles < deadline) (inside : rt.state.inPrefixRun = true)
      (entry : program.entry (host.code rt.host) rt.state.pc = .lock) :
      IdleStep program host rt deadline (idleAdvance (rt.until deadline) true .prefix_lock)
  | dropped (early : rt.state.cycles < deadline) (outside : rt.state.inPrefixRun = false)
      (reject : rt.state.nmiReject = true) (halted : rt.state.halted = true) :
      IdleStep program host rt deadline (idleAdvance (rt.until deadline).cleared false .halted)
  | halt (early : rt.state.cycles < deadline) (outside : rt.state.inPrefixRun = false)
      (reject : rt.state.nmiReject = false) (none : rt.state.nmiPending = false) (low : intAsserted rt.state = false)
      (halted : rt.state.halted = true) :
      IdleStep program host rt deadline (idleAdvance (rt.until deadline) false .halted)

theorem z80IdleRun_step {deadline : ℕ} {next : Z80Runtime H} (idle : z80IdleRun program host rt deadline = some next) :
    IdleStep program host rt deadline next := by
  simp only [z80IdleRun] at idle
  split at idle
  · rename_i late
    rw [← Option.some.inj idle]
    exact .late late
  · rename_i early
    have before : rt.state.cycles < deadline := Nat.lt_of_not_le early
    split at idle
    · rename_i inside
      split at idle
      · rename_i entry
        rw [← Option.some.inj idle]
        exact .lock before inside entry
      · simp at idle
    · rename_i outside
      have flag : rt.state.inPrefixRun = false := Bool.eq_false_of_not_eq_true outside
      split at idle
      · rename_i reject
        split at idle
        · rename_i halted
          rw [← Option.some.inj idle]
          exact .dropped before flag reject halted
        · simp at idle
      · rename_i accepted
        split at idle
        · simp at idle
        · rename_i none
          split at idle
          · simp at idle
          · rename_i low
            split at idle
            · rename_i halted
              rw [← Option.some.inj idle]
              exact .halt before flag (Bool.eq_false_of_not_eq_true accepted) (Bool.eq_false_of_not_eq_true none)
                (Bool.eq_false_of_not_eq_true low) halted
            · simp at idle

theorem IdleStep.run {deadline : ℕ} {next : Z80Runtime H} (step : IdleStep program host rt deadline next) :
    z80IdleRun program host rt deadline = some next := by
  cases step with
  | late reached => exact if_pos reached
  | lock early inside entry =>
      have ahead : ¬ (rt.until deadline).state.deadline ≤ (rt.until deadline).state.cycles := Nat.not_le.mpr early
      have prefixed : (rt.until deadline).state.inPrefixRun = true := inside
      have locked : program.entry (host.code (rt.until deadline).host) (rt.until deadline).state.pc = .lock := entry
      simp only [z80IdleRun, if_neg ahead, if_pos prefixed, locked]
  | dropped early outside reject halted =>
      have ahead : ¬ (rt.until deadline).state.deadline ≤ (rt.until deadline).state.cycles := Nat.not_le.mpr early
      have free : ¬ (rt.until deadline).state.inPrefixRun = true := by simp [Z80Runtime.until, outside]
      have rejecting : (rt.until deadline).state.nmiReject = true := reject
      have resting : (rt.until deadline).state.halted = true := halted
      simp only [z80IdleRun, if_neg ahead, if_neg free, if_pos rejecting, if_pos resting]
      rfl
  | halt early outside reject none low halted =>
      have ahead : ¬ (rt.until deadline).state.deadline ≤ (rt.until deadline).state.cycles := Nat.not_le.mpr early
      have free : ¬ (rt.until deadline).state.inPrefixRun = true := by simp [Z80Runtime.until, outside]
      have accepting : ¬ (rt.until deadline).state.nmiReject = true := by simp [Z80Runtime.until, reject]
      have edgeless : ¬ (rt.until deadline).state.nmiPending = true := by simp [Z80Runtime.until, none]
      have unasserted : ¬ ((rt.until deadline).state.intLine && (rt.until deadline).state.iff1 &&
          !(rt.until deadline).state.intDeferral) = true := by
        simp only [intAsserted] at low
        simp [Z80Runtime.until, low]
      have resting : (rt.until deadline).state.halted = true := halted
      simp only [z80IdleRun, if_neg ahead, if_neg free, if_neg accepting, if_neg edgeless, if_neg unasserted,
        if_pos resting]

theorem IdleStep.clock {deadline : ℕ} {next : Z80Runtime H} (step : IdleStep program host rt deadline next)
    (width : rt.state.cycles < 2 ^ 64) :
    next.idleClock = rt.idleClock.run rt.state.inPrefixRun deadline := by
  cases step with
  | late reached =>
      have stays := IdleClock.run_late rt.idleClock rt.state.inPrefixRun width reached
      exact stays.symm
  | lock early inside entry =>
      have advance := idleAdvance_clock (rt.until deadline) true .prefix_lock early
      rw [inside]
      exact advance
  | dropped early outside reject halted =>
      have advance := idleAdvance_clock (rt.until deadline).cleared false .halted early
      rw [outside]
      exact advance
  | halt early outside reject none low halted =>
      have advance := idleAdvance_clock (rt.until deadline) false .halted early
      rw [outside]
      exact advance

theorem idleAdvance_inPrefixRun (moves : Bool) (outcome : Z80Outcome) :
    (idleAdvance rt moves outcome).state.inPrefixRun = rt.state.inPrefixRun := by
  simp only [idleAdvance]

theorem IdleStep.inPrefixRun {deadline : ℕ} {next : Z80Runtime H} (step : IdleStep program host rt deadline next) :
    next.state.inPrefixRun = rt.state.inPrefixRun := by
  cases step with
  | late reached => simp only [Z80Runtime.until]
  | lock early inside entry => simp only [idleAdvance_inPrefixRun, Z80Runtime.until]
  | dropped early outside reject halted =>
      simp only [idleAdvance_inPrefixRun, Z80Runtime.cleared, Z80Runtime.until]
  | halt early outside reject none low halted => simp only [idleAdvance_inPrefixRun, Z80Runtime.until]

theorem IdleClock.run_width (clock : IdleClock) (moves : Bool) (deadline : ℕ) :
    (clock.run moves deadline).cycles < 2 ^ 64 :=
  Nat.mod_lt _ (by decide)

theorem IdleStep.later {first last : ℕ} {next : Z80Runtime H} (step : IdleStep program host rt first next)
    (le : first ≤ last) :
    (∃ once, IdleStep program host rt last once) ∨
      z80IdleRun program host next last = z80IdleRun program host rt last := by
  cases step with
  | late reached => exact .inr rfl
  | lock early inside entry => exact .inl ⟨_, .lock (early.trans_le le) inside entry⟩
  | dropped early outside reject halted => exact .inl ⟨_, .dropped (early.trans_le le) outside reject halted⟩
  | halt early outside reject none low halted =>
      exact .inl ⟨_, .halt (early.trans_le le) outside reject none low halted⟩

theorem IdleStep.merge {first last : ℕ} {next after : Z80Runtime H} (step : IdleStep program host rt first next)
    (width : rt.state.cycles < 2 ^ 64) (le : first ≤ last) (more : z80IdleRun program host next last = some after) :
    ∃ once, z80IdleRun program host rt last = some once ∧ once.idleClock = after.idleClock := by
  rcases step.later le with single | same
  · obtain ⟨once, single⟩ := single
    have first_clock := step.clock width
    have next_width : next.state.cycles < 2 ^ 64 := by
      have bound := rt.idleClock.run_width rt.state.inPrefixRun first
      rw [← first_clock] at bound
      exact bound
    have last_clock := (z80IdleRun_step more).clock next_width
    refine ⟨once, single.run, ?_⟩
    calc once.idleClock
        = rt.idleClock.run rt.state.inPrefixRun last := single.clock width
      _ = (rt.idleClock.run rt.state.inPrefixRun first).run rt.state.inPrefixRun last :=
          (rt.idleClock.run_run rt.state.inPrefixRun le width).symm
      _ = next.idleClock.run next.state.inPrefixRun last := by rw [first_clock, step.inPrefixRun]
      _ = after.idleClock := last_clock.symm
  · exact ⟨after, same ▸ more, rfl⟩

/-! ## The dispatcher

Short of the last three cycles the counter can hold, an idle run is the run of `z80Run`. -/

theorem idleCount_exact {cycles deadline : ℕ} (early : cycles < deadline) (room : deadline + 3 < 2 ^ 64) :
    idleCount cycles deadline = (deadline - cycles + 3) / 4 ∧ cycles + 4 * ((deadline - cycles + 3) / 4) < 2 ^ 64 := by
  unfold idleCount
  omega

theorem idleAdvance_lock (early : rt.state.cycles < rt.state.deadline) (room : rt.state.deadline + 3 < 2 ^ 64) :
    idleAdvance rt true .prefix_lock = z80LockRun rt := by
  have exact := idleCount_exact early room
  simp only [idleAdvance, z80LockRun, exact.1, Nat.mod_eq_of_lt exact.2, if_true]

theorem idleAdvance_halt (early : rt.state.cycles < rt.state.deadline) (room : rt.state.deadline + 3 < 2 ^ 64) :
    idleAdvance rt false .halted = z80HaltRun rt := by
  have exact := idleCount_exact early room
  simp only [idleAdvance, z80HaltRun, exact.1, Nat.mod_eq_of_lt exact.2, Bool.false_eq_true, if_false]

theorem IdleStep.turn {deadline : ℕ} {next : Z80Runtime H} (step : IdleStep program host rt deadline next)
    (room : deadline + 3 < 2 ^ 64) : z80Turn program host (rt.until deadline) = (next, false) := by
  cases step with
  | late reached =>
      have boundary : z80Boundary host (rt.until deadline) = _ := boundary_late reached
      rw [z80Turn, boundary]
  | lock early inside entry =>
      have locked : Locked program host rt := ⟨inside, entry⟩
      have advance : idleAdvance (rt.until deadline) true .prefix_lock = z80LockRun (rt.until deadline) :=
        idleAdvance_lock early room
      rw [locked.turn early, advance]
  | dropped early outside reject halted =>
      have advance : idleAdvance (rt.until deadline).cleared false .halted = z80HaltRun (rt.until deadline).cleared :=
        idleAdvance_halt early room
      rw [z80Turn, boundary_quiet early outside (.inl reject), if_pos halted, advance]
      rfl
  | halt early outside reject none low halted =>
      have halting : Halting rt := ⟨halted, outside, reject, none, low⟩
      have advance : idleAdvance (rt.until deadline) false .halted = z80HaltRun (rt.until deadline) :=
        idleAdvance_halt early room
      rw [halting.turn early, advance]

theorem z80IdleRun_run {deadline : ℕ} {next : Z80Runtime H} (room : deadline + 3 < 2 ^ 64)
    (idle : z80IdleRun program host rt deadline = some next) : z80Run program host rt deadline = next := by
  rw [z80Run, z80Loop, (z80IdleRun_step idle).turn room]

theorem z80IdleRun_run_halted :
    z80Run nopProgram bareHost { state := { halted := true, r := 0xFE }, host := () } 14 =
      { state := { halted := true, r := 0x82, cycles := 16, deadline := 14 }, host := (), outcome := .halted } :=
  z80IdleRun_run (by decide) (by decide)

/-! ## Any slicing -/

/-- Running to each of the deadlines in turn leaves the cycle count, R and the program counter where one run to
the last deadline does. -/
theorem idle_time_sliced (program : Program C) (host : Z80Host H C) (rt next : Z80Runtime H) (deadlines : List ℕ)
    (last : ℕ) (width : rt.state.cycles < 2 ^ 64) (ordered : (deadlines ++ [last]).Pairwise (· ≤ ·))
    (idle : z80IdleRuns program host rt (deadlines ++ [last]) = some next) :
    ∃ once, z80IdleRun program host rt last = some once ∧
      once.state.cycles = next.state.cycles ∧ once.state.r = next.state.r ∧ once.state.pc = next.state.pc := by
  have whole : ∃ once, z80IdleRun program host rt last = some once ∧ once.idleClock = next.idleClock := by
    induction deadlines generalizing rt with
    | nil =>
        obtain ⟨once, single, rest⟩ := Option.bind_eq_some_iff.mp idle
        exact ⟨once, single, congrArg Z80Runtime.idleClock (Option.some.inj rest)⟩
    | cons deadline deadlines ih =>
        obtain ⟨middle, single, rest⟩ := Option.bind_eq_some_iff.mp idle
        have step := z80IdleRun_step single
        have le : deadline ≤ last := List.rel_of_pairwise_cons ordered (List.mem_append_right _ (List.mem_singleton_self _))
        have middle_width : middle.state.cycles < 2 ^ 64 := by
          have bound := rt.idleClock.run_width rt.state.inPrefixRun deadline
          rw [← step.clock width] at bound
          exact bound
        obtain ⟨once, more, same⟩ := ih middle middle_width ordered.of_cons rest
        obtain ⟨all, run, alike⟩ := step.merge width le more
        exact ⟨all, run, alike.trans same⟩
  obtain ⟨once, single, same⟩ := whole
  exact ⟨once, single, congrArg IdleClock.cycles same, congrArg IdleClock.r same, congrArg IdleClock.pc same⟩

/-- Deadlines at 5, 9 and 14: HALT time ends at 16. -/
theorem idle_time_three :
    ∃ once, z80IdleRun nopProgram bareHost { state := { halted := true, r := 0xFE }, host := () } 14 = some once ∧
      once.state.cycles = 16 ∧ once.state.r = 0x82 ∧ once.state.pc = 0 :=
  idle_time_sliced nopProgram bareHost { state := { halted := true, r := 0xFE }, host := () }
    { state := { halted := true, r := 0x82, cycles := 16, deadline := 14 }, host := (), outcome := .halted } [5, 9] 14
    (by decide) (by decide) (by decide)

end Segarecomp.Z80.Runtime

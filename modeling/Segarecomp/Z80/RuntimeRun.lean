import Mathlib.Tactic
import Segarecomp.Lib.RunUntil
import Segarecomp.Z80.Runtime

/-! `z80_run` as a run of single steps: one instruction, one interrupt response, one halted M1
cycle or one prefix of a lock at a time, none of which looks at the deadline. -/

namespace Segarecomp.Z80.Runtime

open Lib.RunUntil

variable {H C α : Type} {program : Program C} {host : Z80Host H C} {latched : H → Bool}
  {rt : Z80Runtime H} {d e : ℕ}

/-! ## Refresh counting -/

theorem and_128 : ∀ r : Byte, (r &&& 0x80).toNat = 2 ^ 7 * (r.toNat / 128) := by decide

theorem z80RAdd_toNat (r : Byte) (count : ℕ) :
    (z80RAdd r count).toNat = r.toNat / 128 * 128 + (r.toNat + count) % 128 := by
  have low : ((r + BitVec.ofNat 8 count) &&& 0x7F).toNat = (r.toNat + count) % 128 := by
    rw [BitVec.toNat_and, BitVec.toNat_add, BitVec.toNat_ofNat]
    have mask : (0x7F : Byte).toNat = 2 ^ 7 - 1 := rfl
    rw [mask, Nat.and_two_pow_sub_one_eq_mod]
    omega
  rw [z80RAdd, BitVec.toNat_or, and_128, low, ← Nat.two_pow_add_eq_or_of_lt (by omega)]
  omega

theorem z80RAdd_add (r : Byte) (m n : ℕ) : z80RAdd (z80RAdd r m) n = z80RAdd r (m + n) := by
  apply BitVec.eq_of_toNat_eq
  rw [z80RAdd_toNat, z80RAdd_toNat, z80RAdd_toNat]
  omega

theorem z80RAdd_zero (r : Byte) : z80RAdd r 0 = r := by
  apply BitVec.eq_of_toNat_eq
  rw [z80RAdd_toNat]
  omega

/-! ## Bus accesses and the deadline -/

/-- The stop requests of a host are its latched errors: a callback asks for a stop exactly when
it latches one, and a latched error stays. -/
structure Latching (host : Z80Host H C) (latched : H → Bool) : Prop where
  stops : ∀ h cycles request, latched h = false →
    (host.serve h cycles request).stop = latched (host.serve h cycles request).host
  stays : ∀ h cycles request, latched h = true → latched (host.serve h cycles request).host = true

/-- The deadline in force: the one `z80_run` was called with until an error is latched. -/
def Armed (latched : H → Bool) (d : ℕ) (rt : Z80Runtime H) : Prop :=
  rt.state.deadline = if latched rt.host then 0 else d

theorem Armed.apply (latching : Latching host latched) (h : Armed latched d rt)
    (request : Access) :
    Armed latched d ((host.serve rt.host rt.state.cycles request).apply rt) := by
  rw [Armed] at h ⊢
  have stops := latching.stops rt.host rt.state.cycles request
  have stays := latching.stays rt.host rt.state.cycles request
  cases was : latched rt.host with
  | true =>
      simp only [was, if_true] at h
      simp [Reply.apply, stays was, h]
  | false =>
      simp only [was, Bool.false_eq_true, if_false] at h
      simp only [Reply.apply, stops was, h]

theorem Armed.run (latching : Latching host latched) (b : Bus α) (h : Armed latched d rt) :
    Armed latched d (b.run host rt).2 := by
  induction b generalizing rt with
  | done _ => exact h
  | access request next ih => exact ih _ (h.apply latching request)

variable (host) in
theorem Bus.run_until (b : Bus α) (rt : Z80Runtime H) (d : ℕ) :
    ∃ e, b.run host (rt.until d) = ((b.run host rt).1, (b.run host rt).2.until e) := by
  induction b generalizing rt d with
  | done _ => exact ⟨d, rfl⟩
  | access request next ih => exact ih _ ((host.serve rt.host rt.state.cycles request).apply rt) _

/-- What bus accesses leave alone. -/
structure Framed (before after : Z80Runtime H) : Prop where
  core : after.state.toCore = before.state.toCore
  prefix_run : after.state.inPrefixRun = before.state.inPrefixRun
  reject : after.state.nmiReject = before.state.nmiReject
  outcome : after.outcome = before.outcome
  observed : after.observed = before.observed
  cycles : before.state.cycles ≤ after.state.cycles

variable (host) in
theorem Bus.run_framed (b : Bus α) (rt : Z80Runtime H) : Framed rt (b.run host rt).2 := by
  induction b generalizing rt with
  | done _ => exact ⟨rfl, rfl, rfl, rfl, rfl, le_rfl⟩
  | access request next ih =>
      let reply := host.serve rt.host rt.state.cycles request
      have step := ih reply.value (reply.apply rt)
      refine ⟨step.core, step.prefix_run, step.reject, step.outcome, step.observed, ?_⟩
      exact le_trans (Nat.le_add_right _ _) step.cycles

variable (host) in
theorem perform_until (body : Instruction) (rt : Z80Runtime H) (d : ℕ) :
    ∃ e, perform host (rt.until d) body = (perform host rt body).until e := by
  obtain ⟨e, h⟩ := Bus.run_until host (body rt.state.toCore) rt d
  refine ⟨e, ?_⟩
  have same : (rt.until d).state.toCore = rt.state.toCore := rfl
  rw [perform, same, h]
  rfl

theorem perform_armed (latching : Latching host latched) (body : Instruction)
    (h : Armed latched d rt) : Armed latched d (perform host rt body) :=
  h.run latching (body rt.state.toCore)

theorem perform_cycles (body : Instruction) (rt : Z80Runtime H) :
    rt.state.cycles < (perform host rt body).state.cycles := by
  have framed := Bus.run_framed host (body rt.state.toCore) rt
  have positive := ((body rt.state.toCore).run host rt).1.2.2
  calc
    rt.state.cycles ≤ ((body rt.state.toCore).run host rt).2.state.cycles := framed.cycles
    _ < (perform host rt body).state.cycles := Nat.lt_add_of_pos_right positive

/-! ## The boundary -/

/-- What every state from reset on satisfies: inside a prefix run the program counter is in a
lock, and an NMI response just started leaves the processor awake with IFF1 clear. -/
structure Ready (program : Program C) (host : Z80Host H C) (rt : Z80Runtime H) : Prop where
  lock : rt.state.inPrefixRun = true → program.entry (host.code rt.host) rt.state.pc = .lock
  reject : rt.state.nmiReject = true → rt.state.halted = false ∧ rt.state.iff1 = false

def intAsserted (s : Z80State) : Bool := s.intLine && s.iff1 && !s.intDeferral

/-- The state a boundary passes on when it takes no interrupt: an NMI edge that came too early
is dropped. -/
def Z80Runtime.passed (rt : Z80Runtime H) : Z80Runtime H :=
  { rt with state := { rt.state with nmiReject := false, nmiPending := false } }

theorem boundary_late (late : rt.state.deadline ≤ rt.state.cycles) :
    z80Boundary host rt = (.leave, { rt with outcome := idleOutcome rt.state }) := by
  rw [z80Boundary, if_pos late]

theorem boundary_prefix (early : rt.state.cycles < d) (inside : rt.state.inPrefixRun = true) :
    z80Boundary host (rt.until d) = (.enter, rt.until d) := by
  simp [z80Boundary, Z80Runtime.until, inside, Nat.not_le.mpr early]

theorem boundary_nmi (early : rt.state.cycles < d) (outside : rt.state.inPrefixRun = false)
    (accepted : rt.state.nmiReject = false) (pending : rt.state.nmiPending = true) :
    z80Boundary host (rt.until d) = (.again, z80AcceptNmi host (rt.until d)) := by
  simp [z80Boundary, Z80Runtime.until, outside, accepted, pending, Nat.not_le.mpr early]

theorem boundary_int (early : rt.state.cycles < d) (outside : rt.state.inPrefixRun = false)
    (accepted : rt.state.nmiReject = false) (quiet : rt.state.nmiPending = false)
    (asserted : intAsserted rt.state = true) :
    z80Boundary host (rt.until d) = z80AcceptInt host (rt.until d) := by
  simp only [intAsserted] at asserted
  simp [z80Boundary, Z80Runtime.until, outside, accepted, quiet, asserted, Nat.not_le.mpr early]

/-- No interrupt is taken at the boundary. -/
def Quiet (s : Z80State) : Prop :=
  s.nmiReject = true ∨ (s.nmiPending = false ∧ intAsserted s = false)

theorem passed_eq (reject : rt.state.nmiReject = false) (none : rt.state.nmiPending = false) :
    rt.passed = rt := by
  cases rt with
  | mk s host outcome =>
      cases s
      simp_all [Z80Runtime.passed]

theorem boundary_quiet (early : rt.state.cycles < d) (outside : rt.state.inPrefixRun = false)
    (quiet : Quiet rt.state) :
    z80Boundary host (rt.until d) =
      if rt.state.halted then (.leave, z80HaltRun (rt.passed.until d))
      else (.enter, rt.passed.until d) := by
  cases reject : rt.state.nmiReject with
  | true =>
      simp [z80Boundary, Z80Runtime.until, Z80Runtime.passed, outside, reject, Nat.not_le.mpr early]
  | false =>
      obtain ⟨none, low⟩ := quiet.resolve_left (by simp [reject])
      have same := passed_eq reject none
      simp only [intAsserted] at low
      simp [same, z80Boundary, Z80Runtime.until, outside, reject, none, low, Nat.not_le.mpr early]

theorem Ready.passed_open (ready : Ready program host rt) (early : rt.state.cycles < d)
    (quiet : Quiet rt.state) : z80OwnerBoundary (rt.passed.until d).state = false := by
  have low : intAsserted rt.state = false := by
    rcases quiet with reject | ⟨_, low⟩
    · simp [intAsserted, (ready.reject reject).2]
    · exact low
  simp only [intAsserted] at low
  simp only [z80OwnerBoundary, Z80Runtime.passed, Z80Runtime.until, low, Bool.or_false]
  exact decide_eq_false (Nat.not_le.mpr early)

/-! ## Single steps -/

/-- The state without the deadline that the next run overwrites. -/
def Z80Runtime.settle (rt : Z80Runtime H) : Z80Runtime H :=
  { rt with
    state := { rt.state with deadline := 0 }
    outcome := if rt.outcome.isError then rt.outcome else idleOutcome rt.state }

def z80Unit (program : Program C) (host : Z80Host H C) (rt : Z80Runtime H) : Z80Runtime H :=
  (z80Turn program host (rt.until (rt.state.cycles + 1))).1.settle

def clock (program : Program C) (host : Z80Host H C) (latched : H → Bool) :
    Clocked (Z80Runtime H) where
  now rt := rt.state.cycles
  stopped rt := rt.outcome.isError = true ∨ latched rt.host = true
  step := z80Unit program host

theorem idleOutcome_isError (s : Z80State) : (idleOutcome s).isError = false := by
  rw [idleOutcome]
  split_ifs <;> rfl

theorem settle_isError (rt : Z80Runtime H) : rt.settle.outcome.isError = rt.outcome.isError := by
  cases h : rt.outcome.isError with
  | true => simp [Z80Runtime.settle, h]
  | false => simp [Z80Runtime.settle, h, idleOutcome_isError]

theorem settle_until (rt : Z80Runtime H) (d : ℕ) : rt.settle.until d = rt.until d := rfl

theorem settle_outcome (h : rt.outcome.isError = true ∨ rt.outcome = idleOutcome rt.state) :
    rt.settle.outcome = rt.outcome := by
  rw [Z80Runtime.settle]
  dsimp only
  split_ifs with failed
  · rfl
  · exact (h.resolve_left failed).symm

theorem z80Unit_settle (rt : Z80Runtime H) :
    z80Unit program host rt.settle = z80Unit program host rt := rfl

theorem until_settle (d : ℕ) (healthy : rt.outcome.isError = false) : (rt.until d).settle = rt.settle := by
  rw [Z80Runtime.settle, Z80Runtime.settle, healthy]
  rfl

variable (program host rt) in
theorem settle_early (healthy : rt.outcome.isError = false) (awake : latched rt.host = false)
    (early : rt.state.cycles < d) :
    (clock program host latched).now rt.settle < d ∧
      ¬ (clock program host latched).stopped rt.settle := by
  refine ⟨early, ?_⟩
  rintro (failed | stopped)
  · rw [settle_isError, healthy] at failed
    exact Bool.false_ne_true failed
  · exact Bool.false_ne_true (awake.symm.trans stopped)

/-! ## Halted time -/

def Z80Runtime.haltFor (rt : Z80Runtime H) (count : ℕ) : Z80Runtime H :=
  { rt with state := { rt.state with
      cycles := rt.state.cycles + 4 * count, r := z80RAdd rt.state.r count } }

/-- Nothing but HALT time passes at the boundary. -/
structure Halting (rt : Z80Runtime H) : Prop where
  halted : rt.state.halted = true
  outside : rt.state.inPrefixRun = false
  reject : rt.state.nmiReject = false
  none : rt.state.nmiPending = false
  low : intAsserted rt.state = false

theorem Halting.haltFor (halting : Halting rt) (count : ℕ) : Halting (rt.haltFor count) :=
  ⟨halting.halted, halting.outside, halting.reject, halting.none, halting.low⟩

theorem Halting.turn (halting : Halting rt) (early : rt.state.cycles < d) :
    z80Turn program host (rt.until d) = (z80HaltRun (rt.until d), false) := by
  rw [z80Turn, boundary_quiet early halting.outside (.inr ⟨halting.none, halting.low⟩),
    if_pos halting.halted, passed_eq halting.reject halting.none]

theorem Halting.haltRun (halting : Halting rt) (healthy : rt.outcome.isError = false) :
    (z80HaltRun (rt.until d)).settle = (rt.haltFor ((d - rt.state.cycles + 3) / 4)).settle := by
  have idle : idleOutcome (rt.haltFor ((d - rt.state.cycles + 3) / 4)).state = .halted := by
    simp [idleOutcome, Z80Runtime.haltFor, halting.halted, halting.outside]
  have same : (rt.haltFor ((d - rt.state.cycles + 3) / 4)).outcome.isError = false := healthy
  rw [Z80Runtime.settle, Z80Runtime.settle, same, idle]
  simp [z80HaltRun, Z80Runtime.until, Z80Runtime.haltFor, Z80Outcome.isError, idleOutcome,
    halting.halted, halting.outside]

theorem haltFor_add (rt : Z80Runtime H) (m n : ℕ) :
    (rt.haltFor m).haltFor n = rt.haltFor (m + n) := by
  simp only [Z80Runtime.haltFor, z80RAdd_add]
  congr 2
  omega

theorem Halting.unit (halting : Halting rt) (healthy : rt.outcome.isError = false) :
    z80Unit program host rt = (rt.haltFor 1).settle := by
  rw [z80Unit, halting.turn (Nat.lt_succ_self _), halting.haltRun healthy]
  congr 2
  omega

variable (program host) in
theorem Halting.units (halting : Halting rt) (healthy : rt.outcome.isError = false) (k : ℕ) :
    (z80Unit program host)^[k] rt.settle = (rt.haltFor k).settle := by
  induction k with
  | zero =>
      have none : rt.haltFor 0 = rt := by
        simp [Z80Runtime.haltFor, z80RAdd_zero]
      rw [none]
      rfl
  | succ k ih =>
      rw [Function.iterate_succ_apply', ih, z80Unit_settle, (halting.haltFor k).unit healthy,
        haltFor_add]

theorem Halting.runs (halting : Halting rt) (healthy : rt.outcome.isError = false)
    (awake : latched rt.host = false) :
    Runs (clock program host latched) d rt.settle (z80HaltRun (rt.until d)).settle := by
  rw [halting.haltRun healthy]
  have units := halting.units program host healthy
  refine Runs.iterate (n := (d - rt.state.cycles + 3) / 4) (fun k hk => ?_) ?_
  · have early : (rt.haltFor k).state.cycles < d := by
      simp only [Z80Runtime.haltFor]
      omega
    have step := settle_early program host (rt.haltFor k) healthy awake early
    rwa [← units k] at step
  · have last := units ((d - rt.state.cycles + 3) / 4)
    rw [← last]
    refine .rest (.inl ?_)
    change d ≤ ((z80Unit program host)^[_] rt.settle).state.cycles
    rw [last]
    simp only [Z80Runtime.settle, Z80Runtime.haltFor]
    omega

/-! ## Prefix locks -/

def Z80Runtime.lockFor (rt : Z80Runtime H) (count : ℕ) : Z80Runtime H :=
  { rt with state := { rt.state with
      cycles := rt.state.cycles + 4 * count
      r := z80RAdd rt.state.r count
      pc := rt.state.pc + BitVec.ofNat 16 count } }

structure Locked (program : Program C) (host : Z80Host H C) (rt : Z80Runtime H) : Prop where
  inside : rt.state.inPrefixRun = true
  lock : program.entry (host.code rt.host) rt.state.pc = .lock

theorem lockFor_add (rt : Z80Runtime H) (m n : ℕ) :
    (rt.lockFor m).lockFor n = rt.lockFor (m + n) := by
  have pc : rt.state.pc + BitVec.ofNat 16 m + BitVec.ofNat 16 n =
      rt.state.pc + BitVec.ofNat 16 (m + n) := by
    rw [BitVec.add_assoc, BitVec.ofNat_add]
  simp only [Z80Runtime.lockFor, z80RAdd_add, pc]
  congr 2
  omega

theorem lockFor_zero (rt : Z80Runtime H) : rt.lockFor 0 = rt := by
  have pc : rt.state.pc + BitVec.ofNat 16 0 = rt.state.pc := BitVec.add_zero _
  simp only [Z80Runtime.lockFor, z80RAdd_zero, pc, Nat.mul_zero, Nat.add_zero]

theorem Locked.lockFor (locked : Locked program host rt) (count : ℕ) :
    Locked program host (rt.lockFor count) := by
  induction count with
  | zero =>
      rw [lockFor_zero]
      exact locked
  | succ count ih =>
      rw [← lockFor_add]
      exact ⟨ih.inside, program.lock_next _ _ ih.lock⟩

theorem Locked.turn (locked : Locked program host rt) (early : rt.state.cycles < d) :
    z80Turn program host (rt.until d) = (z80LockRun (rt.until d), false) := by
  have entry : program.entry (host.code (rt.until d).host) (rt.until d).state.pc = .lock :=
    locked.lock
  have inside : (rt.until d).state.inPrefixRun = true := locked.inside
  have before : (rt.until d).state.cycles < (rt.until d).state.deadline := early
  rw [z80Turn, boundary_prefix early locked.inside]
  simp only [z80Dispatch, entry, z80LockEnter, inside, before, if_true]
  rfl

theorem Locked.lockRun (locked : Locked program host rt) (healthy : rt.outcome.isError = false) :
    (z80LockRun (rt.until d)).settle = (rt.lockFor ((d - rt.state.cycles + 3) / 4)).settle := by
  have same : (rt.lockFor ((d - rt.state.cycles + 3) / 4)).outcome.isError = false := healthy
  rw [Z80Runtime.settle, Z80Runtime.settle, same]
  simp [z80LockRun, Z80Runtime.until, Z80Runtime.lockFor, Z80Outcome.isError, idleOutcome,
    locked.inside]

theorem Locked.unit (locked : Locked program host rt) (healthy : rt.outcome.isError = false) :
    z80Unit program host rt = (rt.lockFor 1).settle := by
  rw [z80Unit, locked.turn (Nat.lt_succ_self _), locked.lockRun healthy]
  congr 2
  omega

theorem Locked.units (locked : Locked program host rt) (healthy : rt.outcome.isError = false)
    (k : ℕ) : (z80Unit program host)^[k] rt.settle = (rt.lockFor k).settle := by
  induction k with
  | zero =>
      rw [lockFor_zero]
      rfl
  | succ k ih =>
      rw [Function.iterate_succ_apply', ih, z80Unit_settle, (locked.lockFor k).unit healthy,
        lockFor_add]

theorem Locked.runs (locked : Locked program host rt) (healthy : rt.outcome.isError = false)
    (awake : latched rt.host = false) :
    Runs (clock program host latched) d rt.settle (z80LockRun (rt.until d)).settle := by
  rw [locked.lockRun healthy]
  have units := locked.units healthy
  refine Runs.iterate (n := (d - rt.state.cycles + 3) / 4) (fun k hk => ?_) ?_
  · have early : (rt.lockFor k).state.cycles < d := by
      simp only [Z80Runtime.lockFor]
      omega
    have step := settle_early program host (rt.lockFor k) healthy awake early
    rwa [← units k] at step
  · have last := units ((d - rt.state.cycles + 3) / 4)
    rw [← last]
    refine .rest (.inl ?_)
    change d ≤ ((z80Unit program host)^[_] rt.settle).state.cycles
    rw [last]
    simp only [Z80Runtime.settle, Z80Runtime.lockFor]
    omega

/-- The first prefix of a lock, entered at an ordinary boundary. -/
def Z80Runtime.locking (rt : Z80Runtime H) : Z80Runtime H :=
  let rt := z80OwnerStart rt.passed
  { rt with state := { rt.state with inPrefixRun := true } }

theorem dispatch_quiet (ready : Ready program host rt) (early : rt.state.cycles < d)
    (outside : rt.state.inPrefixRun = false) (quiet : Quiet rt.state) :
    z80Dispatch program host (rt.passed.until d) =
      match program.entry (host.code rt.host) rt.state.pc with
      | .reject e => { rt.passed.until d with outcome := .error e }
      | .stub live e =>
          { (if live then rt.passed.until d else z80OwnerStart (rt.passed.until d)) with
            outcome := .error e }
      | .lock => z80LockRun (rt.locking.until d)
      | .instr body => perform host (z80OwnerStart (rt.passed.until d)) body := by
  have ready_owner := ready.passed_open early quiet
  have inside : (rt.passed.until d).state.inPrefixRun = false := outside
  rw [z80Dispatch]
  change (match program.entry (host.code rt.host) rt.state.pc with
    | .reject e => _
    | .stub live e => _
    | .lock => _
    | .instr body => _) = _
  cases program.entry (host.code rt.host) rt.state.pc with
  | reject e => rfl
  | stub live e => simp only [ready_owner, Bool.false_eq_true, if_false]
  | lock =>
      simp only [z80LockEnter, inside, ready_owner, Bool.false_eq_true, if_false]
      rfl
  | instr body => simp only [ready_owner, Bool.false_eq_true, if_false]

/-! ## Turns -/

/-- What a turn that begins early enough does: it ends the run in bulk time, it fails, or it
takes one step whose result does not depend on the deadline. -/
inductive Turned (program : Program C) (host : Z80Host H C) (latched : H → Bool)
    (rt : Z80Runtime H) : Prop
  | bulk (turn : ∀ d, rt.state.cycles < d → ∃ last, z80Turn program host (rt.until d) = (last, false) ∧
      Ready program host last ∧ last.outcome = idleOutcome last.state ∧ d ≤ last.state.cycles ∧
      Runs (clock program host latched) d rt.settle last.settle)
  | failed (next : Z80Runtime H) (failed : next.outcome.isError = true)
      (turn : ∀ d, rt.state.cycles < d → ∃ last, z80Turn program host (rt.until d) = (last, false) ∧
        last.settle = next.settle)
  | went (next : Z80Runtime H) (healthy : next.outcome = .none) (ready : Ready program host next)
      (later : rt.state.cycles < next.state.cycles)
      (turn : ∀ d, rt.state.cycles < d → ∃ e, z80Turn program host (rt.until d) = (next.until e, true) ∧
        Armed latched d (next.until e))

theorem Halting.turned (halting : Halting rt) (healthy : rt.outcome.isError = false)
    (awake : latched rt.host = false) : Turned program host latched rt := by
  refine .bulk fun d early =>
    ⟨_, halting.turn early, ⟨fun inside => ?_, fun reject => ?_⟩, ?_, ?_, halting.runs healthy awake⟩
  · exact absurd (halting.outside.symm.trans inside) Bool.false_ne_true
  · exact absurd (halting.reject.symm.trans reject) Bool.false_ne_true
  · simp [idleOutcome, z80HaltRun, Z80Runtime.until, halting.outside, halting.halted]
  · change d ≤ rt.state.cycles + 4 * ((d - rt.state.cycles + 3) / 4)
    omega

theorem Locked.lockRun_ready (locked : Locked program host rt) (calm : rt.state.nmiReject = true →
    rt.state.halted = false ∧ rt.state.iff1 = false) (d : ℕ) :
    Ready program host (z80LockRun (rt.until d)) ∧
      (z80LockRun (rt.until d)).outcome = idleOutcome (z80LockRun (rt.until d)).state ∧
      d ≤ (z80LockRun (rt.until d)).state.cycles := by
  refine ⟨⟨fun _ => (locked.lockFor _).lock, calm⟩, ?_, ?_⟩
  · simp [idleOutcome, z80LockRun, Z80Runtime.until, locked.inside]
  · change d ≤ rt.state.cycles + 4 * ((d - rt.state.cycles + 3) / 4)
    omega

theorem Locked.turned (locked : Locked program host rt) (calm : rt.state.nmiReject = true →
    rt.state.halted = false ∧ rt.state.iff1 = false) (healthy : rt.outcome.isError = false)
    (awake : latched rt.host = false) : Turned program host latched rt := by
  refine .bulk fun d early => ?_
  obtain ⟨kept, fine, late⟩ := locked.lockRun_ready calm d
  exact ⟨_, locked.turn early, kept, fine, late, locked.runs healthy awake⟩

variable (rt) in
theorem until_armed (awake : latched rt.host = false) (d : ℕ) : Armed latched d (rt.until d) := by
  rw [Armed]
  change d = if latched rt.host then 0 else d
  rw [awake]
  rfl

theorem locking_turned (ready : Ready program host rt) (healthy : rt.outcome.isError = false)
    (awake : latched rt.host = false) (outside : rt.state.inPrefixRun = false)
    (quiet : Quiet rt.state) (running : rt.state.halted = false)
    (lock : program.entry (host.code rt.host) rt.state.pc = .lock) :
    Turned program host latched rt := by
  have locked : Locked program host rt.locking := ⟨rfl, lock⟩
  have turn : ∀ d, rt.state.cycles < d →
      z80Turn program host (rt.until d) = (z80LockRun (rt.locking.until d), false) := by
    intro d early
    have dispatch := dispatch_quiet ready early outside quiet
    rw [lock] at dispatch
    rw [z80Turn, boundary_quiet early outside quiet, running, if_neg Bool.false_ne_true]
    simp only [dispatch]
    rfl
  refine .bulk fun d early => ?_
  obtain ⟨kept, fine, late⟩ := locked.lockRun_ready (fun reject => absurd reject Bool.false_ne_true) d
  refine ⟨_, turn d early, kept, fine, late, ?_⟩
  have same : z80Unit program host rt = z80Unit program host rt.locking := by
    rw [z80Unit, z80Unit, turn _ (Nat.lt_succ_self _), locked.turn (Nat.lt_succ_self _)]
    rfl
  obtain ⟨before, going⟩ := settle_early program host rt healthy awake early
  obtain ⟨before', going'⟩ :=
    settle_early program host rt.locking healthy awake early
  have run := (locked.runs healthy awake).tail before' going'
  refine .step before going ?_
  change Runs _ d (z80Unit program host rt) _
  rw [same]
  exact run

theorem perform_turned (latching : Latching host latched) (awake : latched rt.host = false)
    {started : Z80Runtime H} (core : started.host = rt.host)
    (cycles : started.state.cycles = rt.state.cycles) {body : Instruction}
    (ready : Ready program host (perform host started body))
    (turn : ∀ d, rt.state.cycles < d →
      z80Turn program host (rt.until d) = (perform host (started.until d) body, true)) :
    Turned program host latched rt := by
  refine .went ((perform host started body).until 0) rfl ⟨ready.lock, ready.reject⟩ ?_ ?_
  · rw [← cycles]
    exact perform_cycles body started
  · intro d early
    obtain ⟨e, same⟩ := perform_until host body started d
    have armed := perform_armed latching body (until_armed started (core ▸ awake) d)
    rw [same] at armed
    exact ⟨e, by rw [turn d early, same]; rfl, armed⟩

theorem perform_reject (body : Instruction) (rt : Z80Runtime H) :
    (perform host rt body).state.nmiReject = rt.state.nmiReject :=
  (Bus.run_framed host (body rt.state.toCore) rt).reject

theorem perform_inPrefix (body : Instruction) (rt : Z80Runtime H) :
    (perform host rt body).state.inPrefixRun = rt.state.inPrefixRun :=
  (Bus.run_framed host (body rt.state.toCore) rt).prefix_run

theorem perform_outcome (body : Instruction) (rt : Z80Runtime H) :
    (perform host rt body).outcome = rt.outcome :=
  (Bus.run_framed host (body rt.state.toCore) rt).outcome

theorem perform_observed (body : Instruction) (rt : Z80Runtime H) :
    (perform host rt body).observed = rt.observed :=
  (Bus.run_framed host (body rt.state.toCore) rt).observed

theorem nmi_turned (latching : Latching host latched) (awake : latched rt.host = false)
    (outside : rt.state.inPrefixRun = false) (accepted : rt.state.nmiReject = false)
    (pending : rt.state.nmiPending = true) : Turned program host latched rt := by
  let started : Z80Runtime H :=
    { rt with state := { rt.state with nmiPending := false, nmiReject := true } }
  have ready : Ready program host (perform host started nmiResponse) := by
    constructor
    · intro inside
      rw [perform_inPrefix] at inside
      exact absurd (outside.symm.trans inside) Bool.false_ne_true
    · intro _
      exact ⟨rfl, rfl⟩
  refine perform_turned latching awake (show started.host = rt.host from rfl) rfl ready fun d early => ?_
  rw [z80Turn, boundary_nmi early outside accepted pending]
  rfl

theorem int_turned (latching : Latching host latched) (awake : latched rt.host = false)
    (outside : rt.state.inPrefixRun = false) (accepted : rt.state.nmiReject = false)
    (quiet : rt.state.nmiPending = false) (asserted : intAsserted rt.state = true) :
    Turned program host latched rt := by
  have framed := Bus.run_framed host (intResponse rt.state.toCore) rt
  have boundary : ∀ d, rt.state.cycles < d → z80Boundary host (rt.until d) = z80AcceptInt host (rt.until d) :=
    fun d early => boundary_int early outside accepted quiet asserted
  cases answer : ((intResponse rt.state.toCore).run host rt).1 with
  | none =>
      refine .failed { ((intResponse rt.state.toCore).run host rt).2 with
        outcome := .error .im0_unsupported_acknowledge_byte } rfl fun d early => ?_
      obtain ⟨e, same⟩ := Bus.run_until host (intResponse rt.state.toCore) rt d
      have core : (rt.until d).state.toCore = rt.state.toCore := rfl
      rw [z80Turn, boundary d early, z80AcceptInt, core, same, answer]
      exact ⟨_, rfl, rfl⟩
  | some result =>
      refine .went ((finish ((intResponse rt.state.toCore).run host rt).2 result).until 0) rfl ?_ ?_ ?_
      · constructor
        · intro inside
          exact absurd ((framed.prefix_run.trans outside).symm.trans inside) Bool.false_ne_true
        · intro reject
          exact absurd ((framed.reject.trans accepted).symm.trans reject) Bool.false_ne_true
      · exact Nat.lt_of_le_of_lt framed.cycles (Nat.lt_add_of_pos_right result.2.2)
      · intro d early
        obtain ⟨e, same⟩ := Bus.run_until host (intResponse rt.state.toCore) rt d
        have armed := (until_armed rt awake d).run latching (intResponse rt.state.toCore)
        have core : (rt.until d).state.toCore = rt.state.toCore := rfl
        rw [same] at armed
        rw [z80Turn, boundary d early, z80AcceptInt, core, same, answer]
        exact ⟨e, rfl, armed⟩

theorem quiet_turned (latching : Latching host latched) (ready : Ready program host rt)
    (healthy : rt.outcome.isError = false) (awake : latched rt.host = false)
    (outside : rt.state.inPrefixRun = false) (quiet : Quiet rt.state)
    (running : rt.state.halted = false) : Turned program host latched rt := by
  have boundary : ∀ d, rt.state.cycles < d →
      z80Boundary host (rt.until d) = (.enter, rt.passed.until d) := by
    intro d early
    rw [boundary_quiet early outside quiet, running, if_neg Bool.false_ne_true]
  have dispatch := fun d (early : rt.state.cycles < d) => dispatch_quiet ready early outside quiet
  cases entry : program.entry (host.code rt.host) rt.state.pc with
  | lock => exact locking_turned ready healthy awake outside quiet running entry
  | reject e =>
      refine .failed { rt.passed with outcome := .error e } rfl fun d early => ?_
      have found := dispatch d early
      rw [entry] at found
      rw [z80Turn, boundary d early]
      simp only [found]
      exact ⟨_, rfl, rfl⟩
  | stub live e =>
      refine .failed { (if live then rt.passed else z80OwnerStart rt.passed) with
        outcome := .error e } rfl fun d early => ?_
      have found := dispatch d early
      rw [entry] at found
      rw [z80Turn, boundary d early]
      simp only [found]
      cases live <;> exact ⟨_, rfl, rfl⟩
  | instr body =>
      let started := z80OwnerStart rt.passed
      have kept : Ready program host (perform host started body) := by
        constructor
        · intro inside
          rw [perform_inPrefix] at inside
          exact absurd (outside.symm.trans inside) Bool.false_ne_true
        · intro reject
          rw [perform_reject] at reject
          exact absurd reject Bool.false_ne_true
      refine perform_turned latching awake (show started.host = rt.host from rfl) rfl kept fun d early => ?_
      have found := dispatch d early
      rw [entry] at found
      have none : (perform host (started.until d) body).outcome = .none := perform_outcome _ _
      rw [z80Turn, boundary d early]
      simp only [found]
      exact Prod.ext rfl (decide_eq_true none)

theorem z80Turned (latching : Latching host latched) (ready : Ready program host rt)
    (healthy : rt.outcome.isError = false) (awake : latched rt.host = false) :
    Turned program host latched rt := by
  cases outside : rt.state.inPrefixRun with
  | true =>
      have locked : Locked program host rt := ⟨outside, ready.lock outside⟩
      exact locked.turned ready.reject healthy awake
  | false =>
      by_cases quiet : Quiet rt.state
      · cases running : rt.state.halted with
        | true =>
            have accepted : rt.state.nmiReject = false := by
              by_contra reject
              have asleep := (ready.reject (Bool.eq_true_of_not_eq_false reject)).1
              exact Bool.false_ne_true (asleep.symm.trans running)
            obtain ⟨none, low⟩ := quiet.resolve_left (by simp [accepted])
            exact Halting.turned ⟨running, outside, accepted, none, low⟩ healthy awake
        | false => exact quiet_turned latching ready healthy awake outside quiet running
      · rw [Quiet, not_or, not_and] at quiet
        obtain ⟨accepted, taken⟩ := quiet
        rw [Bool.not_eq_true] at accepted
        cases pending : rt.state.nmiPending with
        | true => exact nmi_turned latching awake outside accepted pending
        | false =>
            have asserted : intAsserted rt.state = true := by
              simpa using taken pending
            exact int_turned latching awake outside accepted pending asserted

/-- A single step fails, or moves the clock on and keeps the state ready. -/
theorem z80Unit_spec (latching : Latching host latched) (ready : Ready program host rt)
    (healthy : rt.outcome.isError = false) (awake : latched rt.host = false) :
    (z80Unit program host rt).outcome.isError = true ∨
      (Ready program host (z80Unit program host rt) ∧
        (z80Unit program host rt).outcome.isError = false ∧
        rt.state.cycles < (z80Unit program host rt).state.cycles) := by
  have now := Nat.lt_succ_self rt.state.cycles
  cases z80Turned latching ready healthy awake with
  | bulk turn =>
      obtain ⟨last, turned, kept, fine, late, _⟩ := turn _ now
      have unit : z80Unit program host rt = last.settle := by rw [z80Unit, turned]
      rw [unit]
      refine .inr ⟨⟨kept.lock, kept.reject⟩, ?_, late⟩
      rw [settle_isError, fine, idleOutcome_isError]
  | failed next failed turn =>
      obtain ⟨last, turned, settled⟩ := turn _ now
      have unit : z80Unit program host rt = next.settle := by rw [z80Unit, turned, settled]
      rw [unit, settle_isError]
      exact .inl failed
  | went next none kept later turn =>
      obtain ⟨e, turned, _⟩ := turn _ now
      have unit : z80Unit program host rt = (next.until e).settle := by rw [z80Unit, turned]
      rw [unit]
      exact .inr ⟨⟨kept.lock, kept.reject⟩, by rw [settle_isError]; rfl, later⟩

/-! ## Observed instruction starts -/

theorem acceptInt_observed (host : Z80Host H C) (rt : Z80Runtime H) :
    (z80AcceptInt host rt).1 ≠ .enter ∧ (z80AcceptInt host rt).2.observed = rt.observed := by
  have framed := (Bus.run_framed host (intResponse rt.state.toCore) rt).observed
  rw [z80AcceptInt]
  cases answer : (intResponse rt.state.toCore).run host rt with
  | mk result last =>
      rw [answer] at framed
      cases result <;> exact ⟨by simp, framed⟩

theorem boundary_observed (host : Z80Host H C) (rt : Z80Runtime H) :
    (z80Boundary host rt).2.observed = rt.observed ∧
      ((z80Boundary host rt).1 = .enter →
        (z80Boundary host rt).2.state.pc = rt.state.pc ∧
        (z80Boundary host rt).2.state.cycles = rt.state.cycles ∧
        (z80Boundary host rt).2.state.intLine = rt.state.intLine) := by
  rw [z80Boundary]
  dsimp only
  split_ifs
  · exact ⟨rfl, by simp⟩
  · exact ⟨rfl, fun _ => ⟨rfl, rfl, rfl⟩⟩
  · exact ⟨rfl, by simp⟩
  · exact ⟨rfl, fun _ => ⟨rfl, rfl, rfl⟩⟩
  · exact ⟨perform_observed nmiResponse _, by simp⟩
  · obtain ⟨stays, same⟩ := acceptInt_observed host rt
    exact ⟨same, fun enter => absurd enter stays⟩
  · exact ⟨rfl, by simp⟩
  · exact ⟨rfl, fun _ => ⟨rfl, rfl, rfl⟩⟩

theorem dispatch_observed (program : Program C) (host : Z80Host H C) (rt : Z80Runtime H) :
    (z80Dispatch program host rt).observed = rt.observed ∨
      (z80Dispatch program host rt).observed =
        rt.observed ++ [⟨rt.state.pc, rt.state.cycles, rt.state.intLine⟩] := by
  rw [z80Dispatch]
  cases program.entry (host.code rt.host) rt.state.pc with
  | reject e => exact .inl rfl
  | stub live e =>
      dsimp only
      split_ifs
      · exact .inl rfl
      · exact .inl rfl
      · exact .inr rfl
  | lock =>
      dsimp only [z80LockEnter]
      split_ifs
      · exact .inl rfl
      · exact .inl rfl
      · exact .inl rfl
      · exact .inr rfl
  | instr body =>
      dsimp only
      split_ifs
      · exact .inl rfl
      · exact .inr (perform_observed body _)

/-- A single step starts one instruction at most, at the current cycle and INT level. -/
theorem z80Unit_observed (program : Program C) (host : Z80Host H C) (rt : Z80Runtime H) :
    (z80Unit program host rt).observed = rt.observed ∨
      (z80Unit program host rt).observed =
        rt.observed ++ [⟨rt.state.pc, rt.state.cycles, rt.state.intLine⟩] := by
  have boundary := boundary_observed host (rt.until (rt.state.cycles + 1))
  rw [z80Unit, z80Turn]
  cases answer : z80Boundary host (rt.until (rt.state.cycles + 1)) with
  | mk kind last =>
      rw [answer] at boundary
      obtain ⟨same, entered⟩ := boundary
      cases kind with
      | leave => exact .inl same
      | again => exact .inl same
      | enter =>
          obtain ⟨pc, cycles, level⟩ := entered rfl
          have found := dispatch_observed program host last
          rw [pc, cycles, level, same] at found
          exact found

/-! ## What a turn keeps -/

section Keeps

variable {P : H → Bool → ℕ → Prop}

/-- A property of the host, the INT level and the cycle count that every callback keeps. -/
def KeptBy (host : Z80Host H C) (P : H → Bool → ℕ → Prop) : Prop :=
  ∀ h level cycles request, P h level cycles →
    P (host.serve h cycles request).host ((host.serve h cycles request).intLine.getD level)
      (cycles + (host.serve h cycles request).wait)

/-- The property at the time of the last access of a turn. -/
def Held (P : H → Bool → ℕ → Prop) (rt : Z80Runtime H) : Prop :=
  ∃ c ≤ rt.state.cycles, P rt.host rt.state.intLine c

variable (program host rt)

theorem KeptBy.run (kept : KeptBy host P) (b : Bus α)
    (h : P rt.host rt.state.intLine rt.state.cycles) :
    P (b.run host rt).2.host (b.run host rt).2.state.intLine (b.run host rt).2.state.cycles := by
  induction b generalizing rt with
  | done _ => exact h
  | access request next ih => exact ih _ _ (kept _ _ _ request h)

theorem KeptBy.acceptInt (kept : KeptBy host P) (h : P rt.host rt.state.intLine rt.state.cycles) :
    Held P (z80AcceptInt host rt).2 := by
  have after := kept.run host rt (intResponse rt.state.toCore) h
  rw [z80AcceptInt]
  cases answer : (intResponse rt.state.toCore).run host rt with
  | mk result last =>
      rw [answer] at after
      cases result with
      | none => exact ⟨_, le_rfl, after⟩
      | some result => exact ⟨_, Nat.le_add_right _ _, after⟩

theorem KeptBy.perform (kept : KeptBy host P) (body : Instruction)
    (h : P rt.host rt.state.intLine rt.state.cycles) : Held P (perform host rt body) :=
  ⟨_, Nat.le_add_right _ _, kept.run host rt (body rt.state.toCore) h⟩

theorem KeptBy.boundary (kept : KeptBy host P) (h : P rt.host rt.state.intLine rt.state.cycles) :
    Held P (z80Boundary host rt).2 ∧ ((z80Boundary host rt).1 = .enter →
      P (z80Boundary host rt).2.host (z80Boundary host rt).2.state.intLine
        (z80Boundary host rt).2.state.cycles) := by
  rw [z80Boundary]
  dsimp only
  split_ifs
  · exact ⟨⟨_, le_rfl, h⟩, by simp⟩
  · exact ⟨⟨_, le_rfl, h⟩, fun _ => h⟩
  · exact ⟨⟨_, Nat.le_add_right _ _, h⟩, by simp⟩
  · exact ⟨⟨_, le_rfl, h⟩, fun _ => h⟩
  · exact ⟨kept.perform host _ nmiResponse h, by simp⟩
  · exact ⟨kept.acceptInt host rt h, fun enter => absurd enter (acceptInt_observed host rt).1⟩
  · exact ⟨⟨_, Nat.le_add_right _ _, h⟩, by simp⟩
  · exact ⟨⟨_, le_rfl, h⟩, fun _ => h⟩

theorem KeptBy.dispatch (kept : KeptBy host P) (h : P rt.host rt.state.intLine rt.state.cycles) :
    Held P (z80Dispatch program host rt) := by
  have stays : Held P rt := ⟨_, le_rfl, h⟩
  rw [z80Dispatch]
  cases program.entry (host.code rt.host) rt.state.pc with
  | reject e => exact stays
  | stub live e =>
      dsimp only
      split_ifs <;> exact stays
  | lock =>
      dsimp only [z80LockEnter]
      split_ifs
      · exact ⟨_, Nat.le_add_right _ _, h⟩
      · exact stays
      · exact stays
      · exact ⟨_, Nat.le_add_right _ _, h⟩
  | instr body =>
      dsimp only
      split_ifs
      · exact stays
      · exact kept.perform host _ body h

theorem KeptBy.turn (kept : KeptBy host P) (h : P rt.host rt.state.intLine rt.state.cycles) :
    Held P (z80Turn program host rt).1 := by
  obtain ⟨held, enter⟩ := kept.boundary host rt h
  rw [z80Turn]
  cases boundary : z80Boundary host rt with
  | mk answer last =>
      rw [boundary] at held enter
      cases answer
      · exact held
      · exact held
      · exact kept.dispatch program host last (enter rfl)

theorem KeptBy.unit (kept : KeptBy host P) (h : P rt.host rt.state.intLine rt.state.cycles) :
    Held P (z80Unit program host rt) :=
  kept.turn program host (rt.until (rt.state.cycles + 1)) h

end Keeps

/-! ## The whole run -/

theorem z80Loop_runs (latching : Latching host latched) {fuel : ℕ} (ready : Ready program host rt)
    (healthy : rt.outcome = .none) (armed : Armed latched d rt)
    (enough : rt.state.deadline - rt.state.cycles < fuel) :
    Runs (clock program host latched) d rt.settle (z80Loop program host fuel rt).settle ∧
      (z80Loop program host fuel rt).settle.outcome = (z80Loop program host fuel rt).outcome := by
  induction fuel generalizing rt with
  | zero => omega
  | succ fuel ih =>
      have same : rt.until rt.state.deadline = rt := by
        cases rt
        cases healthy
        rfl
      rcases Nat.lt_or_ge rt.state.cycles rt.state.deadline with early | late
      · have awake : latched rt.host = false := by
          by_contra asleep
          rw [Armed, Bool.eq_true_of_not_eq_false asleep, if_pos rfl] at armed
          omega
        have aim : rt.state.deadline = d := by
          rw [Armed, awake] at armed
          exact armed
        have well : rt.outcome.isError = false := by rw [healthy]; rfl
        have going := settle_early program host rt well awake (aim ▸ early)
        have unit : z80Unit program host rt =
            (z80Turn program host (rt.until (rt.state.cycles + 1))).1.settle := rfl
        cases z80Turned latching ready well awake with
        | bulk turn =>
            obtain ⟨last, turned, _, idle, _, run⟩ := turn rt.state.deadline early
            rw [same] at turned
            rw [z80Loop, turned, ← aim]
            exact ⟨run, settle_outcome (.inr idle)⟩
        | failed next failed turn =>
            obtain ⟨last, turned, settled⟩ := turn rt.state.deadline early
            obtain ⟨last', turned', settled'⟩ := turn (rt.state.cycles + 1) (Nat.lt_succ_self _)
            rw [same] at turned
            have failed' : last.outcome.isError = true := by
              rw [← settle_isError, settled, settle_isError, failed]
            rw [z80Loop, turned]
            refine ⟨.step going.1 going.2 ?_, settle_outcome (.inl failed')⟩
            change Runs _ d (z80Unit program host rt) last.settle
            rw [unit, turned', settled', settled]
            refine .rest (.inr (.inl ?_))
            rw [settle_isError]
            exact failed
        | went next none kept later turn =>
            obtain ⟨e, turned, aimed⟩ := turn d (aim ▸ early)
            obtain ⟨e', turned', _⟩ := turn (rt.state.cycles + 1) (Nat.lt_succ_self _)
            have arrived : z80Loop program host (fuel + 1) rt = z80Loop program host fuel (next.until e) := by
              rw [← aim, same] at turned
              rw [z80Loop, turned]
            have settled : z80Unit program host rt = (next.until e).settle := by
              rw [unit, turned']
              rfl
            have bound : e = if latched next.host then 0 else d := aimed
            have short : e ≤ d := by
              rw [bound]
              split_ifs <;> omega
            have left : (next.until e).state.deadline - (next.until e).state.cycles < fuel := by
              change e - next.state.cycles < fuel
              omega
            have kept' : Ready program host (next.until e) := ⟨kept.lock, kept.reject⟩
            obtain ⟨run, outcome⟩ := ih kept' rfl aimed left
            rw [arrived]
            refine ⟨.step going.1 going.2 ?_, outcome⟩
            change Runs _ d (z80Unit program host rt) _
            rw [settled]
            exact run
      · have leave : z80Loop program host (fuel + 1) rt = { rt with outcome := idleOutcome rt.state } := by
          rw [z80Loop, z80Turn, boundary_late late]
        have settled : (z80Loop program host (fuel + 1) rt).settle = rt.settle := by
          rw [leave, Z80Runtime.settle, Z80Runtime.settle, idleOutcome_isError, healthy]
          rfl
        have outcome : (z80Loop program host (fuel + 1) rt).settle.outcome =
            (z80Loop program host (fuel + 1) rt).outcome := by
          rw [leave]
          exact settle_outcome (.inr rfl)
        refine ⟨?_, outcome⟩
        rw [settled]
        refine .rest ?_
        rw [Armed] at armed
        cases asleep : latched rt.host with
        | true => exact .inr (.inr asleep)
        | false =>
            rw [asleep, if_neg Bool.false_ne_true] at armed
            exact .inl (armed ▸ late)

/-- `z80_run` takes exactly the single steps that start before its deadline, up to the first
error or latched stop. -/
theorem z80Run_runs (latching : Latching host latched) (ready : Ready program host rt)
    (healthy : rt.outcome.isError = false) (awake : latched rt.host = false) (d : ℕ) :
    Runs (clock program host latched) d rt.settle (z80Run program host rt d).settle ∧
      (z80Run program host rt d).settle.outcome = (z80Run program host rt d).outcome := by
  have start := until_settle d healthy
  rw [← start, z80Run]
  refine z80Loop_runs latching ⟨ready.lock, ready.reject⟩ rfl (until_armed rt awake d) ?_
  change d - rt.state.cycles < 2 * (d - rt.state.cycles) + 2
  omega

/-! ## Hosts that agree before a deadline -/

section Agree

variable {other : Z80Host H C} {J : H → Prop}

/-- Two hosts answer alike below cycle `d` where `J` holds, which they keep. -/
structure AgreeBelow (host other : Z80Host H C) (J : H → Prop) (d : ℕ) : Prop where
  serve : ∀ h cycles request, J h → cycles < d →
    host.serve h cycles request = other.serve h cycles request
  keeps : ∀ h cycles request, J h → cycles < d → J (other.serve h cycles request).host
  wait : ∀ h cycles request, (other.serve h cycles request).wait = 0
  code : host.code = other.code

/-- A state in which both hosts go on alike. -/
def Alike (J : H → Prop) (d : ℕ) (rt : Z80Runtime H) : Prop := J rt.host ∧ rt.state.deadline ≤ d

theorem AgreeBelow.run (agree : AgreeBelow host other J d) (b : Bus α) (rt : Z80Runtime H)
    (alike : Alike J d rt) (early : rt.state.cycles < d) :
    b.run host rt = b.run other rt ∧ Alike J d (b.run other rt).2 := by
  induction b generalizing rt with
  | done _ => exact ⟨rfl, alike⟩
  | access request next ih =>
      have same := agree.serve rt.host rt.state.cycles request alike.1 early
      have kept := agree.keeps rt.host rt.state.cycles request alike.1 early
      have wait := agree.wait rt.host rt.state.cycles request
      simp only [Bus.run, same]
      refine ih _ _ ⟨kept, ?_⟩ ?_
      · change (if _ then 0 else rt.state.deadline) ≤ d
        split_ifs
        · exact Nat.zero_le _
        · exact alike.2
      · change rt.state.cycles + (other.serve rt.host rt.state.cycles request).wait < d
        rw [wait]
        exact early

theorem AgreeBelow.perform (agree : AgreeBelow host other J d) (body : Instruction)
    (rt : Z80Runtime H) (alike : Alike J d rt) (early : rt.state.cycles < d) :
    perform host rt body = perform other rt body ∧ Alike J d (perform other rt body) := by
  obtain ⟨same, kept⟩ := agree.run (body rt.state.toCore) rt alike early
  exact ⟨by rw [Runtime.perform, same, Runtime.perform], kept⟩

theorem AgreeBelow.acceptInt (agree : AgreeBelow host other J d) (rt : Z80Runtime H)
    (alike : Alike J d rt) (early : rt.state.cycles < d) :
    z80AcceptInt host rt = z80AcceptInt other rt ∧ Alike J d (z80AcceptInt other rt).2 := by
  obtain ⟨same, kept⟩ := agree.run (intResponse rt.state.toCore) rt alike early
  rw [z80AcceptInt, same, z80AcceptInt]
  cases answer : (intResponse rt.state.toCore).run other rt with
  | mk result last =>
      rw [answer] at kept
      cases result <;> exact ⟨rfl, kept⟩

theorem AgreeBelow.boundary (agree : AgreeBelow host other J d) (rt : Z80Runtime H)
    (alike : Alike J d rt) :
    z80Boundary host rt = z80Boundary other rt ∧ Alike J d (z80Boundary other rt).2 ∧
      ((z80Boundary other rt).1 = .enter → (z80Boundary other rt).2.state.cycles < d) := by
  rw [z80Boundary, z80Boundary]
  dsimp only
  split_ifs with late
  · exact ⟨rfl, alike, by simp⟩
  · exact ⟨rfl, alike, fun _ => by have := alike.2; change rt.state.cycles < d; omega⟩
  · exact ⟨rfl, alike, by simp⟩
  · exact ⟨rfl, alike, fun _ => by have := alike.2; change rt.state.cycles < d; omega⟩
  · have early : rt.state.cycles < d := by have := alike.2; omega
    let started : Z80Runtime H :=
      { rt with state := { rt.state with nmiPending := false, nmiReject := true } }
    obtain ⟨same, kept⟩ := agree.perform nmiResponse started alike early
    exact ⟨congrArg _ same, kept, by simp⟩
  · have early : rt.state.cycles < d := by have := alike.2; omega
    obtain ⟨same, kept⟩ := agree.acceptInt rt alike early
    exact ⟨same, kept, fun enter => absurd enter (acceptInt_observed other rt).1⟩
  · exact ⟨rfl, alike, by simp⟩
  · exact ⟨rfl, alike, fun _ => by have := alike.2; change rt.state.cycles < d; omega⟩

variable (program) in
theorem AgreeBelow.dispatch (agree : AgreeBelow host other J d) (rt : Z80Runtime H)
    (alike : Alike J d rt) (early : rt.state.cycles < d) :
    z80Dispatch program host rt = z80Dispatch program other rt ∧
      Alike J d (z80Dispatch program other rt) := by
  rw [z80Dispatch, z80Dispatch, agree.code]
  cases program.entry (other.code rt.host) rt.state.pc with
  | reject e => exact ⟨rfl, alike⟩
  | stub live e =>
      dsimp only
      split_ifs <;> exact ⟨rfl, alike⟩
  | lock =>
      dsimp only [z80LockEnter]
      split_ifs <;> exact ⟨rfl, alike⟩
  | instr body =>
      dsimp only
      split_ifs
      · exact ⟨rfl, alike⟩
      · exact agree.perform body (z80OwnerStart rt) alike early

variable (program) in
theorem AgreeBelow.turn (agree : AgreeBelow host other J d) (rt : Z80Runtime H)
    (alike : Alike J d rt) :
    z80Turn program host rt = z80Turn program other rt ∧
      Alike J d (z80Turn program other rt).1 := by
  obtain ⟨same, kept, early⟩ := agree.boundary rt alike
  rw [z80Turn, z80Turn, same]
  cases answer : z80Boundary other rt with
  | mk kind last =>
      rw [answer] at kept early
      cases kind with
      | leave => exact ⟨rfl, kept⟩
      | again => exact ⟨rfl, kept⟩
      | enter =>
          obtain ⟨same', kept'⟩ := agree.dispatch program last kept (early rfl)
          exact ⟨by simp only [same'], kept'⟩

variable (program) in
theorem AgreeBelow.loop (agree : AgreeBelow host other J d) (fuel : ℕ) (rt : Z80Runtime H)
    (alike : Alike J d rt) :
    z80Loop program host fuel rt = z80Loop program other fuel rt ∧
      Alike J d (z80Loop program other fuel rt) := by
  induction fuel generalizing rt with
  | zero => exact ⟨rfl, alike⟩
  | succ fuel ih =>
      obtain ⟨same, kept⟩ := agree.turn program rt alike
      rw [z80Loop, z80Loop, same]
      cases turned : z80Turn program other rt with
      | mk last go =>
          rw [turned] at kept
          cases go with
          | true => exact ih last kept
          | false => exact ⟨rfl, kept⟩

variable (program) in
theorem AgreeBelow.z80Run (agree : AgreeBelow host other J d) (rt : Z80Runtime H)
    (h : J rt.host) :
    z80Run program host rt d = z80Run program other rt d ∧ J (z80Run program other rt d).host := by
  obtain ⟨same, kept⟩ := agree.loop program (2 * (d - rt.state.cycles) + 2) (rt.until d) ⟨h, le_rfl⟩
  exact ⟨same, kept.1⟩

end Agree

end Segarecomp.Z80.Runtime

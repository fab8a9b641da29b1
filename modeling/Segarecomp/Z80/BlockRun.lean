import Segarecomp.Z80.BlockIteration

/-! A repeating block instruction under any splitting by deadlines: it ends where its single form, iterated, does. -/

namespace Segarecomp.Z80.Runtime

open Lib.RunUntil

variable {H C : Type} {program : Program C} {host : Z80Host H C} {m s : Mnemonic}

/-! ## The iterated single form -/

/-- One run of the single form at `start`. -/
def singleIterate (host : Z80Host H C) (s : Mnemonic) (start : Addr) (rt : Z80Runtime H) : Z80Runtime H :=
  let rt := rt.passed
  perform host (z80OwnerStart { rt with state := { rt.state with pc := start } }) (lowerBlock s 0)

/-- The repeating form against the single one: the same world, and registers alike. -/
structure Follows (s : Mnemonic) (late : ℕ) (x y : Z80Runtime H) : Prop extends Abreast late x y where
  reject : x.state.nmiReject = y.state.nmiReject
  core : Core.Alike (blockMask s) x.state.toCore y.state.toCore

/-- What one run of the repeating form does. -/
structure Repeated (s : Mnemonic) (start : Addr) (late : ℕ) (x x' y y' : Z80Runtime H) : Prop where
  next : y'.state.pc = start + 2
  awake : y'.state.halted = y.state.halted
  left : blockEnds s y'.state.toCore ∨ blockLeft s y'.state.toCore + 1 = blockLeft s y.state.toCore
  ended : blockEnds s y'.state.toCore →
    Follows s late x' y' ∧ x'.state.toCore = { y'.state.toCore with wz := lastWz s x.state.wz y'.state.wz }
  goesOn : ¬ blockEnds s y'.state.toCore →
    Follows s (late + 5) x' y' ∧ x'.state.pc = start ∧ x'.state.wz = start + 1

theorem finish_follows {late more : ℕ} {x y : Z80Runtime H} {repeated once : Core × TStates}
    (abreast : Abreast late x y) (reject : x.state.nmiReject = y.state.nmiReject)
    (alike : Core.Alike (blockMask s) repeated.1 once.1) (time : repeated.2.1 = once.2.1 + more) :
    Follows s (late + more) (finish x repeated) (finish y once) where
  host := abreast.host
  cycles := by
    have cycles := abreast.cycles
    simp only [finish, time]
    omega
  intLine := abreast.intLine
  nmiPending := abreast.nmiPending
  reject := reject
  core := alike

theorem repeated_perform (paired : Paired m s) (steady : Steady host) {start : Addr} {late : ℕ} {x y : Z80Runtime H}
    (follows : Follows s late x y) (pc : x.state.pc = start) :
    Repeated s start late x (perform host (z80OwnerStart x.passed) (lowerBlock m 0)) y
      (singleIterate host s start y) := by
  have before : Abreast late (z80OwnerStart x.passed)
      (z80OwnerStart { y.passed with state := { y.passed.state with pc := start } }) :=
    ⟨follows.host, follows.cycles, follows.intLine, rfl⟩
  have alike : Core.Alike (blockMask s) (z80OwnerStart x.passed).state.toCore
      (z80OwnerStart { y.passed with state := { y.passed.state with pc := start } }).state.toCore := by
    constructor
    · have rest := follows.core.rest
      simp only [z80OwnerStart, z80OwnerBegin, Z80Runtime.passed]
      rw [rest]
    · exact follows.core.flags
  obtain ⟨iteration, after⟩ := (block_alike paired alike pc).run steady before
  have reject : (perform host (z80OwnerStart x.passed) (lowerBlock m 0)).state.nmiReject =
      (singleIterate host s start y).state.nmiReject := by
    have repeated : (perform host (z80OwnerStart x.passed) (lowerBlock m 0)).state.nmiReject = false :=
      perform_reject _ _
    have once : (singleIterate host s start y).state.nmiReject = false := perform_reject (lowerBlock s 0) _
    rw [repeated, once]
  constructor
  · exact iteration.next
  · exact iteration.awake
  · exact iteration.left
  · intro ends
    obtain ⟨time, same⟩ := iteration.ended ends
    constructor
    · change Follows s (late + 0) _ _
      apply finish_follows after reject iteration.alike
      rw [time, iteration.time]
    · exact same
  · intro more
    obtain ⟨time, pc, wz⟩ := iteration.goesOn more
    constructor
    · apply finish_follows after reject iteration.alike
      rw [time, iteration.time]
    · exact ⟨pc, wz⟩

variable (s) in
theorem Follows.quiet {late : ℕ} {x y : Z80Runtime H} (follows : Follows s late x y) (quiet : Quiet y.state) :
    Quiet x.state := by
  have core := follows.core.rest
  have iff1 : x.state.iff1 = y.state.iff1 := by rw [core]
  have deferral : x.state.intDeferral = y.state.intDeferral := by rw [core]
  rcases quiet with reject | ⟨none, low⟩
  · left
    rw [follows.reject, reject]
  · right
    constructor
    · rw [follows.nmiPending, none]
    · simp only [intAsserted] at low ⊢
      rw [follows.intLine, iff1, deferral, low]

/-! ## The run -/

theorem unit_instr {rt : Z80Runtime H} {body : Instruction} (ready : Ready program host rt)
    (healthy : rt.outcome.isError = false) (running : rt.state.halted = false) (quiet : Quiet rt.state)
    (entry : program.entry (host.code rt.host) rt.state.pc = .instr body) :
    z80Unit program host rt = (perform host (z80OwnerStart rt.passed) body).settle := by
  have outside : rt.state.inPrefixRun = false := by
    by_contra inside
    have lock := ready.lock (Bool.eq_true_of_not_eq_false inside)
    rw [entry] at lock
    exact Entry.noConfusion lock
  have now := Nat.lt_succ_self rt.state.cycles
  have dispatch := dispatch_quiet ready now outside quiet
  rw [entry] at dispatch
  obtain ⟨e, same⟩ := perform_until host body (z80OwnerStart rt.passed) (rt.state.cycles + 1)
  have fine : (perform host (z80OwnerStart rt.passed) body).outcome.isError = false := by
    rw [perform_outcome]
    exact healthy
  calc z80Unit program host rt
      = (perform host ((z80OwnerStart rt.passed).until (rt.state.cycles + 1)) body).settle := by
        rw [z80Unit, z80Turn, boundary_quiet now outside quiet, if_neg (by simp [running])]
        simp only [dispatch]
        rfl
    _ = (perform host (z80OwnerStart rt.passed) body).settle := by rw [same, until_settle e fine]

theorem settle_settle (rt : Z80Runtime H) : rt.settle.settle = rt.settle := by
  have error := settle_isError rt
  cases failed : rt.outcome.isError with
  | true =>
      rw [failed] at error
      simp only [Z80Runtime.settle, failed, if_true]
  | false =>
      rw [failed] at error
      simp only [Z80Runtime.settle, failed, Bool.false_eq_true, if_false, idleOutcome_isError]
      rfl

/-- A runtime between units. -/
structure Resting (program : Program C) (host : Z80Host H C) (rt : Z80Runtime H) : Prop where
  ready : Ready program host rt
  healthy : rt.outcome.isError = false
  settled : rt.settle = rt

/-- The repeating form after `k` iterations of which none was the last. -/
structure Underway (program : Program C) (host : Z80Host H C) (s : Mnemonic) (start wz : Addr) (k : ℕ)
    (x y : Z80Runtime H) : Prop extends Resting program host x where
  follows : Follows s (5 * k) x y
  pc : x.state.pc = start
  memptr : x.state.wz = if k = 0 then wz else start + 1
  running : y.state.halted = false

theorem Follows.settle {late : ℕ} {x y : Z80Runtime H} (follows : Follows s late x y) : Follows s late x.settle y :=
  ⟨⟨follows.host, follows.cycles, follows.intLine, follows.nmiPending⟩, follows.reject, follows.core⟩

theorem Repeated.settle {start : Addr} {late : ℕ} {x x' y y' : Z80Runtime H}
    (repeated : Repeated s start late x x' y y') : Repeated s start late x x'.settle y y' where
  next := repeated.next
  awake := repeated.awake
  left := repeated.left
  ended ends := ⟨(repeated.ended ends).1.settle, (repeated.ended ends).2⟩
  goesOn more := ⟨(repeated.goesOn more).1.settle, (repeated.goesOn more).2⟩

variable {start wz : Addr} {k n : ℕ} {x y : Z80Runtime H}

theorem Underway.unit (paired : Paired m s) (steady : Steady host) (underway : Underway program host s start wz k x y)
    (quiet : Quiet y.state) (entry : program.entry (host.code y.host) start = .instr (lowerBlock m 0)) :
    Repeated s start (5 * k) x (z80Unit program host x) y (singleIterate host s start y) ∧
      Resting program host (z80Unit program host x) ∧ x.state.cycles < (z80Unit program host x).state.cycles := by
  have here : program.entry (host.code x.host) x.state.pc = .instr (lowerBlock m 0) := by
    rw [underway.follows.host, underway.pc]
    exact entry
  have running : x.state.halted = false := by
    rw [underway.follows.core.rest]
    exact underway.running
  have unit := unit_instr underway.ready underway.healthy running (underway.follows.quiet s quiet) here
  have fine : (z80Unit program host x).outcome.isError = false := by
    rw [unit, settle_isError, perform_outcome]
    exact underway.healthy
  have spec := z80Unit_spec steady.latching underway.ready underway.healthy rfl
  constructor
  · rw [unit]
    exact (repeated_perform paired steady underway.follows underway.pc).settle
  · rcases spec with failed | spec
    · rw [fine] at failed
      exact absurd failed Bool.false_ne_true
    · obtain ⟨ready, _, later⟩ := spec
      constructor
      · constructor
        · exact ready
        · exact fine
        · rw [unit, settle_settle]
      · exact later

theorem Underway.next (paired : Paired m s) (steady : Steady host) (underway : Underway program host s start wz k x y)
    (quiet : Quiet y.state) (entry : program.entry (host.code y.host) start = .instr (lowerBlock m 0))
    (more : ¬ blockEnds s (singleIterate host s start y).state.toCore) :
    Underway program host s start wz (k + 1) (z80Unit program host x) (singleIterate host s start y) := by
  obtain ⟨repeated, resting, _⟩ := underway.unit paired steady quiet entry
  obtain ⟨follows, pc, memptr⟩ := repeated.goesOn more
  constructor
  · exact resting
  · exact follows
  · exact pc
  · rw [if_neg (Nat.succ_ne_zero k)]
    exact memptr
  · exact repeated.awake.trans underway.running

/-! ## The count -/

theorem blockLeft_pos (s : Mnemonic) (t : Core) : 0 < blockLeft s t := by
  unfold blockLeft
  split
  · split
    · decide
    · rename_i some
      apply Nat.pos_of_ne_zero
      intro zero
      exact some (BitVec.eq_of_toNat_eq (zero.trans BitVec.toNat_zero.symm))
  · split
    · decide
    · rename_i some
      apply Nat.pos_of_ne_zero
      intro zero
      exact some (BitVec.eq_of_toNat_eq (zero.trans BitVec.toNat_zero.symm))

theorem blockLeft_le (s : Mnemonic) (t : Core) : blockLeft s t ≤ 65536 := by
  have pair := t.bc.isLt
  have byte := t.b.isLt
  unfold blockLeft
  split <;> split <;> omega

/-- The iterations of the single form. -/
def singles (host : Z80Host H C) (s : Mnemonic) (rt : Z80Runtime H) (k : ℕ) : Z80Runtime H :=
  (singleIterate host s rt.state.pc)^[k] rt

theorem singles_succ (rt : Z80Runtime H) (k : ℕ) :
    singles host s rt (k + 1) = singleIterate host s rt.state.pc (singles host s rt k) :=
  Function.iterate_succ_apply' _ _ _

theorem singleIterate_left (paired : Paired m s) (steady : Steady host) (start : Addr) (y : Z80Runtime H) :
    blockEnds s (singleIterate host s start y).state.toCore ∨
      blockLeft s (singleIterate host s start y).state.toCore + 1 = blockLeft s y.state.toCore := by
  have self : Follows s 0 { y with state := { y.state with pc := start } } y :=
    ⟨⟨rfl, rfl, rfl, rfl⟩, rfl, ⟨rfl, rfl⟩⟩
  exact (repeated_perform paired steady self rfl).left

theorem singles_left (paired : Paired m s) (steady : Steady host) (rt : Z80Runtime H) {k : ℕ}
    (more : ∀ j, 0 < j → j ≤ k → ¬ blockEnds s (singles host s rt j).state.toCore) :
    blockLeft s (singles host s rt k).state.toCore + k = blockLeft s rt.state.toCore := by
  induction k with
  | zero => rfl
  | succ k ih =>
      have before := ih fun j positive le => more j positive (Nat.le_succ_of_le le)
      have step := singleIterate_left paired steady rt.state.pc (singles host s rt k)
      rw [← singles_succ] at step
      have one := step.resolve_left (more (k + 1) (Nat.succ_pos k) le_rfl)
      omega

/-- The first iteration that meets the end condition. -/
structure LastSingle (host : Z80Host H C) (s : Mnemonic) (rt : Z80Runtime H) (n : ℕ) : Prop where
  positive : 0 < n
  ends : blockEnds s (singles host s rt n).state.toCore
  more : ∀ k, 0 < k → k < n → ¬ blockEnds s (singles host s rt k).state.toCore

theorem exists_last (paired : Paired m s) (steady : Steady host) (rt : Z80Runtime H) :
    ∃ n, LastSingle host s rt n ∧ n ≤ 65536 := by
  classical
  have some : ∃ n, 0 < n ∧ blockEnds s (singles host s rt n).state.toCore ∧ n ≤ 65536 := by
    by_contra none
    have more : ∀ j, 0 < j → j ≤ 65536 → ¬ blockEnds s (singles host s rt j).state.toCore := by
      intro j positive le ends
      exact none ⟨j, positive, ends, le⟩
    have left := singles_left paired steady rt more
    have least := blockLeft_pos s (singles host s rt 65536).state.toCore
    have most := blockLeft_le s rt.state.toCore
    omega
  obtain ⟨positive, ends, le⟩ := Nat.find_spec some
  refine ⟨Nat.find some, ⟨positive, ends, ?_⟩, le⟩
  intro k before below early
  exact Nat.find_min some below ⟨before, early, by omega⟩

/-! ## Any splitting by deadlines -/

/-- The units of a repeating form. -/
def units (program : Program C) (host : Z80Host H C) (rt : Z80Runtime H) (k : ℕ) : Z80Runtime H :=
  (z80Unit program host)^[k] (rt.until 0).settle

theorem units_succ (rt : Z80Runtime H) (k : ℕ) :
    units program host rt (k + 1) = z80Unit program host (units program host rt k) :=
  Function.iterate_succ_apply' _ _ _

/-- Nothing interrupts the iterations, and the instruction stays in memory until the last one begins. -/
def Undisturbed (program : Program C) (host : Z80Host H C) (m s : Mnemonic) (rt : Z80Runtime H) (n : ℕ) : Prop :=
  ∀ k < n, Quiet (singles host s rt k).state ∧
    program.entry (host.code (singles host s rt k).host) rt.state.pc = .instr (lowerBlock m 0)

section Iterations

variable {rt : Z80Runtime H} (paired : Paired m s) (steady : Steady host) (ready : Ready program host rt)
  (running : rt.state.halted = false) (last : LastSingle host s rt n) (undisturbed : Undisturbed program host m s rt n)

include paired steady ready running last undisturbed

theorem underway_units (below : k < n) :
    Underway program host s rt.state.pc rt.state.wz k (units program host rt k) (singles host s rt k) := by
  induction k with
  | zero =>
      have healthy : (rt.until 0).settle.outcome.isError = false := (settle_isError _).trans rfl
      constructor
      · constructor
        · exact ⟨ready.lock, ready.reject⟩
        · exact healthy
        · exact settle_settle _
      · exact ⟨⟨rfl, rfl, rfl, rfl⟩, rfl, ⟨rfl, rfl⟩⟩
      · rfl
      · rfl
      · exact running
  | succ k ih =>
      have before := ih (Nat.lt_of_succ_lt below)
      obtain ⟨quiet, entry⟩ := undisturbed k (Nat.lt_of_succ_lt below)
      have more := last.more (k + 1) (Nat.succ_pos k) below
      rw [singles_succ] at more ⊢
      rw [units_succ]
      exact before.next paired steady quiet entry more

theorem units_step (below : k < n) :
    Repeated s rt.state.pc (5 * k) (units program host rt k) (units program host rt (k + 1)) (singles host s rt k)
        (singles host s rt (k + 1)) ∧
      Resting program host (units program host rt (k + 1)) ∧
      (units program host rt k).state.cycles < (units program host rt (k + 1)).state.cycles := by
  have underway := underway_units paired steady ready running last undisturbed below
  obtain ⟨quiet, entry⟩ := undisturbed k below
  rw [units_succ, singles_succ]
  exact underway.unit paired steady quiet entry

theorem units_resting (le : k ≤ n) : Resting program host (units program host rt k) := by
  rcases Nat.eq_or_lt_of_le le with same | below
  · obtain ⟨before, one⟩ := Nat.exists_eq_succ_of_ne_zero (Nat.pos_iff_ne_zero.mp last.positive)
    rw [same, one]
    exact (units_step paired steady ready running last undisturbed (one ▸ Nat.lt_succ_self before)).2.1
  · exact (underway_units paired steady ready running last undisturbed below).toResting

theorem units_cycles {j : ℕ} (le : j ≤ k) (within : k ≤ n) :
    (units program host rt j).state.cycles ≤ (units program host rt k).state.cycles := by
  induction k with
  | zero => rw [Nat.le_zero.mp le]
  | succ k ih =>
      rcases Nat.eq_or_lt_of_le le with same | below
      · rw [same]
      · have step := (units_step paired steady ready running last undisturbed within).2.2
        exact (ih (Nat.le_of_lt_succ below) (Nat.le_of_succ_le within)).trans step.le

end Iterations

theorem z80Run_until {cur other : Z80Runtime H} (same : cur.until 0 = other.until 0) (d : ℕ) :
    z80Run program host cur d = z80Run program host other d := by
  have start : cur.until d = other.until d := congrArg (fun rt => rt.until d) same
  have now : cur.state.cycles = other.state.cycles := congrArg (fun rt => rt.state.cycles) same
  rw [z80Run, z80Run, start, now]

section Deadlines

variable {rt : Z80Runtime H} (resting : ∀ k ≤ n, Resting program host (units program host rt k))
  (steady : Steady host)

include resting steady

theorem z80Run_units {cur : Z80Runtime H} (within : k ≤ n) (same : cur.until 0 = (units program host rt k).until 0)
    {d : ℕ} (early : d ≤ (units program host rt n).state.cycles) :
    ∃ j, k ≤ j ∧ j ≤ n ∧ (z80Run program host cur d).until 0 = (units program host rt j).until 0 ∧
      d ≤ (units program host rt j).state.cycles := by
  have here := resting k within
  have run := (z80Run_runs steady.latching here.ready here.healthy rfl d).1
  rw [here.settled] at run
  obtain ⟨i, arrived, before⟩ := run.exists_iterate
  have place : ∀ i, (clock program host fun _ => false).step^[i] (units program host rt k) =
      units program host rt (k + i) := by
    intro i
    rw [Nat.add_comm, units, units, Function.iterate_add_apply]
    rfl
  have bound : k + i ≤ n := by
    by_contra beyond
    have passed := before (n - k) (by omega)
    rw [place, Nat.add_sub_cancel' within] at passed
    exact absurd passed (Nat.not_lt.mpr early)
  rw [place] at arrived
  refine ⟨k + i, Nat.le_add_right k i, bound, ?_, ?_⟩
  · rw [z80Run_until same]
    calc (z80Run program host (units program host rt k) d).until 0
        = (z80Run program host (units program host rt k) d).settle.until 0 := (settle_until _ 0).symm
      _ = (units program host rt (k + i)).until 0 := by rw [arrived]
  · have ended := run.ended
    rw [arrived] at ended
    rcases ended with late | failed
    · exact late
    · exfalso
      rcases failed with failed | latched
      · rw [(resting _ bound).healthy] at failed
        exact Bool.false_ne_true failed
      · exact Bool.false_ne_true latched

theorem foldl_units {cur : Z80Runtime H} (within : k ≤ n) (same : cur.until 0 = (units program host rt k).until 0)
    (mono : ∀ i j, i ≤ j → j ≤ n → (units program host rt i).state.cycles ≤ (units program host rt j).state.cycles)
    {deadlines : List ℕ} (early : ∀ d ∈ deadlines, d ≤ (units program host rt n).state.cycles) :
    ∃ j, k ≤ j ∧ j ≤ n ∧ (deadlines.foldl (z80Run program host) cur).until 0 = (units program host rt j).until 0 ∧
      ∀ d ∈ deadlines, d ≤ (units program host rt j).state.cycles := by
  induction deadlines generalizing cur k with
  | nil => exact ⟨k, le_rfl, within, same, fun d member => absurd member List.not_mem_nil⟩
  | cons d deadlines ih =>
      obtain ⟨i, le, bound, arrived, reached⟩ :=
        z80Run_units resting steady within same (early d List.mem_cons_self)
      obtain ⟨j, further, final, settled, all⟩ :=
        ih bound arrived fun d member => early d (List.mem_cons_of_mem _ member)
      refine ⟨j, le.trans further, final, settled, ?_⟩
      intro e member
      rcases List.mem_cons.mp member with first | rest
      · rw [first]
        exact reached.trans (mono i j further final)
      · exact all e rest

end Deadlines

/-! ## LDIR over plain memory -/

/-- Memory behind a host that has no wait states. -/
structure Ram (host : Z80Host H C) (mem : H → Addr → Byte) : Prop where
  read : ∀ h address cycles, (host.read h address cycles).value = mem h address ∧
    mem (host.read h address cycles).host = mem h ∧ (host.read h address cycles).wait = 0
  write : ∀ h address value cycles, mem (host.write h address value cycles).host =
      Function.update (mem h) address value ∧ (host.write h address value cycles).wait = 0

/-- The sequential copy: a byte that was copied already is read as it is now. -/
def copyBytes (mem : Addr → Byte) (source target : Addr) : ℕ → Addr → Byte
  | 0 => mem
  | k + 1 =>
    let copied := copyBytes mem source target k
    Function.update copied (target + BitVec.ofNat 16 k) (copied (source + BitVec.ofNat 16 k))

/-- BC as a count: 0 means 65536. -/
def transferCount (t : Core) : ℕ := if t.bc = 0 then 65536 else t.bc.toNat

/-- The registers that a copy moves. -/
structure Moved (k : ℕ) (before after : Core) : Prop where
  bc : after.bc = before.bc - BitVec.ofNat 16 k
  hl : after.hl = before.hl + BitVec.ofNat 16 k
  de : after.de = before.de + BitVec.ofNat 16 k

variable (host) in
theorem ldi_moved (start : Addr) (y : Z80Runtime H) :
    Moved 1 y.state.toCore (singleIterate host .ldi start y).state.toCore :=
  ⟨extract_append _, extract_append _, extract_append _⟩

section Copy

variable {mem : H → Addr → Byte} (ram : Ram host mem)

include ram

theorem ldi_iterate (start : Addr) (y : Z80Runtime H) :
    mem (singleIterate host .ldi start y).host =
        Function.update (mem y.host) y.state.de (mem y.host y.state.hl) ∧
      (singleIterate host .ldi start y).state.cycles = y.state.cycles + 16 := by
  let reading := host.read y.host y.state.hl y.state.cycles
  let writing := host.write reading.host y.state.de reading.value (y.state.cycles + reading.wait)
  obtain ⟨value, kept, prompt⟩ := ram.read y.host y.state.hl y.state.cycles
  obtain ⟨stored, done⟩ := ram.write reading.host y.state.de reading.value (y.state.cycles + reading.wait)
  have left : (singleIterate host .ldi start y).host = writing.host := rfl
  have time : (singleIterate host .ldi start y).state.cycles = y.state.cycles + reading.wait + writing.wait + 16 := rfl
  constructor
  · rw [left, stored, kept, value]
  · rw [time, prompt, done]

theorem singles_copy (rt : Z80Runtime H) (k : ℕ) :
    mem (singles host .ldi rt k).host = copyBytes (mem rt.host) rt.state.hl rt.state.de k ∧
      Moved k rt.state.toCore (singles host .ldi rt k).state.toCore ∧
      (singles host .ldi rt k).state.cycles = rt.state.cycles + 16 * k := by
  induction k with
  | zero =>
      constructor
      · rfl
      · constructor
        · exact ⟨(BitVec.sub_zero _).symm, (BitVec.add_zero _).symm, (BitVec.add_zero _).symm⟩
        · rfl
  | succ k ih =>
      obtain ⟨memory, moved, time⟩ := ih
      obtain ⟨stored, step⟩ := ldi_iterate ram rt.state.pc (singles host .ldi rt k)
      have one := ldi_moved host rt.state.pc (singles host .ldi rt k)
      rw [singles_succ]
      constructor
      · rw [stored, memory, moved.hl, moved.de]
        rfl
      · constructor
        · constructor
          · rw [one.bc, moved.bc, BitVec.ofNat_add]
            bv_omega
          · rw [one.hl, moved.hl, BitVec.ofNat_add, BitVec.add_assoc]
          · rw [one.de, moved.de, BitVec.ofNat_add, BitVec.add_assoc]
        · rw [step, time]
          omega

end Copy

theorem ldi_count (steady : Steady host) {rt : Z80Runtime H} (last : LastSingle host .ldi rt n) :
    n = transferCount rt.state.toCore := by
  obtain ⟨before, rfl⟩ := Nat.exists_eq_succ_of_ne_zero (Nat.pos_iff_ne_zero.mp last.positive)
  have paired : Paired .ldir .ldi := singleForm_paired rfl
  have left := singles_left paired steady rt fun j positive le => last.more j positive (Nat.lt_succ_of_le le)
  have empty : (singles host .ldi rt (before + 1)).state.bc = 0 := last.ends
  rw [singles_succ, (ldi_moved host rt.state.pc (singles host .ldi rt before)).bc] at empty
  have one : (singles host .ldi rt before).state.bc = 1 := by
    bv_omega
  have single : blockLeft .ldi (singles host .ldi rt before).state.toCore = 1 := by
    simp only [blockLeft, one]
    rfl
  have count : blockLeft .ldi rt.state.toCore = transferCount rt.state.toCore := rfl
  omega

/-! ## The theorem -/

/-- MEMPTR after `n` iterations. -/
def repeatWz (s : Mnemonic) (n : ℕ) (start wz single : Addr) : Addr :=
  lastWz s (if n = 1 then wz else start + 1) single

/-- The instruction is over: what the `n`-th run of the single form leaves, at five more cycles for each iteration
but the last, with the MEMPTR of the repeating form. -/
structure Completed (s : Mnemonic) (n : ℕ) (rt once final : Z80Runtime H) : Prop where
  host : final.host = once.host
  core : final.state.toCore =
    { once.state.toCore with wz := repeatWz s n rt.state.pc rt.state.wz once.state.wz }
  pc : final.state.pc = rt.state.pc + 2
  cycles : final.state.cycles = once.state.cycles + 5 * (n - 1)

/-- The bytes are copied one after the other. -/
structure Copied (mem : H → Addr → Byte) (rt final : Z80Runtime H) : Prop where
  memory : mem final.host = copyBytes (mem rt.host) rt.state.hl rt.state.de (transferCount rt.state.toCore)
  bc : final.state.bc = 0
  hl : final.state.hl = rt.state.hl + BitVec.ofNat 16 (transferCount rt.state.toCore)
  de : final.state.de = rt.state.de + BitVec.ofNat 16 (transferCount rt.state.toCore)
  cycles : final.state.cycles = rt.state.cycles + 21 * (transferCount rt.state.toCore - 1) + 16

theorem block_repeats (program : Program C) (host : Z80Host H C) (m s : Mnemonic) (form : singleForm m = some s)
    (steady : Steady host) (rt : Z80Runtime H) (ready : Ready program host rt) (running : rt.state.halted = false) :
    ∃ n ≤ 65536, LastSingle host s rt n ∧
      (Undisturbed program host m s rt n → ∀ deadlines : List ℕ,
        (∃ d ∈ deadlines, (singles host s rt (n - 1)).state.cycles + 5 * (n - 1) < d) →
        (∀ d ∈ deadlines, d ≤ (singles host s rt n).state.cycles + 5 * (n - 1)) →
        Completed s n rt (singles host s rt n) (deadlines.foldl (z80Run program host) rt) ∧
          (m = .ldir → ∀ mem, Ram host mem → Copied mem rt (deadlines.foldl (z80Run program host) rt))) := by
  have paired := singleForm_paired form
  obtain ⟨n, last, le⟩ := exists_last paired steady rt
  refine ⟨n, le, last, ?_⟩
  intro undisturbed deadlines late early
  obtain ⟨before, rfl⟩ := Nat.exists_eq_succ_of_ne_zero (Nat.pos_iff_ne_zero.mp last.positive)
  have below : before < before + 1 := Nat.lt_succ_self before
  have underway := underway_units paired steady ready running last undisturbed below
  obtain ⟨repeated, _, _⟩ := units_step paired steady ready running last undisturbed below
  obtain ⟨follows, core⟩ := repeated.ended last.ends
  have resting := fun k (within : k ≤ before + 1) => units_resting paired steady ready running last undisturbed within
  have within : ∀ d ∈ deadlines, d ≤ (units program host rt (before + 1)).state.cycles := by
    intro d member
    rw [follows.cycles]
    exact early d member
  obtain ⟨j, _, bound, arrived, reached⟩ :=
    foldl_units resting steady (Nat.zero_le _) (show rt.until 0 = (units program host rt 0).until 0 from rfl)
      (fun i j le final => units_cycles paired steady ready running last undisturbed le final) within
  have final : j = before + 1 := by
    by_contra other
    obtain ⟨d, member, passed⟩ := late
    have slow := units_cycles paired steady ready running last undisturbed (show j ≤ before by omega) below.le
    have there := reached d member
    rw [underway.follows.cycles] at slow
    simp only [Nat.succ_eq_add_one, Nat.add_sub_cancel] at passed
    omega
  rw [final] at arrived
  have left : (deadlines.foldl (z80Run program host) rt).state.toCore =
      (units program host rt (before + 1)).state.toCore := congrArg (fun rt => rt.state.toCore) arrived
  have time : (deadlines.foldl (z80Run program host) rt).state.cycles =
      (units program host rt (before + 1)).state.cycles := congrArg (fun rt => rt.state.cycles) arrived
  have world : (deadlines.foldl (z80Run program host) rt).host = (units program host rt (before + 1)).host :=
    congrArg (fun rt => rt.host) arrived
  have completed : Completed s (before + 1) rt (singles host s rt (before + 1))
      (deadlines.foldl (z80Run program host) rt) := by
    constructor
    · rw [world, follows.host]
    · rw [left, core, underway.memptr]
      simp only [repeatWz, Nat.add_eq_right]
    · rw [left, core]
      exact repeated.next
    · rw [time, follows.cycles]
      rfl
  constructor
  · exact completed
  · intro forward mem ram
    subst forward
    have ldi : s = .ldi := (Option.some.inj form).symm
    subst ldi
    have count := ldi_count steady last
    obtain ⟨memory, moved, spent⟩ := singles_copy ram rt (before + 1)
    have registers := completed.core
    constructor
    · rw [← count, completed.host, memory]
    · rw [registers]
      exact last.ends
    · rw [← count, registers]
      exact moved.hl
    · rw [← count, registers]
      exact moved.de
    · rw [← count, completed.cycles, spent]
      omega

/-! ## Two bytes -/

/-- Memory alone. -/
def ramHost : Z80Host (Addr → Byte) Unit :=
  { read := fun mem address _ => { host := mem, value := mem address }
    write := fun mem address value _ => { host := Function.update mem address value }
    ioIn := fun mem _ _ => { host := mem }
    ioOut := fun mem _ _ _ => { host := mem }
    interruptAcknowledge := fun mem _ => { host := mem }
    code := fun _ => () }

def ldirProgram : Program Unit :=
  { entry := fun _ _ => .instr (lowerBlock .ldir 0), lock_next := fun _ _ lock => by simp at lock }

/-- LDIR of two bytes from 0x8000, onto the byte after the first. -/
def twoBytes : Z80Runtime (Addr → Byte) :=
  { state := { b := 0, c := 2, h := 0x80, l := 0x00, d := 0x80, e := 0x01 }
    host := fun address => address.setWidth 8 + 7 }

theorem ramHost_steady : Steady ramHost :=
  ⟨fun _ _ _ request => by cases request <;> rfl, fun _ _ request => by cases request <;> rfl⟩

theorem ramHost_ram : Ram ramHost id := ⟨fun _ _ _ => ⟨rfl, rfl, rfl⟩, fun _ _ _ _ => ⟨rfl, rfl⟩⟩

theorem twoBytes_ready : Ready ldirProgram ramHost twoBytes :=
  ⟨fun inside => by simp [twoBytes] at inside, fun reject => by simp [twoBytes] at reject⟩

theorem twoBytes_last {n : ℕ} (last : LastSingle ramHost .ldi twoBytes n) : n = 2 :=
  ldi_count ramHost_steady last

theorem twoBytes_undisturbed : Undisturbed ldirProgram ramHost .ldir .ldi twoBytes 2 := by
  intro k below
  have cases : k = 0 ∨ k = 1 := by omega
  rcases cases with rfl | rfl
  · exact ⟨.inr ⟨rfl, rfl⟩, rfl⟩
  · exact ⟨.inr ⟨rfl, rfl⟩, rfl⟩

/-- With deadlines at 10 and 37: both bytes are the first, after 37 cycles. -/
theorem block_repeats_two :
    Copied id twoBytes ([10, 37].foldl (z80Run ldirProgram ramHost) twoBytes) := by
  obtain ⟨n, _, last, run⟩ :=
    block_repeats ldirProgram ramHost .ldir .ldi rfl ramHost_steady twoBytes twoBytes_ready rfl
  have two := twoBytes_last last
  subst two
  exact (run twoBytes_undisturbed [10, 37] (by decide) (by decide)).2 rfl id ramHost_ram

/-- MEMPTR is the address after the ED byte, where LDI leaves it alone. -/
theorem ldir_memptr :
    (z80Run ldirProgram ramHost twoBytes 37).state.bc = 0 ∧ (z80Run ldirProgram ramHost twoBytes 37).state.pc = 2 ∧
      (z80Run ldirProgram ramHost twoBytes 37).state.wz = 0x0001 ∧
      (z80Run ldirProgram ramHost twoBytes 37).state.toCore ≠ (singles ramHost .ldi twoBytes 2).state.toCore := by
  decide

end Segarecomp.Z80.Runtime

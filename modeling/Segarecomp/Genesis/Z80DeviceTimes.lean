import Segarecomp.Genesis.Sha256
import Segarecomp.Genesis.Z80Activation
import Segarecomp.Genesis.Z80Scheduler
import Segarecomp.Z80.Block
import Segarecomp.Z80.InstructionStarts

/-! The time base of the Z80 across BUSREQ holds, /RESET and image epochs, and the order of the
times at which the sound chips see it. -/

namespace Segarecomp.Genesis.Z80DeviceTimes

open Z80 Z80.Runtime Z80Machine
open Z80Images (activateImage)

/-! ## Bus events -/

def ceilToZ80Clock (masterTicks : ℕ) : ℕ := (masterTicks + clockDivider - 1) / clockDivider * clockDivider

inductive Z80Event
  | busreq_assert | busreq_release | reset_assert | reset_release
  deriving DecidableEq, Repr

/-- What the machine is attached to: `ymReset` is the YM2612's, `table` the signatures of the compiled images. -/
structure Attachment (D Digest : Type) where
  program : Program CodeView
  board : Board D
  ymReset : D → (masterTicks : ℕ) → D
  sha256 : List Byte → Digest
  table : List Digest
  quiesceUnknownImage : Bool := false
  rearmFaultedOnEpoch : Bool := false
  accumulateUntilEpoch : Bool := false

/-- The machine and the epoch tracker of the runtime. -/
structure Sound (D : Type) where
  machine : Machine D
  written : ℕ → Byte := fun _ => 0
  executed : Bool := false

variable {D Digest : Type} [DecidableEq Digest]

def faulted (m : Machine D) : Bool := m.soundFault.isSome

def ymPortReset (a : Attachment D Digest) (m : Machine D) (masterTicks : ℕ) : Machine D :=
  { m with cpu := { m.cpu with host := { m.cpu.host with devices := a.ymReset m.cpu.host.devices masterTicks } } }

/-- The architectural reset, at the next Z80 clock. -/
def resetAt (m : Machine D) (masterTicks : ℕ) : Machine D :=
  { m with cpu := { m.cpu with
      state := z80Reset
      host := { m.cpu.host with viewStop := none, cycleBase := ceilToZ80Clock masterTicks } } }

def onEvent (a : Attachment D Digest) (m : Machine D) (event : Z80Event) (masterTicks : ℕ) : Machine D :=
  match event with
  | .reset_assert => ymPortReset a m masterTicks
  | .reset_release =>
      let m := ymPortReset a m masterTicks
      -- the YM reset is a device effect; a faulted Z80 stays as it is
      if faulted m && !a.rearmFaultedOnEpoch then m else resetAt m masterTicks
  | _ => m

/-- A fresh image epoch re-arms an isolated Z80. -/
def rearm (a : Attachment D Digest) (m : Machine D) (epoch : Bool) : Machine D :=
  if epoch && a.rearmFaultedOnEpoch && faulted m then
    { m with soundFault := none, cpu := { m.cpu with host := { m.cpu.host with viewStop := none } } }
  else m

/-- Time held on the bus is not made up. -/
def resumeAt (m : Machine D) (transition : Bool) (masterTicks : ℕ) : Machine D :=
  if transition && !faulted m && decide (m.masterTicks < ceilToZ80Clock masterTicks) then
    { m with cpu := { m.cpu with host := { m.cpu.host with
        cycleBase := m.cpu.host.cycleBase + (ceilToZ80Clock masterTicks - m.masterTicks) } } }
  else m

def bind (m : Machine D) (boundOrdinal lastBound : ℕ) : Machine D :=
  { m with lastBound := lastBound, cpu := { m.cpu with host := { m.cpu.host with boundOrdinal := boundOrdinal } } }

def activate (a : Attachment D Digest) (m : Machine D) (written : ℕ → Byte) : Machine D × Option RuntimeStop :=
  let out := activateImage a.sha256 a.table
    { boundOrdinal := m.cpu.host.boundOrdinal, lastBound := m.lastBound, soundFaulted := faulted m,
      quiesceUnknownImage := a.quiesceUnknownImage }
    { ram := fun i => m.cpu.host.z80Ram (BitVec.ofNat 13 i), written := written }
  (bind m out.machine.boundOrdinal out.machine.lastBound,
    if out.stopped then some ⟨.unsupported_z80_execution, .z80_unknown_image⟩ else none)

def hookBusEvent (a : Attachment D Digest) (m : Machine D) (event : Z80Event) (masterTicks : ℕ)
    (transition epoch : Bool) (written : ℕ → Byte) : Machine D × Option RuntimeStop :=
  let m := resumeAt (rearm a (onEvent a m event masterTicks) epoch) transition masterTicks
  if epoch then activate a m written else (m, none)

/-! ## The 68000's side -/

inductive Register
  | busreq | reset
  deriving DecidableEq, Repr

def runnableBus (m : Machine D) : Bool := m.resetReleased && !m.busRequested

def countEpoch (m : Machine D) (epoch : Bool) : Machine D :=
  if epoch then { m with epochCount := m.epochCount + 1 } else m

/-- What follows an edge of a latch: `s.machine` has the new level. -/
def edge (a : Attachment D Digest) (s : Sound D) (wasRunnable : Bool) (event : Z80Event) (masterTicks : ℕ) :
    Sound D × Option RuntimeStop :=
  let transition := runnableBus s.machine && !wasRunnable
  let epoch := transition && !s.executed
  let out := hookBusEvent a (countEpoch s.machine epoch) event masterTicks transition epoch s.written
  if out.2.isSome then ({ s with machine := out.1 }, out.2)
  else
    ({ machine := out.1
       executed := s.executed || epoch
       written := if transition && (epoch || !a.accumulateUntilEpoch) then fun _ => 0 else s.written }, none)

/-- A write to BUSREQ or /RESET; only an edge reaches the machine. -/
def z80BusWrite (a : Attachment D Digest) (s : Sound D) (register : Register) (set : Bool) (masterTicks : ℕ) :
    Sound D × Option RuntimeStop :=
  let m := s.machine
  match register with
  | .busreq =>
      if set = m.busRequested then (s, none)
      else
        edge a { s with machine := { m with busRequested := set } } (runnableBus m)
          (if set then .busreq_assert else .busreq_release) masterTicks
  | .reset =>
      if set = m.resetReleased then (s, none)
      else
        edge a { s with machine := { m with resetReleased := set }, executed := !set && s.executed } (runnableBus m)
          (if set then .reset_release else .reset_assert) masterTicks

/-- What the 68000 may do to what the Z80 sees, between the events: its own view of the sound RAM,
the bank register, the chips and its memory. -/
structure Outside (D : Type) where
  z80Ram : BitVec 13 → Byte
  bank : BitVec 16
  devices : D
  workRam : BitVec 16 → Byte
  written : ℕ → Byte

inductive Event (D : Type)
  | run_to (masterTicks : ℕ)
  | bus (register : Register) (set : Bool) (masterTicks : ℕ)
  | outside (o : Outside D)

def Outside.apply (o : Outside D) (s : Sound D) : Sound D :=
  { s with
    written := o.written
    machine := { s.machine with cpu := { s.machine.cpu with host := { s.machine.cpu.host with
      z80Ram := o.z80Ram, bank := o.bank, devices := o.devices, workRam := o.workRam } } } }

def step (a : Attachment D Digest) (s : Sound D) : Event D → Sound D × Option RuntimeStop
  | .run_to masterTicks =>
      let out := runTo a.program a.board s.machine masterTicks
      ({ s with machine := out.1 }, out.2)
  | .bus register set masterTicks => z80BusWrite a s register set masterTicks
  | .outside o => (o.apply s, none)

/-- A typed stop ends the program; the machine would go on. -/
def run (a : Attachment D Digest) (s : Sound D) (events : List (Event D)) : Sound D :=
  events.foldl (fun s e => (step a s e).1) s

/-! ## Device times -/

def isPort : DeviceAccess → Bool
  | .ym_read _ | .ym_write _ _ | .psg_write _ => true
  | _ => false

/-- The times at which the Z80 reached a sound chip, in order. -/
def portTimes (v : View D) : List ℕ := (v.accesses.filter fun access => isPort access.2).map Prod.fst

/-- The times are in order so far, and none is later than `now`. -/
structure Timely (v : View D) (now : ℕ) : Prop where
  order : (portTimes v).Pairwise (· ≤ ·)
  past : ∀ t ∈ portTimes v, t ≤ now

section Times

variable {v : View D} {now : ℕ}

theorem Timely.later (timely : Timely v now) {later : ℕ} (passed : now ≤ later) : Timely v later :=
  ⟨timely.order, fun t member => (timely.past t member).trans passed⟩

theorem Timely.same {v' : View D} (timely : Timely v now) (same : v'.accesses = v.accesses) : Timely v' now := by
  have times : portTimes v' = portTimes v := by rw [portTimes, same, portTimes]
  exact ⟨times ▸ timely.order, times ▸ timely.past⟩

theorem portTimes_note (v : View D) (ticks : ℕ) (access : DeviceAccess) :
    portTimes (v.note ticks access) = portTimes v ++ if isPort access then [ticks] else [] := by
  rw [portTimes, portTimes, View.note, List.filter_append, List.map_append]
  cases port : isPort access <;> simp [port]

theorem Timely.note (timely : Timely v now) {ticks : ℕ} (passed : now ≤ ticks) (access : DeviceAccess) :
    Timely (v.note ticks access) ticks := by
  cases port : isPort access with
  | false =>
    have times : portTimes (v.note ticks access) = portTimes v := by
      rw [portTimes_note, port, if_neg Bool.false_ne_true, List.append_nil]
    exact ⟨times ▸ timely.order, fun t member => (timely.past t (times ▸ member)).trans passed⟩
  | true =>
    have times : portTimes (v.note ticks access) = portTimes v ++ [ticks] := by rw [portTimes_note, port, if_pos rfl]
    constructor
    · rw [times, List.pairwise_append]
      refine ⟨timely.order, List.pairwise_singleton _ _, ?_⟩
      intro t member u last
      rw [List.mem_singleton.mp last]
      exact (timely.past t member).trans passed
    · intro t member
      rw [times] at member
      rcases List.mem_append.mp member with old | new
      · exact (timely.past t old).trans passed
      · exact (List.mem_singleton.mp new).le

end Times

/-! ## A run of the Z80 -/

/-- The times are in order up to the Z80's own clock, which counts from `base`. -/
def TimelyAt (base : ℕ) (v : View D) (_ : Bool) (cycles : ℕ) : Prop :=
  v.cycleBase = base ∧ Timely v (base + cycles * clockDivider)

section Callbacks

variable {board : Board D} {base cycles : ℕ} {v : View D} {level : Bool}

theorem TimelyAt.waited (timely : TimelyAt base v level cycles) {v' : View D} (base' : v'.cycleBase = v.cycleBase)
    (same : v'.accesses = v.accesses) (wait : ℕ) : TimelyAt base v' level (cycles + wait) := by
  refine ⟨base'.trans timely.1, (timely.2.same same).later ?_⟩
  exact Nat.add_le_add_left (Nat.mul_le_mul_right _ (Nat.le_add_right _ _)) _

theorem TimelyAt.noted (timely : TimelyAt base v level cycles) {v' : View D} (wait : ℕ) (access : DeviceAccess)
    (base' : v'.cycleBase = v.cycleBase) (noted : v'.accesses = v.accesses ++ [(v.ticks (cycles + wait), access)]) :
    TimelyAt base v' level (cycles + wait) := by
  have at_ : v.ticks (cycles + wait) = base + (cycles + wait) * clockDivider := by rw [View.ticks, timely.1]
  have passed : base + cycles * clockDivider ≤ v.ticks (cycles + wait) := by
    rw [at_]
    exact Nat.add_le_add_left (Nat.mul_le_mul_right _ (Nat.le_add_right _ _)) _
  have after := timely.2.note passed access
  rw [at_] at after
  refine ⟨base'.trans timely.1, after.same ?_⟩
  rw [noted, at_]
  rfl

theorem TimelyAt.read (timely : TimelyAt base v level cycles) (address : Addr) :
    TimelyAt base (z80ViewRead board v address cycles).host level
      (cycles + (z80ViewRead board v address cycles).wait) := by
  rw [z80ViewRead]
  dsimp only
  split_ifs
  · apply timely.waited <;> rfl
  · split
    · exact timely.noted 0 _ rfl rfl
    · exact timely.noted 0 _ rfl rfl
  · apply timely.waited <;> rfl
  · split
    · exact timely.noted busWaitCycles _ rfl rfl
    · exact timely.noted busWaitCycles _ rfl rfl

theorem bankWrite_accesses {v v' : View D} {target : ℕ} {value : Byte} (h : bankWrite board v target value = some v') :
    v'.accesses = v.accesses := by
  rw [bankWrite] at h
  split at h
  · rcases Option.map_eq_some_iff.mp h with ⟨d, _, rfl⟩
    rfl
  · split_ifs at h
    cases h
    rfl

theorem TimelyAt.write (timely : TimelyAt base v level cycles) (address : Addr) (value : Byte) :
    TimelyAt base (z80ViewWrite board v address value cycles).host level
      (cycles + (z80ViewWrite board v address value cycles).wait) := by
  rw [z80ViewWrite]
  dsimp only
  split_ifs
  · apply timely.waited <;> rfl
  · split
    · exact timely.noted 0 _ rfl rfl
    · exact timely.noted 0 _ rfl rfl
  · apply timely.waited <;> rfl
  · apply timely.waited <;> rfl
  · split
    · exact timely.noted busWaitCycles _ rfl rfl
    · exact timely.noted busWaitCycles _ rfl rfl
  · apply timely.waited <;> rfl
  · split
    · exact timely.noted busWaitCycles _ rfl rfl
    · next written =>
      exact timely.noted busWaitCycles _ (bankWrite_kept written).2.1 (bankWrite_accesses written)

end Callbacks

theorem timelyAt_kept (board : Board D) (base : ℕ) : KeptBy (z80Host board) (TimelyAt (D := D) base) := by
  intro v level cycles request timely
  cases request with
  | read address => exact timely.read address
  | write address value => exact timely.write address value
  | io_in port => apply timely.waited <;> rfl
  | io_out port value => apply timely.waited <;> rfl
  | interrupt_acknowledge => apply timely.waited <;> rfl

/-- The times a machine has shown so far are in order and none is ahead of its clock. -/
def InTime (m : Machine D) : Prop := Timely m.cpu.host m.masterTicks

section Runs

variable {program : Program CodeView} {board : Board D} {m : Machine D}

variable (program board) in
theorem run_timely (inTime : InTime m) (deadline : ℕ) :
    TimelyAt m.cpu.host.cycleBase (z80Run program (z80Host board) m.cpu deadline).host false
      (z80Run program (z80Host board) m.cpu deadline).state.cycles :=
  KeptBy.loop program (timelyAt_kept board m.cpu.host.cycleBase)
    (fun _ _ _ _ timely passed => ⟨timely.1,
      timely.2.later (Nat.add_le_add_left (Nat.mul_le_mul_right _ passed) _)⟩) _ (m.cpu.until deadline) ⟨rfl, inTime⟩

theorem afterRun_accesses (m : Machine D) : m.afterRun.1.cpu.host.accesses = m.cpu.host.accesses := by
  rw [Machine.afterRun]
  split
  · split_ifs <;> rfl
  · split <;> rfl

theorem afterRun_base (m : Machine D) : m.afterRun.1.cpu.host.cycleBase = m.cpu.host.cycleBase := by
  rw [Machine.afterRun]
  split
  · split_ifs <;> rfl
  · split <;> rfl

theorem afterRun_observed (m : Machine D) : m.afterRun.1.cpu.observed = m.cpu.observed := by
  rw [Machine.afterRun]
  split
  · split_ifs <;> rfl
  · split <;> rfl

/-- The instructions that began between two states of a machine, none of them at or after `masterTicks`. -/
def BeganBefore (masterTicks : ℕ) (m m' : Machine D) : Prop :=
  ∃ later, m'.cpu.observed = m.cpu.observed ++ later ∧
    ∀ start ∈ later, m.cpu.host.cycleBase + start.cycles * clockDivider < masterTicks

/-- What a call of the scheduler, or a part of one, does to the times. -/
structure Advances (masterTicks : ℕ) (m m' : Machine D) : Prop where
  inTime : InTime m → InTime m'
  base : m'.cpu.host.cycleBase = m.cpu.host.cycleBase
  began : BeganBefore masterTicks m m'

theorem Advances.refl (masterTicks : ℕ) (m : Machine D) : Advances masterTicks m m :=
  ⟨id, rfl, [], (List.append_nil _).symm, fun _ none => absurd none List.not_mem_nil⟩

theorem Advances.trans {masterTicks : ℕ} {m m' m'' : Machine D} (first : Advances masterTicks m m')
    (second : Advances masterTicks m' m'') : Advances masterTicks m m'' := by
  rcases first.began with ⟨early, shape, before⟩
  rcases second.began with ⟨late, shape', before'⟩
  refine ⟨fun inTime => second.inTime (first.inTime inTime), second.base.trans first.base, early ++ late, ?_, ?_⟩
  · rw [shape', shape, List.append_assoc]
  · intro start member
    rcases List.mem_append.mp member with old | new
    · exact before start old
    · rw [← first.base]
      exact before' start new

theorem runSegment_advances (program : Program CodeView) (board : Board D) {masterTicks : ℕ} (m : Machine D)
    (early : m.masterTicks < masterTicks) :
    Advances masterTicks m (runSegment program board m masterTicks).1 := by
  let steps := (segmentEnd m masterTicks - m.masterTicks + clockDivider - 1) / clockDivider
  let ran := z80Run program (z80Host board) m.sampled.cpu (m.cpu.state.cycles + steps)
  have whole : (runSegment program board m masterTicks).1 = ({ m.sampled with cpu := ran } : Machine D).afterRun.1 := rfl
  rw [whole]
  have base : ran.host.cycleBase = m.cpu.host.cycleBase := by
    have fixed := KeptBy.loop program (fixed_kept board m.cpu.host.cycleBase m.cpu.host.boundOrdinal
        m.sampled.cpu.state.intLine)
      (fun _ _ _ _ kept _ => kept) (2 * (m.cpu.state.cycles + steps - m.sampled.cpu.state.cycles) + 2)
      (m.sampled.cpu.until (m.cpu.state.cycles + steps)) ⟨rfl, rfl, rfl⟩
    exact fixed.1
  constructor
  · intro inTime
    have kept : InTime m.sampled := inTime
    have timely := (run_timely program board kept (m.cpu.state.cycles + steps)).2
    rw [InTime, afterRun_now]
    have now : ({ m.sampled with cpu := ran } : Machine D).masterTicks =
        m.sampled.cpu.host.cycleBase + ran.state.cycles * clockDivider := by
      change ran.host.cycleBase + ran.state.cycles * clockDivider = _
      rw [base]
      rfl
    rw [now]
    exact timely.same (afterRun_accesses _)
  · rw [afterRun_base]
    exact base
  · rcases (z80Run_starts program (z80Host board) m.sampled.cpu (m.cpu.state.cycles + steps)).starts with
      ⟨later, shape, before⟩
    refine ⟨later, ?_, ?_⟩
    · rw [afterRun_observed]
      exact shape
    · intro start member
      have soon := before start member
      have at_ : m.cpu.host.cycleBase + m.cpu.state.cycles * 15 = m.masterTicks := rfl
      have inside : m.masterTicks < segmentEnd m masterTicks := lt_min (lt_nextIntEdge _) early
      have bound : segmentEnd m masterTicks ≤ masterTicks := min_le_right _ _
      have late := steps_iff at_ inside (c := start.cycles) rfl
      change m.cpu.host.cycleBase + start.cycles * 15 < masterTicks
      have short : ¬segmentEnd m masterTicks ≤ m.cpu.host.cycleBase + start.cycles * 15 := fun reached =>
        Nat.not_le.mpr soon (late.mp reached)
      omega

theorem runLoop_advances (program : Program CodeView) (board : Board D) (masterTicks fuel : ℕ) : ∀ m : Machine D,
    Advances masterTicks m (runLoop program board fuel m masterTicks).1 := by
  induction fuel with
  | zero => exact fun m => Advances.refl masterTicks m
  | succ fuel ih =>
    intro m
    rw [runLoop]
    split_ifs with late
    · exact Advances.refl masterTicks m
    · have segment := runSegment_advances program board m (Nat.not_le.mp late)
      cases ran : runSegment program board m masterTicks with
      | mk next stop =>
        rw [ran] at segment
        dsimp only
        split_ifs
        · exact segment
        · exact segment.trans (ih next)

theorem runTo_advances (program : Program CodeView) (board : Board D) (m : Machine D) (masterTicks : ℕ) :
    Advances masterTicks m (runTo program board m masterTicks).1 := by
  rw [runTo]
  split_ifs
  · exact Advances.refl masterTicks m
  · exact runLoop_advances program board masterTicks _ m

end Runs

/-! ## Bus events and time -/

/-- A release of /RESET that resets the Z80 comes no earlier, on the Z80's clock, than the last time
it showed a sound chip. -/
def OnTime (a : Attachment D Digest) (s : Sound D) : Event D → Prop
  | .bus .reset true masterTicks =>
      s.machine.resetReleased = false → ¬(faulted s.machine = true ∧ a.rearmFaultedOnEpoch = false) →
        ∀ t ∈ portTimes s.machine.cpu.host, t ≤ ceilToZ80Clock masterTicks
  | _ => True

section Events

variable {a : Attachment D Digest} {s : Sound D} {m : Machine D}

omit [DecidableEq Digest] in
theorem onEvent_inTime (inTime : InTime m) (event : Z80Event) (masterTicks : ℕ)
    (onTime : event = .reset_release → ¬(faulted m = true ∧ a.rearmFaultedOnEpoch = false) →
      ∀ t ∈ portTimes m.cpu.host, t ≤ ceilToZ80Clock masterTicks) :
    InTime (onEvent a m event masterTicks) := by
  cases event with
  | busreq_assert => exact inTime
  | busreq_release => exact inTime
  | reset_assert => exact Timely.same inTime rfl
  | reset_release =>
    have same : faulted (ymPortReset a m masterTicks) = faulted m := rfl
    rw [onEvent, same]
    split_ifs with left
    · exact Timely.same inTime rfl
    · have resets : ¬(faulted m = true ∧ a.rearmFaultedOnEpoch = false) := by
        intro both
        rw [both.1, both.2] at left
        exact left rfl
      refine ⟨inTime.order, ?_⟩
      intro t member
      exact (onTime rfl resets t member).trans (Nat.le_add_right _ _)

omit [DecidableEq Digest] in
theorem rearm_inTime (inTime : InTime m) (epoch : Bool) : InTime (rearm a m epoch) := by
  rw [rearm]
  split_ifs
  · exact Timely.same inTime rfl
  · exact inTime

theorem resumeAt_inTime (inTime : InTime m) (transition : Bool) (masterTicks : ℕ) :
    InTime (resumeAt m transition masterTicks) := by
  rw [resumeAt]
  split_ifs
  · refine ⟨inTime.order, ?_⟩
    intro t member
    exact (inTime.past t member).trans (Nat.add_le_add_right (Nat.le_add_right _ _) _)
  · exact inTime

theorem hookBusEvent_inTime (inTime : InTime m) (event : Z80Event) (masterTicks : ℕ) (transition epoch : Bool)
    (written : ℕ → Byte)
    (onTime : event = .reset_release → ¬(faulted m = true ∧ a.rearmFaultedOnEpoch = false) →
      ∀ t ∈ portTimes m.cpu.host, t ≤ ceilToZ80Clock masterTicks) :
    InTime (hookBusEvent a m event masterTicks transition epoch written).1 := by
  have resumed := resumeAt_inTime (rearm_inTime (a := a) (onEvent_inTime inTime event masterTicks onTime) epoch)
    transition masterTicks
  rw [hookBusEvent]
  split_ifs
  · exact Timely.same resumed rfl
  · exact resumed

theorem edge_machine (s : Sound D) (wasRunnable : Bool) (event : Z80Event) (masterTicks : ℕ) :
    let transition := runnableBus s.machine && !wasRunnable
    let epoch := transition && !s.executed
    (edge a s wasRunnable event masterTicks).1.machine =
      (hookBusEvent a (countEpoch s.machine epoch) event masterTicks transition epoch s.written).1 := by
  rw [edge]
  split_ifs <;> rfl

theorem countEpoch_host (m : Machine D) (epoch : Bool) :
    (countEpoch m epoch).cpu = m.cpu ∧ faulted (countEpoch m epoch) = faulted m := by
  cases epoch <;> exact ⟨rfl, rfl⟩

theorem edge_inTime (inTime : InTime s.machine) (wasRunnable : Bool) (event : Z80Event) (masterTicks : ℕ)
    (onTime : event = .reset_release → ¬(faulted s.machine = true ∧ a.rearmFaultedOnEpoch = false) →
      ∀ t ∈ portTimes s.machine.cpu.host, t ≤ ceilToZ80Clock masterTicks) :
    InTime (edge a s wasRunnable event masterTicks).1.machine := by
  rw [edge_machine]
  let epoch := runnableBus s.machine && !wasRunnable && !s.executed
  rcases countEpoch_host s.machine epoch with ⟨cpu, fault⟩
  apply hookBusEvent_inTime
  · rw [InTime, Machine.masterTicks, cpu]
    exact inTime
  · rw [fault, cpu]
    exact onTime

theorem step_inTime (inTime : InTime s.machine) (e : Event D) (onTime : OnTime a s e) :
    InTime (step a s e).1.machine := by
  cases e with
  | run_to masterTicks => exact (runTo_advances a.program a.board s.machine masterTicks).inTime inTime
  | outside o => exact Timely.same inTime rfl
  | bus register set masterTicks =>
    cases register with
    | busreq =>
      have noReset : (if set then Z80Event.busreq_assert else .busreq_release) ≠ .reset_release := by
        cases set <;> exact Z80Event.noConfusion
      by_cases same : set = s.machine.busRequested
      · simp only [step, z80BusWrite, if_pos same]
        exact inTime
      · simp only [step, z80BusWrite, if_neg same]
        refine edge_inTime ?_ _ _ masterTicks fun release => absurd release noReset
        exact inTime
    | reset =>
      by_cases same : set = s.machine.resetReleased
      · simp only [step, z80BusWrite, if_pos same]
        exact inTime
      · simp only [step, z80BusWrite, if_neg same]
        refine edge_inTime ?_ _ _ masterTicks ?_
        · exact inTime
        · intro release
          cases set with
          | false => exact Z80Event.noConfusion release
          | true => exact onTime (Bool.eq_false_of_not_eq_true fun released => same released.symm)

end Events

/-! ## Every run -/

/-- The condition, at every step of a run. -/
def AllOnTime (a : Attachment D Digest) : Sound D → List (Event D) → Prop
  | _, [] => True
  | s, e :: events => OnTime a s e ∧ AllOnTime a (step a s e).1 events

section Run

variable {a : Attachment D Digest} {s : Sound D}

theorem run_inTime (events : List (Event D)) : ∀ s : Sound D, InTime s.machine → AllOnTime a s events →
    InTime (run a s events).machine := by
  induction events with
  | nil => exact fun s inTime _ => inTime
  | cons e events ih =>
    intro s inTime onTime
    exact ih (step a s e).1 (step_inTime inTime e onTime.1) onTime.2

/-- From a machine that has shown no sound chip a time yet. While no release of /RESET comes before
the last of the times, these never go backwards; and a call to `masterTicks` begins only
instructions before `masterTicks`. -/
theorem deviceTimes_inOrder (a : Attachment D Digest) (s : Sound D) (fresh : s.machine.cpu.host.accesses = [])
    (events : List (Event D)) (onTime : AllOnTime a s events) :
    (portTimes (run a s events).machine.cpu.host).Pairwise (· ≤ ·) ∧
      ∀ earlier masterTicks later, events = earlier ++ .run_to masterTicks :: later →
        BeganBefore masterTicks (run a s earlier).machine (run a s (earlier ++ [.run_to masterTicks])).machine := by
  constructor
  · have start : InTime s.machine := by
      have none : portTimes s.machine.cpu.host = [] := by rw [portTimes, fresh]; rfl
      exact ⟨none ▸ List.Pairwise.nil, fun t member => absurd (none ▸ member) List.not_mem_nil⟩
    exact (run_inTime events s start onTime).order
  · intro earlier masterTicks later shape
    rw [run, run, List.foldl_append]
    exact (runTo_advances a.program a.board _ masterTicks).began

end Run

/-! ## A pulse on /RESET -/

def tStates (count : ℕ) : TStates := ⟨count + 1, Nat.succ_pos count⟩

/-- `LD ($4000),A`: the first YM2612 port. -/
def ldYmA : Instruction := fun c =>
  .access (.write 0x4000 c.a) fun _ =>
    .done ({ c with r := z80RAdd c.r 1, pc := c.pc + 3, wz := c.a ++ (0x01 : Byte), q := 0 }, tStates 12)

def ldHl (value : Addr) : Instruction := fun c =>
  .done ({ c.setHl value with r := z80RAdd c.r 1, pc := c.pc + 3, q := 0 }, tStates 9)

def ldDe (value : Addr) : Instruction := fun c =>
  .done ({ c with d := value.extractLsb' 8 8, e := value.extractLsb' 0 8, r := z80RAdd c.r 1, pc := c.pc + 3, q := 0 },
    tStates 9)

/-- A byte to the YM2612, then one of the cartridge to the PSG. -/
def copier : Program CodeView where
  entry code pc :=
    if code.1 = 0 then .reject .unknown_image_identity
    else if pc = 0 then .instr ldYmA
    else if pc = 3 then .instr (ldHl 0x8000)
    else if pc = 6 then .instr (ldDe 0x7F11)
    else if pc = 9 then .instr (lowerBlock .ldi 0)
    else .reject .no_owner
  lock_next code pc lock := by split_ifs at lock

/-- The bitmap of the eleven bytes that the 68000 wrote. -/
def uploaded : ℕ → Byte := fun i => ([0xFF, 0x07] : List Byte).getD i 0

def copierRam : BitVec 13 → Byte := fun i =>
  ([0x32, 0x00, 0x40, 0x21, 0x00, 0x80, 0x11, 0x11, 0x7F, 0xED, 0xA0] : List Byte).getD i.toNat 0

def digest (message : List Byte) : List Byte :=
  Sha256.genesisSha256Final (Sha256.genesisSha256Update Sha256.genesisSha256Init message)

def chips : Attachment Unit (List Byte) where
  program := copier
  board :=
    { ports := ⟨fun d _ _ => (some 0, d), fun d _ _ _ => (true, d), fun d _ _ => (true, d)⟩
      ownedRegions := [⟨0, 0x8000, 0x8000, fun _ => 0x9F⟩] }
  ymReset d _ := d
  sha256 := digest
  table := [Z80Images.signatureDigest digest ⟨fun i => copierRam (BitVec.ofNat 13 i), uploaded⟩]

/-- Just attached: the Z80 is held in reset. -/
def attached : Sound Unit where
  machine :=
    { cpu :=
        { state := z80Reset
          host := { z80Ram := fun _ => 0, devices := (), workRam := fun _ => 0 } }
      resetReleased := false }

/-- The 68000 takes the bus, uploads the program and starts it with a reset. -/
def boot : List (Event Unit) :=
  [.bus .busreq true 0, .bus .reset true 56,
    .outside { z80Ram := copierRam, bank := 0, devices := (), workRam := fun _ => 0, written := uploaded },
    .bus .reset false 112, .bus .busreq false 168, .bus .reset true 224]

/-- Two MOVE.W instructions in a row, 56 ticks apart, assert /RESET and release it again. -/
def pulse : List (Event Unit) :=
  [.run_to 721, .bus .reset false 721, .run_to 777, .bus .reset true 777, .run_to 833]

def Event.time {D : Type} : Event D → Option ℕ
  | .run_to masterTicks => some masterTicks
  | .bus _ _ masterTicks => some masterTicks
  | .outside _ => none

theorem imageForSignature_only (signature : List Byte) : Z80Images.imageForSignature [signature] signature = 1 := by
  simp [Z80Images.imageForSignature, List.findIdx?_cons]

theorem activate_upload {m : Machine Unit} (healthy : faulted m = false) (first : m.lastBound = 0)
    (ram : m.cpu.host.z80Ram = copierRam) : activate chips m uploaded = (bind m 1 1, none) := by
  have sha256 : chips.sha256 = digest := rfl
  have table : chips.table =
      [Z80Images.signatureDigest digest ⟨fun i => copierRam (BitVec.ofNat 13 i), uploaded⟩] := rfl
  rw [activate, Z80Images.activateImage_lookup, ram, sha256, table, imageForSignature_only]
  · rfl
  · exact healthy
  · intro restarts
    exact restarts.2 first

theorem activate_again {m : Machine Unit} (healthy : faulted m = false) (bound : m.lastBound = 1) :
    activate chips m (fun _ => 0) = (bind m 1 1, none) := by
  rw [activate, Z80Images.activateImage_restart]
  · rw [bound]
    rfl
  · exact healthy
  · refine ⟨Z80Images.extents_silent, ?_⟩
    rw [bound]
    exact Nat.one_ne_zero

/-- The Z80 that a release of /RESET restarts. -/
def released (m : Machine Unit) (masterTicks : ℕ) : Machine Unit :=
  let m := { m with resetReleased := true, epochCount := m.epochCount + 1 }
  bind (resumeAt (resetAt (ymPortReset chips m masterTicks) masterTicks) true masterTicks) 1 1

theorem reset_release {s : Sound Unit} (held : s.machine.resetReleased = false) (free : s.machine.busRequested = false)
    (healthy : faulted s.machine = false)
    (known : ∀ m : Machine Unit, faulted m = false → m.lastBound = s.machine.lastBound →
      m.cpu.host.z80Ram = s.machine.cpu.host.z80Ram → activate chips m s.written = (bind m 1 1, none))
    (masterTicks : ℕ) :
    z80BusWrite chips s .reset true masterTicks =
      ({ machine := released s.machine masterTicks, executed := true, written := fun _ => 0 }, none) := by
  let m := { s.machine with resetReleased := true, epochCount := s.machine.epochCount + 1 }
  let resumed := resumeAt (resetAt (ymPortReset chips m masterTicks) masterTicks) true masterTicks
  have kept : faulted resumed = false ∧ resumed.lastBound = s.machine.lastBound ∧
      resumed.cpu.host.z80Ram = s.machine.cpu.host.z80Ram := by
    change faulted (resumeAt _ _ _) = _ ∧ (resumeAt _ _ _).lastBound = _ ∧ (resumeAt _ _ _).cpu.host.z80Ram = _
    rw [resumeAt]
    split_ifs <;> exact ⟨healthy, rfl, rfl⟩
  have activated := known resumed kept.1 kept.2.1 kept.2.2
  have turned : ¬true = s.machine.resetReleased := by rw [held]; exact Bool.noConfusion
  have runs : runnableBus { s.machine with resetReleased := true } = true := by simp [runnableBus, free]
  have idle : runnableBus s.machine = false := by simp [runnableBus, held]
  have hooked : hookBusEvent chips
      { s.machine with resetReleased := true, epochCount := s.machine.epochCount + 1 } .reset_release masterTicks true
      true s.written = (bind resumed 1 1, none) := by
    change hookBusEvent chips m .reset_release masterTicks true true s.written = _
    have reset : onEvent chips m .reset_release masterTicks =
        resetAt (ymPortReset chips m masterTicks) masterTicks := by
      have sane : (faulted (ymPortReset chips m masterTicks) && !chips.rearmFaultedOnEpoch) = false := by
        change (faulted s.machine && true) = false
        rw [healthy]
        rfl
      rw [onEvent]
      exact if_neg (Bool.eq_false_iff.mp sane)
    have armed : rearm chips (resetAt (ymPortReset chips m masterTicks) masterTicks) true =
        resetAt (ymPortReset chips m masterTicks) masterTicks := if_neg Bool.false_ne_true
    rw [hookBusEvent, reset, armed, if_pos rfl]
    exact activated
  simp only [z80BusWrite, if_neg turned, edge, runs, idle, Bool.not_false, Bool.and_true, Bool.not_true, Bool.false_and,
    if_pos, countEpoch, hooked, Option.isSome_none, Bool.false_eq_true, if_false, Bool.false_or,
    Bool.true_or]
  rfl

theorem reset_assert {s : Sound Unit} (running : s.machine.resetReleased = true) (masterTicks : ℕ) :
    z80BusWrite chips s .reset false masterTicks =
      ({ machine := { s.machine with resetReleased := false }, executed := s.executed, written := s.written }, none) := by
  have turned : ¬false = s.machine.resetReleased := by rw [running]; exact Bool.noConfusion
  have stopped : runnableBus { s.machine with resetReleased := false } = false := rfl
  have hooked : hookBusEvent chips { s.machine with resetReleased := false } .reset_assert masterTicks false false
      s.written = ({ s.machine with resetReleased := false }, none) := rfl
  simp only [z80BusWrite, if_neg turned, edge, stopped, Bool.false_and, countEpoch, Bool.false_eq_true, if_false, hooked,
    Option.isSome_none, Bool.or_false, Bool.not_false, Bool.true_and]

/-- Held in reset, with the upload in its RAM. -/
def held : Sound Unit := run chips attached (boot.take 5)

theorem held_facts : held.machine.resetReleased = false ∧ held.machine.busRequested = false ∧
    faulted held.machine = false ∧ held.machine.lastBound = 0 := by decide

theorem held_upload : held.machine.cpu.host.z80Ram = copierRam ∧ held.written = uploaded := ⟨rfl, rfl⟩

theorem run_cons (a : Attachment D Digest) (s : Sound D) (e : Event D) (events : List (Event D)) :
    run a s (e :: events) = run a (step a s e).1 events := by
  rw [run, List.foldl_cons, ← run]

theorem run_runTo (a : Attachment D Digest) (s : Sound D) (masterTicks : ℕ) (events : List (Event D)) :
    run a s (.run_to masterTicks :: events) =
      run a { s with machine := (runTo a.program a.board s.machine masterTicks).1 } events := by
  rw [run_cons, step]

theorem run_append (a : Attachment D Digest) (s : Sound D) (first second : List (Event D)) :
    run a s (first ++ second) = run a (run a s first) second := by
  rw [run, List.foldl_append, ← run, ← run]

theorem run_boot : run chips attached boot = { machine := released held.machine 224, executed := true } := by
  have whole : boot = boot.take 5 ++ [.bus .reset true 224] := rfl
  have first : run chips attached (boot.take 5) = held := rfl
  rw [whole, run_append, first, run_cons, step, reset_release held_facts.1 held_facts.2.1 held_facts.2.2.1]
  · rfl
  intro m sane last ram
  rw [held_upload.2]
  exact activate_upload sane (last.trans held_facts.2.2.2) (ram.trans held_upload.1)

/-- The program as it runs, up to the pulse. -/
def playing : Machine Unit := (runTo chips.program chips.board (released held.machine 224) 721).1

/-- Held in reset in the middle of the pulse. -/
def pulsed : Machine Unit :=
  (runTo chips.program chips.board { playing with resetReleased := false } 777).1

theorem playing_facts : playing.resetReleased = true ∧ pulsed.resetReleased = false ∧ pulsed.busRequested = false ∧
    faulted pulsed = false ∧ pulsed.lastBound = 1 := by decide

theorem run_pulse : (run chips attached (boot ++ pulse)).machine =
    (runTo chips.program chips.board (released pulsed 777) 833).1 := by
  have played : (runTo chips.program chips.board (released held.machine 224) 721).1 = playing := rfl
  have kept : (runTo chips.program chips.board { playing with resetReleased := false } 777).1 = pulsed := rfl
  have again : ∀ m : Machine Unit, faulted m = false → m.lastBound = pulsed.lastBound →
      m.cpu.host.z80Ram = pulsed.cpu.host.z80Ram → activate chips m (fun _ => 0) = (bind m 1 1, none) :=
    fun m sane last _ => activate_again sane (last.trans playing_facts.2.2.2.2)
  have restarted := reset_release (s := { machine := pulsed, executed := true }) playing_facts.2.1 playing_facts.2.2.1
    playing_facts.2.2.2.1 again 777
  rw [run_append, run_boot, pulse, run_runTo, played, run_cons, step, reset_assert playing_facts.1, run_runTo, kept,
    run_cons, step, restarted, run_runTo, run, List.foldl_nil]

/-- The times of the program's first byte, of the byte to the PSG and of the first byte again. -/
theorem portTimes_pulse : portTimes (run chips attached (boot ++ pulse)).machine.cpu.host = [225, 810, 780] := by
  rw [run_pulse]
  decide

/-- At times in order, the pulse takes the PSG's byte back behind the next one of the YM2612. -/
theorem not_deviceTimes_inOrder :
    ((boot ++ pulse).filterMap Event.time).Pairwise (· ≤ ·) ∧ attached.machine.cpu.host.accesses = [] ∧
      ¬(portTimes (run chips attached (boot ++ pulse)).machine.cpu.host).Pairwise (· ≤ ·) := by
  refine ⟨by decide, rfl, ?_⟩
  rw [portTimes_pulse]
  decide

/-- A pulse of sixteen clocks of the 68000 is long enough. -/
def longPulse : List (Event Unit) := [.run_to 721, .bus .reset false 721, .bus .reset true 833, .run_to 1000]

theorem deviceTimes_inOrder_longPulse :
    (portTimes (run chips { machine := released held.machine 224, executed := true } longPulse).machine.cpu.host).Pairwise
      (· ≤ ·) := by
  have onTime : AllOnTime chips { machine := released held.machine 224, executed := true } longPulse :=
    ⟨trivial, trivial, fun _ _ => by decide, trivial, trivial⟩
  exact (deviceTimes_inOrder chips { machine := released held.machine 224, executed := true } rfl longPulse onTime).1

end Segarecomp.Genesis.Z80DeviceTimes

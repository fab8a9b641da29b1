import Segarecomp.Genesis.ScheduleRun

/-! The wait of a stopped CPU: the VDP presents one request level at the start of every line, and the
wait ends at the first one the machine answers. -/

namespace Segarecomp.Genesis.Schedule

open M68k.ExceptionCore Lib.Periodic
open Z80Machine (masterTicksPerLine masterTicksPerFrame vblankOnsetTick)

variable {R F : Type}

/-! ## What a stopped CPU waits for -/

namespace Screen

/-- The line the clock is in. -/
def line (s : Screen F) : ℕ := s.masterTicks / masterTicksPerLine

/-- The screen once line `n` has started, when nothing but time passes. -/
def atLine (s : Screen F) (n : ℕ) : Screen F := (s.lines s.line n).1

/-- The level the VDP presents at the start of line `n`. -/
def presented (s : Screen F) (n : ℕ) : BitVec 32 := requestLevel (s.atLine n)

end Screen

/-- The first whole CPU cycle at or after a tick. -/
def wholeCycle (clock tick : ℕ) : ℕ := clock + ceilCycles (tick - clock) * m68kCycleMasterTicks

namespace GenesisRuntime

variable (r : GenesisRuntime R F)

/-- The interrupt mask of the status register. -/
def mask : BitVec 32 := ((r.sr &&& srInterruptMask) >>> 8).setWidth 32

/-- The build-resolved handler of a request level. -/
def handlerOf (level : BitVec 32) : Option (BitVec 32) :=
  if level = 6 then r.irq6Handler
  else if level = 4 then r.softwareExceptionHandler vectorLevel4Autovector.toNat
  else none

/-- Whether a recognized request without a handler ends the run. -/
def failsClosed (level : BitVec 32) : Bool :=
  if level = 6 then r.irq6VectorInWorkRam else level = 4 && r.raster.hintStrict

end GenesisRuntime

def missingHandlerStop (level : BitVec 32) : RuntimeStop :=
  schedulingStop (if level = 6 then .irq6_vector_in_work_ram else .hint_handler_not_installed)

/-- A request above the mask that is answered: by its handler or by the missing-handler stop. -/
structure Deliverable (r : GenesisRuntime R F) (level : BitVec 32) : Prop where
  above : r.mask < level
  answered : (r.handlerOf level).isSome = true ∨ r.failsClosed level = true

/-- Line `n` is the first one whose request is deliverable. -/
structure WakesAt (r : GenesisRuntime R F) (n : ℕ) : Prop where
  later : r.line < n
  wakes : Deliverable r (r.presented n)
  first : ∀ k, r.line < k → k < n → ¬ Deliverable r (r.presented k)

/-- The processor has not run: its registers and its handlers are as they were. -/
structure Idle (r r' : GenesisRuntime R F) : Prop where
  a7 : r'.a7 = r.a7
  usp : r'.usp = r.usp
  sr : r'.sr = r.sr
  pc : r'.pc = r.pc
  irq6Handler : r'.irq6Handler = r.irq6Handler
  irq6VectorInWorkRam : r'.irq6VectorInWorkRam = r.irq6VectorInWorkRam
  handlers : r'.softwareExceptionHandler = r.softwareExceptionHandler

/-- The wait has come to line `n`, at the first whole cycle of it. -/
structure Arrives (r : GenesisRuntime R F) (n : ℕ) (x : GenesisRuntime R F) : Prop where
  idle : Idle r x
  screen : x.toScreen = (r.atLine n).timed (wholeCycle r.masterTicks (n * masterTicksPerLine))

/-- How an advance of the scheduler itself ends a run. -/
def ClockStop (stop : RuntimeStop) : Prop :=
  stop = schedulingStop .virtual_time_overflow ∨ ∃ z80, stop = .z80 z80

/-- Whether a routed write of the exception frame fails. -/
def frameFails (board : Board R) (x : GenesisRuntime R F) (nextPc : BitVec 32) : Bool :=
  let base := entrySsp (m68kCpuBinding x) - exceptionFrameBytes
  let word := board.frameWrite x.rest (base &&& 0x00FFFFFF) 2 (x.sr.setWidth 32)
  let long := board.frameWrite word.1 ((base + 2) &&& 0x00FFFFFF) 4 nextPc
  word.2 || long.2

/-- Whether the stack can take an exception frame. -/
def frameFits (x : GenesisRuntime R F) : Bool :=
  let base := entrySsp (m68kCpuBinding x) - exceptionFrameBytes
  entrySsp (m68kCpuBinding x) &&& 1 = 0 ∧ base &&& 1 = 0 ∧ workRamContains (base &&& 0x00FFFFFF) 6

/-- How the wait of a runtime ends. -/
inductive WaitEnd (board : Board R) (r : GenesisRuntime R F) (nextPc : BitVec 32) (w : Boundary R F) : Prop
  | delivered (n : ℕ) (wakes : WakesAt r n) (x : GenesisRuntime R F) (arrives : Arrives r n x)
      (handler : BitVec 32) (installed : r.handlerOf (r.presented n) = some handler)
      (entered : (acceptInterrupt board x (r.presented n) nextPc).1 = .ok handler)
      (admission : w.admission = .delivered handler)
  | missing (n : ℕ) (wakes : WakesAt r n) (arrives : Arrives r n w.runtime)
      (uninstalled : r.handlerOf (r.presented n) = none)
      (admission : w.admission = .stopped (missingHandlerStop (r.presented n)))
  | asleep (never : ∀ n, r.line < n → ¬ Deliverable r (r.presented n))
      (admission : w.admission = .stopped (schedulingStop .stopped_without_wake_source))
  | clock (x : GenesisRuntime R F) (cycles : ℕ) (stop : RuntimeStop) (terminal : ClockStop stop)
      (stops : (schedulerAdvance board x cycles).admission = .stopped stop)
      (admission : w.admission = .stopped stop)
  | stack (n : ℕ) (wakes : WakesAt r n) (x : GenesisRuntime R F) (arrives : Arrives r n x)
      (installed : (r.handlerOf (r.presented n)).isSome = true) (unfit : frameFits x = false)
      (admission : w.admission = .stopped (schedulingStop .unsupported_interrupt_or_scheduling_event))
  | frame (n : ℕ) (wakes : WakesAt r n) (x : GenesisRuntime R F) (arrives : Arrives r n x)
      (installed : (r.handlerOf (r.presented n)).isSome = true) (fits : frameFits x = true)
      (fails : frameFails board x nextPc = true) (admission : w.admission = .stopped internalStop)

/-! ## The screen of a later line -/

namespace Screen

variable {s : Screen F} {n : ℕ}

theorem atLine_self (s : Screen F) : s.atLine s.line = s := by
  rw [atLine, lines, sweep_self]

theorem atLine_succ (le : s.line ≤ n) : s.atLine (n + 1) = (lineEvent (s.atLine n, []) (n + 1)).1 := by
  rw [atLine, lines_trans s le (Nat.le_succ n)]
  change (sweep lineEvent n (n + 1) (s.atLine n, [])).1 = _
  rw [sweep_succ le_rfl, sweep_self]

theorem lineEvent_raster (s : Screen F) (frames : List RasterFrameState) (n : ℕ) :
    (lineEvent (s, frames) n).1.raster = s.raster.stepHint s.vdp.register10 (n % linesPerFrame) := by
  rw [lineEvent]
  dsimp only
  split_ifs <;> rfl

theorem lineEvent_vdp (s : Screen F) (frames : List RasterFrameState) (n : ℕ) :
    (lineEvent (s, frames) n).1.vdp = s.vdp := by
  rw [lineEvent]
  dsimp only
  split_ifs <;> rfl

theorem atLine_vdp (le : s.line ≤ n) : (s.atLine n).vdp = s.vdp := by
  induction n, le using Nat.le_induction with
  | base => rw [atLine_self]
  | succ n le ih => rw [atLine_succ le, lineEvent_vdp, ih]

theorem atLine_raster (le : s.line ≤ n) :
    (s.atLine (n + 1)).raster = (s.atLine n).raster.stepHint s.vdp.register10 ((n + 1) % linesPerFrame) := by
  rw [atLine_succ le, lineEvent_raster, atLine_vdp le]

theorem stepHint_strict (raster : RasterScheduler) (register10 : Byte) (line : ℕ) :
    (raster.stepHint register10 line).hintStrict = raster.hintStrict := by
  rw [RasterScheduler.stepHint]
  split_ifs <;> rfl

theorem atLine_strict (le : s.line ≤ n) : (s.atLine n).raster.hintStrict = s.raster.hintStrict := by
  induction n, le using Nat.le_induction with
  | base => rw [atLine_self]
  | succ n le ih => rw [atLine_raster le, stepHint_strict, ih]

theorem atLine_timed {m t : ℕ} (le : s.line ≤ m) (le' : m ≤ n) (line : ((s.atLine m).timed t).line = m) :
    ((s.atLine m).timed t).atLine n = (s.atLine n).timed t := by
  rw [atLine, line, lines_timed, atLine, atLine, lines_trans s le le']

theorem wholeCycle_line {clock : ℕ} (later : clock < n * masterTicksPerLine) :
    wholeCycle clock (n * masterTicksPerLine) / masterTicksPerLine = n := by
  rw [wholeCycle, ceilCycles, m68kCycleMasterTicks, masterTicksPerLine] at *
  omega

variable {l m : ℕ}

theorem pred_toNat {c : Byte} (some' : c ≠ 0) : (c - 1).toNat = c.toNat - 1 := by
  have positive : c.toNat ≠ 0 := fun h => some' (BitVec.eq_of_toNat_eq h)
  have bound := c.isLt
  rw [BitVec.toNat_sub]
  change (2 ^ 8 - 1 + c.toNat) % 2 ^ 8 = c.toNat - 1
  omega

/-- The counter after the start of a line, by how far the frame has come since it was reloaded. -/
def countdown (register10 : Byte) (line : ℕ) : ℕ :=
  if line = linesPerFrame - 1 then register10.toNat else register10.toNat - min (line + 1) rasterMaxLines

theorem reload (le : s.line ≤ n) (last : (n + 1) % linesPerFrame = linesPerFrame - 1) :
    (s.atLine (n + 1)).raster.hintCounter = s.vdp.register10 := by
  rw [atLine_raster le, last, RasterScheduler.stepHint, if_neg (by decide), if_neg (by decide), if_pos rfl]

/-- The counter within the visible lines of a frame, as long as it has not run out. -/
theorem counting (le : s.line ≤ m) (last : m % linesPerFrame = linesPerFrame - 1)
    (start : (s.atLine m).raster.hintCounter = s.vdp.register10) (i : ℕ)
    (visible : i ≤ rasterMaxLines) (within : i ≤ s.vdp.register10.toNat) :
    (s.atLine (m + i)).raster.hintCounter.toNat = s.vdp.register10.toNat - i := by
  induction i with
  | zero => rw [Nat.add_zero, start, Nat.sub_zero]
  | succ i ih =>
      have before := ih (by omega) (by omega)
      have nonzero : (s.atLine (m + i)).raster.hintCounter ≠ 0 := by
        intro zero
        rw [zero] at before
        change 0 = _ at before
        omega
      have line : (m + i + 1) % linesPerFrame = i := by
        rw [linesPerFrame, rasterMaxLines] at *
        omega
      have shown : i < rasterMaxLines := visible
      rw [← Nat.add_assoc, atLine_raster (by omega), line, RasterScheduler.stepHint, if_pos shown,
        if_neg nonzero]
      change ((s.atLine (m + i)).raster.hintCounter - 1).toNat = _
      rw [pred_toNat nonzero, before]
      omega

/-- A counter that starts within the visible lines runs out at the line it names. -/
theorem latches (le : s.line ≤ m) (last : m % linesPerFrame = linesPerFrame - 1)
    (start : (s.atLine m).raster.hintCounter = s.vdp.register10)
    (within : s.vdp.register10.toNat ≤ rasterMaxLines) :
    (s.atLine (m + s.vdp.register10.toNat + 1)).raster.hintPending = true := by
  have counted := counting le last start _ within le_rfl
  have zero : (s.atLine (m + s.vdp.register10.toNat)).raster.hintCounter = 0 := by
    apply BitVec.eq_of_toNat_eq
    rw [counted, Nat.sub_self]
    rfl
  have line : (m + s.vdp.register10.toNat + 1) % linesPerFrame = s.vdp.register10.toNat := by
    rw [linesPerFrame, rasterMaxLines] at *
    omega
  rw [atLine_raster (by omega), line, RasterScheduler.stepHint, if_pos zero, if_pos zero]
  rcases Nat.lt_or_eq_of_le within with visible | onset
  · rw [if_pos visible]
  · have blank : ¬ s.vdp.register10.toNat < rasterMaxLines := by omega
    have edge : s.vdp.register10.toNat = vblankOnsetLine := onset
    rw [if_neg blank, if_pos edge]

end Screen

variable {r x : GenesisRuntime R F} {n : ℕ}

theorem not_deliverable_zero : ¬ Deliverable r 0 := fun deliverable => by
  have above : r.mask < 0 := deliverable.above
  exact absurd above (BitVec.not_lt_zero)

/-- An answered request has a source the wait looked for. -/
theorem Deliverable.source {level : BitVec 32} (deliverable : Deliverable r level) :
    level = 6 ∧ (r.irq6Handler.isSome || r.irq6VectorInWorkRam) = true ∨
      level = 4 ∧ ((r.softwareExceptionHandler vectorLevel4Autovector.toNat).isSome || r.raster.hintStrict) =
        true := by
  have answered := deliverable.answered
  rw [GenesisRuntime.handlerOf, GenesisRuntime.failsClosed] at answered
  by_cases six : level = 6
  · rw [if_pos six, if_pos six] at answered
    exact .inl ⟨six, Bool.or_eq_true_iff.mpr answered⟩
  · rw [if_neg six, if_neg six] at answered
    by_cases four : level = 4
    · rw [if_pos four, decide_eq_true four, Bool.true_and] at answered
      exact .inr ⟨four, Bool.or_eq_true_iff.mpr answered⟩
    · rw [if_neg four, decide_eq_false four, Bool.false_and] at answered
      rcases answered with none | none
      · exact absurd none Bool.false_ne_true
      · exact absurd none Bool.false_ne_true

end Segarecomp.Genesis.Schedule

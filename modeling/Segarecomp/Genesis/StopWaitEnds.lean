import Segarecomp.Genesis.StopWait

/-! How the wait of a stopped CPU ends. -/

namespace Segarecomp.Genesis.Schedule

open M68k.ExceptionCore
open Z80Machine (masterTicksPerLine masterTicksPerFrame vblankOnsetTick)

variable {R F : Type} {board : Board R} {r x y : GenesisRuntime R F} {b : Boundary R F} {n : ℕ}
  {level nextPc : BitVec 32}

/-! ## Advances -/

theorem Idle.refl (r : GenesisRuntime R F) : Idle r r := ⟨rfl, rfl, rfl, rfl, rfl, rfl, rfl⟩

theorem Idle.trans (first : Idle r x) (second : Idle x y) : Idle r y :=
  ⟨second.a7.trans first.a7, second.usp.trans first.usp, second.sr.trans first.sr, second.pc.trans first.pc,
    second.irq6Handler.trans first.irq6Handler, second.irq6VectorInWorkRam.trans first.irq6VectorInWorkRam,
    second.handlers.trans first.handlers⟩

theorem schedulerAdvance_stop {cycles : ℕ} {stop : RuntimeStop} (some' : cycles ≠ 0)
    (stops : (schedulerAdvance board r cycles).admission = .stopped stop) : ClockStop stop := by
  rw [schedulerAdvance] at stops
  dsimp only at stops
  rw [if_neg some'] at stops
  split_ifs at stops
  · exact .inl (Admission.stopped.inj stops).symm
  · exact .inl (Admission.stopped.inj stops).symm
  · cases followed : (z80Follow board r (r.masterTicks + cycles * m68kCycleMasterTicks)).2 with
    | some z80 =>
        rw [followed] at stops
        exact .inr ⟨z80, (Admission.stopped.inj stops).symm⟩
    | none =>
        rw [followed] at stops
        exact absurd stops Admission.noConfusion

/-! ## The recognized request -/

/-- A runtime right after the scheduler sampled its request level. -/
structure Sampled (x : GenesisRuntime R F) : Prop where
  edge : x.m68kInterrupt.level7EdgePending = false
  level : x.m68kInterrupt.sampledLevel.setWidth 32 = requestLevel x.toScreen

theorem Sampled.recognized (sampled : Sampled x) :
    interruptRecognizedLevel x.m68kInterrupt x.sr =
      if x.mask < requestLevel x.toScreen then requestLevel x.toScreen else 0 := by
  rw [interruptRecognizedLevel, sampled.edge, sampled.level, if_neg Bool.false_ne_true]
  rfl

/-! ## Entering a handler -/

theorem interruptVector_six : interruptVector .autovector 6 0 = vectorLevel6Autovector := by decide

theorem interruptVector_four : interruptVector .autovector 4 0 = vectorLevel4Autovector := by decide

theorem handlerOf_cases {entry : BitVec 32} (installed : x.handlerOf level = some entry) :
    (level = 6 ∨ level = 4) ∧ resolveVector x (interruptVector .autovector level 0) = some entry := by
  rw [GenesisRuntime.handlerOf] at installed
  split_ifs at installed with six four
  · exact ⟨.inl six, by rw [six, interruptVector_six]; exact installed⟩
  · exact ⟨.inr four, by rw [four, interruptVector_four]; exact installed⟩

theorem resolve_installed {vector entry : BitVec 32} (installed : resolveVector x vector = some entry)
    (m : R × Bool) : (exceptionHooks board x).resolveVector m vector = (.handler, entry, m) := by
  rw [exceptionHooks]
  dsimp only
  rw [installed]

theorem exceptionEnter_fits (board : Board R) {vector entry : BitVec 32} (nextPc : BitVec 32)
    (keep forced : BitVec 16) (installed : resolveVector x vector = some entry) (fits : frameFits x = true) :
    let out := exceptionEnter (exceptionHooks board x) (m68kCpuBinding x) vector nextPc keep forced
    out.status = .ok ∧ out.state.machine.2 = frameFails board x nextPc ∧ out.out = some entry := by
  rw [frameFits, decide_eq_true_iff] at fits
  obtain ⟨even, aligned, contained⟩ := fits
  have validated : ((exceptionHooks board x).validateStackExtent (m68kCpuBinding x).machine
      (entrySsp (m68kCpuBinding x) - exceptionFrameBytes) exceptionFrameBytes .write).1 = true :=
    decide_eq_true ⟨aligned, contained⟩
  intro out
  have shape : out = exceptionEnter (exceptionHooks board x) (m68kCpuBinding x) vector nextPc keep forced := rfl
  rw [exceptionEnter] at shape
  rw [if_neg (by exact Bool.false_ne_true), if_neg (not_not.mpr even), validated, if_neg (by decide),
    resolve_installed installed, if_neg (not_not.mpr rfl)] at shape
  rw [shape]
  refine ⟨rfl, ?_, rfl⟩
  have notified (m : R × Bool) : (if vector = vectorLevel6Autovector then
      (board.noteIrq6ExceptionFrame m.1 ((entrySsp (m68kCpuBinding x) - exceptionFrameBytes) &&& 0x00FFFFFF), m.2)
      else m).2 = m.2 := by
    split_ifs <;> rfl
  refine (notified _).trans ?_
  rw [frameFails]
  rfl

theorem exceptionEnter_unfit (board : Board R) (vector nextPc : BitVec 32) (keep forced : BitVec 16)
    (unfit : frameFits x = false) :
    let out := exceptionEnter (exceptionHooks board x) (m68kCpuBinding x) vector nextPc keep forced
    out.status = .stack_invalid ∧ out.state.machine.2 = false := by
  rw [frameFits, decide_eq_false_iff_not] at unfit
  intro out
  have shape : out = exceptionEnter (exceptionHooks board x) (m68kCpuBinding x) vector nextPc keep forced := rfl
  rw [exceptionEnter, if_neg (by exact Bool.false_ne_true)] at shape
  by_cases even : entrySsp (m68kCpuBinding x) &&& 1 = 0
  · have refused : ((exceptionHooks board x).validateStackExtent (m68kCpuBinding x).machine
        (entrySsp (m68kCpuBinding x) - exceptionFrameBytes) exceptionFrameBytes .write).1 = false :=
      decide_eq_false fun valid => unfit ⟨even, valid.1, valid.2⟩
    rw [if_neg (not_not.mpr even), refused, if_pos (by decide)] at shape
    rw [shape]
    exact ⟨rfl, rfl⟩
  · rw [if_pos even] at shape
    rw [shape]
    exact ⟨rfl, rfl⟩

theorem interruptEnter_answer {M : Type} (hooks : MachineHooks M) (s : State M) {level vector : BitVec 32}
    (stackedPc : BitVec 32) (leveled : ¬ (level < 1 ∨ level > 7)) (vectored : vector ≠ 0) :
    let out := interruptEnter hooks s level vector stackedPc
    let entered := exceptionEnter hooks s vector stackedPc (0xFFFF &&& ~~~(srTrace ||| srInterruptMask))
      (srSupervisor ||| (level <<< 8).setWidth 16)
    out.status = entered.status ∧ out.state.machine = entered.state.machine ∧ out.out = entered.out := by
  rw [interruptEnter, if_neg leveled, if_neg vectored]
  dsimp only
  split_ifs
  · exact ⟨rfl, rfl, rfl⟩
  · exact ⟨rfl, rfl, rfl⟩
  · exact ⟨rfl, rfl, rfl⟩

variable (board nextPc) in
theorem acceptInterrupt_handler {entry : BitVec 32} (installed : x.handlerOf level = some entry) :
    (acceptInterrupt board x level nextPc).1 =
      if frameFits x = false then .error (schedulingStop .unsupported_interrupt_or_scheduling_event)
      else if frameFails board x nextPc = true then .error internalStop
      else .ok entry := by
  obtain ⟨known, resolved⟩ := handlerOf_cases installed
  have leveled : ¬ (level < 1 ∨ level > 7) := by
    rcases known with rfl | rfl <;> decide
  have vectored : interruptVector .autovector level 0 ≠ 0 := by
    rcases known with rfl | rfl <;> decide
  obtain ⟨status, machine, out⟩ := interruptEnter_answer (exceptionHooks board x) (m68kCpuBinding x)
    nextPc leveled vectored
  rw [acceptInterrupt]
  dsimp only
  rw [finishExceptionEntry, status, machine, out]
  cases fits : frameFits x with
  | true =>
      obtain ⟨ok, written, handler⟩ := exceptionEnter_fits board nextPc
        (0xFFFF &&& ~~~(srTrace ||| srInterruptMask)) (srSupervisor ||| (level <<< 8).setWidth 16) resolved fits
      rw [ok, written, handler]
      cases frameFails board x nextPc <;> rfl
  | false =>
      obtain ⟨invalid, unwritten⟩ := exceptionEnter_unfit board (interruptVector .autovector level 0) nextPc
        (0xFFFF &&& ~~~(srTrace ||| srInterruptMask)) (srSupervisor ||| (level <<< 8).setWidth 16) fits
      rw [invalid, unwritten]
      rfl

/-! ## The admission of a sampled request -/

variable (board nextPc) in
theorem admitRecognized_answer (sampled : Sampled b.runtime)
    (deliverable : Deliverable b.runtime (requestLevel b.runtime.toScreen)) :
    (∃ entry rearm, b.runtime.handlerOf (requestLevel b.runtime.toScreen) = some entry ∧
      admitRecognized board b nextPc =
        enterInterrupt board b (requestLevel b.runtime.toScreen) nextPc rearm) ∨
    b.runtime.handlerOf (requestLevel b.runtime.toScreen) = none ∧
      admitRecognized board b nextPc =
        { b with admission := .stopped (missingHandlerStop (requestLevel b.runtime.toScreen)) } := by
  have answered := deliverable.answered
  rw [GenesisRuntime.handlerOf, GenesisRuntime.failsClosed] at answered
  rw [admitRecognized, sampled.recognized, if_pos deliverable.above, GenesisRuntime.handlerOf]
  rcases requestLevel_cases b.runtime.toScreen with six | four | zero
  · rw [six] at answered ⊢
    rw [if_pos rfl, if_pos rfl] at answered
    change (∃ entry rearm, b.runtime.irq6Handler = some entry ∧ admitVblank board b 6 nextPc = _) ∨
      b.runtime.irq6Handler = none ∧ admitVblank board b 6 nextPc = _
    rw [admitVblank]
    cases handler : b.runtime.irq6Handler with
    | some entry => exact .inl ⟨entry, clearVblankPending, rfl, rfl⟩
    | none =>
        have ram : b.runtime.irq6VectorInWorkRam = true := by
          rw [handler] at answered
          exact answered.resolve_left Bool.false_ne_true
        right
        rw [if_pos (by rfl), if_pos ram]
        exact ⟨rfl, rfl⟩
  · rw [four] at answered ⊢
    change (b.runtime.softwareExceptionHandler vectorLevel4Autovector.toNat).isSome = true ∨
      b.runtime.raster.hintStrict = true at answered
    change (∃ entry rearm, b.runtime.softwareExceptionHandler vectorLevel4Autovector.toNat = some entry ∧
        admitHint board b 4 nextPc = _) ∨
      b.runtime.softwareExceptionHandler vectorLevel4Autovector.toNat = none ∧ admitHint board b 4 nextPc = _
    rw [admitHint]
    cases handler : b.runtime.softwareExceptionHandler vectorLevel4Autovector.toNat with
    | some entry => exact .inl ⟨entry, (setHintPending · false), rfl, rfl⟩
    | none =>
        have strict : b.runtime.raster.hintStrict = true := by
          rw [handler] at answered
          exact answered.resolve_left Bool.false_ne_true
        right
        rw [if_pos (by rfl), if_pos strict]
        exact ⟨rfl, rfl⟩
  · rw [zero] at deliverable
    exact absurd deliverable not_deliverable_zero

theorem entryCycles_known {entry : BitVec 32} (installed : x.handlerOf level = some entry) :
    exceptionEntryCycles (interruptVector .autovector level 0) ≠ 0 := by
  rcases (handlerOf_cases installed).1 with rfl | rfl <;> decide

/-! ## Coming to a line -/

theorem Arrives.vdp (arrives : Arrives r n x) (later : r.line ≤ n) : x.vdp = r.vdp :=
  (congrArg Screen.vdp arrives.screen).trans (Screen.atLine_vdp later)

theorem Arrives.strict (arrives : Arrives r n x) (later : r.line ≤ n) :
    x.raster.hintStrict = r.raster.hintStrict :=
  (congrArg (·.raster.hintStrict) arrives.screen).trans (Screen.atLine_strict later)

theorem Arrives.requests (arrives : Arrives r n x) : requestLevel x.toScreen = r.presented n := by
  rw [arrives.screen]
  rfl

theorem Arrives.mask (arrives : Arrives r n x) : x.mask = r.mask := by
  rw [GenesisRuntime.mask, GenesisRuntime.mask, arrives.idle.sr]

theorem Arrives.handlerOf (arrives : Arrives r n x) (level : BitVec 32) :
    x.handlerOf level = r.handlerOf level := by
  rw [GenesisRuntime.handlerOf, GenesisRuntime.handlerOf, arrives.idle.irq6Handler, arrives.idle.handlers]

theorem Arrives.failsClosed (arrives : Arrives r n x) (later : r.line ≤ n) (level : BitVec 32) :
    x.failsClosed level = r.failsClosed level := by
  rw [GenesisRuntime.failsClosed, GenesisRuntime.failsClosed, arrives.idle.irq6VectorInWorkRam,
    arrives.strict later]

theorem Arrives.deliverable (arrives : Arrives r n x) (later : r.line ≤ n) :
    Deliverable x level ↔ Deliverable r level := by
  constructor
  · intro deliverable
    refine ⟨?_, ?_⟩
    · rw [← arrives.mask]
      exact deliverable.above
    · rw [← arrives.handlerOf, ← arrives.failsClosed later]
      exact deliverable.answered
  · intro deliverable
    refine ⟨?_, ?_⟩
    · rw [arrives.mask]
      exact deliverable.above
    · rw [arrives.handlerOf, arrives.failsClosed later]
      exact deliverable.answered

theorem Arrives.hintWakes (arrives : Arrives r n x) (later : r.line ≤ n) : hintWakes x = hintWakes r := by
  have enabled : x.hintEnabled = r.hintEnabled := by
    rw [Screen.hintEnabled, Screen.hintEnabled, arrives.vdp later]
  rw [Schedule.hintWakes, Schedule.hintWakes, hintSource, hintSource, enabled, arrives.idle.handlers,
    arrives.strict later, arrives.idle.sr]

section Line

variable {m : ℕ}

theorem later_ticks (later : r.line < n) : r.masterTicks < n * masterTicksPerLine :=
  (Nat.div_lt_iff_lt_mul (by decide)).mp later

theorem Arrives.clock (arrives : Arrives r n x) :
    x.masterTicks = wholeCycle r.masterTicks (n * masterTicksPerLine) :=
  congrArg Screen.masterTicks arrives.screen

theorem Arrives.line (arrives : Arrives r n x) (later : r.line < n) : x.line = n := by
  rw [Screen.line, arrives.clock, Screen.wholeCycle_line (later_ticks later)]

theorem Arrives.atLine (arrives : Arrives r m x) (later : r.line < m) (le : m ≤ n) :
    x.atLine n = (r.atLine n).timed x.masterTicks := by
  have line := arrives.line later
  rw [arrives.clock]
  rw [arrives.screen] at line ⊢
  exact Screen.atLine_timed later.le le line

theorem Arrives.presented (arrives : Arrives r m x) (later : r.line < m) (le : m ≤ n) :
    x.presented n = r.presented n := by
  rw [Screen.presented, arrives.atLine later le]
  rfl

/-- Rounding up to whole cycles in two steps is rounding up once. -/
theorem wholeCycle_trans {clock first second : ℕ}
    (within : wholeCycle clock first ≤ second) :
    wholeCycle (wholeCycle clock first) second = wholeCycle clock second := by
  rw [wholeCycle, wholeCycle, wholeCycle, ceilCycles, ceilCycles, ceilCycles, m68kCycleMasterTicks] at *
  omega

theorem Arrives.trans (first : Arrives r m x) (later : r.line < m) (second : Arrives x n y) (further : m < n) :
    Arrives r n y := by
  have within : wholeCycle r.masterTicks (m * masterTicksPerLine) ≤ n * masterTicksPerLine := by
    have line := Screen.wholeCycle_line (later_ticks later)
    have bound : wholeCycle r.masterTicks (m * masterTicksPerLine) < n * masterTicksPerLine :=
      (Nat.div_lt_iff_lt_mul (by decide)).mp (by rw [line]; exact further)
    exact bound.le
  refine ⟨first.idle.trans second.idle, ?_⟩
  rw [second.screen, first.atLine later further.le, Screen.timed_timed, first.clock,
    wholeCycle_trans within]

theorem WakesAt.back (arrives : Arrives r m x) (later : r.line < m) (wakes : WakesAt x n)
    (quiet : ∀ k, r.line < k → k ≤ m → ¬ Deliverable r (r.presented k)) : WakesAt r n := by
  have line := arrives.line later
  have further : m < n := by
    rw [← line]
    exact wakes.later
  refine ⟨later.trans further, ?_, ?_⟩
  · rw [← arrives.presented later further.le]
    exact (arrives.deliverable later.le).mp wakes.wakes
  · intro k past before
    by_cases within : k ≤ m
    · exact quiet k past within
    · rw [← arrives.presented later (by omega), ← arrives.deliverable later.le]
      exact wakes.first k (by omega) before

end Line

variable {w : Boundary R F}

variable (board nextPc) in
/-- A wait that has come to a deliverable request ends there. -/
theorem WaitEnd.answer {a : Boundary R F} (wakes : WakesAt r n) (arrives : Arrives r n a.runtime)
    (sampled : Sampled a.runtime) (admission : w.admission = (admitRecognized board a nextPc).admission)
    (runtime : w.runtime = (admitRecognized board a nextPc).runtime) : WaitEnd board r nextPc w := by
  have later := wakes.later.le
  have requests := arrives.requests
  have deliverable : Deliverable a.runtime (requestLevel a.runtime.toScreen) := by
    rw [requests, arrives.deliverable later]
    exact wakes.wakes
  rcases admitRecognized_answer board nextPc sampled deliverable with
    ⟨entry, rearm, installed, eq⟩ | ⟨uninstalled, eq⟩
  · rw [requests] at installed eq
    rw [eq, enterInterrupt] at admission
    have accepted := acceptInterrupt_handler board nextPc installed
    cases taken : acceptInterrupt board a.runtime (r.presented n) nextPc with
    | mk answer last =>
        rw [taken] at admission accepted
        cases answer with
        | error stop =>
            have some' : (r.handlerOf (r.presented n)).isSome = true := by
              rw [← arrives.handlerOf, installed]
              rfl
            dsimp only at accepted
            split_ifs at accepted with unfit fails
            · rw [Except.error.inj accepted] at admission
              exact .stack n wakes a.runtime arrives some' unfit admission
            · rw [Except.error.inj accepted] at admission
              exact .frame n wakes a.runtime arrives some' (eq_true_of_ne_false unfit) fails admission
        | ok handler =>
            have same : handler = entry := by
              dsimp only at accepted
              split_ifs at accepted
              exact Except.ok.inj accepted
            rw [same] at taken admission
            dsimp only [chargeEntry] at admission
            rw [arrives.handlerOf] at installed
            cases charged : (schedulerAdvance board (rearm last)
                (exceptionEntryCycles (interruptVector .autovector (r.presented n) 0))).admission with
            | stopped stop =>
                rw [charged] at admission
                exact .clock (rearm last) _ stop (schedulerAdvance_stop (entryCycles_known installed) charged)
                  charged admission
            | none =>
                rw [charged] at admission
                exact .delivered n wakes a.runtime arrives entry installed (by rw [taken]) admission
            | delivered other =>
                rw [charged] at admission
                exact .delivered n wakes a.runtime arrives entry installed (by rw [taken]) admission
  · rw [requests] at uninstalled eq
    rw [eq] at admission runtime
    rw [arrives.handlerOf] at uninstalled
    refine .missing n wakes ?_ uninstalled admission
    rw [runtime]
    exact arrives

/-- A wait that goes on from a later line is a wait from the first one. -/
theorem WaitEnd.back {m : ℕ} (arrives : Arrives r m x) (later : r.line < m)
    (quiet : ∀ k, r.line < k → k ≤ m → ¬ Deliverable r (r.presented k)) (ends : WaitEnd board x nextPc w) :
    WaitEnd board r nextPc w := by
  have further (n : ℕ) (wakes : WakesAt x n) : m < n := by
    rw [← arrives.line later]
    exact wakes.later
  cases ends with
  | delivered n wakes y arrived handler installed entered admission =>
      have past := further n wakes
      rw [arrives.presented later past.le] at installed entered
      rw [arrives.handlerOf] at installed
      exact .delivered n (wakes.back arrives later quiet) y (arrives.trans later arrived past) handler installed
        entered admission
  | missing n wakes arrived uninstalled admission =>
      have past := further n wakes
      rw [arrives.presented later past.le] at uninstalled admission
      rw [arrives.handlerOf] at uninstalled
      exact .missing n (wakes.back arrives later quiet) (arrives.trans later arrived past) uninstalled admission
  | asleep never admission =>
      refine .asleep (fun k past => ?_) admission
      by_cases within : k ≤ m
      · exact quiet k past within
      · rw [← arrives.presented later (by omega), ← arrives.deliverable later.le]
        refine never k ?_
        rw [arrives.line later]
        omega
  | clock y cycles stop terminal stops admission => exact .clock y cycles stop terminal stops admission
  | stack n wakes y arrived installed unfit admission =>
      have past := further n wakes
      rw [arrives.presented later past.le, arrives.handlerOf] at installed
      exact .stack n (wakes.back arrives later quiet) y (arrives.trans later arrived past) installed unfit admission
  | frame n wakes y arrived installed fits fails admission =>
      have past := further n wakes
      rw [arrives.presented later past.le, arrives.handlerOf] at installed
      exact .frame n (wakes.back arrives later quiet) y (arrives.trans later arrived past) installed fits fails
        admission

def Boundary.after (b next : Boundary R F) : Boundary R F := { next with log := b.log ++ next.log }

/-- Level 4 is installed and enabled at every line, level 6 requested at the onset and not installed. -/
def hidden : GenesisRuntime Unit Unit where
  vdp := vdpWith 0x0010 0x0020 0
  a7 := 0xFFFE00
  usp := 0
  sr := 0x2700
  pc := 0x200
  softwareExceptionHandler vector := if vector = 28 then some 0x400 else none
  rest := ()

end Segarecomp.Genesis.Schedule

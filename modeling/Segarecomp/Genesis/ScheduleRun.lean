import Segarecomp.Genesis.ScheduleLines

/-! Runs of the guest-time schedule: no VBlank request is lost, and the cuts of guest time into
retirements leave no trace. -/

namespace Segarecomp.Genesis.Schedule

open M68k.ExceptionCore Lib.Periodic
open Z80Machine (masterTicksPerLine masterTicksPerFrame vblankOnsetTick)

variable {R F : Type} {board : Board R} {r r' : GenesisRuntime R F} {a b : Boundary R F}
  {log : List Event} {nextPc : BitVec 32}

/-! ## Entries of the exception core -/

theorem exceptionEnter_irq {M : Type} (hooks : MachineHooks M) (s : State M) (vector stackedPc : BitVec 32)
    (keep forced : BitVec 16) : (exceptionEnter hooks s vector stackedPc keep forced).state.irq = s.irq := by
  rw [exceptionEnter]
  split_ifs <;> rfl

/-- Of the interrupt state an entry may only clear the stopped flag and a served level-7 edge. -/
theorem interruptEnter_edge {M : Type} (hooks : MachineHooks M) (s : State M) (level vector stackedPc : BitVec 32)
    (quiet : s.irq.level7EdgePending = false) :
    (interruptEnter hooks s level vector stackedPc).state.irq.level7EdgePending = false := by
  have entered := exceptionEnter_irq hooks s vector stackedPc (0xFFFF &&& ~~~(srTrace ||| srInterruptMask))
    (srSupervisor ||| (level <<< 8).setWidth 16)
  rw [interruptEnter]
  dsimp only
  generalize exceptionEnter hooks s vector stackedPc _ _ = out at entered ⊢
  have kept : out.state.irq.level7EdgePending = false := by rw [entered, quiet]
  by_cases bad : level < 1 ∨ level > 7
  · rwa [if_pos bad]
  rw [if_neg bad]
  by_cases refused : vector = 0
  · rwa [if_pos refused]
  rw [if_neg refused]
  by_cases failed : out.status ≠ .ok
  · rwa [if_pos failed]
  · rw [if_neg failed, kept, ite_self]

theorem accept_screen (level : BitVec 32) :
    (acceptInterrupt board r level nextPc).2.toScreen = r.toScreen := rfl

theorem accept_edge (level : BitVec 32) (quiet : r.m68kInterrupt.level7EdgePending = false) :
    (acceptInterrupt board r level nextPc).2.m68kInterrupt.level7EdgePending = false :=
  interruptEnter_edge _ _ _ _ _ quiet

theorem construct_screen (board : Board R) (r : GenesisRuntime R F) (vector returnPc : BitVec 32)
    (keep forced : BitVec 16) (failStop : RuntimeStop) :
    (constructExceptionFrameAndTransfer board r vector returnPc keep forced failStop).2.toScreen =
      r.toScreen := rfl

theorem construct_irq (board : Board R) (r : GenesisRuntime R F) (vector returnPc : BitVec 32)
    (keep forced : BitVec 16) (failStop : RuntimeStop) :
    (constructExceptionFrameAndTransfer board r vector returnPc keep forced failStop).2.m68kInterrupt =
      r.m68kInterrupt :=
  exceptionEnter_irq _ _ _ _ _ _

/-! ## The pass -/

theorem requestLevel_cases (s : Screen F) : requestLevel s = 6 ∨ requestLevel s = 4 ∨ requestLevel s = 0 := by
  rw [requestLevel]
  split_ifs
  · exact .inl rfl
  · exact .inr (.inl rfl)
  · exact .inr (.inr rfl)

theorem sample_edge (state : InterruptState) (s : Screen F) (quiet : state.level7EdgePending = false) :
    (interruptSample state (requestLevel s)).level7EdgePending = false := by
  have unlevel7 : ((requestLevel s &&& 7).setWidth 8 : BitVec 8) ≠ 7 := by
    rcases requestLevel_cases s with level | level | level <;> rw [level] <;> decide
  rw [interruptSample]
  dsimp only
  rw [if_neg fun h => unlevel7 h.1, quiet]

/-- A level recognized at the boundary of its own sample is the one the screen requests. -/
theorem recognized_sample (state : InterruptState) (s : Screen F) (sr : BitVec 16)
    (quiet : state.level7EdgePending = false)
    (found : interruptRecognizedLevel (interruptSample state (requestLevel s)) sr ≠ 0) :
    interruptRecognizedLevel (interruptSample state (requestLevel s)) sr = requestLevel s := by
  have edge := sample_edge state s quiet
  have sampled : ((interruptSample state (requestLevel s)).sampledLevel.setWidth 32 : BitVec 32) = requestLevel s := by
    rcases requestLevel_cases s with level | level | level <;> rw [level] <;> rfl
  rw [interruptRecognizedLevel, edge, sampled] at found ⊢
  rw [if_neg Bool.false_ne_true] at found ⊢
  by_cases above : requestLevel s > ((sr &&& srInterruptMask) >>> 8).setWidth 32
  · rw [if_pos above]
  · rw [if_neg above] at found
    exact absurd rfl found

theorem requestLevel_vblank {s : Screen F} (level : requestLevel s ≠ 0) (other : requestLevel s ≠ 4) :
    requestLevel s = 6 ∧ s.interrupt.vblankPending = true := by
  cases pending : s.interrupt.vblankPending with
  | true => exact ⟨by rw [requestLevel, pending]; rfl, rfl⟩
  | false =>
      rw [requestLevel, pending, if_neg Bool.false_ne_true] at level other
      split_ifs at level other
      · exact absurd rfl other
      · exact absurd rfl level

theorem z80Follow_kept (board : Board R) (r : GenesisRuntime R F) (masterTicks : ℕ) :
    (z80Follow board r masterTicks).1.toScreen = r.toScreen ∧
      (z80Follow board r masterTicks).1.m68kInterrupt = r.m68kInterrupt := by
  rw [z80Follow]
  split
  · exact ⟨rfl, rfl⟩
  · dsimp only
    split_ifs <;> exact ⟨rfl, rfl⟩

/-- What a pass that did not stop did. -/
structure Passed (r : GenesisRuntime R F) (cycles : ℕ) (b : Boundary R F) : Prop where
  room : crossesOnset r.masterTicks (cycles * m68kCycleMasterTicks) = true → r.ie0 = true →
    r.interrupt.vblankPending = false → r.interrupt.vblankTransitionCount ≠ BitVec.allOnes 32
  screen : b.runtime.toScreen = (r.toScreen.advance (cycles * m68kCycleMasterTicks)).1
  sampled : b.runtime.m68kInterrupt = interruptSample r.m68kInterrupt (requestLevel b.runtime.toScreen)
  admission : b.admission = .none
  log : b.log =
    .charge { before := r.masterTicks, after := r.masterTicks + cycles * m68kCycleMasterTicks
              ie0 := r.ie0, pending := r.interrupt.vblankPending } ::
      (r.toScreen.advance (cycles * m68kCycleMasterTicks)).2.map .published

/-- What a stop leaves as it was. -/
structure Halted (r r' : GenesisRuntime R F) : Prop where
  vdp : r'.vdp = r.vdp
  interrupt : r'.interrupt = r.interrupt
  edge : r.m68kInterrupt.level7EdgePending = false → r'.m68kInterrupt.level7EdgePending = false

theorem Halted.refl (r : GenesisRuntime R F) : Halted r r := ⟨rfl, rfl, id⟩

theorem schedulerAdvance_cases (board : Board R) (r : GenesisRuntime R F) (cycles : ℕ) :
    Passed r cycles (schedulerAdvance board r cycles) ∨
      ∃ stop, (schedulerAdvance board r cycles).admission = .stopped stop ∧
        (schedulerAdvance board r cycles).log = [] ∧ Halted r (schedulerAdvance board r cycles).runtime := by
  obtain ⟨screen, irq⟩ := z80Follow_kept board r (r.masterTicks + cycles * m68kCycleMasterTicks)
  rw [schedulerAdvance]
  dsimp only
  split_ifs with unaccounted overflow full
  · exact .inr ⟨_, rfl, rfl, Halted.refl r⟩
  · exact .inr ⟨_, rfl, rfl, Halted.refl r⟩
  · exact .inr ⟨_, rfl, rfl, Halted.refl r⟩
  · generalize z80Follow board r (r.masterTicks + cycles * m68kCycleMasterTicks) = followed at screen irq
    obtain ⟨f, stopped⟩ := followed
    cases stopped with
    | some stop =>
        have vdp : f.vdp = r.vdp := congrArg Screen.vdp screen
        have interrupt : f.interrupt = r.interrupt := congrArg Screen.interrupt screen
        have edge : f.m68kInterrupt.level7EdgePending = r.m68kInterrupt.level7EdgePending :=
          congrArg InterruptState.level7EdgePending irq
        exact .inr ⟨_, rfl, rfl, vdp, interrupt, fun quiet => edge.trans quiet⟩
    | none =>
        refine .inl ⟨fun crosses gate free all => full ⟨crosses, gate, free, all⟩, ?_, ?_, rfl, ?_⟩
        · rw [← screen]
        · rw [← irq]
        · rw [← screen]

/-! ## Moves -/

/-- What the program and the host may do between two calls of the scheduler: anything that leaves
the clock, the raster schedule, the VBlank latch and the level-7 edge alone. -/
structure Guest (r r' : GenesisRuntime R F) : Prop where
  masterTicks : r'.masterTicks = r.masterTicks
  raster : r'.raster = r.raster
  interrupt : r'.interrupt = r.interrupt
  edge : r'.m68kInterrupt.level7EdgePending = r.m68kInterrupt.level7EdgePending

/-- A change of the CPU or of the machine outside the schedule and the screen. -/
structure Kept (r r' : GenesisRuntime R F) : Prop where
  screen : r'.toScreen = r.toScreen
  edge : r'.m68kInterrupt.level7EdgePending = r.m68kInterrupt.level7EdgePending

theorem Kept.guest (kept : Kept r r') : Guest r r' :=
  ⟨congrArg Screen.masterTicks kept.screen, congrArg Screen.raster kept.screen,
    congrArg Screen.interrupt kept.screen, kept.edge⟩

/-- One change of the schedule that lets the run go on, with what it logs. -/
inductive Move (r : GenesisRuntime R F) : List Event → GenesisRuntime R F → Prop
  | pass (cycles : ℕ) {b : Boundary R F} (passed : Passed r cycles b) : Move r b.log b.runtime
  | quiet {r' : GenesisRuntime R F} (kept : Kept r r') : Move r [] r'
  | drop : Move r [.undelivered] (dropHint r)
  | hint {r' : GenesisRuntime R F} (kept : Kept r r') : Move r [.entered 4] (setHintPending r' false)
  | vblank {r' : GenesisRuntime R F} (kept : Kept r r') (pending : r.interrupt.vblankPending = true) :
      Move r [.entered 6] (clearVblankPending r')

/-- Moves one after the other, and whether a stop ends them. -/
inductive Path (r : GenesisRuntime R F) : List Event → Bool → GenesisRuntime R F → Prop
  | rest : Path r [] false r
  | move {log events : List Event} {r' r'' : GenesisRuntime R F} (path : Path r log false r')
      (move : Move r' events r'') : Path r (log ++ events) false r''
  | halt {log : List Event} {r' r'' : GenesisRuntime R F} (path : Path r log false r')
      (halted : Halted r' r'') : Path r log true r''

theorem Path.single {events : List Event} (move : Move r events r') : Path r events false r' :=
  .move .rest move

theorem Path.trans {first second : List Event} {stopped : Bool} {r'' : GenesisRuntime R F}
    (path : Path r first false r') (later : Path r' second stopped r'') :
    Path r (first ++ second) stopped r'' := by
  induction later with
  | rest => rwa [List.append_nil]
  | move _ move ih =>
      rw [← List.append_assoc]
      exact .move ih move
  | halt _ halted ih => exact .halt ih halted

theorem Path.edge {stopped : Bool} (path : Path r log stopped r')
    (quiet : r.m68kInterrupt.level7EdgePending = false) : r'.m68kInterrupt.level7EdgePending = false := by
  induction path with
  | rest => exact quiet
  | halt _ halted ih => exact halted.edge ih
  | move _ move ih =>
      cases move with
      | pass cycles passed =>
          rw [passed.sampled]
          exact sample_edge _ _ ih
      | quiet kept => exact kept.edge.trans ih
      | drop => exact ih
      | hint kept => exact kept.edge.trans ih
      | vblank kept => exact kept.edge.trans ih

theorem Path.vdp {stopped : Bool} (path : Path r log stopped r') : r'.vdp = r.vdp := by
  induction path with
  | rest => rfl
  | halt _ halted ih => exact halted.vdp.trans ih
  | move _ move ih =>
      cases move with
      | pass cycles passed => exact ((congrArg Screen.vdp passed.screen).trans (Screen.advance_vdp _ _)).trans ih
      | quiet kept => exact (congrArg Screen.vdp kept.screen).trans ih
      | drop => exact ih
      | hint kept => exact (congrArg Screen.vdp kept.screen).trans ih
      | vblank kept => exact (congrArg Screen.vdp kept.screen).trans ih

/-! ## The functions as moves -/

def Admission.stops : Admission → Bool
  | .stopped _ => true
  | _ => false

/-- What the admission does after a pass, seen from the boundary `a` the pass left. -/
inductive Admitted (board : Board R) (a : Boundary R F) (nextPc : BitVec 32) : Boundary R F → Prop
  | kept : Admitted board a nextPc a
  | refused (stop : RuntimeStop) : Admitted board a nextPc { a with admission := .stopped stop }
  | dropped : Admitted board a nextPc { a with runtime := dropHint a.runtime, log := a.log ++ [.undelivered] }
  | failed (level : BitVec 32) (stop : RuntimeStop) : Admitted board a nextPc
      { a with runtime := (acceptInterrupt board a.runtime level nextPc).2, admission := .stopped stop }
  | hint (handler : BitVec 32) : Admitted board a nextPc
      (chargeEntry board
        { runtime := setHintPending (acceptInterrupt board a.runtime 4 nextPc).2 false
          log := a.log ++ [.entered 4] } 4 handler)
  | vblank (level handler : BitVec 32)
      (recognized : interruptRecognizedLevel a.runtime.m68kInterrupt a.runtime.sr = level)
      (level_ne : level ≠ 0) (other : level ≠ 4) : Admitted board a nextPc
      (chargeEntry board
        { runtime := clearVblankPending (acceptInterrupt board a.runtime level nextPc).2
          log := a.log ++ [.entered level.toNat] } level handler)

theorem enterInterrupt_cases (board : Board R) (a : Boundary R F) (level nextPc : BitVec 32)
    (rearm : GenesisRuntime R F → GenesisRuntime R F) :
    (∃ stop, enterInterrupt board a level nextPc rearm =
      { a with runtime := (acceptInterrupt board a.runtime level nextPc).2, admission := .stopped stop }) ∨
    ∃ handler, enterInterrupt board a level nextPc rearm =
      chargeEntry board
        { runtime := rearm (acceptInterrupt board a.runtime level nextPc).2
          log := a.log ++ [.entered level.toNat] } level handler := by
  rw [enterInterrupt]
  cases accepted : acceptInterrupt board a.runtime level nextPc with
  | mk answer r =>
      cases answer with
      | error stop => exact .inl ⟨stop, rfl⟩
      | ok handler => exact .inr ⟨handler, rfl⟩

theorem admitRecognized_cases (board : Board R) (a : Boundary R F) (nextPc : BitVec 32) :
    Admitted board a nextPc (admitRecognized board a nextPc) := by
  rw [admitRecognized]
  split_ifs with none four
  · exact .kept
  · rw [admitHint, four]
    split_ifs with absent strict
    · exact .refused _
    · exact .dropped
    · rcases enterInterrupt_cases board a 4 nextPc (setHintPending · false) with ⟨stop, eq⟩ | ⟨handler, eq⟩
      · rw [eq]
        exact .failed 4 stop
      · rw [eq]
        exact .hint handler
  · rw [admitVblank]
    split_ifs with absent strict
    · exact .refused _
    · exact .kept
    · rcases enterInterrupt_cases board a
        (interruptRecognizedLevel a.runtime.m68kInterrupt a.runtime.sr) nextPc clearVblankPending
        with ⟨stop, eq⟩ | ⟨handler, eq⟩
      · rw [eq]
        exact .failed _ stop
      · rw [eq]
        exact .vblank _ handler rfl none four

theorem accept_kept (level : BitVec 32) (quiet : r.m68kInterrupt.level7EdgePending = false) :
    Kept r (acceptInterrupt board r level nextPc).2 :=
  ⟨accept_screen level, (accept_edge level quiet).trans quiet.symm⟩

theorem schedulerAdvance_path (board : Board R) (r : GenesisRuntime R F) (cycles : ℕ) :
    Path r (schedulerAdvance board r cycles).log (schedulerAdvance board r cycles).admission.stops
      (schedulerAdvance board r cycles).runtime := by
  rcases schedulerAdvance_cases board r cycles with passed | ⟨stop, admission, log, halted⟩
  · rw [passed.admission]
    exact .single (.pass cycles passed)
  · rw [admission, log]
    exact .halt .rest halted

theorem chargeEntry_path {level handler : BitVec 32} (path : Path r b.log false b.runtime) :
    Path r (chargeEntry board b level handler).log (chargeEntry board b level handler).admission.stops
      (chargeEntry board b level handler).runtime := by
  have charged := schedulerAdvance_path board b.runtime
    (exceptionEntryCycles (interruptVector .autovector level 0))
  have same : (chargeEntry board b level handler).admission.stops =
      (schedulerAdvance board b.runtime
        (exceptionEntryCycles (interruptVector .autovector level 0))).admission.stops := by
    rw [chargeEntry]
    dsimp only
    split <;> rename_i admission
    · rw [admission]
    · cases kind : (schedulerAdvance board b.runtime
        (exceptionEntryCycles (interruptVector .autovector level 0))).admission with
      | stopped stop => exact absurd kind (admission stop)
      | none => rfl
      | delivered _ => rfl
  rw [same]
  exact path.trans charged

theorem schedulerAndAdmit_path (board : Board R) (r : GenesisRuntime R F) (cycles : ℕ) (admitting : Bool)
    (nextPc : BitVec 32) (quiet : r.m68kInterrupt.level7EdgePending = false) :
    Path r (schedulerAndAdmit board r cycles admitting nextPc).log
      (schedulerAndAdmit board r cycles admitting nextPc).admission.stops
      (schedulerAndAdmit board r cycles admitting nextPc).runtime := by
  have path := schedulerAdvance_path board r cycles
  rw [schedulerAndAdmit]
  rcases schedulerAdvance_cases board r cycles with passed | ⟨stop, admission, -, -⟩
  · rw [passed.admission] at path ⊢
    dsimp only
    cases admitting with
    | false =>
        rw [if_neg Bool.false_ne_true, passed.admission]
        exact path
    | true =>
        rw [if_pos rfl]
        generalize schedulerAdvance board r cycles = a at passed path ⊢
        have edge := path.edge quiet
        have cases' := admitRecognized_cases board a nextPc
        generalize admitRecognized board a nextPc = b at cases' ⊢
        cases cases' with
        | kept => rw [passed.admission]; exact path
        | refused stop => exact .halt path (Halted.refl _)
        | dropped => rw [passed.admission]; exact .move path .drop
        | failed level stop => exact .halt path ⟨rfl, rfl, accept_edge level⟩
        | hint handler =>
            exact chargeEntry_path (b := { runtime := _, log := _ }) (.move path (.hint (accept_kept 4 edge)))
        | vblank level handler recognized level_ne other =>
            have request : level = requestLevel a.runtime.toScreen := by
              rw [← recognized, passed.sampled] at level_ne ⊢
              exact recognized_sample _ _ _ quiet level_ne
            obtain ⟨six, pending⟩ := requestLevel_vblank (request ▸ level_ne) (request ▸ other)
            have level6 : level.toNat = 6 := by rw [request, six]; rfl
            refine chargeEntry_path (b := { runtime := _, log := _ }) ?_
            rw [level6]
            exact .move path (.vblank (accept_kept level edge) pending)
  · rw [admission]
    dsimp only
    rw [admission] at path ⊢
    exact path

def Transfer.stops : Transfer → Bool
  | .stop _ => true
  | .continueAt _ => false

theorem Boundary.transfer_stops (b : Boundary R F) (nextPc : BitVec 32) :
    (b.transfer nextPc).stops = b.admission.stops := by
  rw [Boundary.transfer]
  cases b.admission <;> rfl

theorem waitLines_path (steps : ℕ) (quiet : r.m68kInterrupt.level7EdgePending = false)
    (path : Path r b.log false b.runtime) :
    Path r (waitLines board nextPc steps b).log (waitLines board nextPc steps b).admission.stops
      (waitLines board nextPc steps b).runtime := by
  induction steps generalizing b with
  | zero => exact .halt path (Halted.refl _)
  | succ steps ih =>
      rw [waitLines]
      dsimp only
      have next := schedulerAndAdmit_path board b.runtime (ceilCycles
        ((b.runtime.masterTicks / masterTicksPerLine + 1) * masterTicksPerLine - b.runtime.masterTicks))
        true nextPc (path.edge quiet)
      generalize schedulerAndAdmit board b.runtime _ true nextPc = x at next ⊢
      have joined := path.trans next
      cases admission : x.admission with
      | none =>
          rw [admission] at joined
          exact ih (b := { x with log := b.log ++ x.log, admission := .none }) joined
      | delivered handler => rw [admission] at joined; exact joined
      | stopped stop => rw [admission] at joined; exact joined

theorem waitOnset_path (quiet : r.m68kInterrupt.level7EdgePending = false)
    (path : Path r b.log false b.runtime) :
    Path r (waitOnset board b nextPc).log (waitOnset board b nextPc).admission.stops
      (waitOnset board b nextPc).runtime := by
  rw [waitOnset]
  dsimp only
  have next := schedulerAndAdmit_path board b.runtime
    (ceilCycles (nextOnset b.runtime.masterTicks - b.runtime.masterTicks)) true nextPc (path.edge quiet)
  generalize schedulerAndAdmit board b.runtime _ true nextPc = x at next ⊢
  have joined := path.trans next
  cases admission : x.admission with
  | none =>
      rw [admission] at joined
      exact .halt joined (Halted.refl _)
  | delivered handler => rw [admission] at joined; exact joined
  | stopped stop => rw [admission] at joined; exact joined

theorem waitWhileStopped_path (quiet : r.m68kInterrupt.level7EdgePending = false)
    (path : Path r b.log false b.runtime) :
    Path r (waitWhileStopped board b nextPc).log (waitWhileStopped board b nextPc).admission.stops
      (waitWhileStopped board b nextPc).runtime := by
  rw [waitWhileStopped]
  split_ifs
  · exact .halt path (Halted.refl _)
  · exact waitLines_path _ quiet path
  · exact waitOnset_path quiet path

theorem Boundary.continues_iff (b : Boundary R F) : b.continues = true ↔ b.admission.stops = false := by
  rw [Boundary.continues]
  cases b.admission <;> simp [Admission.stops]

theorem Boundary.finish_stops {b : Boundary R F} {pendingStop : Option RuntimeStop}
    (going : (b.finish nextPc pendingStop).stops = false) : b.admission.stops = false := by
  cases pendingStop with
  | none => exact (b.transfer_stops nextPc).symm.trans going
  | some stop =>
      rw [Boundary.finish] at going
      by_cases continues : b.continues = true
      · exact b.continues_iff.mp continues
      · rw [if_neg continues] at going
        exact (b.transfer_stops nextPc).symm.trans going

theorem retireBoundary_path (board : Board R) (r : GenesisRuntime R F) (cycles : ℕ) (nextPc : BitVec 32)
    (pendingStop : Option RuntimeStop) (quiet : r.m68kInterrupt.level7EdgePending = false) :
    Path r (retireBoundary board r cycles nextPc pendingStop).log
      (retireBoundary board r cycles nextPc pendingStop).admission.stops
      (retireBoundary board r cycles nextPc pendingStop).runtime := by
  let r₁ : GenesisRuntime R F := { r with pc := nextPc }
  have start : Path r [] false r₁ := .single (.quiet ⟨rfl, rfl⟩)
  have admitted := start.trans (schedulerAndAdmit_path board r₁ cycles pendingStop.isNone nextPc quiet)
  rw [List.nil_append] at admitted
  rw [retireBoundary]
  generalize schedulerAndAdmit board { r with pc := nextPc } cycles pendingStop.isNone nextPc = x at admitted ⊢
  split_ifs with waits
  · rw [x.continues_iff.mp waits.2.1] at admitted
    exact waitWhileStopped_path quiet admitted
  · exact admitted

theorem raise_path (board : Board R) (r : GenesisRuntime R F) (vector stackedPc : BitVec 32)
    (entryCycles : ℕ) (failStop : RuntimeStop) :
    Path r (raiseSynchronousException board r vector stackedPc entryCycles failStop).log
      (raiseSynchronousException board r vector stackedPc entryCycles failStop).transfer.stops
      (raiseSynchronousException board r vector stackedPc entryCycles failStop).runtime := by
  rw [raiseSynchronousException]
  split_ifs
  · exact .halt .rest (Halted.refl r)
  · have screen := construct_screen board r vector stackedPc 0x7FFF 0x2000 failStop
    have irq := construct_irq board r vector stackedPc 0x7FFF 0x2000 failStop
    generalize constructExceptionFrameAndTransfer board r vector stackedPc 0x7FFF 0x2000 failStop = entry at *
    obtain ⟨answer, r₁⟩ := entry
    have kept : Kept r r₁ := ⟨screen, congrArg InterruptState.level7EdgePending irq⟩
    cases answer with
    | error stop =>
        exact .halt .rest ⟨congrArg Screen.vdp screen, congrArg Screen.interrupt screen, fun quiet => kept.edge.trans quiet⟩
    | ok handler =>
        have charged := (Path.single (.quiet kept)).trans (schedulerAdvance_path board r₁ entryCycles)
        dsimp only
        generalize schedulerAdvance board r₁ entryCycles = x at charged ⊢
        cases admission : x.admission with
        | none => rw [admission] at charged; exact charged
        | delivered _ => rw [admission] at charged; exact charged
        | stopped _ => rw [admission] at charged; exact charged

/-! ## No request is lost -/

/-- A VBlank onset lies within the pass, with IE0 set and nothing pending before it. -/
def Charge.Latches (c : Charge) : Prop :=
  c.ie0 = true ∧ c.pending = false ∧ Marked vblankOnsetTick masterTicksPerFrame c.before c.after

instance (c : Charge) : Decidable c.Latches :=
  have : Decidable (Marked vblankOnsetTick masterTicksPerFrame c.before c.after) := decidableMarked (by decide)
  inferInstanceAs (Decidable (_ ∧ _ ∧ _))

def Event.latches : Event → Bool
  | .charge c => decide c.Latches
  | _ => false

def Event.isIrq6 : Event → Bool
  | .entered level => level = 6
  | _ => false

def latchingOnsets (log : List Event) : ℕ := log.countP Event.latches

def irq6Entries (log : List Event) : ℕ := log.countP Event.isIrq6

/-- The books of a run: every latching onset is counted, and is either served or still pending. -/
structure Balanced (r : GenesisRuntime R F) (log : List Event) : Prop where
  edge : r.m68kInterrupt.level7EdgePending = false
  noticed : r.interrupt.vblankTransitionCount.toNat = latchingOnsets log
  served : r.interrupt.vblankTransitionCount.toNat = irq6Entries log + r.interrupt.vblankPending.toNat

/-- With the raster schedule, which a stop may leave behind the clock. -/
structure Ledger (r : GenesisRuntime R F) (log : List Event) : Prop extends Balanced r log where
  settled : r.toScreen.Settled

theorem latchingOnsets_append (first second : List Event) :
    latchingOnsets (first ++ second) = latchingOnsets first + latchingOnsets second := List.countP_append

theorem irq6Entries_append (first second : List Event) :
    irq6Entries (first ++ second) = irq6Entries first + irq6Entries second := List.countP_append

theorem latchingOnsets_published (frames : List RasterFrameState) :
    latchingOnsets (frames.map .published) = 0 := by
  rw [latchingOnsets, List.countP_map, List.countP_eq_zero]
  exact fun _ _ => Bool.false_ne_true

theorem irq6Entries_published (frames : List RasterFrameState) : irq6Entries (frames.map .published) = 0 := by
  rw [irq6Entries, List.countP_map, List.countP_eq_zero]
  exact fun _ _ => Bool.false_ne_true

theorem succ_toNat {c : BitVec 32} (room : c ≠ BitVec.allOnes 32) : (c + 1).toNat = c.toNat + 1 := by
  have differs : c.toNat ≠ (BitVec.allOnes 32).toNat := fun h => room (BitVec.eq_of_toNat_eq h)
  have bound := c.isLt
  rw [BitVec.toNat_allOnes] at differs
  rw [BitVec.toNat_add]
  exact Nat.mod_eq_of_lt (by change c.toNat + 1 < 2 ^ 32; omega)

/-- The pass takes the VBlank edge. -/
def Latches (r : GenesisRuntime R F) (cycles : ℕ) : Prop :=
  crossesOnset r.masterTicks (cycles * m68kCycleMasterTicks) = true ∧ r.ie0 = true ∧
    r.interrupt.vblankPending = false

instance (r : GenesisRuntime R F) (cycles : ℕ) : Decidable (Latches r cycles) :=
  inferInstanceAs (Decidable (_ ∧ _ ∧ _))

theorem Passed.latchingOnsets {cycles : ℕ} (passed : Passed r cycles b) :
    latchingOnsets b.log = if Latches r cycles then 1 else 0 := by
  let c : Charge :=
    { before := r.masterTicks, after := r.masterTicks + cycles * m68kCycleMasterTicks
      ie0 := r.ie0, pending := r.interrupt.vblankPending }
  have iff : c.Latches ↔ Latches r cycles := by
    rw [Charge.Latches, Latches, crossesOnset_iff]
    exact ⟨fun ⟨gate, free, marked⟩ => ⟨marked, gate, free⟩, fun ⟨marked, gate, free⟩ => ⟨gate, free, marked⟩⟩
  rw [passed.log, ← List.singleton_append, latchingOnsets_append, latchingOnsets_published, Nat.add_zero]
  change List.countP Event.latches [.charge c] = _
  rw [List.countP_singleton, Event.latches]
  simp only [decide_eq_true_eq, iff]

theorem Passed.irq6Entries {cycles : ℕ} (passed : Passed r cycles b) : irq6Entries b.log = 0 := by
  rw [passed.log, ← List.singleton_append, irq6Entries_append, irq6Entries_published]
  rfl

theorem Passed.interrupt {cycles : ℕ} (passed : Passed r cycles b) (settled : r.toScreen.Settled) :
    b.runtime.interrupt =
      if Latches r cycles then
        { vblankPending := true, vblankTransitionCount := r.interrupt.vblankTransitionCount + 1 }
      else r.interrupt := by
  have advanced := Screen.advance_interrupt settled (cycles * m68kCycleMasterTicks)
  rw [← passed.screen, InterruptLatch.latchVblank, ← ite_and] at advanced
  exact advanced

theorem Ledger.pass {cycles : ℕ} (ledger : Ledger r log) (passed : Passed r cycles b) :
    Ledger b.runtime (log ++ b.log) := by
  have interrupt := passed.interrupt ledger.settled
  have edge : b.runtime.m68kInterrupt.level7EdgePending = false := by
    rw [passed.sampled]
    exact sample_edge _ _ ledger.edge
  have steady : b.runtime.toScreen.Steady := by
    rw [passed.screen]
    exact Screen.advance_steady ledger.settled _
  have noticed := ledger.noticed
  have served := ledger.served
  refine ⟨⟨edge, ?_, ?_⟩, fun _ => steady⟩
  all_goals rw [interrupt]
  · rw [latchingOnsets_append, passed.latchingOnsets]
    split_ifs with latches
    · have room := passed.room latches.1 latches.2.1 latches.2.2
      exact (succ_toNat room).trans (by rw [noticed])
    · exact noticed
  · rw [irq6Entries_append, passed.irq6Entries]
    split_ifs with latches
    · have room := passed.room latches.1 latches.2.1 latches.2.2
      rw [latches.2.2] at served
      exact (succ_toNat room).trans (by rw [served]; rfl)
    · exact served

theorem Ledger.guest (ledger : Ledger r log) (guest : Guest r r') : Ledger r' log := by
  refine ⟨⟨guest.edge.trans ledger.edge, ?_, ?_⟩, ?_⟩
  · rw [guest.interrupt]
    exact ledger.noticed
  · rw [guest.interrupt]
    exact ledger.served
  · exact ledger.settled.congr guest.masterTicks (congrArg _ guest.raster) (congrArg _ guest.raster)
      (congrArg _ guest.raster)

/-- An event other than a pass or an IRQ6 entry leaves the books as they are. -/
theorem Ledger.note (ledger : Ledger r log) {event : Event} (other : event.latches = false)
    (unserved : event.isIrq6 = false) : Ledger r (log ++ [event]) := by
  refine ⟨⟨ledger.edge, ?_, ?_⟩, ledger.settled⟩
  · rw [latchingOnsets_append, ledger.noticed, latchingOnsets, latchingOnsets, List.countP_singleton, other]
    rfl
  · rw [irq6Entries_append, ledger.served, irq6Entries, irq6Entries, List.countP_singleton, unserved]
    rfl

theorem Ledger.drop (ledger : Ledger r log) : Ledger (dropHint r) log :=
  ⟨⟨ledger.edge, ledger.noticed, ledger.served⟩, ledger.settled.congr rfl rfl rfl rfl⟩

theorem Ledger.hint (ledger : Ledger r log) (value : Bool) : Ledger (setHintPending r value) log :=
  ⟨⟨ledger.edge, ledger.noticed, ledger.served⟩, ledger.settled.congr rfl rfl rfl rfl⟩

theorem Ledger.vblank (ledger : Ledger r log) (pending : r.interrupt.vblankPending = true) :
    Ledger (clearVblankPending r) (log ++ [.entered 6]) := by
  refine ⟨⟨ledger.edge, ?_, ?_⟩, ledger.settled.congr rfl rfl rfl rfl⟩
  · rw [latchingOnsets_append]
    exact ledger.noticed
  · have served := ledger.served
    rw [pending] at served
    rw [irq6Entries_append]
    exact served

theorem Ledger.move {events : List Event} (ledger : Ledger r log) (move : Move r events r') :
    Ledger r' (log ++ events) := by
  cases move with
  | pass cycles passed => exact ledger.pass passed
  | quiet kept =>
      rw [List.append_nil]
      exact ledger.guest kept.guest
  | drop => exact ledger.drop.note rfl rfl
  | hint kept => exact ((ledger.guest kept.guest).hint false).note rfl rfl
  | vblank kept pending =>
      refine (ledger.guest kept.guest).vblank ?_
      rw [kept.guest.interrupt]
      exact pending

theorem Ledger.path {stopped : Bool} {before events : List Event} (ledger : Ledger r before)
    (path : Path r events stopped r') :
    Balanced r' (before ++ events) ∧ (stopped = false → Ledger r' (before ++ events)) := by
  induction path with
  | rest =>
      rw [List.append_nil]
      exact ⟨ledger.toBalanced, fun _ => ledger⟩
  | move _ move ih =>
      have moved := (ih.2 rfl).move move
      rw [← List.append_assoc]
      exact ⟨moved.toBalanced, fun _ => moved⟩
  | halt _ halted ih =>
      have balanced := ih.1
      refine ⟨⟨halted.edge balanced.edge, ?_, ?_⟩, fun h => absurd h.symm Bool.false_ne_true⟩
      · rw [halted.interrupt]
        exact balanced.noticed
      · rw [halted.interrupt]
        exact balanced.served

/-! ## Runs -/

/-- The schedule of a runtime that was just reset. -/
structure Reset (r : GenesisRuntime R F) : Prop where
  interrupt : r.interrupt = {}
  irq : r.m68kInterrupt = {}
  raster : r.raster.initialized = false

/-- The runs from a reset: retirements, synchronous exceptions and whatever the program and the
host do between them, until one of them stops. -/
inductive Run (board : Board R) (start : GenesisRuntime R F) : GenesisRuntime R F → List Event → Bool → Prop
  | reset (reset : Reset start) : Run board start start [] false
  | guest {r r' : GenesisRuntime R F} {log : List Event} (run : Run board start r log false)
      (guest : Guest r r') : Run board start r' log false
  | retire {r : GenesisRuntime R F} {log : List Event} (run : Run board start r log false) (cycles : ℕ)
      (nextPc : BitVec 32) (pendingStop : Option RuntimeStop) :
      Run board start (retireM68kInstruction board r cycles nextPc pendingStop).runtime
        (log ++ (retireM68kInstruction board r cycles nextPc pendingStop).log)
        (retireM68kInstruction board r cycles nextPc pendingStop).transfer.stops
  | raise {r : GenesisRuntime R F} {log : List Event} (run : Run board start r log false)
      (vector stackedPc : BitVec 32) (entryCycles : ℕ) (failStop : RuntimeStop) :
      Run board start (raiseSynchronousException board r vector stackedPc entryCycles failStop).runtime
        (log ++ (raiseSynchronousException board r vector stackedPc entryCycles failStop).log)
        (raiseSynchronousException board r vector stackedPc entryCycles failStop).transfer.stops

theorem Reset.ledger (reset : Reset r) : Ledger r [] := by
  have unstarted : r.toScreen.Settled := fun started => absurd (reset.raster.symm.trans started) Bool.false_ne_true
  refine ⟨⟨?_, ?_, ?_⟩, unstarted⟩
  · rw [reset.irq]
  · rw [reset.interrupt]
    rfl
  · rw [reset.interrupt]
    rfl

theorem Run.ledger {start : GenesisRuntime R F} {stopped : Bool} (run : Run board start r log stopped) :
    Balanced r log ∧ (stopped = false → Ledger r log) := by
  induction run with
  | reset reset => exact ⟨reset.ledger.toBalanced, fun _ => reset.ledger⟩
  | guest _ guest ih =>
      have ledger := (ih.2 rfl).guest guest
      exact ⟨ledger.toBalanced, fun _ => ledger⟩
  | retire _ cycles nextPc pendingStop ih =>
      have ledger := ih.2 rfl
      have kept := ledger.path (retireBoundary_path board _ cycles nextPc pendingStop ledger.edge)
      exact ⟨kept.1, fun going => kept.2 (Boundary.finish_stops going)⟩
  | raise _ vector stackedPc entryCycles failStop ih =>
      exact (ih.2 rfl).path (raise_path board _ vector stackedPc entryCycles failStop)

/-! ## Slices of guest time -/

def Event.quiet : Event → Bool
  | .charge _ | .published _ => true
  | _ => false

/-- No interrupt is entered and none is dropped. -/
def Quiet (log : List Event) : Prop := ∀ e ∈ log, e.quiet = true

instance (log : List Event) : Decidable (Quiet log) := inferInstanceAs (Decidable (∀ e ∈ log, _))

def Event.isEntry : Event → Bool
  | .entered _ => true
  | _ => false

def publishedFrames (log : List Event) : List RasterFrameState :=
  log.filterMap fun
    | .published frame => some frame
    | _ => none

/-- Retirements one after the other; `none` if one of them stops. -/
def retireAll (board : Board R) : GenesisRuntime R F → List (ℕ × BitVec 32) → Option (GenesisRuntime R F × List Event)
  | r, [] => some (r, [])
  | r, (cycles, nextPc) :: rest =>
      let retired := retireM68kInstruction board r cycles nextPc none
      match retired.transfer with
      | .stop _ => none
      | .continueAt _ => (retireAll board retired.runtime rest).map fun last => (last.1, retired.log ++ last.2)

def totalCycles (steps : List (ℕ × BitVec 32)) : ℕ := (steps.map Prod.fst).sum

theorem not_quiet_of_mem {e : Event} (mem : e ∈ log) (loud : e.quiet = false) : ¬ Quiet log :=
  fun quiet => Bool.false_ne_true (loud.symm.trans (quiet e mem))

theorem chargeEntry_log (b : Boundary R F) (level handler : BitVec 32) :
    (chargeEntry board b level handler).log =
      b.log ++ (schedulerAdvance board b.runtime
        (exceptionEntryCycles (interruptVector .autovector level 0))).log := rfl

theorem entry_loud (x : Boundary R F) (level handler : BitVec 32) (n : ℕ) (last : x.log = log ++ [.entered n]) :
    ¬ Quiet (chargeEntry board x level handler).log := by
  refine not_quiet_of_mem (e := .entered n) ?_ rfl
  rw [chargeEntry_log, last]
  simp

/-- A call that neither stops nor logs an admission is its pass. -/
theorem schedulerAndAdmit_quiet (board : Board R) (r : GenesisRuntime R F) (nextPc : BitVec 32)
    (cycles : ℕ) (admitting : Bool)
    (going : (schedulerAndAdmit board r cycles admitting nextPc).admission.stops = false)
    (quiet : Quiet (schedulerAndAdmit board r cycles admitting nextPc).log) :
    Passed r cycles (schedulerAndAdmit board r cycles admitting nextPc) := by
  rw [schedulerAndAdmit] at going quiet ⊢
  rcases schedulerAdvance_cases board r cycles with passed | ⟨stop, admission, -, -⟩
  · rw [passed.admission] at going quiet ⊢
    dsimp only at going quiet ⊢
    cases admitting with
    | false => rwa [if_neg Bool.false_ne_true]
    | true =>
        rw [if_pos rfl] at going quiet ⊢
        generalize schedulerAdvance board r cycles = a at passed going quiet ⊢
        have cases' := admitRecognized_cases board a nextPc
        generalize admitRecognized board a nextPc = b at cases' going quiet ⊢
        cases cases' with
        | kept => exact passed
        | refused stop => exact absurd going.symm Bool.false_ne_true
        | dropped => exact absurd quiet (not_quiet_of_mem (e := .undelivered) (by simp) rfl)
        | failed level stop => exact absurd going.symm Bool.false_ne_true
        | hint handler => exact absurd quiet (entry_loud _ _ _ _ rfl)
        | vblank level handler => exact absurd quiet (entry_loud _ _ _ _ rfl)
  · rw [admission] at going
    dsimp only at going
    rw [admission] at going
    exact absurd going.symm Bool.false_ne_true

theorem Quiet.left {first second : List Event} (quiet : Quiet (first ++ second)) : Quiet first :=
  fun e mem => quiet e (List.mem_append_left _ mem)

theorem Quiet.right {first second : List Event} (quiet : Quiet (first ++ second)) : Quiet second :=
  fun e mem => quiet e (List.mem_append_right _ mem)

theorem schedulerAndAdmit_wakes (board : Board R) (r : GenesisRuntime R F) (nextPc : BitVec 32)
    (cycles : ℕ) (admitting : Bool)
    (going : (schedulerAndAdmit board r cycles admitting nextPc).admission.stops = false)
    (some' : (schedulerAndAdmit board r cycles admitting nextPc).admission ≠ .none) :
    ¬ Quiet (schedulerAndAdmit board r cycles admitting nextPc).log :=
  fun quiet => some' (schedulerAndAdmit_quiet board r nextPc cycles admitting going quiet).admission

theorem waitLines_loud (steps : ℕ) (going : (waitLines board nextPc steps b).admission.stops = false) :
    ¬ Quiet (waitLines board nextPc steps b).log := by
  induction steps generalizing b with
  | zero => exact absurd going.symm Bool.false_ne_true
  | succ steps ih =>
      have wakes := schedulerAndAdmit_wakes board b.runtime nextPc (ceilCycles
        ((b.runtime.masterTicks / masterTicksPerLine + 1) * masterTicksPerLine - b.runtime.masterTicks)) true
      rw [waitLines] at going ⊢
      dsimp only at going ⊢
      generalize schedulerAndAdmit board b.runtime _ true nextPc = x at wakes going ⊢
      cases admission : x.admission with
      | none =>
          rw [admission] at going
          exact ih going
      | delivered handler =>
          rw [admission] at going
          exact fun quiet => wakes (by rw [admission]; rfl) (by rw [admission]; exact Admission.noConfusion) quiet.right
      | stopped stop =>
          rw [admission] at going
          exact absurd going.symm Bool.false_ne_true

theorem waitOnset_loud (going : (waitOnset board b nextPc).admission.stops = false) :
    ¬ Quiet (waitOnset board b nextPc).log := by
  have wakes := schedulerAndAdmit_wakes board b.runtime nextPc
    (ceilCycles (nextOnset b.runtime.masterTicks - b.runtime.masterTicks)) true
  rw [waitOnset] at going ⊢
  dsimp only at going ⊢
  generalize schedulerAndAdmit board b.runtime _ true nextPc = x at wakes going ⊢
  cases admission : x.admission with
  | none =>
      rw [admission] at going
      exact absurd going.symm Bool.false_ne_true
  | delivered handler =>
      rw [admission] at going
      exact fun quiet => wakes (by rw [admission]; rfl) (by rw [admission]; exact Admission.noConfusion) quiet.right
  | stopped stop =>
      rw [admission] at going
      exact absurd going.symm Bool.false_ne_true

theorem waitWhileStopped_loud (going : (waitWhileStopped board b nextPc).admission.stops = false) :
    ¬ Quiet (waitWhileStopped board b nextPc).log := by
  rw [waitWhileStopped] at going ⊢
  split_ifs at going ⊢
  · exact absurd going.symm Bool.false_ne_true
  · exact waitLines_loud _ going
  · exact waitOnset_loud going

theorem retire_quiet (cycles : ℕ)
    (going : (retireM68kInstruction board r cycles nextPc none).transfer.stops = false)
    (quiet : Quiet (retireM68kInstruction board r cycles nextPc none).log) :
    Passed r cycles (retireBoundary board r cycles nextPc none) := by
  have finished : ((retireBoundary board r cycles nextPc none).finish nextPc none).stops = false := going
  have alive := Boundary.finish_stops finished
  change Quiet (retireBoundary board r cycles nextPc none).log at quiet
  rw [retireBoundary] at alive quiet ⊢
  have admitted := schedulerAndAdmit_quiet board { r with pc := nextPc } nextPc cycles (none : Option RuntimeStop).isNone
  generalize schedulerAndAdmit board { r with pc := nextPc } cycles _ nextPc = x at admitted alive quiet ⊢
  split_ifs at alive quiet ⊢ with waits
  · exact absurd quiet (waitWhileStopped_loud alive)
  · have passed := admitted alive quiet
    exact ⟨passed.room, passed.screen, passed.sampled, passed.admission, passed.log⟩

theorem publishedFrames_append (first second : List Event) :
    publishedFrames (first ++ second) = publishedFrames first ++ publishedFrames second :=
  List.filterMap_append

theorem Passed.publishedFrames {cycles : ℕ} (passed : Passed r cycles b) :
    publishedFrames b.log = (r.toScreen.advance (cycles * m68kCycleMasterTicks)).2 := by
  rw [passed.log, Schedule.publishedFrames, List.filterMap_cons_none rfl, List.filterMap_map]
  exact List.filterMap_some

theorem retire_advance (board : Board R) (r : GenesisRuntime R F) (nextPc : BitVec 32) (cycles : ℕ)
    (going : (retireM68kInstruction board r cycles nextPc none).transfer.stops = false)
    (quiet : Quiet (retireM68kInstruction board r cycles nextPc none).log) :
    (retireM68kInstruction board r cycles nextPc none).runtime.toScreen =
        (r.toScreen.advance (cycles * m68kCycleMasterTicks)).1 ∧
      publishedFrames (retireM68kInstruction board r cycles nextPc none).log =
        (r.toScreen.advance (cycles * m68kCycleMasterTicks)).2 :=
  ⟨(retire_quiet cycles going quiet).screen, (retire_quiet cycles going quiet).publishedFrames⟩

/-- Quiet retirements are the lines they cross, one after the other. -/
theorem retireAll_lines {steps : List (ℕ × BitVec 32)} {last : GenesisRuntime R F × List Event}
    (steady : r.toScreen.Steady)
    (short : ∀ step ∈ steps, step.1 * m68kCycleMasterTicks < Screen.blankLines * masterTicksPerLine)
    (ran : retireAll board r steps = some last) (quiet : Quiet last.2) :
    last.1.toScreen =
        (r.toScreen.lines (r.masterTicks / masterTicksPerLine)
          ((r.masterTicks + totalCycles steps * m68kCycleMasterTicks) / masterTicksPerLine)).1.timed
          (r.masterTicks + totalCycles steps * m68kCycleMasterTicks) ∧
      publishedFrames last.2 =
        (r.toScreen.lines (r.masterTicks / masterTicksPerLine)
          ((r.masterTicks + totalCycles steps * m68kCycleMasterTicks) / masterTicksPerLine)).2 := by
  induction steps generalizing r last with
  | nil =>
      obtain rfl := Option.some.inj ran
      have same : r.masterTicks + totalCycles [] * m68kCycleMasterTicks = r.masterTicks := by
        rw [totalCycles, List.map_nil, List.sum_nil, Nat.zero_mul, Nat.add_zero]
      rw [same, Screen.lines, sweep_self]
      exact ⟨steady.timed.symm, rfl⟩
  | cons step steps ih =>
      obtain ⟨cycles, nextPc⟩ := step
      rw [retireAll] at ran
      cases transfer : (retireM68kInstruction board r cycles nextPc none).transfer with
      | stop stop =>
          rw [transfer] at ran
          exact absurd ran (Option.some_ne_none _).symm
      | continueAt pc =>
          rw [transfer] at ran
          obtain ⟨later, ranLater, rfl⟩ := Option.map_eq_some_iff.mp ran
          obtain ⟨screen, frames⟩ := retire_advance board r nextPc cycles
            (by rw [transfer]; rfl) quiet.left
          generalize retireM68kInstruction board r cycles nextPc none = retired at ranLater quiet screen frames
          let t₁ := r.masterTicks + cycles * m68kCycleMasterTicks
          let t₂ := t₁ + totalCycles steps * m68kCycleMasterTicks
          have total : r.masterTicks + totalCycles ((cycles, nextPc) :: steps) * m68kCycleMasterTicks = t₂ := by
            simp only [t₂, t₁, totalCycles, List.map_cons, List.sum_cons, Nat.add_mul, Nat.add_assoc]
          have steady₁ : retired.runtime.toScreen.Steady := by
            rw [screen]
            exact Screen.advance_steady (fun _ => steady) _
          rw [Screen.advance_lines steady (short _ List.mem_cons_self)] at screen frames
          have ticks : retired.runtime.masterTicks = t₁ := congrArg Screen.masterTicks screen
          obtain ⟨endScreen, endFrames⟩ :=
            ih steady₁ (fun step mem => short step (List.mem_cons_of_mem _ mem)) ranLater quiet.right
          have first : r.masterTicks / masterTicksPerLine ≤ t₁ / masterTicksPerLine :=
            Nat.div_le_div_right (Nat.le_add_right _ _)
          have second : t₁ / masterTicksPerLine ≤ t₂ / masterTicksPerLine :=
            Nat.div_le_div_right (Nat.le_add_right _ _)
          rw [ticks, screen, Screen.lines_timed] at endScreen endFrames
          rw [total, Screen.lines_trans r.toScreen first second, publishedFrames_append, frames, endFrames]
          exact ⟨endScreen, rfl⟩

/-- In every run the transition count is the number of VBlank onsets crossed with IE0 set and nothing
pending, and each of them is a served or the pending request. From any state of a run whose raster
schedule has started, retirements of one total, each shorter than the blanking period, that neither
stop, enter nor drop an interrupt, leave one clock, latch, raster state and picture. -/
theorem schedule_exact {start : GenesisRuntime R F} {stopped : Bool} (run : Run board start r log stopped) :
    (r.interrupt.vblankTransitionCount.toNat = irq6Entries log + r.interrupt.vblankPending.toNat ∧
      r.interrupt.vblankTransitionCount.toNat = latchingOnsets log) ∧
    (stopped = false → r.raster.initialized = true →
      ∀ first second : List (ℕ × BitVec 32), totalCycles first = totalCycles second →
        (∀ step ∈ first ++ second, step.1 * m68kCycleMasterTicks < Screen.blankLines * masterTicksPerLine) →
        ∀ a b, retireAll board r first = some a → retireAll board r second = some b → Quiet a.2 → Quiet b.2 →
          a.1.toScreen = b.1.toScreen ∧ publishedFrames a.2 = publishedFrames b.2) := by
  obtain ⟨balanced, kept⟩ := run.ledger
  refine ⟨⟨balanced.served, balanced.noticed⟩, ?_⟩
  intro going started first second total short a b ranFirst ranSecond quietFirst quietSecond
  have steady := (kept going).settled started
  obtain ⟨screen, frames⟩ := retireAll_lines steady
    (fun step mem => short step (List.mem_append_left _ mem)) ranFirst quietFirst
  obtain ⟨screen', frames'⟩ := retireAll_lines steady
    (fun step mem => short step (List.mem_append_right _ mem)) ranSecond quietSecond
  rw [← total] at screen' frames'
  exact ⟨screen.trans screen'.symm, frames.trans frames'.symm⟩

/-! Concrete runs over a machine without a Z80. -/

def silent : Board Unit where
  stackRead _ _ _ := (none, ())
  frameWrite _ _ _ _ := ((), false)
  noteIrq6ExceptionFrame _ _ := ()

def vdpWith (register0 register1 register10 : BitVec 16) : VdpState where
  registers n := if n = 0 then register0 else if n = 1 then register1 else if n = 10 then register10 else 0
  cram _ := 0
  vsram _ := 0
  vram _ := 0

def cold : GenesisRuntime Unit Unit where
  vdp := vdpWith 0 0x0020 0
  a7 := 0xFFFE00
  usp := 0
  sr := 0x2000
  pc := 0x200
  irq6Handler := some 0x400
  rest := ()

/-- A retirement across the first onset, which enters the handler, and two ways to go on. -/
theorem schedule_exact_onset :
    let onset := retireM68kInstruction silent cold 109441 0x202 none
    onset.transfer = .continueAt 0x400 ∧ irq6Entries onset.log = 1 ∧
      onset.runtime.interrupt.vblankTransitionCount.toNat =
        irq6Entries onset.log + onset.runtime.interrupt.vblankPending.toNat ∧
      onset.runtime.interrupt.vblankTransitionCount.toNat = latchingOnsets onset.log ∧
      ∃ a b, retireAll silent onset.runtime [(300, 0x402), (400, 0x404)] = some a ∧
        retireAll silent onset.runtime [(700, 0x404)] = some b ∧
        a.1.toScreen = b.1.toScreen ∧ publishedFrames a.2 = publishedFrames b.2 := by
  intro onset
  have reset : Run silent cold cold [] false := Run.reset ⟨rfl, rfl, rfl⟩
  have run := reset.retire 109441 0x202 none
  have exact' := schedule_exact run
  refine ⟨by decide, by decide, exact'.1.1, exact'.1.2, ?_⟩
  have ran : (retireAll silent onset.runtime [(300, 0x402), (400, 0x404)]).isSome := by decide
  have ran' : (retireAll silent onset.runtime [(700, 0x404)]).isSome := by decide
  refine ⟨_, _, Option.some_get ran |>.symm, Option.some_get ran' |>.symm, ?_⟩
  exact exact'.2 (by decide) (by decide) _ _ (by decide) (by decide) _ _
    (Option.some_get ran).symm (Option.some_get ran').symm (by decide +revert) (by decide +revert)

/-- One line before the onset, an H-interrupt due, level 4 enabled and no handler installed. -/
def unhandled : GenesisRuntime Unit Unit where
  masterTicks := 222 * masterTicksPerLine
  vdp := vdpWith 0x0010 0x0020 1
  raster := { initialized := true, lastLine := 222, nextLineTick := 223 * masterTicksPerLine }
  a7 := 0xFFFE00
  usp := 0
  sr := 0x2000
  pc := 0x200
  rest := ()

/-- A request that is dropped at its own boundary survives where one retirement also crosses the
onset: no interrupt is admitted and no register written, yet the latch differs. -/
theorem hint_drop_visible :
    ¬ ∀ (r : GenesisRuntime Unit Unit) (first second : List (ℕ × BitVec 32)) a b,
      r.raster.initialized = true → totalCycles first = totalCycles second →
      (∀ step ∈ first ++ second, step.1 * m68kCycleMasterTicks < Screen.blankLines * masterTicksPerLine) →
      retireAll silent r first = some a → retireAll silent r second = some b →
      (∀ e ∈ a.2 ++ b.2, e.isEntry = false) → a.1.raster.hintPending = b.1.raster.hintPending := by
  intro same
  have ran : (retireAll silent unhandled [(489, 0x202), (489, 0x204)]).isSome := by decide
  have ran' : (retireAll silent unhandled [(978, 0x204)]).isSome := by decide
  have equal := same unhandled [(489, 0x202), (489, 0x204)] [(978, 0x204)] _ _ rfl (by decide) (by decide)
    (Option.some_get ran).symm (Option.some_get ran').symm (by decide +revert)
  have dropped : ((retireAll silent unhandled [(489, 0x202), (489, 0x204)]).get ran).1.raster.hintPending = false := by
    decide +revert
  have kept : ((retireAll silent unhandled [(978, 0x204)]).get ran').1.raster.hintPending = true := by
    decide +revert
  exact Bool.false_ne_true (dropped.symm.trans (equal.trans kept))

end Segarecomp.Genesis.Schedule

import Segarecomp.Genesis.Schedule
import Segarecomp.Lib.Periodic

/-! The scanline schedule is a sweep over the lines of guest time, however the time is cut up. -/

namespace Segarecomp.Genesis.Schedule

open Lib.Periodic
open Z80Machine (masterTicksPerLine masterTicksPerFrame vblankOnsetTick)

variable {F : Type} {s : Screen F} {n before delta : ℕ}

/-! ## Marks of the schedule -/

theorem crossesOnset_iff :
    crossesOnset before delta = true ↔
      Marked vblankOnsetTick masterTicksPerFrame before (before + delta) := by
  rw [marked_iff (by decide) (Nat.le_add_right before delta), crossesOnset]
  split_ifs <;> simp

theorem marked_iff_line {a b : ℕ} :
    Marked vblankOnsetTick masterTicksPerFrame a b ↔
      ∃ n, a / masterTicksPerLine < n ∧ n ≤ b / masterTicksPerLine ∧ n % linesPerFrame = vblankOnsetLine := by
  rw [← marked_iff_mod (by decide)]
  have scaled : Marked (224 * 3420) (262 * 3420) a b ↔ Marked 224 262 (a / 3420) (b / 3420) :=
    marked_scale (by decide)
  exact scaled

/-! ## What a line leaves alone -/

namespace RasterScheduler

variable {raster : RasterScheduler} {register10 : Byte} {line : ℕ}

/-- The raster state with the marks the schedule keeps at a master time. -/
def timed (raster : RasterScheduler) (ticks : ℕ) : RasterScheduler :=
  { raster with
    lastLine := ticks / masterTicksPerLine
    nextLineTick := (ticks / masterTicksPerLine + 1) * masterTicksPerLine % 2 ^ 64 }

theorem stepHint_timed (raster : RasterScheduler) (register10 : Byte) (line ticks : ℕ) :
    (raster.timed ticks).stepHint register10 line = (raster.stepHint register10 line).timed ticks := by
  rw [stepHint, stepHint, apply_ite (timed · ticks), apply_ite (timed · ticks), apply_ite (timed · ticks),
    apply_ite (timed · ticks), apply_ite (timed · ticks)]
  rfl

theorem stepHint_initialized (raster : RasterScheduler) (register10 : Byte) (line : ℕ) :
    (raster.stepHint register10 line).initialized = raster.initialized := by
  rw [stepHint]
  split_ifs <;> rfl

theorem stepHint_nextLineTick (raster : RasterScheduler) (register10 : Byte) (line : ℕ) :
    (raster.stepHint register10 line).nextLineTick = raster.nextLineTick := by
  rw [stepHint]
  split_ifs <;> rfl

end RasterScheduler

namespace Screen

def timed (s : Screen F) (ticks : ℕ) : Screen F :=
  { s with masterTicks := ticks, raster := s.raster.timed ticks }

/-- A screen as the scheduler leaves it. -/
structure Steady (s : Screen F) : Prop where
  initialized : s.raster.initialized = true
  marks : s.raster.timed s.masterTicks = s.raster

theorem timed_timed (s : Screen F) (t u : ℕ) : (s.timed t).timed u = s.timed u := rfl

theorem Steady.timed (steady : Steady s) : s.timed s.masterTicks = s := by
  rw [Screen.timed, steady.marks]

theorem steady_timed (initialized : s.raster.initialized = true) (t : ℕ) : Steady (s.timed t) :=
  ⟨initialized, rfl⟩

theorem Steady.lastLine (steady : Steady s) : s.raster.lastLine = s.masterTicks / masterTicksPerLine :=
  (congrArg RasterScheduler.lastLine steady.marks).symm

theorem Steady.nextLineTick (steady : Steady s) :
    s.raster.nextLineTick = (s.masterTicks / masterTicksPerLine + 1) * masterTicksPerLine % 2 ^ 64 :=
  (congrArg RasterScheduler.nextLineTick steady.marks).symm

theorem rasterEnterLine_timed (s : Screen F) (t n : ℕ) :
    (s.timed t).rasterEnterLine n = (s.rasterEnterLine n).timed t := by
  rw [rasterEnterLine, rasterEnterLine, timed, timed]
  simp only [RasterScheduler.stepHint_timed]

theorem crossOnset_timed (s : Screen F) (t : ℕ) :
    (s.timed t).crossOnset = (s.crossOnset.1.timed t, s.crossOnset.2) := rfl

theorem rasterEnterLine_initialized (s : Screen F) (n : ℕ) :
    (s.rasterEnterLine n).raster.initialized = s.raster.initialized :=
  RasterScheduler.stepHint_initialized _ _ _

/-- The lines after the onset line touch the counter only, which a frame boundary does not read. -/
theorem rasterEnterLine_crossOnset (s : Screen F) (blank : vblankOnsetLine < n % linesPerFrame) :
    s.crossOnset.1.rasterEnterLine n = (s.rasterEnterLine n).crossOnset.1 ∧
      s.crossOnset.2 = (s.rasterEnterLine n).crossOnset.2 := by
  have dark : vblankOnsetLine < n % linesPerFrame → ¬ n % linesPerFrame < 224 ∧ n % linesPerFrame ≠ 0 := by
    rw [vblankOnsetLine]
    omega
  obtain ⟨below, fresh⟩ := dark blank
  have keeps : ∀ (observer : Option (LiveFrameObserver F)) vdp liveRaster,
      captureAt observer vdp liveRaster (n % linesPerFrame) = liveRaster := by
    intro observer vdp liveRaster
    rw [captureAt, if_neg fresh, dif_neg below]
  rw [rasterEnterLine, rasterEnterLine, keeps, keeps]
  exact ⟨rfl, rfl⟩

/-! ## A pass of the scheduler as a sweep -/

/-- One line: the capture and the counter, and the frame boundary at the onset line. -/
def lineEvent (film : Screen F × List RasterFrameState) (n : ℕ) : Screen F × List RasterFrameState :=
  let s := film.1.rasterEnterLine n
  if n % linesPerFrame = vblankOnsetLine then (s.crossOnset.1, film.2 ++ s.crossOnset.2) else (s, film.2)

def lines (s : Screen F) (a b : ℕ) : Screen F × List RasterFrameState :=
  sweep lineEvent a b (s, [])

theorem rasterEnterLines_eq (s : Screen F) (a b : ℕ) :
    s.rasterEnterLines (a + 1) (b - a) = sweep rasterEnterLine a b s := rfl

theorem sweep_timed (s : Screen F) (a b t : ℕ) :
    sweep rasterEnterLine a b (s.timed t) = (sweep rasterEnterLine a b s).timed t :=
  (sweep_map (h := fun s : Screen F => s.timed t) fun n s _ _ => (rasterEnterLine_timed s t n).symm).symm

theorem sweep_initialized (s : Screen F) (a b : ℕ) (h : s.raster.initialized = true) :
    (sweep rasterEnterLine a b s).raster.initialized = true :=
  sweep_keeps (P := fun s : Screen F => s.raster.initialized = true)
    (fun n s _ _ h => (rasterEnterLine_initialized s n).trans h) h

theorem clocked_eq (s : Screen F) (t : ℕ) (same : t / masterTicksPerLine = s.masterTicks / masterTicksPerLine)
    (steady : s.Steady) : { s with masterTicks := t } = s.timed t := by
  have marks : s.raster.timed t = s.raster := by
    rw [← steady.marks, RasterScheduler.timed, RasterScheduler.timed, same]
  rw [timed, marks]

theorem rasterAdvance_skip (t : ℕ) (still : s.raster.initialized = true ∧ t < s.raster.nextLineTick) :
    s.rasterAdvance t = s := by
  rw [rasterAdvance, if_pos still]

theorem rasterAdvance_first (t : ℕ) (first : s.raster.initialized = false) :
    ∃ s' : Screen F, s'.raster.initialized = true ∧ s'.vdp = s.vdp ∧ s'.interrupt = s.interrupt ∧
      { s with masterTicks := t }.rasterAdvance t = s'.timed t := by
  let s' : Screen F :=
    { s with raster := { s.raster with initialized := true, hintCounter := s.vdp.register10 } }
  refine ⟨s'.rasterEnterLine (t / masterTicksPerLine), ?_, rfl, rfl, ?_⟩
  · exact rasterEnterLine_initialized _ _
  · rw [rasterAdvance, if_neg (by simp [first]), ← rasterEnterLine_timed]
    simp only [first, if_true]
    rfl

/-- The line before the first one entered: the last line processed, or after a long wait the one
two frames back. -/
def enteredFrom (lastLine lineNow : ℕ) : ℕ :=
  if lineNow - (lastLine + 1) > 2 * linesPerFrame then lineNow - 2 * linesPerFrame - 1 else lastLine

def nextTick (t : ℕ) : ℕ := (t / masterTicksPerLine + 1) * masterTicksPerLine % 2 ^ 64

def ahead (s : Screen F) (t : ℕ) : Screen F :=
  { s with masterTicks := t, raster := { s.raster with nextLineTick := nextTick t } }

def reached (s : Screen F) (t : ℕ) : Screen F :=
  { s with raster := { s.raster with lastLine := t / masterTicksPerLine } }

theorem ahead_reached {t : ℕ} (clock : s.masterTicks = t) (tick : s.raster.nextLineTick = nextTick t) :
    s.reached t = s.timed t := by
  subst clock
  rw [timed, RasterScheduler.timed, ← nextTick, ← tick, reached]

theorem sweep_ahead (s : Screen F) (a b t : ℕ) :
    (sweep rasterEnterLine a b (s.ahead t)).reached t = (sweep rasterEnterLine a b s).timed t := by
  have marks : (sweep rasterEnterLine a b (s.ahead t)).masterTicks = t ∧
      (sweep rasterEnterLine a b (s.ahead t)).raster.nextLineTick = nextTick t := by
    refine sweep_keeps (P := fun x : Screen F => x.masterTicks = t ∧ x.raster.nextLineTick = nextTick t)
      ?_ ⟨rfl, rfl⟩
    rintro n x - - ⟨clock, tick⟩
    exact ⟨clock, (RasterScheduler.stepHint_nextLineTick _ _ _).trans tick⟩
  calc
    (sweep rasterEnterLine a b (s.ahead t)).reached t = (sweep rasterEnterLine a b (s.ahead t)).timed t :=
      ahead_reached marks.1 marks.2
    _ = sweep rasterEnterLine a b ((s.ahead t).timed t) := (sweep_timed _ _ _ _).symm
    _ = sweep rasterEnterLine a b (s.timed t) := rfl
    _ = (sweep rasterEnterLine a b s).timed t := sweep_timed _ _ _ _

theorem rasterAdvance_due {t : ℕ} (initialized : s.raster.initialized = true)
    (due : s.raster.nextLineTick ≤ t) :
    { s with masterTicks := t }.rasterAdvance t =
      if t / masterTicksPerLine ≤ s.raster.lastLine then s.ahead t
      else
        (sweep rasterEnterLine (enteredFrom s.raster.lastLine (t / masterTicksPerLine))
          (t / masterTicksPerLine) (s.ahead t)).reached t := by
  have late : ¬ (s.raster.initialized = true ∧ t < s.raster.nextLineTick) := fun h => by omega
  have known : ¬ s.raster.initialized = false := by rw [initialized]; exact Bool.noConfusion
  rw [rasterAdvance, if_neg late]
  dsimp only
  rw [if_neg known]
  by_cases same : t / masterTicksPerLine ≤ s.raster.lastLine
  · rw [if_pos same, if_pos same]
    rfl
  · have line : (if t / masterTicksPerLine - (s.raster.lastLine + 1) > 2 * linesPerFrame then
        t / masterTicksPerLine - 2 * linesPerFrame else s.raster.lastLine + 1) =
        enteredFrom s.raster.lastLine (t / masterTicksPerLine) + 1 := by
      rw [enteredFrom]
      split_ifs <;> omega
    rw [if_neg same, if_neg same, line, Nat.add_sub_add_right, rasterEnterLines_eq]
    rfl

theorem rasterAdvance_enter {t : ℕ} (initialized : s.raster.initialized = true)
    (due : s.raster.nextLineTick ≤ t) (further : s.raster.lastLine < t / masterTicksPerLine) :
    { s with masterTicks := t }.rasterAdvance t =
      (sweep rasterEnterLine (enteredFrom s.raster.lastLine (t / masterTicksPerLine))
        (t / masterTicksPerLine) s).timed t := by
  rw [rasterAdvance_due initialized due, if_neg (Nat.not_le.mpr further), sweep_ahead]

theorem enteredFrom_near {l l' : ℕ} (near : l' ≤ l + 525) : enteredFrom l l' = l := by
  rw [enteredFrom, linesPerFrame, if_neg (by omega)]

theorem rasterAdvance_steady {t : ℕ} (steady : s.Steady) (later : s.masterTicks ≤ t) :
    { s with masterTicks := t }.rasterAdvance t =
      (sweep rasterEnterLine (enteredFrom (s.masterTicks / masterTicksPerLine) (t / masterTicksPerLine))
        (t / masterTicksPerLine) s).timed t := by
  have mono : s.masterTicks / masterTicksPerLine ≤ t / masterTicksPerLine := Nat.div_le_div_right later
  rcases Nat.eq_or_lt_of_le mono with same | further
  · rw [← same, enteredFrom_near (Nat.le_add_right _ _), sweep_self]
    by_cases due : s.raster.nextLineTick ≤ t
    · rw [rasterAdvance_due steady.initialized due, steady.lastLine, if_pos same.ge]
      rw [ahead, timed, RasterScheduler.timed, nextTick, ← same, ← steady.lastLine]
    · have still : s.raster.initialized = true ∧ t < s.raster.nextLineTick :=
        ⟨steady.initialized, Nat.not_le.mp due⟩
      calc
        { s with masterTicks := t }.rasterAdvance t = { s with masterTicks := t } :=
          rasterAdvance_skip (s := { s with masterTicks := t }) t still
        _ = s.timed t := clocked_eq s t same.symm steady
  · have tick : s.raster.nextLineTick ≤ (s.masterTicks / masterTicksPerLine + 1) * masterTicksPerLine := by
      rw [steady.nextLineTick]
      exact Nat.mod_le _ _
    have due : s.raster.nextLineTick ≤ t :=
      tick.trans ((Nat.le_div_iff_mul_le (by decide)).mp further)
    rw [rasterAdvance_enter steady.initialized due (by rw [steady.lastLine]; exact further), steady.lastLine]

/-- Without the onset line among them, lines are entered and nothing is published. -/
theorem lines_dark (a b : ℕ) (dark : ∀ n, a < n → n ≤ b → n % linesPerFrame ≠ vblankOnsetLine) :
    s.lines a b = (sweep rasterEnterLine a b s, []) := by
  refine (sweep_map (h := fun s : Screen F => (s, [])) ?_).symm
  intro n s past within
  rw [lineEvent, if_neg (dark n past within)]

/-- The onset line and blank lines after it: the frame boundary may come after all of them. -/
theorem lines_onset {a b : ℕ} (n : ℕ) (past : a < n) (within : n ≤ b)
    (onset : n % linesPerFrame = vblankOnsetLine)
    (dark : ∀ k, a < k → k < n → k % linesPerFrame ≠ vblankOnsetLine)
    (blank : ∀ k, n < k → k ≤ b → vblankOnsetLine < k % linesPerFrame) :
    s.lines a b = (sweep rasterEnterLine a b s).crossOnset := by
  obtain ⟨m, rfl⟩ : ∃ m, n = m + 1 := ⟨n - 1, by omega⟩
  have start : sweep lineEvent a m (s, []) = (sweep rasterEnterLine a m s, []) :=
    lines_dark a m fun k past within => dark k past (by omega)
  have event : sweep lineEvent a (m + 1) (s, []) = (sweep rasterEnterLine a (m + 1) s).crossOnset := by
    rw [sweep_succ (by omega), sweep_succ (by omega), start, lineEvent, if_pos onset]
    rfl
  calc
    s.lines a b = sweep lineEvent (m + 1) b (sweep lineEvent a (m + 1) (s, [])) :=
      (sweep_trans (by omega) within).symm
    _ = sweep lineEvent (m + 1) b (sweep rasterEnterLine a (m + 1) s).crossOnset := by rw [event]
    _ = (sweep rasterEnterLine (m + 1) b (sweep rasterEnterLine a (m + 1) s)).crossOnset := by
      refine (sweep_map (h := crossOnset) ?_).symm
      intro k x past within
      obtain ⟨screen, frames⟩ := rasterEnterLine_crossOnset x (blank k past within)
      have other : k % linesPerFrame ≠ vblankOnsetLine := (blank k past within).ne'
      rw [lineEvent, if_neg other, screen, frames]
    _ = (sweep rasterEnterLine a b s).crossOnset := by rw [sweep_trans (by omega) within]

/-- Lines of the blanking period. -/
def blankLines : ℕ := 38

theorem near_of_short {a delta : ℕ} (short : delta < blankLines * masterTicksPerLine) :
    (a + delta) / masterTicksPerLine ≤ a / masterTicksPerLine + blankLines := by
  rw [blankLines, masterTicksPerLine] at *
  omega

/-- A pass shorter than the blanking period is its lines one after the other. -/
theorem advance_lines {delta : ℕ} (steady : s.Steady) (short : delta < blankLines * masterTicksPerLine) :
    s.advance delta =
      ((s.lines (s.masterTicks / masterTicksPerLine) ((s.masterTicks + delta) / masterTicksPerLine)).1.timed
          (s.masterTicks + delta),
        (s.lines (s.masterTicks / masterTicksPerLine) ((s.masterTicks + delta) / masterTicksPerLine)).2) := by
  have near : (s.masterTicks + delta) / masterTicksPerLine ≤ s.masterTicks / masterTicksPerLine + 38 :=
    near_of_short short
  have entered := rasterAdvance_steady steady (Nat.le_add_right s.masterTicks delta)
  rw [enteredFrom_near (by omega)] at entered
  rw [advance, entered]
  by_cases crosses : crossesOnset s.masterTicks delta = true
  · obtain ⟨n, past, within, onset⟩ := marked_iff_line.mp (crossesOnset_iff.mp crosses)
    have found := lines_onset (s := s) n past within onset
      (fun k kpast before same => by rw [linesPerFrame, vblankOnsetLine] at *; omega)
      (fun k after kwithin => by rw [linesPerFrame, vblankOnsetLine] at *; omega)
    rw [if_pos crosses, found, crossOnset_timed]
  · have dark := lines_dark (s := s) _ _ fun n past within onset =>
      crosses (crossesOnset_iff.mpr (marked_iff_line.mpr ⟨n, past, within, onset⟩))
    rw [if_neg crosses, dark]

/-! ## Cutting the time up -/

theorem lineEvent_timed (s : Screen F) (frames : List RasterFrameState) (t n : ℕ) :
    lineEvent (s.timed t, frames) n = ((lineEvent (s, frames) n).1.timed t, (lineEvent (s, frames) n).2) := by
  rw [lineEvent, lineEvent]
  dsimp only
  rw [rasterEnterLine_timed]
  split_ifs <;> rfl

theorem lineEvent_append (s : Screen F) (before frames : List RasterFrameState) (n : ℕ) :
    lineEvent (s, before ++ frames) n =
      ((lineEvent (s, frames) n).1, before ++ (lineEvent (s, frames) n).2) := by
  rw [lineEvent, lineEvent]
  split_ifs
  · rw [List.append_assoc]
  · rfl

theorem lines_timed (s : Screen F) (a b t : ℕ) :
    (s.timed t).lines a b = ((s.lines a b).1.timed t, (s.lines a b).2) := by
  have mapped := sweep_map (a := a) (b := b) (f := lineEvent (F := F))
    (h := fun film : Screen F × List RasterFrameState => (film.1.timed t, film.2)) (s := (s, []))
    fun n film _ _ => (lineEvent_timed film.1 film.2 t n).symm
  exact mapped.symm

theorem lines_trans {a b c : ℕ} (s : Screen F) (le : a ≤ b) (le' : b ≤ c) :
    s.lines a c = (((s.lines a b).1.lines b c).1, (s.lines a b).2 ++ ((s.lines a b).1.lines b c).2) := by
  have prefixed : ∀ x : Screen F, ∀ frames,
      sweep lineEvent b c (x, frames) = ((x.lines b c).1, frames ++ (x.lines b c).2) := by
    intro x frames
    have mapped := sweep_map (a := b) (b := c) (f := lineEvent (F := F))
      (h := fun film : Screen F × List RasterFrameState => (film.1, frames ++ film.2)) (s := (x, []))
      fun n film _ _ => (lineEvent_append film.1 frames film.2 n).symm
    rw [List.append_nil] at mapped
    exact mapped.symm
  calc
    s.lines a c = sweep lineEvent b c (s.lines a b) := (sweep_trans le le').symm
    _ = _ := prefixed (s.lines a b).1 (s.lines a b).2

/-! ## What any pass leaves -/

/-- A screen whose schedule has started is as the scheduler leaves it. -/
def Settled (s : Screen F) : Prop := s.raster.initialized = true → s.Steady

theorem Settled.congr {s' : Screen F} (settled : s.Settled) (ticks : s'.masterTicks = s.masterTicks)
    (started : s'.raster.initialized = s.raster.initialized) (line : s'.raster.lastLine = s.raster.lastLine)
    (tick : s'.raster.nextLineTick = s.raster.nextLineTick) : s'.Settled := by
  intro known
  have steady := settled (started.symm.trans known)
  refine ⟨known, ?_⟩
  rw [RasterScheduler.timed, ticks, ← steady.nextLineTick, ← steady.lastLine, ← line, ← tick]

theorem sweep_rest (s : Screen F) (a b : ℕ) :
    (sweep rasterEnterLine a b s).vdp = s.vdp ∧ (sweep rasterEnterLine a b s).interrupt = s.interrupt :=
  sweep_keeps (P := fun x : Screen F => x.vdp = s.vdp ∧ x.interrupt = s.interrupt)
    (fun _ _ _ _ h => h) ⟨rfl, rfl⟩

theorem rasterAdvance_spec {t : ℕ} (settled : s.Settled) (later : s.masterTicks ≤ t) :
    ∃ s' : Screen F, s'.raster.initialized = true ∧ s'.vdp = s.vdp ∧ s'.interrupt = s.interrupt ∧
      { s with masterTicks := t }.rasterAdvance t = s'.timed t := by
  cases started : s.raster.initialized with
  | false => exact rasterAdvance_first t started
  | true =>
      have steady := settled started
      exact ⟨_, sweep_initialized s _ _ started, (sweep_rest s _ _).1, (sweep_rest s _ _).2,
        rasterAdvance_steady steady later⟩

theorem rasterEnterLines_vdp (s : Screen F) (line count : ℕ) : (s.rasterEnterLines line count).vdp = s.vdp := by
  induction count generalizing s line with
  | zero => rfl
  | succ count ih => exact ih (s.rasterEnterLine line) (line + 1)

theorem rasterAdvance_vdp (s : Screen F) (t : ℕ) : (s.rasterAdvance t).vdp = s.vdp := by
  rw [rasterAdvance]
  split_ifs
  · rfl
  · rfl
  · dsimp only
    split_ifs
    · rfl
    · simp only [rasterEnterLines_vdp]
    · simp only [rasterEnterLines_vdp]

theorem advance_vdp (s : Screen F) (delta : ℕ) : (s.advance delta).1.vdp = s.vdp := by
  rw [advance]
  split_ifs
  · exact rasterAdvance_vdp _ _
  · exact rasterAdvance_vdp _ _

theorem advance_steady (settled : s.Settled) (delta : ℕ) : (s.advance delta).1.Steady := by
  obtain ⟨s', started, -, -, eq⟩ := rasterAdvance_spec settled (Nat.le_add_right s.masterTicks delta)
  rw [advance, eq]
  split_ifs
  · rw [crossOnset_timed]
    exact steady_timed (s := s'.crossOnset.1) started _
  · exact steady_timed started _

theorem advance_interrupt (settled : s.Settled) (delta : ℕ) :
    (s.advance delta).1.interrupt =
      if crossesOnset s.masterTicks delta = true then s.interrupt.latchVblank s.ie0 else s.interrupt := by
  obtain ⟨s', -, vdp, interrupt, eq⟩ := rasterAdvance_spec settled (Nat.le_add_right s.masterTicks delta)
  have gate : (s'.timed (s.masterTicks + delta)).ie0 = s.ie0 := by
    rw [ie0, ie0, ← vdp]
    rfl
  rw [advance, eq]
  split_ifs
  · rw [crossOnset, gate, ← interrupt]
    rfl
  · exact interrupt

end Screen
end Segarecomp.Genesis.Schedule

import Segarecomp.Genesis.RasterWrites
import Segarecomp.Genesis.FrameProducer

/-! A frame is rendered at its VBlank onset, from the lines captured as they were entered and the
journal of VRAM. Its picture is the one each line had when it was entered. -/

namespace Segarecomp.Genesis.RasterJournal

open Schedule Screen Route RasterWrites FrameRow FrameProducer Lib.Journal Lib.Periodic
open VdpPort (Access journalVram)
open Z80Machine (masterTicksPerLine)

variable {s s' : Screen FrameArtifact} {seen : ℕ → VdpState} {observer : LiveFrameObserver FrameArtifact}
  {capture : RasterCapture FrameArtifact} {n a b m delta : ℕ}

/-! ## The capture -/

/-- The capture of a frame up to line `k`, whose lines were entered in the states `seen`. -/
structure Traced (seen : ℕ → VdpState) (k : ℕ) (vram : Vram) (capture : RasterCapture FrameArtifact) : Prop where
  lines : ∀ i : Fin 224, i.val ≤ k →
    capture.captured i = true ∧ capture.frame.lines i = rasterCaptureState (seen i.val)
  journal : capture.frame.hasVramJournal = true → capture.frame.vramWriteCount.toNat ≤ 8192 ∧
    Recorded storeVram stampOf capture.frame.vramStart (RasterFrameState.journal capture.frame)
      (fun i => (seen i).vram) k vram

/-- A capture is attached, and in an active line `n` it holds the frame so far. -/
def Filming (seen : ℕ → VdpState) (observer : LiveFrameObserver FrameArtifact) (n : ℕ)
    (s : Screen FrameArtifact) : Prop :=
  s.liveFrameObserver = some observer ∧ ∃ capture, s.liveRaster = some capture ∧
    capture.producer = some produceFrameRaster ∧
    (n % 262 < 224 → Traced (fun i => seen (n - n % 262 + i)) (n % 262) s.vdp.vram capture)

def Caught (seen : ℕ → VdpState) (observer : LiveFrameObserver FrameArtifact) (s : Screen FrameArtifact) : Prop :=
  s.Steady ∧ Filming seen observer s.raster.lastLine s

/-! ## Writes -/

theorem journal_push (frame : RasterFrameState) (w : RasterVramWrite) (room : frame.vramWriteCount.toNat < 8192) :
    RasterFrameState.journal { frame with
      vramWrites := Function.update frame.vramWrites ⟨frame.vramWriteCount.toNat, room⟩ w
      vramWriteCount := frame.vramWriteCount + 1 } = RasterFrameState.journal frame ++ [w] := by
  have count : (frame.vramWriteCount + 1).toNat = frame.vramWriteCount.toNat + 1 := by bv_omega
  have last : Fin.ofNat 8192 frame.vramWriteCount.toNat = ⟨frame.vramWriteCount.toNat, room⟩ :=
    Fin.ext (Nat.mod_eq_of_lt room)
  rw [RasterFrameState.journal, count, List.range_succ, List.map_append, List.map_singleton, last]
  dsimp only
  rw [Function.update_self]
  congr 1
  apply List.map_congr_left
  intro i mem
  have early := List.mem_range.mp mem
  apply Function.update_of_ne
  intro same
  have place : i % 8192 = frame.vramWriteCount.toNat := congrArg Fin.val same
  omega

/-- A VRAM byte is in the journal, or there is no journal any more. -/
theorem Caught.byte (caught : Caught seen observer s) (address : ℕ) (value : Byte) :
    Caught seen observer (putByte s address value) := by
  rcases caught with ⟨steady, attached, capture, live, producer, traced⟩
  rw [putByte_eq, withVdp, journalVram, live]
  dsimp only
  split_ifs with closed room
  · refine ⟨⟨steady.initialized, steady.marks⟩, attached, capture, live, producer, ?_⟩
    intro inside
    refine ⟨(traced inside).lines, ?_⟩
    intro kept
    exact absurd (closed.resolve_right (Nat.not_le.mpr inside)) (by simp [kept])
  · refine ⟨⟨steady.initialized, steady.marks⟩, attached, _, rfl, producer, ?_⟩
    intro inside
    refine ⟨(traced inside).lines, ?_⟩
    intro kept
    have stamped : stampOf ⟨BitVec.ofNat 16 address, value, BitVec.ofNat 8 (s.raster.lastLine % 262)⟩ =
        s.raster.lastLine % 262 := by
      have lit : s.raster.lastLine % 262 < 224 := inside
      rw [stampOf, BitVec.toNat_ofNat]
      omega
    have place : Fin.ofNat 65536 (BitVec.ofNat 16 address).toNat = Fin.ofNat 65536 address := by
      apply Fin.ext
      simp
    have written := ((traced inside).journal kept).2.write stamped
    rw [storeVram, place, ← journal_push _ _ room] at written
    refine ⟨?_, written⟩
    change (capture.frame.vramWriteCount + 1).toNat ≤ 8192
    bv_omega
  · refine ⟨⟨steady.initialized, steady.marks⟩, attached, _, rfl, producer, ?_⟩
    intro inside
    exact ⟨(traced inside).lines, fun kept => absurd kept Bool.false_ne_true⟩

theorem Caught.written (caught : Caught seen observer s) (written : Written s s') : Caught seen observer s' := by
  induction written with
  | refl => exact caught
  | vdp _ vdp vram ih =>
      rcases ih with ⟨steady, attached, capture, live, producer, traced⟩
      refine ⟨⟨steady.initialized, steady.marks⟩, attached, capture, live, producer, ?_⟩
      rw [withVdp, vram]
      exact traced
  | byte _ address value ih => exact ih.byte address value

/-! ## Lines -/

theorem Filming.enter (filming : Filming seen observer n s) (entered : seen (n + 1) = s.vdp) :
    Filming seen observer (n + 1) (s.rasterEnterLine (n + 1)) := by
  rcases filming with ⟨attached, capture, live, producer, traced⟩
  have known : ¬ capture.producer.isNone = true := by simp [producer]
  refine ⟨attached, ?_⟩
  rw [rasterEnterLine, live, attached, linesPerFrame]
  dsimp only
  rcases line : (n + 1) % 262 with - | k
  · rw [captureAt, if_pos rfl, dif_pos (by decide), Option.map_some, rasterCaptureLine, if_neg known]
    refine ⟨_, rfl, producer, ?_⟩
    intro _
    refine ⟨?_, fun _ => ⟨Nat.zero_le _, recorded_start (congrArg VdpState.vram entered)⟩⟩
    intro i first
    have zero : i = ⟨0, by decide⟩ := Fin.ext (Nat.le_zero.mp first)
    subst zero
    dsimp only
    exact ⟨Function.update_self _ _ _, by simp [entered]⟩
  · have last : n % 262 = k := by omega
    have frame : n + 1 - (k + 1) = n - k := by omega
    rw [last] at traced
    rw [frame]
    by_cases inside : k + 1 < 224
    · rw [captureAt, if_neg (Nat.succ_ne_zero k), dif_pos inside, rasterCaptureLine, if_neg known]
      refine ⟨_, rfl, producer, ?_⟩
      intro _
      have before := traced (by omega)
      have now : seen (n - k + (k + 1)) = s.vdp := by rw [← entered, show n - k + (k + 1) = n + 1 by omega]
      dsimp only
      rw [if_neg (Nat.succ_ne_zero k)]
      refine ⟨?_, fun kept => (before.journal kept).imp_right (·.enter (congrArg VdpState.vram now))⟩
      intro i le
      dsimp only
      rcases Nat.le_or_eq_of_le_succ le with old | new
      · have other : i ≠ ⟨k + 1, inside⟩ := fun same => by simp [same] at old
        rw [Function.update_of_ne other, Function.update_of_ne other]
        exact before.lines i old
      · have same : i = ⟨k + 1, inside⟩ := Fin.ext new
        rw [same, Function.update_self, Function.update_self, now]
        exact ⟨rfl, rfl⟩
    · rw [captureAt, if_neg (Nat.succ_ne_zero k), dif_neg inside]
      exact ⟨capture, rfl, producer, fun lit => absurd lit inside⟩

theorem Filming.enterAll (le : a ≤ b) (filming : Filming seen observer a s)
    (shown : ∀ n, a < n → n ≤ b → seen n = s.vdp) : Filming seen observer b (sweep rasterEnterLine a b s) := by
  induction b, le using Nat.le_induction with
  | base => rwa [sweep_self]
  | succ b le ih =>
      rw [sweep_succ le]
      apply (ih fun n past within => shown n past (by omega)).enter
      rw [(sweep_rest s a b).1]
      exact shown _ (by omega) le_rfl

/-! ## Passes -/

/-- The lines a pass to `ticks` enters. -/
def Shown (seen : ℕ → VdpState) (s : Screen FrameArtifact) (ticks : ℕ) : Prop :=
  ∀ n, s.raster.lastLine < n → n ≤ ticks / masterTicksPerLine → seen n = s.vdp

def entered (s : Screen FrameArtifact) (ticks : ℕ) : Screen FrameArtifact :=
  (sweep rasterEnterLine s.raster.lastLine (ticks / masterTicksPerLine) s).timed ticks

theorem advance_entered (steady : s.Steady)
    (near : (s.masterTicks + delta) / masterTicksPerLine ≤ s.raster.lastLine + 525) :
    s.advance delta =
      if crossesOnset s.masterTicks delta then (entered s (s.masterTicks + delta)).crossOnset
      else (entered s (s.masterTicks + delta), []) := by
  have all := rasterAdvance_steady steady (Nat.le_add_right s.masterTicks delta)
  rw [← steady.lastLine, enteredFrom_near near] at all
  rw [advance, all, entered]

theorem Steady.le (steady : s.Steady) (delta : ℕ) :
    s.raster.lastLine ≤ (s.masterTicks + delta) / masterTicksPerLine := by
  rw [steady.lastLine]
  exact Nat.div_le_div_right (Nat.le_add_right _ _)

theorem Caught.pass (caught : Caught seen observer s) (active : crossesOnset s.masterTicks delta = false)
    (shown : Shown seen s (s.masterTicks + delta)) : Caught seen observer (s.advance delta).1 := by
  rcases caught with ⟨steady, filming⟩
  have dark : ∀ n, s.raster.lastLine < n → n ≤ (s.masterTicks + delta) / masterTicksPerLine → n % 262 ≠ 224 := by
    intro n past within onset
    rw [steady.lastLine] at past
    exact absurd (crossesOnset_iff.mpr (marked_iff_line.mpr ⟨n, past, within, onset⟩)) (by simp [active])
  have near : (s.masterTicks + delta) / masterTicksPerLine ≤ s.raster.lastLine + 525 := by
    by_contra far
    have next := dark (s.raster.lastLine + (485 - s.raster.lastLine % 262) % 262 + 1) (by omega) (by omega)
    omega
  rw [advance_entered steady near, active, if_neg Bool.false_ne_true]
  exact ⟨steady_timed (sweep_initialized s _ _ steady.initialized) _, filming.enterAll (Steady.le steady delta) shown⟩

/-! ## Runs -/

/-- From a blank line to the next onset, in any order: accesses, whatever they answer, passes of the
scheduler, and changes of the request latches. -/
inductive Run (seen : ℕ → VdpState) (observer : LiveFrameObserver FrameArtifact) : Screen FrameArtifact → Prop
  | start {s : Screen FrameArtifact} {capture : RasterCapture FrameArtifact} (steady : s.Steady)
      (blank : 224 ≤ s.raster.lastLine % 262) (attached : s.liveFrameObserver = some observer)
      (live : s.liveRaster = some capture) (producer : capture.producer = some produceFrameRaster) :
      Run seen observer s
  | access {D : Type} {r : Runtime D FrameArtifact} (run : Run seen observer r.toScreen) (machine : Machine D) (a : Access)
      (discarded : Bool) : Run seen observer (routeAccess machine r a discarded).2.toScreen
  | pass {s : Screen FrameArtifact} (run : Run seen observer s) (delta : ℕ)
      (active : crossesOnset s.masterTicks delta = false) (shown : Shown seen s (s.masterTicks + delta)) :
      Run seen observer (s.advance delta).1
  | latch {s : Screen FrameArtifact} (run : Run seen observer s) (interrupt : InterruptLatch) (pending : Bool)
      (undelivered : BitVec 64) :
      Run seen observer { s with
        interrupt := interrupt
        raster := { s.raster with hintPending := pending, hintUndelivered := undelivered } }

theorem Run.caught (run : Run seen observer s) : Caught seen observer s := by
  induction run with
  | start steady blank attached live producer =>
      exact ⟨steady, attached, _, live, producer, fun lit => absurd blank (Nat.not_le.mpr lit)⟩
  | access _ machine a discarded ih => exact ih.written (routeAccess_written machine _ a discarded)
  | pass _ delta active shown ih => exact ih.pass active shown
  | latch _ interrupt pending undelivered ih =>
      have marks := congrArg (fun raster : RasterScheduler =>
        { raster with hintPending := pending, hintUndelivered := undelivered }) ih.1.marks
      exact ⟨⟨ih.1.initialized, marks⟩, ih.2⟩

/-! ## The onset -/

theorem inheritLines_self {current : RasterLine} (all : ∀ i, capture.captured i = true) :
    inheritLines current capture = capture := by
  rw [inheritLines]
  induction List.finRange 224 with
  | nil => rfl
  | cons i _ ih => rw [List.foldl_cons, inheritLine, if_pos (all i), ih]

/-- The next onset line is `m`, and a pass of `delta` reaches it but not the next frame. -/
structure Onset (s : Screen FrameArtifact) (delta m : ℕ) : Prop where
  line : m % 262 = 224
  past : s.raster.lastLine < m
  next : m ≤ s.raster.lastLine + 262
  within : m ≤ (s.masterTicks + delta) / masterTicksPerLine
  blank : (s.masterTicks + delta) / masterTicksPerLine < m + 38

theorem Onset.published (onset : Onset s delta m) (caught : Caught seen observer s)
    (shown : Shown seen s (s.masterTicks + delta)) (live : observer.latest ≠ none)
    (room : observer.sequence ≠ BitVec.allOnes 64) :
    ∃ capture vram, Traced (fun i => seen (m - 224 + i)) 223 vram capture ∧
      ((s.advance delta).1.liveFrameObserver, (s.advance delta).2) =
        match produceFrameRaster s.vdp.vram capture.frame with
        | some picture => (some (observer.publish picture), [capture.frame])
        | none => (some observer, []) := by
  rcases caught with ⟨steady, filming⟩
  rcases onset with ⟨line, past, next, within, blank⟩
  have crosses : crossesOnset s.masterTicks delta = true :=
    crossesOnset_iff.mpr (marked_iff_line.mpr ⟨m, steady.lastLine ▸ past, within, line⟩)
  obtain ⟨k, rfl⟩ : ∃ k, m = k + 1 := ⟨m - 1, by omega⟩
  have le : s.raster.lastLine ≤ k := Nat.le_of_lt_succ past
  have film := filming.enterAll le fun n past le => shown n past (by omega)
  rcases film with ⟨attached, capture, held, producer, traced⟩
  rw [show k % 262 = 223 by omega] at traced
  have whole := traced (by decide)
  have dark : ∀ x n, k < n → n ≤ (s.masterTicks + delta) / masterTicksPerLine →
      (x.liveFrameObserver = some observer ∧ x.liveRaster = some capture) →
      (rasterEnterLine x n).liveFrameObserver = some observer ∧ (rasterEnterLine x n).liveRaster = some capture := by
    rintro x n after le ⟨attached, held⟩
    refine ⟨attached, ?_⟩
    rw [rasterEnterLine, captureAt, linesPerFrame, if_neg (by omega), dif_neg (by omega)]
    exact held
  have kept := sweep_keeps (fun n x => dark x n) ⟨attached, held⟩
  rw [sweep_trans le (by omega)] at kept
  refine ⟨capture, _, whole, ?_⟩
  rw [advance_entered steady (by omega), if_pos crosses, entered, crossOnset_timed, crossOnset, kept.1, kept.2,
    (sweep_rest _ _ _).1, publishLiveFrame, if_neg (by simpa [live] using room), producer]
  dsimp only
  rw [publishRaster, inheritLines_self fun i => (whole.lines i (by omega)).1]
  dsimp only
  cases produceFrameRaster s.vdp.vram capture.frame <;> rfl

/-- The state a line was entered in; without a journal, over the VRAM at the onset. -/
def lineState (seen : ℕ → VdpState) (vram : Vram) (frame : RasterFrameState) (line : ℕ) : VdpState :=
  { seen line with vram := if frame.hasVramJournal then (seen line).vram else vram }

theorem Traced.vramAt {base k line : ℕ} {vram now : Vram} (traced : Traced (fun i => seen (base + i)) k vram capture)
    (le : line ≤ k) :
    (rasterSource now capture.frame).vramAt line = (lineState seen now capture.frame (base + line)).vram := by
  rw [Source.vramAt, rasterSource, lineState]
  cases kept : capture.frame.hasVramJournal with
  | false => simp [RasterFrameState.journaled, kept, asOf]
  | true =>
      rcases traced.journal kept with ⟨few, recorded⟩
      simp [RasterFrameState.journaled, kept, few, recorded.past line le]

end Segarecomp.Genesis.RasterJournal

import Segarecomp.Lib.Slicing
import Segarecomp.SegaCd.Machine

/-! The graphics ASIC: an operation renders one image line each line cost while the sub owns 2M
Word RAM, and its clock follows the machine's while it does not. -/

namespace Segarecomp.SegaCd

open Lib.Slicing

def scdGfxRead16 (ram : ℕ → Byte) (offset : BitVec 32) : BitVec 32 :=
  let offset := (offset &&& 0x3FFFE).toNat
  ((ram offset).setWidth 32 <<< 8) ||| (ram (offset + 1)).setWidth 32

def scdGfxRead8 (ram : ℕ → Byte) (offset : BitVec 32) : BitVec 32 :=
  (ram (offset &&& 0x3FFFF).toNat).setWidth 32

def scdGfxWrite8 (ram : ℕ → Byte) (offset : BitVec 32) (value : BitVec 32) : ℕ → Byte :=
  Function.update ram (offset &&& 0x3FFFF).toNat (value.setWidth 8)

/-- Table entry yyxxshrr to a cell offset. -/
def scdGfxCell (i : BitVec 32) : BitVec 32 :=
  let mask : BitVec 32 := if i &&& 8 ≠ 0 then 3 else 1
  let row := (i >>> 6) &&& mask
  let col := (i >>> 4) &&& mask
  let col := if i &&& 4 ≠ 0 then col ^^^ mask else col
  let (row, col) := if i &&& 2 ≠ 0 then (row ^^^ mask, col ^^^ mask) else (row, col)
  let (row, col) := if i &&& 1 ≠ 0 then (col, row ^^^ mask) else (row, col)
  row + col * (mask + 1)

/-- Table entry yyyxxxhrr to a pixel offset. -/
def scdGfxPixel (i : BitVec 32) : BitVec 32 :=
  let row := (i >>> 6) &&& 7
  let col := (i >>> 3) &&& 7
  let col := if i &&& 4 ≠ 0 then col ^^^ 7 else col
  let (row, col) := if i &&& 2 ≠ 0 then (row ^^^ 7, col ^^^ 7) else (row, col)
  let (row, col) := if i &&& 1 ≠ 0 then (col, row ^^^ 7) else (row, col)
  col + row * 8

/-- Normal, underwrite, overwrite; mode 3 keeps what is there. -/
def scdGfxPriority (mode : Byte) (inside out : BitVec 32) : BitVec 32 :=
  let nibbles (first second : BitVec 32) : BitVec 32 :=
    (if first &&& 0x0F ≠ 0 then first &&& 0x0F else second &&& 0x0F) |||
      (if first &&& 0xF0 ≠ 0 then first &&& 0xF0 else second &&& 0xF0)
  if mode &&& 3 = 0 then out
  else if mode &&& 3 = 1 then nibbles inside out
  else if mode &&& 3 = 2 then nibbles out inside
  else inside

/-- The stamp pixel at a position of the stamp map, 0 outside it and in stamp 0. -/
def scdGfxStampPixel (g : ScdGfx) (ram : ℕ → Byte) (xpos ypos : BitVec 32) : BitVec 32 :=
  let stampMask : BitVec 32 := if g.ctl &&& 0x02 ≠ 0 then 0x7FC else 0x7FF
  if (xpos ||| ypos) &&& ~~~g.dotMask ≠ 0 then 0
  else
    let place := (xpos >>> g.stampShift) ||| ((ypos >>> g.stampShift) <<< g.mapShift)
    let stampData := scdGfxRead16 ram (g.mapPtr + 2 * place)
    let stampIndex := (stampData &&& stampMask) <<< 8
    if stampIndex = 0 then 0
    else
      let stampData := (stampData >>> 13) &&& 7
      let size := ((g.ctl &&& 0x02).setWidth 32) <<< 2
      let stampIndex := stampIndex |||
        (scdGfxCell (stampData ||| size ||| ((ypos >>> 8) &&& 0xC0) ||| ((xpos >>> 10) &&& 0x30)) <<< 6)
      let stampIndex := stampIndex |||
        scdGfxPixel (stampData ||| ((xpos >>> 8) &&& 0x38) ||| ((ypos >>> 5) &&& 0x1C0))
      let pixel := scdGfxRead8 ram (stampIndex >>> 1)
      if stampIndex &&& 1 ≠ 0 then pixel &&& 0x0F else pixel >>> 4

/-- The dots of one image line. -/
def scdGfxDots (g : ScdGfx) (priority : Byte) (xoffset yoffset : BitVec 32) :
    ℕ → BitVec 32 → BitVec 32 → BitVec 32 → (ℕ → Byte) → ℕ → Byte
  | 0, _, _, _, ram => ram
  | width + 1, bufferIndex, xpos, ypos, ram =>
    let limit := if g.ctl &&& 0x01 ≠ 0 then g.dotMask else 0xFFFFFF
    let xpos := xpos &&& limit
    let ypos := ypos &&& limit
    let pixelOut := scdGfxStampPixel g ram xpos ypos
    let pixelIn := scdGfxRead8 ram (bufferIndex >>> 1)
    let pixelOut :=
      if bufferIndex &&& 1 ≠ 0 then pixelOut ||| (pixelIn &&& 0xF0)
      else (pixelOut <<< 4) ||| (pixelIn &&& 0x0F)
    let pixelOut := scdGfxPriority priority pixelIn (pixelOut &&& 0xFF)
    let ram := scdGfxWrite8 ram (bufferIndex >>> 1) pixelOut
    let next :=
      if bufferIndex &&& 7 ≠ 7 then bufferIndex + 1 else bufferIndex + g.bufferOffset
    scdGfxDots g priority xoffset yoffset width next (xpos + xoffset) (ypos + yoffset) ram

/-- A trace step: a 16-bit word, sign extended. -/
def scdGfxStep (ram : ℕ → Byte) (offset : BitVec 32) : BitVec 32 :=
  ((scdGfxRead16 ram offset).setWidth 16).signExtend 32

def scdGfxRenderLine (m : ScdMachine) (bufferIndex : BitVec 32) (width : ℕ) : ScdMachine :=
  let g := m.gfx
  let priority := (m.ga.mode >>> 3) &&& 3
  let xpos := scdGfxRead16 m.wordRam g.tracePtr <<< 8
  let ypos := scdGfxRead16 m.wordRam (g.tracePtr + 2) <<< 8
  let xoffset := scdGfxStep m.wordRam (g.tracePtr + 4)
  let yoffset := scdGfxStep m.wordRam (g.tracePtr + 6)
  let tracePtr := if g.tracePtr + 8 = 0x40000 then 0 else g.tracePtr + 8
  { m with
    gfx.tracePtr := tracePtr
    wordRam := scdGfxDots g priority xoffset yoffset width bufferIndex xpos ypos m.wordRam }

def scdGfxHalted (m : ScdMachine) : Bool :=
  m.ga.mode &&& (SCD_MODE_1M ||| SCD_MODE_RET) == SCD_MODE_RET

def scdGfxFinish (m : ScdMachine) : ScdMachine :=
  let m := { m with gfx := { m.gfx with busy := false, operations := m.gfx.operations + 1, cost := by simp } }
  if m.ga.interruptEnable &&& 0x02 ≠ 0 then scdRaiseSubLevel m 1 else m

/-- One pass of the line loop of `scdGfxSync`. -/
def scdGfxLine (m : ScdMachine) : ScdMachine :=
  let m := scdGfxRenderLine m m.gfx.bufferStart (m.gfx.hDots &&& 0x1FF).toNat
  { m with
    gfx.bufferStart := m.gfx.bufferStart + 8
    gfx.linesRendered := m.gfx.linesRendered + 1 }

/-- Bring a running operation up to tick `now`. -/
def scdGfxSync (now : ℕ) (m : ScdMachine) : ScdMachine :=
  if !m.gfx.busy then m
  else if scdGfxHalted m then { m with gfx.base := now }
  else if now ≤ m.gfx.base then m
  else
    let lines := (now - m.gfx.base + m.gfx.lineTicks - 1) / m.gfx.lineTicks
    if lines < m.gfx.linesLeft then
      scdGfxLine^[lines]
        { m with
          gfx.linesLeft := m.gfx.linesLeft - lines
          gfx.base := m.gfx.base + lines * m.gfx.lineTicks }
    else
      let finishedLines := m.gfx.linesLeft
      scdGfxFinish <| scdGfxLine^[finishedLines]
        { m with
          gfx.linesLeft := 0
          gfx.base := m.gfx.base + finishedLines * m.gfx.lineTicks }

/-- The tick announced for the end of the operation, none while it cannot end by itself. -/
def scdGfxNextEvent (m : ScdMachine) : Option ℕ :=
  if !m.gfx.busy || scdGfxHalted m then none
  else
    let rest := if m.gfx.linesLeft > 0 then (m.gfx.linesLeft - 1) * m.gfx.lineTicks else 0
    some (m.gfx.base + rest + 1)

/-- The write of the trace vector base; 1M Word RAM is refused. -/
def scdGfxStart (m : ScdMachine) (traceBase : BitVec 32) : Option ScdMachine :=
  if m.ga.mode &&& SCD_MODE_1M ≠ 0 then none
  else
    let g := m.gfx
    let size := (g.ctl >>> 1) &&& 3
    let (dotMask, stampShift, mapShift, mask) : BitVec 32 × ℕ × ℕ × BitVec 32 :=
      if size = 0 then (0x07FFFF, 15, 4, 0x3FE00)
      else if size = 1 then (0x07FFFF, 16, 3, 0x3FF80)
      else if size = 2 then (0x7FFFFF, 15, 8, 0x20000)
      else (0x7FFFFF, 16, 7, 0x38000)
    let h := (g.hDots &&& 0x1FF).toNat
    let offset := (g.offset &&& 3).toNat
    let lineTicks :=
      SCD_GFX_CYCLES_PER_ACCESS * (4 + 2 * h + ((h + offset + 3) >>> 2)) * scdSubCycleTicks m
    some
      { m with
        gfx :=
          { g with
            tracePtr := (traceBase <<< 2) &&& 0x3FFF8
            dotMask, stampShift, mapShift
            mapPtr := ((g.mapBase.setWidth 32) <<< 2) &&& mask
            bufferOffset := (((g.cellV &&& 0x1F).setWidth 32 + 1) <<< 6) - 7
            bufferStart :=
              (((g.bufferOrigin.setWidth 32) <<< 3) &&& 0x7FFC0) + (g.offset &&& 0x3F).setWidth 32
            base := m.now
            lineTicks
            busy := true
            cost := by
              intro _
              exact Nat.mul_pos (Nat.mul_pos (by decide) (by omega)) (scdSubCycleTicks_pos m) } }

/-! ## Progress -/

/-- The lines begun at `now`. -/
def gfxLines (m : ScdMachine) (now : ℕ) : ℕ := elapsed m.gfx.base m.gfx.lineTicks now

/-- The progress of an operation, which no line reads. -/
def withProgress (linesLeft base : ℕ) (m : ScdMachine) : ScdMachine :=
  { m with
    gfx.linesLeft := linesLeft
    gfx.base := base }

def gfxProgress (m : ScdMachine) (lines : ℕ) : ScdMachine :=
  scdGfxLine^[lines]
    (withProgress (m.gfx.linesLeft - lines) (m.gfx.base + lines * m.gfx.lineTicks) m)

def gfxComplete (m : ScdMachine) : ScdMachine :=
  scdGfxFinish (gfxProgress m m.gfx.linesLeft)

section Progress

variable {m : ScdMachine} {now later lines more : ℕ}

theorem scdGfxDots_progress (g : ScdGfx) (priority : Byte) (xoffset yoffset : BitVec 32)
    (linesLeft base width : ℕ) (bufferIndex xpos ypos : BitVec 32) (ram : ℕ → Byte) :
    scdGfxDots { g with linesLeft, base } priority xoffset yoffset width bufferIndex xpos ypos ram =
      scdGfxDots g priority xoffset yoffset width bufferIndex xpos ypos ram := by
  induction width generalizing bufferIndex xpos ypos ram with
  | zero => rfl
  | succ width ih =>
      rw [scdGfxDots, scdGfxDots, ih]
      rfl

theorem withProgress_line (linesLeft base : ℕ) :
    Function.Semiconj (withProgress linesLeft base) scdGfxLine scdGfxLine := by
  intro m
  have dots := scdGfxDots_progress m.gfx ((m.ga.mode >>> 3) &&& 3)
    (scdGfxStep m.wordRam (m.gfx.tracePtr + 4)) (scdGfxStep m.wordRam (m.gfx.tracePtr + 6))
    linesLeft base (m.gfx.hDots &&& 0x1FF).toNat m.gfx.bufferStart
    (scdGfxRead16 m.wordRam m.gfx.tracePtr <<< 8)
    (scdGfxRead16 m.wordRam (m.gfx.tracePtr + 2) <<< 8) m.wordRam
  simp only [withProgress, scdGfxLine, scdGfxRenderLine, dots]
  rfl

/-- What a line leaves alone. -/
structure SameClock (m m' : ScdMachine) : Prop where
  busy : m'.gfx.busy = m.gfx.busy
  linesLeft : m'.gfx.linesLeft = m.gfx.linesLeft
  base : m'.gfx.base = m.gfx.base
  lineTicks : m'.gfx.lineTicks = m.gfx.lineTicks
  ga : m'.ga = m.ga

theorem scdGfxLine_clock (m : ScdMachine) : SameClock m (scdGfxLine m) := ⟨rfl, rfl, rfl, rfl, rfl⟩

theorem scdGfxLine_iterate_clock (m : ScdMachine) (lines : ℕ) :
    SameClock m (scdGfxLine^[lines] m) := by
  induction lines with
  | zero => exact ⟨rfl, rfl, rfl, rfl, rfl⟩
  | succ lines ih =>
      rw [Function.iterate_succ_apply']
      have step := scdGfxLine_clock (scdGfxLine^[lines] m)
      constructor
      · exact step.busy.trans ih.busy
      · exact step.linesLeft.trans ih.linesLeft
      · exact step.base.trans ih.base
      · exact step.lineTicks.trans ih.lineTicks
      · exact step.ga.trans ih.ga

theorem gfxProgress_clock (m : ScdMachine) (lines : ℕ) :
    SameClock (withProgress (m.gfx.linesLeft - lines) (m.gfx.base + lines * m.gfx.lineTicks) m)
      (gfxProgress m lines) :=
  scdGfxLine_iterate_clock _ lines

theorem gfxProgress_add (m : ScdMachine) (lines more : ℕ) :
    gfxProgress (gfxProgress m lines) more = gfxProgress m (lines + more) := by
  have clock := gfxProgress_clock m lines
  have left : (gfxProgress m lines).gfx.linesLeft = m.gfx.linesLeft - lines := clock.linesLeft
  have base : (gfxProgress m lines).gfx.base = m.gfx.base + lines * m.gfx.lineTicks := clock.base
  have ticks : (gfxProgress m lines).gfx.lineTicks = m.gfx.lineTicks := clock.lineTicks
  have later : m.gfx.base + lines * m.gfx.lineTicks + more * m.gfx.lineTicks =
      m.gfx.base + (lines + more) * m.gfx.lineTicks := by ring
  have commute := (withProgress_line (m.gfx.linesLeft - (lines + more))
    (m.gfx.base + (lines + more) * m.gfx.lineTicks)).iterate_right lines
  calc
    gfxProgress (gfxProgress m lines) more =
        scdGfxLine^[more] (withProgress (m.gfx.linesLeft - (lines + more))
          (m.gfx.base + (lines + more) * m.gfx.lineTicks) (gfxProgress m lines)) := by
      rw [gfxProgress, left, base, ticks, later, Nat.sub_sub]
    _ = scdGfxLine^[more] (scdGfxLine^[lines] (withProgress (m.gfx.linesLeft - (lines + more))
          (m.gfx.base + (lines + more) * m.gfx.lineTicks) m)) := by
      rw [gfxProgress, commute.eq]
      rfl
    _ = gfxProgress m (lines + more) := by
      rw [← Function.iterate_add_apply, Nat.add_comm more lines]
      rfl

theorem gfxProgress_complete (inside : lines ≤ m.gfx.linesLeft) :
    gfxComplete (gfxProgress m lines) = gfxComplete m := by
  have left : (gfxProgress m lines).gfx.linesLeft = m.gfx.linesLeft - lines :=
    (gfxProgress_clock m lines).linesLeft
  rw [gfxComplete, left, gfxProgress_add, Nat.add_sub_cancel' inside]
  rfl

theorem gfxComplete_busy (m : ScdMachine) : (gfxComplete m).gfx.busy = false := by
  unfold gfxComplete scdGfxFinish scdRaiseSubLevel
  dsimp only
  split <;> rfl

/-! ## One bring-up -/

theorem gfxLines_mono (h : now ≤ later) : gfxLines m now ≤ gfxLines m later := elapsed_mono h

theorem scdGfxHalted_clock {m' : ScdMachine} (same : SameClock m m') :
    scdGfxHalted m' = scdGfxHalted m := by
  unfold scdGfxHalted
  rw [same.ga]

theorem scdGfxSync_idle (h : m.gfx.busy = false) : scdGfxSync now m = m := by
  simp only [scdGfxSync, h, Bool.not_false, if_true]

theorem scdGfxSync_halted (busy : m.gfx.busy = true) (halted : scdGfxHalted m = true) :
    scdGfxSync now m = { m with gfx.base := now } := by
  simp only [scdGfxSync, busy, halted, Bool.not_true, Bool.false_eq_true, if_true, if_false]

theorem scdGfxSync_early (h : now ≤ m.gfx.base) (running : scdGfxHalted m = false) :
    scdGfxSync now m = m := by
  unfold scdGfxSync
  simp only [running, h, Bool.false_eq_true, if_true, if_false, ite_self]

theorem scdGfxSync_running (busy : m.gfx.busy = true) (running : scdGfxHalted m = false)
    (started : m.gfx.base < now) :
    scdGfxSync now m =
      if gfxLines m now < m.gfx.linesLeft then gfxProgress m (gfxLines m now)
      else
        scdGfxFinish <| scdGfxLine^[m.gfx.linesLeft]
          (withProgress 0 (m.gfx.base + m.gfx.linesLeft * m.gfx.lineTicks) m) := by
  unfold scdGfxSync
  rw [if_neg (by simp [busy]), if_neg (by simp [running]), if_neg (Nat.not_le.mpr started)]
  rfl

theorem scdGfxSync_progress (busy : m.gfx.busy = true) (running : scdGfxHalted m = false)
    (started : m.gfx.base < now) (inside : gfxLines m now < m.gfx.linesLeft) :
    scdGfxSync now m = gfxProgress m (gfxLines m now) := by
  rw [scdGfxSync_running busy running started, if_pos inside]

theorem scdGfxSync_complete (busy : m.gfx.busy = true) (running : scdGfxHalted m = false)
    (started : m.gfx.base < now) (all : m.gfx.linesLeft ≤ gfxLines m now) :
    scdGfxSync now m = gfxComplete m := by
  rw [scdGfxSync_running busy running started, if_neg (Nat.not_lt.mpr all), gfxComplete, gfxProgress,
    Nat.sub_self]

theorem gfxProgress_lines (busy : m.gfx.busy = true) (lines now : ℕ) :
    gfxLines (gfxProgress m lines) now = gfxLines m now - lines := by
  have clock := gfxProgress_clock m lines
  rw [gfxLines, clock.base, clock.lineTicks]
  exact elapsed_add (m.gfx.cost busy)

theorem scdGfxSync_absorbs : Absorbs scdGfxSync := by
  intro t u m le
  rcases Bool.eq_false_or_eq_true m.gfx.busy with busy | idle
  · rcases Bool.eq_false_or_eq_true (scdGfxHalted m) with halted | running
    · have held : ∀ now, scdGfxSync now m = { m with gfx.base := now } :=
        fun _ => scdGfxSync_halted busy halted
      rw [held t, held u]
      exact scdGfxSync_halted busy halted
    · rcases Nat.lt_or_ge m.gfx.base t with started | early
      · have mono := gfxLines_mono (m := m) le
        have later : m.gfx.base < u := lt_of_lt_of_le started le
        rcases Nat.lt_or_ge (gfxLines m t) m.gfx.linesLeft with inside | all
        · rw [scdGfxSync_progress busy running started inside]
          generalize gfxLines m t = first at *
          have clock := gfxProgress_clock m first
          have still : (gfxProgress m first).gfx.busy = true := clock.busy.trans busy
          have going : scdGfxHalted (gfxProgress m first) = false :=
            (scdGfxHalted_clock clock).trans running
          have left : (gfxProgress m first).gfx.linesLeft = m.gfx.linesLeft - first := clock.linesLeft
          have more := gfxProgress_lines busy first u
          rcases Nat.lt_or_ge (gfxProgress m first).gfx.base u with again | covered
          · rcases Nat.lt_or_ge (gfxLines m u) m.gfx.linesLeft with within | whole
            · rw [scdGfxSync_progress still going again (by omega),
                scdGfxSync_progress busy running later within, more, gfxProgress_add,
                Nat.add_sub_cancel' mono]
            · rw [scdGfxSync_complete still going again (by omega),
                scdGfxSync_complete busy running later whole]
              exact gfxProgress_complete (Nat.le_of_lt inside)
          · -- `u` is inside the last line begun at `t`.
            have none : gfxLines (gfxProgress m first) u = 0 := by
              apply elapsed_eq_zero covered
              rw [clock.lineTicks]
              exact m.gfx.cost busy
            have same : gfxLines m u = first := by omega
            rw [scdGfxSync_early covered going,
              scdGfxSync_progress busy running later (same ▸ inside), same]
        · rw [scdGfxSync_complete busy running started all,
            scdGfxSync_complete busy running later (le_trans all mono)]
          exact scdGfxSync_idle (gfxComplete_busy m)
      · rw [scdGfxSync_early early running]
  · have still : scdGfxSync t m = m := scdGfxSync_idle idle
    rw [still]

/-- The announced tick is the first at which the operation is seen complete; a halted one has
none and never completes. -/
theorem scdGfxSync_nextEvent (busy : m.gfx.busy = true) :
    (scdGfxSync now m).gfx.busy = false ↔ ∃ e, scdGfxNextEvent m = some e ∧ e ≤ now := by
  rcases Bool.eq_false_or_eq_true (scdGfxHalted m) with halted | running
  · have never : scdGfxNextEvent m = none := by
      simp [scdGfxNextEvent, halted]
    rw [scdGfxSync_halted busy halted]
    simp [never, busy]
  · have event : scdGfxNextEvent m =
        some (m.gfx.base + (if m.gfx.linesLeft > 0 then (m.gfx.linesLeft - 1) * m.gfx.lineTicks else 0)
          + 1) := by
      simp [scdGfxNextEvent, busy, running]
    have reached : m.gfx.base < now ∧ m.gfx.linesLeft ≤ gfxLines m now ↔
        ∃ e, scdGfxNextEvent m = some e ∧ e ≤ now := by
      have begun : m.gfx.linesLeft - 1 < elapsed m.gfx.base m.gfx.lineTicks now ↔
          m.gfx.base + (m.gfx.linesLeft - 1) * m.gfx.lineTicks < now :=
        lt_elapsed_iff (m.gfx.cost busy)
      rw [event]
      simp only [Option.some.injEq, exists_eq_left', Nat.succ_le_iff]
      unfold gfxLines
      split
      · omega
      · omega
    rw [← reached]
    constructor
    · intro done
      rcases Nat.lt_or_ge m.gfx.base now with started | early
      · refine ⟨started, ?_⟩
        by_contra inside
        rw [scdGfxSync_progress busy running started (Nat.not_le.mp inside),
          (gfxProgress_clock m _).busy] at done
        cases busy.symm.trans done
      · rw [scdGfxSync_early early running, busy] at done
        cases done
    · rintro ⟨started, all⟩
      rw [scdGfxSync_complete busy running started all]
      exact gfxComplete_busy m

end Progress

/-! ## Main result -/

/-- The machine with the sub halted or released, as `$A12001` writes do. -/
def withSubHalted (halted : Bool) (m : ScdMachine) : ScdMachine :=
  { m with ga.subHalted := halted }

theorem scdGfxFinish_subHalted (halted : Bool) (m : ScdMachine) :
    scdGfxFinish (withSubHalted halted m) = withSubHalted halted (scdGfxFinish m) := by
  unfold scdGfxFinish withSubHalted scdRaiseSubLevel
  dsimp only
  split <;> rfl

theorem scdGfxSync_subHalted (halted : Bool) (now : ℕ) (m : ScdMachine) :
    scdGfxSync now (withSubHalted halted m) = withSubHalted halted (scdGfxSync now m) := by
  have lines : Function.Semiconj (withSubHalted halted) scdGfxLine scdGfxLine := fun _ => rfl
  have same : scdGfxHalted (withSubHalted halted m) = scdGfxHalted m := rfl
  have gfx : (withSubHalted halted m).gfx = m.gfx := rfl
  unfold scdGfxSync
  simp only [same, gfx]
  split
  · rfl
  · split
    · rfl
    · split
      · rfl
      · split
        · rw [(lines.iterate_right _).eq]
          rfl
        · rw [← scdGfxFinish_subHalted, (lines.iterate_right _).eq]
          rfl

/-- However often the unit is observed, alone or between other actions of the machine (a change
of the memory mode that pauses it among them), it ends as if brought up at the last tick only;
its announced end is the first tick at which it is seen complete. -/
theorem gfx_slicing_independent (m : ScdMachine) (last : ℕ) :
    (∀ ticks : List ℕ, (ticks ++ [last]).Pairwise (· ≤ ·) →
      advanceAll scdGfxSync (ticks ++ [last]) m = scdGfxSync last m) ∧
    (∀ schedule : List (ℕ × Option (ScdMachine → ScdMachine)),
      (schedule.map Prod.fst ++ [last]).Pairwise (· ≤ ·) →
      scdGfxSync last (runSchedule scdGfxSync schedule m) =
        scdGfxSync last (runSchedule scdGfxSync (schedule.filter (·.2.isSome)) m)) ∧
    (∀ halted, scdGfxSync last (withSubHalted halted m) = withSubHalted halted (scdGfxSync last m)) ∧
    (m.gfx.busy = true → ∀ now,
      (scdGfxSync now m).gfx.busy = false ↔ ∃ e, scdGfxNextEvent m = some e ∧ e ≤ now) := by
  refine ⟨?_, ?_, ?_, ?_⟩
  · intro ticks ordered
    exact scdGfxSync_absorbs.advanceAll ordered m
  · intro schedule ordered
    exact scdGfxSync_absorbs.runSchedule ordered m
  · intro halted
    exact scdGfxSync_subHalted halted last m
  · intro busy now
    exact scdGfxSync_nextEvent busy

/-- Three lines of 20 ticks, paused from 30 to 70 and observed in between. -/
theorem gfx_slicing_independent_paused :
    let m : ScdMachine := { gfx := { busy := true, linesLeft := 3, lineTicks := 20, cost := by decide } }
    let pause : ScdMachine → ScdMachine := fun m => { m with ga.mode := 0x01 }
    let resume : ScdMachine → ScdMachine := fun m => { m with ga.mode := 0x02 }
    advanceAll scdGfxSync ([5, 41] ++ [200]) m = scdGfxSync 200 m ∧
      scdGfxSync 200 (runSchedule scdGfxSync
        [(5, none), (30, some pause), (50, none), (70, some resume)] m) =
          scdGfxSync 200 (runSchedule scdGfxSync [(30, some pause), (70, some resume)] m) ∧
      (scdGfxSync 41 m).gfx.busy = false := by
  intro m pause resume
  have independent := gfx_slicing_independent m 200
  refine ⟨independent.1 [5, 41] (by decide), ?_, ?_⟩
  · exact independent.2.1 [(5, none), (30, some pause), (50, none), (70, some resume)] (by decide)
  · exact (independent.2.2.2 rfl 41).mpr ⟨41, by decide, le_rfl⟩

end Segarecomp.SegaCd

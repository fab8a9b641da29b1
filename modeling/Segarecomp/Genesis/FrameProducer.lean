import Segarecomp.Genesis.FrameRow
import Segarecomp.Lib.Journal

/-! The frame producer: a picture from the captured state of its field lines, with the VRAM of each
line replayed from the journal, or from one state for all lines. The digest of a picture is left out. -/

namespace Segarecomp.Genesis.FrameProducer

open Schedule FrameRow Lib.Journal

abbrev Palette := Fin 128 → Byte

/-- Slot 0 is the snapshot, slot `k + 1` the extra palette `k`. -/
structure Palettes where
  paletteSnapshot : Palette := fun _ => 0
  extraPalettes : ℕ → Palette := fun _ _ => 0
  paletteCount : ℕ := 0

structure FrameArtifact extends Palettes where
  pixels : ℕ → Byte
  width : ℕ
  height : ℕ
  rowPalette : ℕ → Byte

def Palettes.slot (palettes : Palettes) (slot : ℕ) : Palette :=
  if slot = 0 then palettes.paletteSnapshot else palettes.extraPalettes (slot - 1)

def FrameArtifact.pixel (frame : FrameArtifact) (row x : ℕ) : Byte := frame.pixels (row * frame.width + x)

/-- The palette of an output row. -/
def FrameArtifact.frameRowPalette (frame : FrameArtifact) (row : ℕ) : Palette :=
  frame.slot (frame.rowPalette row).toNat

/-- What a row needs and could otherwise fail on: the display mode, the plane size and the
horizontal scroll mode. -/
def validateLine (line : RasterLine) : Option DisplayGeometry :=
  match displayGeometry line.registers with
  | none => none
  | some geometry =>
      if (decodePlaneSize line.registers).isNone then none
      else if (hscrollTableEntry line.registers 0).isNone then none
      else some geometry

/-! ## The palettes of the lines -/

def Palettes.append (palettes : Palettes) (cram : Palette) : Palettes :=
  if palettes.paletteCount = 0 then { palettes with paletteSnapshot := cram, paletteCount := 1 }
  else
    { palettes with
      extraPalettes := Function.update palettes.extraPalettes (palettes.paletteCount - 1) cram
      paletteCount := palettes.paletteCount + 1 }

/-- The latest slot below `candidate` that holds the palette. -/
def Palettes.find (palettes : Palettes) (cram : Palette) : (candidate : ℕ) → Option ℕ
  | 0 => none
  | candidate + 1 => if palettes.slot candidate = cram then some candidate else palettes.find cram candidate

/-- The palettes so far and the slot of each line. -/
structure Slots where
  palettes : Palettes := {}
  slotOfLine : ℕ → ℕ := fun _ => 0

def Slots.note (lineOf : ℕ → RasterLine) (slots : Slots) (i : ℕ) : Slots :=
  match slots.palettes.find (lineOf i).cram slots.palettes.paletteCount with
  | some slot => { slots with slotOfLine := Function.update slots.slotOfLine i slot }
  | none =>
      { palettes := slots.palettes.append (lineOf i).cram
        slotOfLine := Function.update slots.slotOfLine i slots.palettes.paletteCount }

/-! ## The rows -/

def RasterFrameState.journal (frame : RasterFrameState) : List RasterVramWrite :=
  (List.range frame.vramWriteCount.toNat).map fun i => frame.vramWrites (Fin.ofNat 8192 i)

def RasterFrameState.journaled (frame : RasterFrameState) : Bool :=
  frame.hasVramJournal && decide (frame.vramWriteCount.toNat ≤ 8192)

def storeVram (vram : Vram) (w : RasterVramWrite) : Vram :=
  Function.update vram (Fin.ofNat 65536 w.address.toNat) w.value

def stampOf (w : RasterVramWrite) : ℕ := w.line.toNat

/-- The state a frame is rendered from. -/
structure Source where
  lineOf : ℕ → RasterLine
  lineCount : ℕ
  start : Vram
  writes : List RasterVramWrite

theorem lineIndex_lt (i : ℕ) : i % 224 < 224 := Nat.mod_lt i (by decide)

def lineIndex (i : ℕ) : Fin 224 := ⟨i % 224, lineIndex_lt i⟩

def rasterSource (vram : Vram) (frame : RasterFrameState) : Source where
  lineOf i := frame.lines (lineIndex i)
  lineCount := 224
  start := if RasterFrameState.journaled frame then frame.vramStart else vram
  writes := if RasterFrameState.journaled frame then RasterFrameState.journal frame else []

def uniformSource (vram : Vram) (uniform : RasterLine) : Source where
  lineOf _ := uniform
  lineCount := 1
  start := vram
  writes := []

def fieldLine (geometry : DisplayGeometry) (row : ℕ) : ℕ := if geometry.im2 then row / 2 else row

structure Rows where
  reader : ℕ × Vram
  pixels : ℕ → Byte := fun _ => 0
  rowPalette : ℕ → Byte := fun _ => 0

def storeRow (pixels : ℕ → Byte) (base : ℕ) (row : List Byte) : ℕ → Byte :=
  fun i => if base ≤ i ∧ i < base + row.length then row.getD (i - base) 0 else pixels i

def Rows.next (source : Source) (geometry : DisplayGeometry) (slots : Slots) (rows : Rows) (row : ℕ) : Rows :=
  let line := fieldLine geometry row
  let reader := catchUp storeVram stampOf source.writes line source.writes.length rows.reader
  let ctx : RenderContext := { vram := reader.2, geometry := geometry }
  { reader := reader
    pixels := storeRow rows.pixels (row * geometry.width) (renderRow ctx (source.lineOf line) row)
    rowPalette := Function.update rows.rowPalette row
      (BitVec.ofNat 8 (slots.slotOfLine (if source.lineCount = 1 then 0 else line))) }

/-- A change of the rectangle during the active period has no picture. -/
def Source.fits (source : Source) (first : DisplayGeometry) : Bool :=
  (List.range source.lineCount).all fun i =>
    match validateLine (source.lineOf i) with
    | none => false
    | some other => decide (other.width = first.width) && decide (other.height = first.height)

def Source.slots (source : Source) : Slots := (List.range source.lineCount).foldl (Slots.note source.lineOf) {}

def Source.rows (source : Source) (first : DisplayGeometry) : Rows :=
  (List.range first.height).foldl (Rows.next source first source.slots) { reader := (0, source.start) }

def Source.frame (source : Source) (first : DisplayGeometry) : FrameArtifact :=
  { source.slots.palettes with
    pixels := (source.rows first).pixels, width := first.width, height := first.height
    rowPalette := (source.rows first).rowPalette }

def renderFrame (source : Source) : Option FrameArtifact :=
  match validateLine (source.lineOf 0) with
  | none => none
  | some first => if source.fits first = false then none else some (source.frame first)

def produceFrameRaster (vram : Vram) (raster : RasterFrameState) : Option FrameArtifact :=
  renderFrame (rasterSource vram raster)

/-- The picture of one state of the VDP. -/
def produceFrame (vdp : VdpState) : Option FrameArtifact :=
  renderFrame (uniformSource vdp.vram (rasterCaptureState vdp))

/-! ## Slots -/

variable {palettes : Palettes} {cram : Palette} {slot : ℕ} {lineOf : ℕ → RasterLine}

theorem slot_append_new : (palettes.append cram).slot palettes.paletteCount = cram := by
  rw [Palettes.append]
  by_cases first : palettes.paletteCount = 0
  · rw [if_pos first, first]
    rfl
  · rw [if_neg first, Palettes.slot, if_neg first]
    exact Function.update_self _ _ _

theorem slot_append_old (old : slot < palettes.paletteCount) :
    (palettes.append cram).slot slot = palettes.slot slot := by
  have some : palettes.paletteCount ≠ 0 := by omega
  rw [Palettes.append, if_neg some, Palettes.slot, Palettes.slot]
  split_ifs with zero
  · rfl
  · exact Function.update_of_ne (by omega) _ _

theorem append_count : (palettes.append cram).paletteCount = palettes.paletteCount + 1 := by
  rw [Palettes.append]
  split_ifs with first
  · rw [first]
  · rfl

theorem find_spec {candidate : ℕ} (found : palettes.find cram candidate = some slot) :
    slot < candidate ∧ palettes.slot slot = cram := by
  induction candidate with
  | zero => cases found
  | succ candidate ih =>
      rw [Palettes.find] at found
      by_cases here : palettes.slot candidate = cram
      · rw [if_pos here] at found
        cases found
        exact ⟨Nat.lt_succ_self _, here⟩
      · rw [if_neg here] at found
        exact ⟨(ih found).1.trans (Nat.lt_succ_self _), (ih found).2⟩

/-- The slots of the first `n` lines hold their palettes. -/
structure Slotted (lineOf : ℕ → RasterLine) (n : ℕ) (slots : Slots) : Prop where
  count : slots.palettes.paletteCount ≤ n
  bound : ∀ i < n, slots.slotOfLine i < slots.palettes.paletteCount
  holds : ∀ i < n, slots.palettes.slot (slots.slotOfLine i) = (lineOf i).cram

/-- A further line at a slot that holds its palette, in palettes that keep the earlier ones. -/
theorem Slotted.place {n : ℕ} {slots : Slots} {grown : Palettes} (slotted : Slotted lineOf n slots)
    (more : slots.palettes.paletteCount ≤ grown.paletteCount) (count : grown.paletteCount ≤ n + 1)
    (keeps : ∀ k < slots.palettes.paletteCount, grown.slot k = slots.palettes.slot k)
    (bound : slot < grown.paletteCount) (holds : grown.slot slot = (lineOf n).cram) :
    Slotted lineOf (n + 1)
      { palettes := grown, slotOfLine := Function.update slots.slotOfLine n slot } where
  count := count
  bound := by
    intro i lt
    change Function.update slots.slotOfLine n slot i < grown.paletteCount
    rcases Nat.lt_succ_iff_lt_or_eq.mp lt with old | rfl
    · rw [Function.update_of_ne old.ne]
      exact (slotted.bound i old).trans_le more
    · rw [Function.update_self]
      exact bound
  holds := by
    intro i lt
    change grown.slot (Function.update slots.slotOfLine n slot i) = (lineOf i).cram
    rcases Nat.lt_succ_iff_lt_or_eq.mp lt with old | rfl
    · rw [Function.update_of_ne old.ne, keeps _ (slotted.bound i old)]
      exact slotted.holds i old
    · rw [Function.update_self]
      exact holds

theorem Slotted.note {n : ℕ} {slots : Slots} (slotted : Slotted lineOf n slots) :
    Slotted lineOf (n + 1) (slots.note lineOf n) := by
  rw [Slots.note]
  cases found : slots.palettes.find (lineOf n).cram slots.palettes.paletteCount with
  | some slot =>
      have spec := find_spec found
      exact slotted.place le_rfl (slotted.count.trans (Nat.le_succ n)) (fun _ _ => rfl) spec.1 spec.2
  | none =>
      have grown : (slots.palettes.append (lineOf n).cram).paletteCount = slots.palettes.paletteCount + 1 :=
        append_count
      apply slotted.place
      · rw [grown]
        exact Nat.le_succ _
      · rw [grown]
        exact Nat.succ_le_succ slotted.count
      · intro k old
        exact slot_append_old old
      · rw [grown]
        exact Nat.lt_succ_self _
      · exact slot_append_new

theorem slots_slotted (lineOf : ℕ → RasterLine) (n : ℕ) :
    Slotted lineOf n ((List.range n).foldl (Slots.note lineOf) {}) := by
  induction n with
  | zero =>
      refine ⟨Nat.le_refl 0, ?_, ?_⟩
      · intro i lt
        exact absurd lt (Nat.not_lt_zero i)
      · intro i lt
        exact absurd lt (Nat.not_lt_zero i)
  | succ n ih =>
      rw [List.range_succ, List.foldl_concat]
      exact ih.note

/-! ## Rows -/

variable {source : Source} {geometry first : DisplayGeometry} {slots : Slots} {frame : FrameArtifact}

theorem fieldLine_mono {row row' : ℕ} (le : row ≤ row') : fieldLine geometry row ≤ fieldLine geometry row' := by
  rw [fieldLine, fieldLine]
  split_ifs
  · exact Nat.div_le_div_right le
  · exact le

def Source.vramAt (source : Source) (line : ℕ) : Vram := asOf storeVram stampOf source.start source.writes line

/-- A row as its field line's own state gives it. -/
def Source.row (source : Source) (geometry : DisplayGeometry) (row : ℕ) : List Byte :=
  renderRow { vram := source.vramAt (fieldLine geometry row), geometry := geometry }
    (source.lineOf (fieldLine geometry row)) row

theorem storeRow_inside {pixels : ℕ → Byte} {base x : ℕ} {row : List Byte} (inside : x < row.length) :
    storeRow pixels base row (base + x) = row.getD x 0 := by
  have within : base ≤ base + x ∧ base + x < base + row.length := ⟨Nat.le_add_right _ _, by omega⟩
  rw [storeRow, if_pos within, Nat.add_sub_cancel_left]

theorem storeRow_before {pixels : ℕ → Byte} {base i : ℕ} {row : List Byte} (before : i < base) :
    storeRow pixels base row i = pixels i :=
  if_neg fun within => Nat.not_le_of_lt before within.1

/-- The first `n` rows are rendered, and the reader has not passed a later row's line. -/
structure Rendered (source : Source) (geometry : DisplayGeometry) (slots : Slots) (n : ℕ) (rows : Rows) : Prop where
  reader : ∃ i, rows.reader = (i, (source.writes.take i).foldl storeVram source.start) ∧
    ∀ row, n ≤ row → i ≤ reach stampOf source.writes (fieldLine geometry row)
  pixels : ∀ row < n, ∀ x < geometry.width,
    rows.pixels (row * geometry.width + x) = (source.row geometry row).getD x 0
  palette : ∀ row < n, rows.rowPalette row =
    BitVec.ofNat 8 (slots.slotOfLine (if source.lineCount = 1 then 0 else fieldLine geometry row))

theorem Rendered.next {n : ℕ} {rows : Rows} (rendered : Rendered source geometry slots n rows) :
    Rendered source geometry slots (n + 1) (rows.next source geometry slots n) := by
  rcases rendered.reader with ⟨i, at_i, before⟩
  have caught : catchUp storeVram stampOf source.writes (fieldLine geometry n) source.writes.length rows.reader =
      (reach stampOf source.writes (fieldLine geometry n), source.vramAt (fieldLine geometry n)) := by
    rw [at_i]
    exact catchUp_spec _ (before n le_rfl) (Nat.le_add_left _ _)
  rw [Rows.next, caught]
  refine ⟨⟨_, rfl, ?_⟩, ?_, ?_⟩
  · intro row later
    exact reach_mono (fieldLine_mono ((Nat.le_succ n).trans later))
  · intro row lt x inside
    dsimp only
    rcases Nat.lt_succ_iff_lt_or_eq.mp lt with old | rfl
    · have earlier : row * geometry.width + x < n * geometry.width := by
        calc
          row * geometry.width + x < row * geometry.width + geometry.width := Nat.add_lt_add_left inside _
          _ = (row + 1) * geometry.width := (Nat.succ_mul _ _).symm
          _ ≤ n * geometry.width := Nat.mul_le_mul_right _ old
      rw [storeRow_before earlier]
      exact rendered.pixels row old x inside
    · rw [storeRow_inside]
      · rfl
      · rw [renderRow_length]
        exact inside
  · intro row lt
    rcases Nat.lt_succ_iff_lt_or_eq.mp lt with old | rfl
    · exact (Function.update_of_ne old.ne _ _).trans (rendered.palette row old)
    · exact Function.update_self _ _ _

theorem rows_rendered (source : Source) (geometry : DisplayGeometry) (slots : Slots) (n : ℕ) :
    Rendered source geometry slots n
      ((List.range n).foldl (Rows.next source geometry slots) { reader := (0, source.start) }) := by
  induction n with
  | zero =>
      refine ⟨⟨0, rfl, fun _ _ => Nat.zero_le _⟩, ?_, ?_⟩
      · intro row lt
        exact absurd lt (Nat.not_lt_zero row)
      · intro row lt
        exact absurd lt (Nat.not_lt_zero row)
  | succ n ih =>
      rw [List.range_succ, List.foldl_concat]
      exact ih.next

/-! ## Frames -/

/-- The picture a source has: its rectangle, and each row from its own field line. -/
structure Pictures (source : Source) (geometry : DisplayGeometry) (frame : FrameArtifact) : Prop where
  width : frame.width = geometry.width
  height : frame.height = geometry.height
  pixel : ∀ row < geometry.height, ∀ x < geometry.width, frame.pixel row x = (source.row geometry row).getD x 0
  palette : ∀ row < geometry.height, frame.frameRowPalette row = (source.lineOf (fieldLine geometry row)).cram

theorem validateLine_geometry {line : RasterLine} (valid : validateLine line = some geometry) :
    displayGeometry line.registers = some geometry := by
  rw [validateLine] at valid
  cases found : displayGeometry line.registers with
  | none => rw [found] at valid; cases valid
  | some g =>
      rw [found] at valid
      dsimp only at valid
      split_ifs at valid
      exact valid

theorem fieldLine_lt {line : RasterLine} (valid : validateLine line = some geometry) {row : ℕ}
    (inside : row < geometry.height) : fieldLine geometry row < 224 := by
  rw [(displayGeometry_eq (validateLine_geometry valid)).2.1] at inside
  rw [fieldLine]
  split_ifs at inside ⊢ <;> omega

theorem fits_of_valid (valid : ∀ i < source.lineCount, validateLine (source.lineOf i) = some geometry) :
    source.fits geometry = true := by
  rw [Source.fits, List.all_eq_true]
  intro i mem
  rw [valid i (List.mem_range.mp mem)]
  simp

theorem valid_of_fits {i : ℕ} (valid : validateLine (source.lineOf 0) = some geometry)
    (fits : source.fits geometry = true) (inside : i < source.lineCount) :
    validateLine (source.lineOf i) = some geometry := by
  rw [Source.fits, List.all_eq_true] at fits
  have line := fits i (List.mem_range.mpr inside)
  cases found : validateLine (source.lineOf i) with
  | none => rw [found] at line; cases line
  | some other =>
      rw [found] at line
      have same : other.width = geometry.width ∧ other.height = geometry.height := by simpa using line
      rw [displayGeometry_unique (validateLine_geometry valid) (validateLine_geometry found) same.1 same.2]

/-- The lines a source is asked for are those it has, or it has one for all. -/
def Source.Total (source : Source) : Prop := source.lineCount = 224 ∨ source.lineCount = 1 ∧ ∀ i, source.lineOf i = source.lineOf 0

theorem slot_of_row (total : source.Total) {row : ℕ} (inside : fieldLine geometry row < 224) :
    source.slots.palettes.slot (BitVec.ofNat 8
        (source.slots.slotOfLine (if source.lineCount = 1 then 0 else fieldLine geometry row)) : Byte).toNat =
      (source.lineOf (fieldLine geometry row)).cram := by
  have slotted : Slotted source.lineOf source.lineCount source.slots :=
    slots_slotted source.lineOf source.lineCount
  have holds : ∀ i < source.lineCount, source.lineCount ≤ 224 →
      source.slots.palettes.slot (BitVec.ofNat 8 (source.slots.slotOfLine i) : Byte).toNat =
        (source.lineOf i).cram := by
    intro i lt small
    have below : source.slots.slotOfLine i < 2 ^ 8 := by
      have bound := slotted.bound i lt
      have count := slotted.count
      omega
    rw [BitVec.toNat_ofNat, Nat.mod_eq_of_lt below]
    exact slotted.holds i lt
  rcases total with whole | ⟨single, same⟩
  · rw [if_neg (by omega)]
    exact holds _ (by omega) (by omega)
  · rw [if_pos single, same]
    exact holds 0 (by omega) (by omega)

theorem frame_pictures (total : source.Total) (valid : validateLine (source.lineOf 0) = some geometry) :
    Pictures source geometry (source.frame geometry) where
  width := rfl
  height := rfl
  pixel := (rows_rendered source geometry source.slots geometry.height).pixels
  palette := by
    intro row lt
    have slot : (source.rows geometry).rowPalette row = _ :=
      (rows_rendered source geometry source.slots geometry.height).palette row lt
    change source.slots.palettes.slot ((source.rows geometry).rowPalette row).toNat = _
    rw [slot]
    exact slot_of_row total (fieldLine_lt valid lt)

theorem renderFrame_pictures (total : source.Total)
    (valid : ∀ i < source.lineCount, validateLine (source.lineOf i) = some geometry) :
    ∃ frame, renderFrame source = some frame ∧ Pictures source geometry frame := by
  have nonempty : 0 < source.lineCount := by
    rcases total with whole | ⟨single, -⟩ <;> omega
  have fits : ¬ source.fits geometry = false := by
    rw [fits_of_valid valid]
    exact Bool.noConfusion
  refine ⟨source.frame geometry, ?_, frame_pictures total (valid 0 nonempty)⟩
  rw [renderFrame, valid 0 nonempty]
  exact if_neg fits

/-- A frame that is rendered comes from lines of one geometry. -/
theorem valid_of_renderFrame (rendered : renderFrame source = some frame) :
    ∃ geometry, ∀ i < source.lineCount, validateLine (source.lineOf i) = some geometry := by
  rw [renderFrame] at rendered
  cases valid : validateLine (source.lineOf 0) with
  | none => rw [valid] at rendered; cases rendered
  | some first =>
      rw [valid] at rendered
      dsimp only at rendered
      by_cases fits : source.fits first = false
      · rw [if_pos fits] at rendered
        cases rendered
      · exact ⟨first, fun i lt => valid_of_fits valid (Bool.not_eq_false _ ▸ fits) lt⟩

end Segarecomp.Genesis.FrameProducer

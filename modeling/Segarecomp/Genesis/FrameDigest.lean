import Segarecomp.Genesis.FrameExtension
import Segarecomp.Genesis.Sha256

/-! The digest of a frame. The hashed string has no lengths in it; that its parts can be told apart rests on the
ranges of the pixels and of the geometry. -/

namespace Segarecomp.Genesis.FrameDigest

open FrameProducer FrameRow FrameExtension Genesis.Sha256 Media.Sha256
open scoped Schedule

/-! ## What is hashed -/

def frameIsLegacyShape (frame : FrameArtifact) : Prop :=
  artifactWidth frame = 320 ∧ artifactHeight frame = 224 ∧ frame.paletteCount ≤ 1

instance (frame : FrameArtifact) : Decidable (frameIsLegacyShape frame) := inferInstanceAs (Decidable (_ ∧ _ ∧ _))

def pixelBytes (frame : FrameArtifact) : List Byte :=
  (List.range (artifactWidth frame * artifactHeight frame)).map frame.pixels

def snapshotBytes (frame : FrameArtifact) : List Byte := List.ofFn frame.paletteSnapshot

/-- Width, height and the number of palettes, each in two bytes. -/
def headerBytes (frame : FrameArtifact) : List Byte :=
  [BitVec.ofNat 8 (artifactWidth frame >>> 8), BitVec.ofNat 8 (artifactWidth frame),
    BitVec.ofNat 8 (artifactHeight frame >>> 8), BitVec.ofNat 8 (artifactHeight frame),
    BitVec.ofNat 8 (frame.paletteCount >>> 8), BitVec.ofNat 8 frame.paletteCount]

def rowBytes (frame : FrameArtifact) : List Byte := (List.range (artifactHeight frame)).map frame.rowPalette

/-- The extra palettes as they lie in memory, one behind the other. -/
def extraBytes (frame : FrameArtifact) : List Byte :=
  (List.range ((frame.paletteCount - 1) * 128)).map fun i => frame.extraPalettes (i / 128) (Fin.ofNat 128 i)

/-- The updates of the digest, in order. -/
def frameParts (frame : FrameArtifact) : List (List Byte) :=
  [pixelBytes frame, snapshotBytes frame] ++
    if frameIsLegacyShape frame then []
    else [headerBytes frame, rowBytes frame] ++ if 1 < frame.paletteCount then [extraBytes frame] else []

def frameDigest (frame : FrameArtifact) : List Byte :=
  genesisSha256Final ((frameParts frame).foldl genesisSha256Update genesisSha256Init)

/-- The hashed string. -/
def preimage (frame : FrameArtifact) : List Byte := (frameParts frame).flatten

def Produced (frame : FrameArtifact) : Prop :=
  (∃ vdp, produceFrame vdp = some frame) ∨ ∃ vram raster, produceFrameRaster vram raster = some frame

/-! ## What holds of every produced frame -/

/-- The geometry is one of four, the pixels are entries of a palette, and everything beyond the rectangle and the
palettes in use is zero. -/
structure Drawn (frame : FrameArtifact) : Prop where
  width : frame.width = 256 ∨ frame.width = 320
  height : frame.height = 224 ∨ frame.height = 448
  some_palette : 0 < frame.paletteCount
  few_palettes : frame.paletteCount ≤ 224
  pixel : ∀ i < frame.width * frame.height, (frame.pixels i).toNat < 64
  one_palette : frame.paletteCount = 1 → ∀ row < frame.height, frame.rowPalette row = 0
  no_pixel : ∀ i, frame.width * frame.height ≤ i → frame.pixels i = 0
  no_row : ∀ row, frame.height ≤ row → frame.rowPalette row = 0
  no_palette : ∀ k, frame.paletteCount ≤ k + 1 → frame.extraPalettes k = fun _ => 0

variable {f g frame : FrameArtifact} {source : Source} {geometry : DisplayGeometry} {row : ℕ}

theorem Drawn.artifactWidth_eq (drawn : Drawn frame) : artifactWidth frame = frame.width := by
  have width := drawn.width
  exact if_pos (by omega)

theorem Drawn.artifactHeight_eq (drawn : Drawn frame) : artifactHeight frame = frame.height := by
  have height := drawn.height
  exact if_pos (by omega)

/-! ## The parts of the string -/

/-- What follows the pixels and the first palette. -/
def tailBytes (frame : FrameArtifact) : List Byte :=
  if frameIsLegacyShape frame then []
  else headerBytes frame ++ (rowBytes frame ++ extraBytes frame)

theorem preimage_eq (frame : FrameArtifact) :
    preimage frame = pixelBytes frame ++ (snapshotBytes frame ++ tailBytes frame) := by
  rw [preimage, frameParts, tailBytes]
  by_cases legacy : frameIsLegacyShape frame
  · rw [if_pos legacy, if_pos legacy]
    rfl
  · rw [if_neg legacy, if_neg legacy]
    by_cases more : 1 < frame.paletteCount
    · rw [if_pos more]
      simp only [List.flatten_append, List.flatten_cons, List.flatten_nil, List.append_nil, List.append_assoc]
    · have none : extraBytes frame = [] := by
        rw [extraBytes, Nat.sub_eq_zero_of_le (Nat.le_of_not_lt more)]
        rfl
      rw [if_neg more, none]
      simp only [List.flatten_append, List.flatten_cons, List.flatten_nil, List.append_nil, List.append_assoc]

theorem length_pixelBytes (drawn : Drawn frame) : (pixelBytes frame).length = frame.width * frame.height := by
  rw [pixelBytes, List.length_map, List.length_range, drawn.artifactWidth_eq, drawn.artifactHeight_eq]

theorem length_snapshotBytes (frame : FrameArtifact) : (snapshotBytes frame).length = 128 := List.length_ofFn

theorem length_rowBytes (drawn : Drawn frame) : (rowBytes frame).length = frame.height := by
  rw [rowBytes, List.length_map, List.length_range, drawn.artifactHeight_eq]

theorem length_extraBytes (frame : FrameArtifact) : (extraBytes frame).length = (frame.paletteCount - 1) * 128 := by
  rw [extraBytes, List.length_map, List.length_range]

theorem length_legacy (drawn : Drawn frame) (legacy : frameIsLegacyShape frame) :
    (preimage frame).length = 320 * 224 + 128 := by
  rw [preimage_eq, tailBytes, if_pos legacy, List.length_append, List.length_append, length_pixelBytes drawn,
    length_snapshotBytes, ← drawn.artifactWidth_eq, ← drawn.artifactHeight_eq, legacy.1, legacy.2.1]
  rfl

theorem length_other (drawn : Drawn frame) (other : ¬frameIsLegacyShape frame) :
    (preimage frame).length =
      frame.width * frame.height + (128 + (6 + (frame.height + (frame.paletteCount - 1) * 128))) := by
  have header : (headerBytes frame).length = 6 := rfl
  rw [preimage_eq, tailBytes, if_neg other]
  simp only [List.length_append]
  rw [length_pixelBytes drawn, length_snapshotBytes, header, length_rowBytes drawn, length_extraBytes]

/-! ## The parts tell themselves apart -/

/-- Behind whole palettes the header and the rows leave a remainder, and each height another one. -/
theorem shape_of_length (first : Drawn f) (second : Drawn g) (length : (preimage f).length = (preimage g).length) :
    (frameIsLegacyShape f ↔ frameIsLegacyShape g) ∧ (¬frameIsLegacyShape f → f.height = g.height) := by
  have size : ∀ {frame : FrameArtifact}, Drawn frame → ∃ n, frame.width * frame.height = 128 * n := by
    intro frame drawn
    rcases drawn.width with width | width
    · exact ⟨2 * frame.height, by rw [width]; omega⟩
    · rcases drawn.height with height | height
      · exact ⟨560, by rw [width, height]⟩
      · exact ⟨1120, by rw [width, height]⟩
  have height := first.height
  have height' := second.height
  rcases size first with ⟨n, area⟩
  rcases size second with ⟨n', area'⟩
  by_cases legacy : frameIsLegacyShape f
  · by_cases legacy' : frameIsLegacyShape g
    · exact ⟨iff_of_true legacy legacy', fun other => absurd legacy other⟩
    · rw [length_legacy first legacy, length_other second legacy', area'] at length
      omega
  · by_cases legacy' : frameIsLegacyShape g
    · rw [length_other first legacy, length_legacy second legacy', area] at length
      omega
    · rw [length_other first legacy, length_other second legacy', area, area'] at length
      exact ⟨iff_of_false legacy legacy', fun _ => by omega⟩

theorem legacy_size (drawn : Drawn frame) (legacy : frameIsLegacyShape frame) :
    frame.width = 320 ∧ frame.height = 224 ∧ frame.paletteCount = 1 := by
  rw [frameIsLegacyShape, drawn.artifactWidth_eq, drawn.artifactHeight_eq] at legacy
  exact ⟨legacy.1, legacy.2.1, Nat.le_antisymm legacy.2.2 drawn.some_palette⟩

/-- The low byte of the height in the header of the narrower frame is no pixel of the wider one. -/
theorem not_narrower (first : Drawn f) (second : Drawn g) (other : ¬frameIsLegacyShape f)
    (height : f.height = g.height) (narrow : f.width = 256) (wide : g.width = 320) : preimage f ≠ preimage g := by
  intro same
  have place : (preimage f)[f.width * f.height + (128 + 3)]? = some (BitVec.ofNat 8 f.height) := by
    rw [preimage_eq, tailBytes, if_neg other, List.getElem?_append_right (by rw [length_pixelBytes first]; omega),
      length_pixelBytes first, Nat.add_sub_cancel_left, List.getElem?_append_right (by rw [length_snapshotBytes]; omega),
      length_snapshotBytes, Nat.add_sub_cancel_left, ← first.artifactHeight_eq]
    rfl
  have tall := second.height
  have inside : f.width * f.height + (128 + 3) < g.width * g.height := by
    rw [height, narrow, wide]
    omega
  have pixel : (preimage g)[f.width * f.height + (128 + 3)]? = some (g.pixels (f.width * f.height + (128 + 3))) := by
    rw [preimage_eq, List.getElem?_append_left (by rw [length_pixelBytes second]; exact inside), pixelBytes,
      List.getElem?_map, second.artifactWidth_eq, second.artifactHeight_eq, List.getElem?_range inside]
    rfl
  rw [same, pixel] at place
  have small := second.pixel _ inside
  rw [Option.some.inj place, height, BitVec.toNat_ofNat] at small
  omega

theorem size_of_preimage (first : Drawn f) (second : Drawn g) (same : preimage f = preimage g) :
    f.width = g.width ∧ f.height = g.height ∧ f.paletteCount = g.paletteCount ∧
      (frameIsLegacyShape f ↔ frameIsLegacyShape g) := by
  have shape := shape_of_length first second (congrArg List.length same)
  by_cases legacy : frameIsLegacyShape f
  · have one := legacy_size first legacy
    have two := legacy_size second (shape.1.mp legacy)
    exact ⟨one.1.trans two.1.symm, one.2.1.trans two.2.1.symm, one.2.2.trans two.2.2.symm, shape.1⟩
  · have other : ¬frameIsLegacyShape g := fun legacy' => legacy (shape.1.mpr legacy')
    have height := shape.2 legacy
    have width : f.width = g.width := by
      rcases first.width with narrow | wide
      · rcases second.width with narrow' | wide'
        · exact narrow.trans narrow'.symm
        · exact absurd same (not_narrower first second legacy height narrow wide')
      · rcases second.width with narrow' | wide'
        · exact absurd same.symm (not_narrower second first other height.symm narrow' wide)
        · exact wide.trans wide'.symm
    have length := congrArg List.length same
    have some_palette := first.some_palette
    have some_palette' := second.some_palette
    rw [length_other first legacy, length_other second other, width, height] at length
    exact ⟨width, height, by omega, shape.1⟩

theorem rows_of_bytes (first : Drawn f) (second : Drawn g) (height : f.height = g.height)
    (same : rowBytes f = rowBytes g) : f.rowPalette = g.rowPalette := by
  rw [rowBytes, rowBytes, first.artifactHeight_eq, second.artifactHeight_eq, height, List.map_inj_left] at same
  funext row
  rcases Nat.lt_or_ge row g.height with inside | beyond
  · exact same row (List.mem_range.mpr inside)
  · rw [first.no_row row (height ▸ beyond), second.no_row row beyond]

theorem extras_of_bytes (first : Drawn f) (second : Drawn g) (count : f.paletteCount = g.paletteCount)
    (same : extraBytes f = extraBytes g) : f.extraPalettes = g.extraPalettes := by
  rw [extraBytes, extraBytes, count, List.map_inj_left] at same
  funext k
  rcases Nat.lt_or_ge (k + 1) g.paletteCount with inside | beyond
  · funext j
    have byte := same (k * 128 + j) (List.mem_range.mpr (by omega))
    have entry : Fin.ofNat 128 (k * 128 + j) = j := by
      apply Fin.ext
      change (k * 128 + j) % 128 = j
      omega
    rw [show (k * 128 + j.val) / 128 = k by omega, entry] at byte
    exact byte
  · rw [first.no_palette k (count ▸ beyond), second.no_palette k beyond]

theorem tails_injective (first : Drawn f) (second : Drawn g) (height : f.height = g.height)
    (count : f.paletteCount = g.paletteCount) (shape : frameIsLegacyShape f ↔ frameIsLegacyShape g)
    (same : tailBytes f = tailBytes g) : f.rowPalette = g.rowPalette ∧ f.extraPalettes = g.extraPalettes := by
  by_cases legacy : frameIsLegacyShape f
  · -- the string leaves out the slots, which are all 0, and the extra palettes, of which there are none
    have zero : ∀ {frame : FrameArtifact}, Drawn frame → frameIsLegacyShape frame →
        frame.rowPalette = (fun _ => 0) ∧ frame.extraPalettes = fun _ _ => 0 := by
      intro frame drawn legacy
      have one := (legacy_size drawn legacy).2.2
      constructor
      · funext row
        rcases Nat.lt_or_ge row frame.height with inside | beyond
        · exact drawn.one_palette one row inside
        · exact drawn.no_row row beyond
      · funext k
        exact drawn.no_palette k (one ▸ Nat.le_add_left 1 k)
    have one := zero first legacy
    have two := zero second (shape.mp legacy)
    exact ⟨one.1.trans two.1.symm, one.2.trans two.2.symm⟩
  · have other : ¬frameIsLegacyShape g := fun legacy' => legacy (shape.mpr legacy')
    rw [tailBytes, tailBytes, if_neg legacy, if_neg other] at same
    have behind := (List.append_inj same rfl).2
    rcases List.append_inj behind (by rw [length_rowBytes first, length_rowBytes second, height]) with ⟨rows, extras⟩
    exact ⟨rows_of_bytes first second height rows, extras_of_bytes first second count extras⟩

theorem preimage_injective (first : Drawn f) (second : Drawn g) (same : preimage f = preimage g) : f = g := by
  rcases size_of_preimage first second same with ⟨width, height, count, shape⟩
  rw [preimage_eq, preimage_eq] at same
  rcases List.append_inj same (by rw [length_pixelBytes first, length_pixelBytes second, width, height])
    with ⟨pixels, behind⟩
  rcases List.append_inj behind (by rw [length_snapshotBytes, length_snapshotBytes]) with ⟨snapshot, tails⟩
  have pixels : f.pixels = g.pixels := by
    rw [pixelBytes, pixelBytes, first.artifactWidth_eq, first.artifactHeight_eq, second.artifactWidth_eq,
      second.artifactHeight_eq, width, height, List.map_inj_left] at pixels
    funext i
    rcases Nat.lt_or_ge i (g.width * g.height) with inside | beyond
    · exact pixels i (List.mem_range.mpr inside)
    · rw [first.no_pixel i (by rw [width, height]; exact beyond), second.no_pixel i beyond]
  have snapshot : f.paletteSnapshot = g.paletteSnapshot := List.ofFn_injective snapshot
  have rest := tails_injective first second height count shape tails
  rcases f with ⟨⟨_, _, _⟩, _, _, _, _⟩
  rcases g with ⟨⟨_, _, _⟩, _, _, _, _⟩
  dsimp only at width height count pixels snapshot rest
  rw [snapshot, rest.2, count, pixels, width, height, rest.1]

/-! ## The producer -/

theorem slots_unused (lineOf : ℕ → Schedule.RasterLine) (n : ℕ) :
    ∀ k, ((List.range n).foldl (Slots.note lineOf) {}).palettes.paletteCount ≤ k + 1 →
      ((List.range n).foldl (Slots.note lineOf) {}).palettes.extraPalettes k = fun _ => 0 := by
  induction n with
  | zero => exact fun k _ => rfl
  | succ n ih =>
      intro k beyond
      rw [List.range_succ, List.foldl_concat, Slots.note] at *
      generalize (List.range n).foldl (Slots.note lineOf) {} = slots at *
      cases found : slots.palettes.find (lineOf n).cram slots.palettes.paletteCount with
      | some slot =>
          rw [found] at beyond
          exact ih k beyond
      | none =>
          rw [found] at beyond
          dsimp only at beyond ⊢
          rw [append_count] at beyond
          rw [Palettes.append]
          split_ifs with first
          · exact ih k (by omega)
          · exact (Function.update_of_ne (by omega) _ _).trans (ih k (by omega))

theorem slots_some (lineOf : ℕ → Schedule.RasterLine) {n : ℕ} (lines : 0 < n) :
    0 < ((List.range n).foldl (Slots.note lineOf) {}).palettes.paletteCount :=
  Nat.zero_lt_of_lt ((slots_slotted lineOf n).bound 0 lines)

/-- The rows after `n` of them have left the rest of the buffers zero. -/
theorem rows_beyond (source : Source) (geometry : DisplayGeometry) (slots : Slots) (n : ℕ) :
    (∀ i, n * geometry.width ≤ i → ((List.range n).foldl (Rows.next source geometry slots)
        { reader := (0, source.start) }).pixels i = 0) ∧
      ∀ row, n ≤ row → ((List.range n).foldl (Rows.next source geometry slots)
        { reader := (0, source.start) }).rowPalette row = 0 := by
  induction n with
  | zero => exact ⟨fun _ _ => rfl, fun _ _ => rfl⟩
  | succ n ih =>
      rw [List.range_succ, List.foldl_concat, Rows.next]
      constructor
      · intro i beyond
        rw [Nat.succ_mul] at beyond
        dsimp only
        rw [storeRow, renderRow_length, if_neg (by dsimp only; omega)]
        exact ih.1 i (by omega)
      · intro row beyond
        exact (Function.update_of_ne (by omega) _ _).trans (ih.2 row (by omega))

theorem line_valid (total : source.Total) (valid : validateLine (source.lineOf 0) = some geometry)
    (fits : source.fits geometry = true) {row : ℕ} (inside : row < geometry.height) :
    validateLine (source.lineOf (fieldLine geometry row)) = some geometry := by
  have line := fieldLine_lt valid inside
  rcases total with whole | ⟨-, same⟩
  · exact valid_of_fits valid fits (by omega)
  · rw [same]
    exact valid

theorem row_lt (valid : validateLine (source.lineOf (fieldLine geometry row)) = some geometry) (x : ℕ) :
    ((source.row geometry row).getD x 0).toNat < 64 := by
  have accepted : Accepted { vram := source.vramAt (fieldLine geometry row), geometry := geometry }
      (source.lineOf (fieldLine geometry row)) := accepted_of_validate valid
  rw [Source.row, renderRow_reference accepted, List.getD_eq_getElem?_getD, List.getElem?_map]
  cases (List.range geometry.width)[x]? with
  | none => exact (by decide : (0 : Byte).toNat < 64)
  | some column => exact referencePixel_lt _ _ _ _

theorem slot_lt (total : source.Total) (valid : validateLine (source.lineOf 0) = some geometry) {row : ℕ}
    (inside : row < geometry.height) :
    source.slots.slotOfLine (if source.lineCount = 1 then 0 else fieldLine geometry row) <
      source.slots.palettes.paletteCount := by
  have line := fieldLine_lt valid inside
  apply (slots_slotted source.lineOf source.lineCount).bound
  rcases total with whole | ⟨single, -⟩
  · rw [if_neg (by omega)]
    omega
  · rw [if_pos single]
    omega

theorem drawn_frame (total : source.Total) (valid : validateLine (source.lineOf 0) = some geometry)
    (fits : source.fits geometry = true) : Drawn (source.frame geometry) := by
  have size := displayGeometry_eq (validateLine_geometry valid)
  have rendered := rows_rendered source geometry source.slots geometry.height
  have beyond := rows_beyond source geometry source.slots geometry.height
  have lines : 0 < source.lineCount ∧ source.lineCount ≤ 224 := by
    rcases total with whole | ⟨single, -⟩ <;> omega
  constructor
  case width =>
    change geometry.width = 256 ∨ geometry.width = 320
    rw [size.1]
    split_ifs <;> simp
  case height =>
    change geometry.height = 224 ∨ geometry.height = 448
    rw [size.2.1]
    split_ifs <;> simp
  case some_palette => exact slots_some source.lineOf lines.1
  case few_palettes => exact (slots_slotted source.lineOf source.lineCount).count.trans lines.2
  case pixel =>
    intro i inside
    have wide : 0 < geometry.width := Nat.pos_of_lt_mul_right inside
    have row : i / geometry.width < geometry.height := Nat.div_lt_of_lt_mul inside
    have shown := rendered.pixels (i / geometry.width) row (i % geometry.width) (Nat.mod_lt i wide)
    rw [Nat.div_add_mod'] at shown
    change ((source.rows geometry).pixels i).toNat < 64
    rw [Source.rows, shown]
    exact row_lt (line_valid total valid fits row) _
  case one_palette =>
    intro one row inside
    have slot := slot_lt total valid inside
    change source.slots.palettes.paletteCount = 1 at one
    rw [one, Nat.lt_one_iff] at slot
    have palette := rendered.palette row inside
    rw [slot] at palette
    exact palette
  case no_pixel =>
    intro i outside
    exact beyond.1 i (by rw [Nat.mul_comm]; exact outside)
  case no_row => exact beyond.2
  case no_palette => exact slots_unused source.lineOf source.lineCount

theorem drawn_renderFrame (total : source.Total) (rendered : renderFrame source = some frame) : Drawn frame := by
  rw [renderFrame] at rendered
  cases valid : validateLine (source.lineOf 0) with
  | none =>
      rw [valid] at rendered
      cases rendered
  | some first =>
      rw [valid] at rendered
      dsimp only at rendered
      by_cases fits : source.fits first = false
      · rw [if_pos fits] at rendered
        cases rendered
      · rw [if_neg fits] at rendered
        rw [← Option.some.inj rendered]
        exact drawn_frame total valid (Bool.eq_true_of_not_eq_false fits)

theorem Produced.drawn (produced : Produced frame) : Drawn frame := by
  rcases produced with ⟨vdp, uniform⟩ | ⟨vram, raster, lines⟩
  · exact drawn_renderFrame (.inr ⟨rfl, fun _ => rfl⟩) uniform
  · exact drawn_renderFrame (.inl rfl) lines

/-! ## The digest -/

theorem parts_narrow (drawn : Drawn frame) : ∀ part ∈ frameParts frame, part.length < 2 ^ 32 := by
  have area : frame.width * frame.height ≤ 320 * 448 := by
    apply Nat.mul_le_mul
    · have width := drawn.width
      omega
    · have height := drawn.height
      omega
  have few := drawn.few_palettes
  have tall := drawn.height
  have pixels := length_pixelBytes drawn
  have snapshot := length_snapshotBytes frame
  have header : (headerBytes frame).length = 6 := rfl
  have rows := length_rowBytes drawn
  have extras := length_extraBytes frame
  intro part member
  have known : part = pixelBytes frame ∨ part = snapshotBytes frame ∨ part = headerBytes frame ∨
      part = rowBytes frame ∨ part = extraBytes frame := by
    rw [frameParts] at member
    split_ifs at member <;> simp only [List.mem_append, List.mem_cons, List.not_mem_nil, or_false] at member <;> tauto
  rcases known with rfl | rfl | rfl | rfl | rfl <;> omega

theorem frameDigest_text (drawn : Drawn frame) : (frameDigest frame).flatMap byteText = sha256Hex (preimage frame) :=
  final_text (absorbed_chunks (parts_narrow drawn))

/-- The digest identifies the frame, as long as the two hashed strings are no collision of SHA-256, which cannot
be injective on all strings. The string of a legacy frame is that of no frame of another shape. -/
theorem digest_identifies (first : Produced f) (second : Produced g) :
    (frameIsLegacyShape f → ¬frameIsLegacyShape g → preimage f ≠ preimage g) ∧
    ((sha256Hex (preimage f) = sha256Hex (preimage g) → preimage f = preimage g) → frameDigest f = frameDigest g →
      f = g ∧ ∀ row, frameRowRgb888 f row = frameRowRgb888 g row) := by
  constructor
  · intro legacy other same
    exact other ((size_of_preimage first.drawn second.drawn same).2.2.2.mp legacy)
  · intro no_collision same
    have texts : sha256Hex (preimage f) = sha256Hex (preimage g) := by
      rw [← frameDigest_text first.drawn, ← frameDigest_text second.drawn, same]
    have identical := preimage_injective first.drawn second.drawn (no_collision texts)
    exact ⟨identical, fun row => by rw [identical]⟩

/-- A display of 320 by 224 pixels; the pointer of the control port is not part of the picture. -/
def wideVdp (pointer : ℕ) : Schedule.VdpState where
  registers := fun i => if i.val = 1 then 0x04 else if i.val = 12 then 0x81 else 0
  cram := fun _ => 0
  vsram := fun _ => 0
  vram := fun _ => 0
  addressedPointer := pointer

def wideGeometry : DisplayGeometry := { width := 320, height := 224, h40 := true, im2 := false, cellHeight := 8 }

def wideFrame (pointer : ℕ) : FrameArtifact :=
  (uniformSource (wideVdp pointer).vram (Schedule.rasterCaptureState (wideVdp pointer))).frame wideGeometry

def narrowFrame : FrameArtifact := (rasterSource (fun _ => 0) mode5Raster).frame mode5Context.geometry

theorem renderFrame_valid (lines : 0 < source.lineCount)
    (valid : ∀ i < source.lineCount, validateLine (source.lineOf i) = some geometry) :
    renderFrame source = some (source.frame geometry) := by
  have fits : ¬source.fits geometry = false := by
    rw [fits_of_valid valid]
    decide
  rw [renderFrame, valid 0 lines]
  exact if_neg fits

theorem digest_identifies_shapes :
    preimage (wideFrame 0) ≠ preimage narrowFrame ∧
      ∀ row, frameRowRgb888 (wideFrame 0) row = frameRowRgb888 (wideFrame 2) row := by
  have wide (pointer : ℕ) : Produced (wideFrame pointer) := by
    have line : validateLine (Schedule.rasterCaptureState (wideVdp 0)) = some wideGeometry := by decide
    exact .inl ⟨wideVdp pointer, renderFrame_valid Nat.one_pos fun _ _ => line⟩
  have narrow : Produced narrowFrame := by
    have line : validateLine mode5Line = some mode5Context.geometry := by decide
    exact .inr ⟨fun _ => 0, mode5Raster, renderFrame_valid (by decide) fun _ _ => line⟩
  constructor
  · apply (digest_identifies (wide 0) narrow).1
    · exact ⟨rfl, rfl, by decide⟩
    · exact fun legacy => absurd legacy.1 (by decide)
  · have same : wideFrame 0 = wideFrame 2 := rfl
    exact ((digest_identifies (wide 0) (wide 2)).2 (fun _ => congrArg preimage same) (congrArg frameDigest same)).2

end Segarecomp.Genesis.FrameDigest

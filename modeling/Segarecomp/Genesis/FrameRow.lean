import Segarecomp.Genesis.Schedule

/-! One output row of the picture: the display geometry a register file selects, the scroll planes,
the window, the sprites of a line with their limits, and the priority of the layers. A pixel is an
index into CRAM. -/

namespace Segarecomp.Genesis.FrameRow

open Schedule

abbrev Registers := Fin 24 → BitVec 16

abbrev Vram := Fin 65536 → Byte

def tileBytes : ℕ := 32
def tileWidth : ℕ := 8
def tileHeight : ℕ := 8

/-! ## Geometry -/

structure DisplayGeometry where
  width : ℕ
  height : ℕ
  h40 : Bool
  im2 : Bool
  cellHeight : ℕ
  deriving DecidableEq, Repr

def modeIsMode5 (registers : Registers) : Bool := registers 1 &&& 0x04 ≠ 0

def hresIsH40 (registers : Registers) : Bool := registers 12 &&& 0x80 ≠ 0 ∧ registers 12 &&& 0x01 ≠ 0

def hresIsH32 (registers : Registers) : Bool := registers 12 &&& 0x81 = 0

def interlaceIsNone (registers : Registers) : Bool := registers 12 &&& 0x04 = 0 ∧ registers 12 &&& 0x02 = 0

def interlaceIsMode2 (registers : Registers) : Bool := registers 12 &&& 0x04 ≠ 0 ∧ registers 12 &&& 0x02 ≠ 0

/-- The 240-line display, the mixed horizontal selections and interlace mode 1 are refused. -/
def displayGeometry (registers : Registers) : Option DisplayGeometry :=
  let h40 := hresIsH40 registers
  let im2 := interlaceIsMode2 registers
  if modeIsMode5 registers = false then none
  else if registers 1 &&& 0x08 ≠ 0 then none
  else if h40 = false ∧ hresIsH32 registers = false then none
  else if im2 = false ∧ interlaceIsNone registers = false then none
  else
    some
      { h40 := h40, im2 := im2
        width := if h40 then 320 else 256
        height := if im2 then 448 else 224
        cellHeight := if im2 then 16 else 8 }

def decodePlaneSizeField : ℕ → Option ℕ
  | 0 => some 32
  | 1 => some 64
  | 3 => some 128
  | _ => none

def decodePlaneSize (registers : Registers) : Option (ℕ × ℕ) :=
  match decodePlaneSizeField (registers 16 &&& 3).toNat,
    decodePlaneSizeField ((registers 16 >>> 4) &&& 3).toNat with
  | some widthCells, some heightCells =>
      if 4096 < widthCells * heightCells then none else some (widthCells, heightCells)
  | _, _ => none

/-! ## Scrolling -/

inductive PlaneSelector
  | a | b
  deriving DecidableEq, Repr

def planeBaseAddress (registers : Registers) : PlaneSelector → ℕ
  | .a => (registers 2).toNat <<< 10 &&& 0xE000
  | .b => (registers 4).toNat <<< 13 &&& 0xE000

def hscrollModeIsFullscreen (registers : Registers) : Bool := registers 11 &&& 3 = 0

def hscrollModeIsLine (registers : Registers) : Bool := registers 11 &&& 3 = 3

def hscrollModeIsCell (registers : Registers) : Bool := registers 11 &&& 3 = 2

def vscrollModeIs2cell (registers : Registers) : Bool := (registers 11 >>> 2) &&& 1 = 1

def signExtendScrollBits (rawWord : BitVec 16) (bits : ℕ) : ℤ :=
  let masked := rawWord.toNat % 2 ^ bits
  if 2 ^ (bits - 1) ≤ masked then masked - 2 ^ bits else masked

/-- The table is indexed by field line. -/
def hscrollTableEntry (registers : Registers) (row : ℕ) : Option ℕ :=
  let fieldLine := if interlaceIsMode2 registers then row / 2 else row
  if hscrollModeIsFullscreen registers then some 0
  else if hscrollModeIsLine registers = false ∧ hscrollModeIsCell registers = false then none
  else if 224 ≤ fieldLine then none
  else some (if hscrollModeIsCell registers then fieldLine / 8 * 8 else fieldLine)

def word (high low : Byte) : BitVec 16 := high.setWidth 16 <<< 8 ||| low.setWidth 16

def PlaneSelector.offset : PlaneSelector → ℕ
  | .a => 0
  | .b => 2

def readHscroll (vram : Vram) (registers : Registers) (plane : PlaneSelector) (screenY : ℕ) : Option ℤ :=
  match hscrollTableEntry registers screenY with
  | none => none
  | some row =>
      let addr := (registers 13 &&& 0x3F).toNat <<< 10 + row * 4 + plane.offset
      if 65536 ≤ addr + 1 then none
      else some (signExtendScrollBits (word (vram (Fin.ofNat 65536 addr)) (vram (Fin.ofNat 65536 (addr + 1)))) 10)

def readVscroll (vsram : Fin 80 → Byte) (registers : Registers) (plane : PlaneSelector) (screenCellCol : ℕ) :
    Option ℤ :=
  let group := if vscrollModeIs2cell registers then screenCellCol / 2 else 0
  let offset := plane.offset + group * 4
  if 20 ≤ group ∨ 80 ≤ offset + 1 then none
  else
    some (signExtendScrollBits (word (vsram (Fin.ofNat 80 offset)) (vsram (Fin.ofNat 80 (offset + 1))))
      (if interlaceIsMode2 registers then 11 else 10))

def wrapCoordinate (value : ℤ) (dimensionPx : ℕ) : ℕ :=
  let wrapped := value.tmod dimensionPx
  (if wrapped < 0 then wrapped + dimensionPx else wrapped).toNat

def planeY (screenY : ℕ) (vscroll : ℤ) (planeHeightPx : ℕ) : ℕ :=
  wrapCoordinate (screenY + vscroll) planeHeightPx

/-! ## Cells -/

structure NametableEntry where
  tileIndex : ℕ
  hFlip : Bool
  vFlip : Bool
  palette : ℕ
  priority : Bool
  deriving DecidableEq, Repr

def decodeNametableWord (rawWord : BitVec 16) : NametableEntry where
  tileIndex := (rawWord &&& 0x07FF).toNat
  hFlip := rawWord &&& 0x0800 ≠ 0
  vFlip := rawWord &&& 0x1000 ≠ 0
  palette := ((rawWord >>> 13) &&& 3).toNat
  priority := rawWord &&& 0x8000 ≠ 0

structure CandidatePixel where
  solid : Bool := false
  priority : Bool := false
  palette : ℕ := 0
  index : ℕ := 0
  deriving DecidableEq, Repr

/-- The rendering context of a frame. -/
structure RenderContext where
  vram : Vram
  geometry : DisplayGeometry

def be16 (vram : Vram) (addr : ℕ) : BitVec 16 :=
  word (vram (Fin.ofNat 65536 addr)) (vram (Fin.ofNat 65536 (addr + 1)))

/-- Two pixels to a byte, the left one in the high nibble. -/
def nibble (value : Byte) (x : ℕ) : ℕ := if x % 2 = 0 then (value >>> 4).toNat else (value &&& 0x0F).toNat

def DisplayGeometry.patternBytes (geometry : DisplayGeometry) : ℕ :=
  if geometry.im2 then 2 * tileBytes else tileBytes

def fetchCellPixel (ctx : RenderContext) (entry : NametableEntry) (tileX tileY : ℕ) : CandidatePixel :=
  let tileX := if entry.hFlip then tileWidth - 1 - tileX else tileX
  let tileY := if entry.vFlip then ctx.geometry.cellHeight - 1 - tileY else tileY
  let addr := entry.tileIndex * ctx.geometry.patternBytes + tileY * 4 + tileX / 2
  let pattern := nibble (ctx.vram (Fin.ofNat 65536 addr)) tileX
  { solid := pattern ≠ 0, priority := entry.priority, palette := entry.palette, index := pattern }

/-! ## The window -/

def windowCovers (registers : Registers) (geometry : DisplayGeometry) (x row : ℕ) : Bool :=
  let vboundary := (registers 18 &&& 0x1F).toNat * geometry.cellHeight
  let hboundary := (registers 17 &&& 0x1F).toNat
  let vertical := if registers 18 &&& 0x80 ≠ 0 then decide (vboundary ≤ row) else decide (row < vboundary)
  let horizontal :=
    if registers 17 &&& 0x80 ≠ 0 then decide (hboundary ≤ x / 16) else decide (x / 16 < hboundary)
  vertical || horizontal

def windowEntry (ctx : RenderContext) (registers : Registers) (x row : ℕ) : NametableEntry :=
  let base := (registers 3).toNat <<< 10 &&& (if ctx.geometry.h40 then 0xF000 else 0xF800)
  let strideCells := if ctx.geometry.h40 then 64 else 32
  let addr := base + (row / ctx.geometry.cellHeight * strideCells + x / tileWidth) * 2
  decodeNametableWord (be16 ctx.vram addr)

/-! ## The scroll planes -/

structure RowPlane where
  base : ℕ
  widthCells : ℕ
  widthPx : ℕ
  heightPx : ℕ
  hscroll : ℤ
  perColumn : Bool
  vscroll : ℕ → ℤ

/-- A scroll value that cannot be read is zero. -/
def prepareRowPlane (ctx : RenderContext) (line : RasterLine) (plane : PlaneSelector) (row : ℕ) : RowPlane :=
  let cells := (decodePlaneSize line.registers).getD (0, 0)
  { base := planeBaseAddress line.registers plane
    widthCells := cells.1
    widthPx := cells.1 * tileWidth
    heightPx := cells.2 * ctx.geometry.cellHeight
    hscroll := (readHscroll ctx.vram line.registers plane row).getD 0
    perColumn := vscrollModeIs2cell line.registers
    vscroll := fun group => (readVscroll line.vsram line.registers plane (group * 2)).getD 0 }

/-- The cell a plane's row is in: its tile row is fetched once for all its pixels. -/
structure PlaneCell where
  cellCol : ℕ
  group : ℕ
  cellRow : ℕ
  tileY : ℕ
  rowBase : ℕ
  priority : Bool
  palette : ℕ
  hFlip : Bool

structure PlaneRun where
  plane : RowPlane
  start : ℕ
  cell : Option PlaneCell := none

def planeRunInit (plane : RowPlane) : PlaneRun where
  plane := plane
  start := wrapCoordinate (-plane.hscroll) plane.widthPx

/-- The plane's row within a vertical scroll group. -/
def groupRow (ctx : RenderContext) (plane : RowPlane) (group row : ℕ) : ℕ × ℕ :=
  let planeY := planeY row (plane.vscroll (if group < 20 then group else 0)) plane.heightPx
  (planeY / ctx.geometry.cellHeight, planeY % ctx.geometry.cellHeight)

def fetchPlaneCell (ctx : RenderContext) (plane : RowPlane) (group cellCol : ℕ) (place : ℕ × ℕ) : PlaneCell :=
  let addr := plane.base + (place.1 * plane.widthCells + cellCol) * 2
  let entry := decodeNametableWord (be16 ctx.vram addr)
  let tileY := if entry.vFlip then ctx.geometry.cellHeight - 1 - place.2 else place.2
  { cellCol := cellCol, group := group, cellRow := place.1, tileY := place.2
    rowBase := entry.tileIndex * ctx.geometry.patternBytes + tileY * 4
    priority := entry.priority, palette := entry.palette, hFlip := entry.hFlip }

def planeRunCell (ctx : RenderContext) (run : PlaneRun) (group cellCol row : ℕ) : PlaneCell :=
  match run.cell with
  | none => fetchPlaneCell ctx run.plane group cellCol (groupRow ctx run.plane group row)
  | some cell =>
      if cell.group ≠ group then fetchPlaneCell ctx run.plane group cellCol (groupRow ctx run.plane group row)
      else if cell.cellCol ≠ cellCol then fetchPlaneCell ctx run.plane group cellCol (cell.cellRow, cell.tileY)
      else cell

def planeRunPixel (ctx : RenderContext) (run : PlaneRun) (x row : ℕ) : CandidatePixel × PlaneRun :=
  let planeX := (run.start + x) % run.plane.widthPx
  let group := if run.plane.perColumn then x / 16 else 0
  let cell := planeRunCell ctx run group (planeX / tileWidth) row
  let tileX := planeX % tileWidth
  let tileX := if cell.hFlip then tileWidth - 1 - tileX else tileX
  let pattern := nibble (ctx.vram (Fin.ofNat 65536 (cell.rowBase + tileX / 2))) tileX
  ({ solid := pattern ≠ 0, priority := cell.priority, palette := cell.palette, index := pattern },
    { run with cell := some cell })

/-! ## Sprites -/

structure SpriteEntry where
  x : ℤ
  y : ℤ
  widthCells : ℕ
  heightCells : ℕ
  link : ℕ
  tileIndex : ℕ
  hFlip : Bool
  vFlip : Bool
  palette : ℕ
  priority : Bool
  interlaceMode2 : Bool
  deriving DecidableEq, Repr

def satBaseAddress (registers : Registers) : Option ℕ :=
  if hresIsH40 registers then some ((registers 5).toNat <<< 9 &&& 0xFC00)
  else if hresIsH32 registers then some ((registers 5).toNat <<< 9 &&& 0xFE00)
  else none

def decodeSpriteEntryEx (raw : ℕ → Byte) (interlaceMode2 : Bool) : SpriteEntry :=
  let word0 := word (raw 0) (raw 1)
  let word4 := word (raw 4) (raw 5)
  let word6 := word (raw 6) (raw 7)
  { y := (word0 &&& (if interlaceMode2 then 0x03FF else 0x01FF)).toNat - (if interlaceMode2 then 256 else 128)
    x := (word6 &&& 0x01FF).toNat - 128
    widthCells := ((raw 2 >>> 2) &&& 3).toNat + 1
    heightCells := (raw 2 &&& 3).toNat + 1
    link := (raw 3 &&& 0x7F).toNat
    tileIndex := (word4 &&& 0x07FF).toNat
    hFlip := word4 &&& 0x0800 ≠ 0
    vFlip := word4 &&& 0x1000 ≠ 0
    palette := ((word4 >>> 13) &&& 3).toNat
    priority := word4 &&& 0x8000 ≠ 0
    interlaceMode2 := interlaceMode2 }

def SpriteEntry.cellHeightPx (sprite : SpriteEntry) : ℕ :=
  if sprite.interlaceMode2 then 2 * tileHeight else tileHeight

/-- The cells of a sprite are stored column by column. -/
def spritePatternPixel (sprite : SpriteEntry) (vram : Vram) (mirroredX mirroredY : ℕ) : ℕ :=
  let cellH := sprite.cellHeightPx
  let tileCol := mirroredX % tileWidth
  let tileRow := mirroredY % cellH
  let tileOffset := mirroredX / tileWidth * sprite.heightCells + mirroredY / cellH
  let effectiveTile := (sprite.tileIndex + tileOffset) % 2048
  let patternBytes := if sprite.interlaceMode2 then 2 * tileBytes else tileBytes
  nibble (vram (Fin.ofNat 65536 (effectiveTile * patternBytes + tileRow * 4 + tileCol / 2))) tileCol

/-- The walk of the attribute table along its links, and the sprites of the row up to the limit. -/
def selectSprites (ctx : RenderContext) (satBase maxSprites perLineLimit row : ℕ) :
    (steps : ℕ) → (current : ℕ) → (visited : List ℕ) → (selected : List SpriteEntry) → List SpriteEntry
  | 0, _, _, selected => selected
  | steps + 1, current, visited, selected =>
      let addr := satBase + current * 8
      if current ∈ visited ∨ 65536 < addr + 8 then selected
      else
        let entry := decodeSpriteEntryEx (fun i => ctx.vram (Fin.ofNat 65536 (addr + i))) ctx.geometry.im2
        let bottom := entry.y + entry.heightCells * ctx.geometry.cellHeight
        let inside := decide (entry.y ≤ row ∧ row < bottom)
        if inside ∧ selected.length = perLineLimit then selected
        else
          let selected := if inside then selected ++ [entry] else selected
          if entry.link = 0 ∨ maxSprites ≤ entry.link then selected
          else selectSprites ctx satBase maxSprites perLineLimit row steps entry.link (current :: visited) selected

abbrev SpriteRow := ℕ → CandidatePixel

/-- One column of a sprite, where no earlier sprite has a solid pixel. -/
def drawSpriteColumn (ctx : RenderContext) (sprite : SpriteEntry) (mirroredY : ℕ) (xOrigin : ℤ) (span : ℕ)
    (out : SpriteRow) (localX : ℕ) : SpriteRow :=
  let screenX := sprite.x + localX - xOrigin
  if screenX < 0 ∨ span ≤ screenX ∨ (out screenX.toNat).solid then out
  else
    let mirroredX := if sprite.hFlip then sprite.widthCells * tileWidth - 1 - localX else localX
    let pattern := spritePatternPixel sprite ctx.vram mirroredX mirroredY
    if pattern = 0 then out
    else
      Function.update out screenX.toNat
        { solid := true, priority := sprite.priority, palette := sprite.palette, index := pattern }

/-- A sprite of the row, as far as the cell budget of the line goes. -/
def drawSprite (ctx : RenderContext) (row : ℕ) (xOrigin : ℤ) (span : ℕ) (state : ℕ × SpriteRow)
    (sprite : SpriteEntry) : ℕ × SpriteRow :=
  if state.1 = 0 then state
  else
    let drawnCells := min sprite.widthCells state.1
    let localY := ((row : ℤ) - sprite.y).toNat
    let mirroredY :=
      if sprite.vFlip then sprite.heightCells * ctx.geometry.cellHeight - 1 - localY else localY
    (state.1 - drawnCells,
      (List.range (drawnCells * tileWidth)).foldl (drawSpriteColumn ctx sprite mirroredY xOrigin span) state.2)

def buildSpriteRow (ctx : RenderContext) (line : RasterLine) (row : ℕ) (xOrigin : ℤ) (span : ℕ) : SpriteRow :=
  let maxSprites := if ctx.geometry.h40 then 80 else 64
  let perLineLimit := if ctx.geometry.h40 then 20 else 16
  let cellBudget := if ctx.geometry.h40 then 40 else 32
  match satBaseAddress line.registers with
  | none => fun _ => {}
  | some satBase =>
      let selected := selectSprites ctx satBase maxSprites perLineLimit row maxSprites 0 [] []
      (selected.foldl (drawSprite ctx row xOrigin span) (cellBudget, fun _ => {})).2

/-! ## Composition -/

def cramIndex (palette index : ℕ) : ℕ := palette * 16 + index

def backdropCramIndex (registers : Registers) : ℕ := (registers 7 &&& 0x3F).toNat

def selectCramIndex (planeA planeB sprite : CandidatePixel) (backdrop : ℕ) : ℕ :=
  if sprite.solid ∧ sprite.priority then cramIndex sprite.palette sprite.index
  else if planeA.solid ∧ planeA.priority then cramIndex planeA.palette planeA.index
  else if planeB.solid ∧ planeB.priority then cramIndex planeB.palette planeB.index
  else if sprite.solid then cramIndex sprite.palette sprite.index
  else if planeA.solid then cramIndex planeA.palette planeA.index
  else if planeB.solid then cramIndex planeB.palette planeB.index
  else backdrop

structure RowState where
  runA : PlaneRun
  runB : PlaneRun
  pixels : List Byte := []

def renderPixel (ctx : RenderContext) (line : RasterLine) (row : ℕ) (sprites : SpriteRow) (state : RowState)
    (x : ℕ) : RowState :=
  let backdrop := backdropCramIndex line.registers
  if line.registers 0 &&& 0x20 ≠ 0 ∧ x < tileWidth then
    { state with pixels := state.pixels ++ [BitVec.ofNat 8 backdrop] }
  else
    let a :=
      if windowCovers line.registers ctx.geometry x row then
        (fetchCellPixel ctx (windowEntry ctx line.registers x row) (x % tileWidth)
          (row % ctx.geometry.cellHeight), state.runA)
      else planeRunPixel ctx state.runA x row
    let b := planeRunPixel ctx state.runB x row
    { runA := a.2, runB := b.2
      pixels := state.pixels ++ [BitVec.ofNat 8 (selectCramIndex a.1 b.1 (sprites x) backdrop)] }

/-- One output row of CRAM indices. -/
def renderRow (ctx : RenderContext) (line : RasterLine) (row : ℕ) : List Byte :=
  let start : RowState :=
    { runA := planeRunInit (prepareRowPlane ctx line .a row)
      runB := planeRunInit (prepareRowPlane ctx line .b row) }
  let sprites := buildSpriteRow ctx line row 0 ctx.geometry.width
  ((List.range ctx.geometry.width).foldl (renderPixel ctx line row sprites) start).pixels

/-! ## Facts -/

variable {registers : Registers} {g h : DisplayGeometry}

theorem displayGeometry_some (selected : displayGeometry registers = some g) :
    ¬(hresIsH40 registers = false ∧ hresIsH32 registers = false) ∧ g.h40 = hresIsH40 registers ∧
      g.im2 = interlaceIsMode2 registers ∧ g.width = (if g.h40 then 320 else 256) ∧
      g.height = (if g.im2 then 448 else 224) ∧ g.cellHeight = if g.im2 then 16 else 8 := by
  rw [displayGeometry] at selected
  by_cases mode5 : modeIsMode5 registers = false
  · rw [if_pos mode5] at selected
    cases selected
  by_cases tall : registers 1 &&& 0x08 ≠ 0
  · rw [if_neg mode5, if_pos tall] at selected
    cases selected
  by_cases mixed : hresIsH40 registers = false ∧ hresIsH32 registers = false
  · rw [if_neg mode5, if_neg tall, if_pos mixed] at selected
    cases selected
  by_cases laced : interlaceIsMode2 registers = false ∧ interlaceIsNone registers = false
  · rw [if_neg mode5, if_neg tall, if_neg mixed, if_pos laced] at selected
    cases selected
  rw [if_neg mode5, if_neg tall, if_neg mixed, if_neg laced] at selected
  cases selected
  exact ⟨mixed, rfl, rfl, rfl, rfl, rfl⟩

theorem displayGeometry_eq (selected : displayGeometry registers = some g) :
    g.width = (if g.h40 then 320 else 256) ∧ g.height = (if g.im2 then 448 else 224) ∧
      g.cellHeight = if g.im2 then 16 else 8 := (displayGeometry_some selected).2.2.2

/-- The rectangle of a frame says which geometry it has. -/
theorem displayGeometry_unique {registers' : Registers} (selected : displayGeometry registers = some g)
    (other : displayGeometry registers' = some h) (width : h.width = g.width) (height : h.height = g.height) :
    h = g := by
  have first := displayGeometry_eq selected
  have second := displayGeometry_eq other
  rcases g with ⟨w, t, h40, im2, c⟩
  rcases h with ⟨w', t', h40', im2', c'⟩
  dsimp only at first second width height
  have sameWidth : h40' = h40 := by
    rw [first.1, second.1] at width
    cases h40 <;> cases h40' <;> simp at width ⊢
  have sameHeight : im2' = im2 := by
    rw [first.2.1, second.2.1] at height
    cases im2 <;> cases im2' <;> simp at height ⊢
  subst sameWidth sameHeight
  rw [DisplayGeometry.mk.injEq]
  exact ⟨width, height, rfl, rfl, second.2.2.trans first.2.2.symm⟩

theorem renderPixel_length (ctx : RenderContext) (line : RasterLine) (row : ℕ) (sprites : SpriteRow)
    (state : RowState) (x : ℕ) :
    (renderPixel ctx line row sprites state x).pixels.length = state.pixels.length + 1 := by
  rw [renderPixel]
  dsimp only
  split_ifs
  all_goals exact List.length_append

theorem renderRow_length (ctx : RenderContext) (line : RasterLine) (row : ℕ) :
    (renderRow ctx line row).length = ctx.geometry.width := by
  have along : ∀ (sprites : SpriteRow) (columns : List ℕ) (state : RowState),
      (columns.foldl (renderPixel ctx line row sprites) state).pixels.length =
        state.pixels.length + columns.length := by
    intro sprites columns
    induction columns with
    | nil => intro state; rfl
    | cons x columns ih =>
        intro state
        rw [List.foldl_cons, ih, renderPixel_length, List.length_cons]
        omega
  rw [renderRow, along, List.length_range]
  exact Nat.zero_add _

end Segarecomp.Genesis.FrameRow

import Segarecomp.Genesis.FrameProducer

/-! One pixel of a row on its own: the plane pixel by its coordinates, the attribute list walked
once for all rows, and the first solid sprite of the list within the limits of a line. -/

namespace Segarecomp.Genesis.FrameRow

open Schedule FrameProducer

/-! ## A plane pixel by its coordinates -/

/-- A plane's pixel at any column, with the vertical scroll of a group. -/
def planeCandidateAt (ctx : RenderContext) (plane : RowPlane) (x : ℤ) (group row : ℕ) : CandidatePixel :=
  let vscroll := plane.vscroll (if group < 20 then group else 0)
  let planeX := wrapCoordinate (x - plane.hscroll) plane.widthPx
  let planeY := planeY row vscroll plane.heightPx
  let cellCol := planeX / tileWidth
  let cellRow := planeY / ctx.geometry.cellHeight
  let addr := plane.base + (cellRow * plane.widthCells + cellCol) * 2
  fetchCellPixel ctx (decodeNametableWord (be16 ctx.vram addr)) (planeX % tileWidth)
    (planeY % ctx.geometry.cellHeight)

def nametableCellAddress (registers : Registers) (plane : PlaneSelector) (cellCol cellRow : ℕ) : Option ℕ :=
  match decodePlaneSize registers with
  | none => none
  | some cells =>
      if cells.1 ≤ cellCol ∨ cells.2 ≤ cellRow then none
      else
        let addr := planeBaseAddress registers plane + (cellRow * cells.1 + cellCol) * 2
        if 65536 ≤ addr + 1 then none else some addr

def readNametableEntry (vram : Vram) (registers : Registers) (plane : PlaneSelector) (cellCol cellRow : ℕ) :
    Option NametableEntry :=
  (nametableCellAddress registers plane cellCol cellRow).map fun addr =>
    decodeNametableWord (word (vram (Fin.ofNat 65536 addr)) (vram (Fin.ofNat 65536 (addr + 1))))

structure PlanePixelLocation where
  cellCol : ℕ
  cellRow : ℕ
  tileX : ℕ
  tileY : ℕ
  entry : NametableEntry
  deriving DecidableEq, Repr

def planeX (screenX : ℕ) (hscroll : ℤ) (planeWidthPx : ℕ) : ℕ :=
  wrapCoordinate (screenX - hscroll) planeWidthPx

/-- Where a pixel of the screen lies in a plane; a cell outside VRAM is refused. -/
def resolvePlanePixel (vram : Vram) (vsram : Fin 80 → Byte) (registers : Registers) (plane : PlaneSelector)
    (screenX screenY : ℕ) : Option PlanePixelLocation :=
  match displayGeometry registers, decodePlaneSize registers, readHscroll vram registers plane screenY,
    readVscroll vsram registers plane (screenX / tileWidth) with
  | some geometry, some cells, some hscroll, some vscroll =>
      let planeX := planeX screenX hscroll (cells.1 * tileWidth)
      let planeY := planeY screenY vscroll (cells.2 * geometry.cellHeight)
      let cellCol := planeX / tileWidth
      let cellRow := planeY / geometry.cellHeight
      (readNametableEntry vram registers plane cellCol cellRow).map fun entry =>
        { cellCol, cellRow, tileX := planeX % tileWidth, tileY := planeY % geometry.cellHeight, entry }
  | _, _, _, _ => none

/-! ## The sprite list -/

def satMaxSprites (registers : Registers) : ℕ := if hresIsH40 registers then 80 else 64

def readSpriteEntry (vram : Vram) (registers : Registers) (spriteIndex : ℕ) : Option SpriteEntry :=
  match satBaseAddress registers with
  | none => none
  | some satBase =>
      let addr := satBase + spriteIndex * 8
      if satMaxSprites registers ≤ spriteIndex ∨ 65536 < addr + 8 then none
      else
        some (decodeSpriteEntryEx (fun i => vram (Fin.ofNat 65536 (addr + i))) (interlaceIsMode2 registers))

/-- The loop of `satTraverse`: it ends at a loop, at an entry outside VRAM and at the end of the list. -/
def traverseFrom (vram : Vram) (registers : Registers) : (steps : ℕ) → (current : ℕ) → (visited : List ℕ) → List ℕ
  | 0, _, _ => []
  | steps + 1, current, visited =>
      if current ∈ visited then []
      else
        match readSpriteEntry vram registers current with
        | none => []
        | some entry =>
            current ::
              if entry.link = 0 ∨ satMaxSprites registers ≤ entry.link then []
              else traverseFrom vram registers steps entry.link (current :: visited)

/-- The list from sprite 0 on, which must be readable itself. -/
def satTraverse (vram : Vram) (registers : Registers) : Option (List ℕ) :=
  if (readSpriteEntry vram registers 0).isNone then none
  else some (traverseFrom vram registers (satMaxSprites registers) 0 [])

def spriteCoversPixel (sprite : SpriteEntry) (screenX screenY : ℤ) : Bool :=
  let widthPx : ℤ := sprite.widthCells * tileWidth
  let heightPx : ℤ := sprite.heightCells * sprite.cellHeightPx
  !decide (screenX < sprite.x ∨ sprite.x + widthPx ≤ screenX) &&
    !decide (screenY < sprite.y ∨ sprite.y + heightPx ≤ screenY)

def resolveSpritePixel (sprite : SpriteEntry) (vram : Vram) (screenX screenY : ℤ) : Option ℕ :=
  if spriteCoversPixel sprite screenX screenY then
    let localX := (screenX - sprite.x).toNat
    let localY := (screenY - sprite.y).toNat
    let mirroredX := if sprite.hFlip then sprite.widthCells * tileWidth - 1 - localX else localX
    let mirroredY := if sprite.vFlip then sprite.heightCells * sprite.cellHeightPx - 1 - localY else localY
    some (spritePatternPixel sprite vram mirroredX mirroredY)
  else none

/-! ## The reference -/

def SpriteEntry.CoversRow (sprite : SpriteEntry) (row : ℕ) : Prop :=
  sprite.y ≤ row ∧ (row : ℤ) < sprite.y + sprite.heightCells * sprite.cellHeightPx

instance (sprite : SpriteEntry) (row : ℕ) : Decidable (sprite.CoversRow row) :=
  inferInstanceAs (Decidable (_ ∧ _))

/-- The sprites of the list that cover a row, up to the number a line can show. -/
def lineSprites (vram : Vram) (registers : Registers) (row : ℕ) : List SpriteEntry :=
  ((((satTraverse vram registers).getD []).filterMap (readSpriteEntry vram registers)).filter
    fun sprite => sprite.CoversRow row).take (if hresIsH40 registers then 20 else 16)

/-- Each sprite with the cells the budget of the line leaves it. -/
def withBudget : ℕ → List SpriteEntry → List (SpriteEntry × ℕ)
  | _, [] => []
  | budget, sprite :: rest =>
      (sprite, min sprite.widthCells budget) :: withBudget (budget - min sprite.widthCells budget) rest

/-- The pixel of a sprite at a column, as far as its cells are drawn; 0 is transparent. -/
def spriteIndexAt (vram : Vram) (row : ℕ) (x : ℤ) (drawn : SpriteEntry × ℕ) : ℕ :=
  if x < drawn.1.x + drawn.2 * tileWidth then (resolveSpritePixel drawn.1 vram x row).getD 0 else 0

/-- The first solid pixel of the sprites at a column. -/
def firstSolid (vram : Vram) (row : ℕ) (x : ℤ) : List (SpriteEntry × ℕ) → CandidatePixel
  | [] => {}
  | drawn :: rest =>
      if spriteIndexAt vram row x drawn = 0 then firstSolid vram row x rest
      else
        { solid := true, priority := drawn.1.priority, palette := drawn.1.palette
          index := spriteIndexAt vram row x drawn }

def spriteAt (vram : Vram) (registers : Registers) (row : ℕ) (x : ℤ) : CandidatePixel :=
  firstSolid vram row x
    (withBudget (if hresIsH40 registers then 40 else 32) (lineSprites vram registers row))

/-- The vertical scroll group of a column of the screen. -/
def screenGroup (registers : Registers) (x : ℕ) : ℕ := if vscrollModeIs2cell registers then x / 16 else 0

def planePixel (ctx : RenderContext) (line : RasterLine) (plane : PlaneSelector) (row x : ℕ) : CandidatePixel :=
  planeCandidateAt ctx (prepareRowPlane ctx line plane row) x (screenGroup line.registers x) row

/-- Plane A, or the window where it covers the pixel. -/
def windowedPixel (ctx : RenderContext) (line : RasterLine) (row x : ℕ) : CandidatePixel :=
  if windowCovers line.registers ctx.geometry x row then
    fetchCellPixel ctx (windowEntry ctx line.registers x row) (x % tileWidth) (row % ctx.geometry.cellHeight)
  else planePixel ctx line .a row x

/-- The CRAM index of one pixel, from nothing but its own coordinates. -/
def referencePixel (ctx : RenderContext) (line : RasterLine) (row x : ℕ) : Byte :=
  let backdrop := backdropCramIndex line.registers
  if line.registers 0 &&& 0x20 ≠ 0 ∧ x < tileWidth then BitVec.ofNat 8 backdrop
  else
    BitVec.ofNat 8 (selectCramIndex (windowedPixel ctx line row x) (planePixel ctx line .b row x)
      (spriteAt ctx.vram line.registers row x) backdrop)

/-! ## The scroll planes -/

section Planes

variable {ctx : RenderContext} {plane : RowPlane} {row : ℕ}

theorem wrapCoordinate_eq (value : ℤ) {dimensionPx : ℕ} (positive : 0 < dimensionPx) :
    wrapCoordinate value dimensionPx = (value % dimensionPx).toNat := by
  have size : (0 : ℤ) < dimensionPx := by exact_mod_cast positive
  have low := Int.emod_nonneg value size.ne'
  have high := Int.emod_lt_of_pos value size
  unfold wrapCoordinate
  dsimp only
  rw [Int.tmod_eq_emod]
  split_ifs <;> omega

/-- Stepping from the first column is the same as going to the column at once. -/
theorem wrapCoordinate_add (hscroll : ℤ) (x : ℕ) {dimensionPx : ℕ} (positive : 0 < dimensionPx) :
    (wrapCoordinate (-hscroll) dimensionPx + x) % dimensionPx = wrapCoordinate (x - hscroll) dimensionPx := by
  have size : (0 : ℤ) < dimensionPx := by exact_mod_cast positive
  have low := Int.emod_nonneg (-hscroll) size.ne'
  rw [wrapCoordinate_eq _ positive, wrapCoordinate_eq _ positive]
  apply Int.ofNat.inj
  simp only [Int.ofNat_eq_natCast]
  rw [Int.natCast_mod, Int.natCast_add, Int.toNat_of_nonneg low, Int.emod_add_emod,
    Int.toNat_of_nonneg (Int.emod_nonneg _ size.ne')]
  congr 1
  ring

theorem wrapCoordinate_lt (value : ℤ) {dimensionPx : ℕ} (positive : 0 < dimensionPx) :
    wrapCoordinate value dimensionPx < dimensionPx := by
  have size : (0 : ℤ) < dimensionPx := by exact_mod_cast positive
  have low := Int.emod_nonneg value size.ne'
  have high := Int.emod_lt_of_pos value size
  rw [wrapCoordinate_eq _ positive]
  omega

/-- A cached cell is what fetching it again for its row would give. -/
def Fresh (ctx : RenderContext) (plane : RowPlane) (row : ℕ) (run : PlaneRun) : Prop :=
  run.plane = plane ∧ run.start = wrapCoordinate (-plane.hscroll) plane.widthPx ∧
    ∀ cell ∈ run.cell, cell = fetchPlaneCell ctx plane cell.group cell.cellCol (groupRow ctx plane cell.group row)

theorem fresh_init : Fresh ctx plane row (planeRunInit plane) := ⟨rfl, rfl, by simp [planeRunInit]⟩

variable {run : PlaneRun}

theorem planeRunCell_fresh (fresh : Fresh ctx plane row run) (group cellCol : ℕ) :
    planeRunCell ctx run group cellCol row =
      fetchPlaneCell ctx plane group cellCol (groupRow ctx plane group row) := by
  obtain ⟨rfl, -, cached⟩ := fresh
  rw [planeRunCell]
  cases held : run.cell with
  | none => rfl
  | some cell =>
      have same := cached cell held
      dsimp only
      by_cases other : cell.group ≠ group
      · rw [if_pos other]
      · have group_eq := not_not.mp other
        have place : (cell.cellRow, cell.tileY) = groupRow ctx run.plane group row := by
          rw [same, ← group_eq]
          rfl
        rw [if_neg other]
        by_cases moved : cell.cellCol ≠ cellCol
        · rw [if_pos moved, place]
        · rw [if_neg moved, ← not_not.mp moved, ← group_eq]
          exact same

/-- A pixel of a run is the pixel at its coordinates, and the run stays fresh. -/
theorem planeRunPixel_eq (fresh : Fresh ctx plane row run) (positive : 0 < plane.widthPx) (x : ℕ) :
    (planeRunPixel ctx run x row).1 = planeCandidateAt ctx plane x (if plane.perColumn then x / 16 else 0) row ∧
      Fresh ctx plane row (planeRunPixel ctx run x row).2 := by
  have same := fresh.1
  have start := fresh.2.1
  have place : (run.start + x) % run.plane.widthPx = wrapCoordinate (x - plane.hscroll) plane.widthPx := by
    rw [start, same, wrapCoordinate_add _ _ positive]
  have cell := planeRunCell_fresh fresh (if plane.perColumn then x / 16 else 0)
    (wrapCoordinate (x - plane.hscroll) plane.widthPx / tileWidth)
  rw [planeRunPixel]
  dsimp only
  rw [place, same, cell]
  constructor
  · rfl
  · refine ⟨rfl, start, ?_⟩
    intro held mem
    rw [← Option.some.inj mem]
    rfl

/-- The group of a column is the one its own cell column names. -/
theorem readVscroll_group {vsram : Fin 80 → Byte} {registers : Registers} {selector : PlaneSelector} {x : ℕ}
    {vscroll : ℤ} (read : readVscroll vsram registers selector (x / tileWidth) = some vscroll) :
    screenGroup registers x < 20 ∧ readVscroll vsram registers selector (screenGroup registers x * 2) = some vscroll := by
  have group : (if vscrollModeIs2cell registers then x / tileWidth / 2 else 0) = screenGroup registers x := by
    rw [screenGroup, Nat.div_div_eq_div_mul, tileWidth]
  have again : (if vscrollModeIs2cell registers then screenGroup registers x * 2 / 2 else 0) =
      screenGroup registers x := by
    rw [Nat.mul_div_cancel _ (by decide), screenGroup]
    split_ifs <;> rfl
  unfold readVscroll at read ⊢
  dsimp only at read ⊢
  rw [group] at read
  rw [again]
  refine ⟨?_, read⟩
  by_contra outside
  rw [if_pos (.inl (Nat.not_lt.mp outside))] at read
  cases read

/-- Where the cell is not refused, the resolved location gives the same pixel. -/
theorem planePixel_resolved {line : RasterLine} {selector : PlaneSelector} {x : ℕ}
    {location : PlanePixelLocation} (geometry : displayGeometry line.registers = some ctx.geometry)
    (resolved : resolvePlanePixel ctx.vram line.vsram line.registers selector x row = some location) :
    planePixel ctx line selector row x = fetchCellPixel ctx location.entry location.tileX location.tileY := by
  rw [resolvePlanePixel, geometry] at resolved
  cases size : decodePlaneSize line.registers with
  | none => simp [size] at resolved
  | some cells =>
      cases across : readHscroll ctx.vram line.registers selector row with
      | none => simp [across] at resolved
      | some hscroll =>
          cases down : readVscroll line.vsram line.registers selector (x / tileWidth) with
          | none => simp [down] at resolved
          | some vscroll =>
              rw [size, across, down] at resolved
              dsimp only at resolved
              obtain ⟨entry, found, same⟩ := Option.map_eq_some_iff.mp resolved
              rw [readNametableEntry] at found
              obtain ⟨addr, cell, decoded⟩ := Option.map_eq_some_iff.mp found
              rw [nametableCellAddress, size] at cell
              dsimp only at cell
              split_ifs at cell
              obtain ⟨group, again⟩ := readVscroll_group down
              have vertical : (prepareRowPlane ctx line selector row).vscroll (screenGroup line.registers x) = vscroll := by
                rw [prepareRowPlane]
                dsimp only
                rw [again, Option.getD_some]
              rw [planePixel, planeCandidateAt, if_pos group, vertical]
              simp only [prepareRowPlane, size, across, Option.getD_some]
              rw [← same, ← decoded, ← Option.some.inj cell]
              rfl

/-! ## What an accepted line has -/

theorem displayGeometry_registers {registers : Registers} {geometry : DisplayGeometry}
    (selected : displayGeometry registers = some geometry) :
    geometry.h40 = hresIsH40 registers ∧ geometry.im2 = interlaceIsMode2 registers ∧
      (hresIsH40 registers = true ∨ hresIsH32 registers = true) := by
  rcases displayGeometry_some selected with ⟨mode, wide, laced, -⟩
  refine ⟨wide, laced, ?_⟩
  by_contra none
  exact mode (by simpa using none)

/-- What `validateLine` has checked. -/
structure Accepted (ctx : RenderContext) (line : RasterLine) : Prop where
  geometry : displayGeometry line.registers = some ctx.geometry
  size : ∃ cells, decodePlaneSize line.registers = some cells ∧ 0 < cells.1 ∧ 0 < cells.2
  table : (hscrollTableEntry line.registers 0).isSome

theorem decodePlaneSizeField_pos {field cells : ℕ} (h : decodePlaneSizeField field = some cells) : 0 < cells := by
  unfold decodePlaneSizeField at h
  split at h
  all_goals
    cases h
    try decide

theorem accepted_of_validate {line : RasterLine} (h : validateLine line = some ctx.geometry) : Accepted ctx line := by
  unfold validateLine at h
  split at h
  · cases h
  · next geometry selected =>
      split_ifs at h with size table
      cases h
      refine ⟨selected, ?_, ?_⟩
      · obtain ⟨cells, found⟩ := Option.ne_none_iff_exists'.mp fun missing => size (Option.isNone_iff_eq_none.mpr missing)
        refine ⟨cells, found, ?_⟩
        unfold decodePlaneSize at found
        split at found
        · next width height across down =>
            split_ifs at found
            cases found
            exact ⟨decodePlaneSizeField_pos across, decodePlaneSizeField_pos down⟩
        · cases found
      · cases entry : hscrollTableEntry line.registers 0 with
        | none => simp [entry] at table
        | some _ => rfl

section Lines

variable {line : RasterLine} {selector : PlaneSelector} {x : ℕ}

theorem Accepted.hscroll (accepted : Accepted ctx line) (selector : PlaneSelector) (inside : row < ctx.geometry.height) :
    ∃ hscroll, readHscroll ctx.vram line.registers selector row = some hscroll := by
  have laced := (displayGeometry_registers accepted.geometry).2.1
  have height := (displayGeometry_eq accepted.geometry).2.1
  have field : (if interlaceIsMode2 line.registers then row / 2 else row) < 224 := by
    rw [height, laced] at inside
    split_ifs at inside ⊢ <;> omega
  have entry : ∃ r, hscrollTableEntry line.registers row = some r ∧ r < 224 := by
    have first := accepted.table
    unfold hscrollTableEntry at first ⊢
    dsimp only at first ⊢
    by_cases full : hscrollModeIsFullscreen line.registers = true
    · rw [if_pos full]
      exact ⟨0, rfl, by decide⟩
    · rw [if_neg full] at first ⊢
      by_cases neither : hscrollModeIsLine line.registers = false ∧ hscrollModeIsCell line.registers = false
      · rw [if_pos neither] at first
        cases first
      · rw [if_neg neither, if_neg (Nat.not_le.mpr field)]
        refine ⟨_, rfl, ?_⟩
        split_ifs at field ⊢ <;> omega
  obtain ⟨r, found, small⟩ := entry
  have base : (line.registers 13 &&& 0x3F).toNat ≤ 63 := by
    rw [BitVec.toNat_and]
    exact Nat.and_le_right
  have offset : selector.offset ≤ 2 := by cases selector <;> decide
  have addr : ¬ 65536 ≤ (line.registers 13 &&& 0x3F).toNat <<< 10 + r * 4 + selector.offset + 1 := by
    rw [Nat.shiftLeft_eq]
    omega
  rw [readHscroll, found]
  dsimp only
  rw [if_neg addr]
  exact ⟨_, rfl⟩

/-- The screen has no more columns than the vertical scroll table. -/
theorem Accepted.vscroll (accepted : Accepted ctx line) (selector : PlaneSelector) (column : x < ctx.geometry.width) :
    ∃ vscroll, readVscroll line.vsram line.registers selector (x / tileWidth) = some vscroll := by
  have width : ctx.geometry.width ≤ 320 := by
    rw [(displayGeometry_eq accepted.geometry).1]
    split_ifs <;> omega
  have offset : selector.offset ≤ 2 := by cases selector <;> decide
  have group : (if vscrollModeIs2cell line.registers then x / tileWidth / 2 else 0) < 20 := by
    rw [tileWidth]
    split_ifs <;> omega
  rw [readVscroll, if_neg (by omega)]
  exact ⟨_, rfl⟩

/-- The only refusal on the screen is a cell outside VRAM. -/
theorem Accepted.refused (accepted : Accepted ctx line) (column : x < ctx.geometry.width)
    (inside : row < ctx.geometry.height) :
    resolvePlanePixel ctx.vram line.vsram line.registers selector x row = none ↔
      let plane := prepareRowPlane ctx line selector row
      let cellCol := wrapCoordinate (x - plane.hscroll) plane.widthPx / tileWidth
      let cellRow := planeY row (plane.vscroll (screenGroup line.registers x)) plane.heightPx / ctx.geometry.cellHeight
      65536 ≤ plane.base + (cellRow * plane.widthCells + cellCol) * 2 + 1 := by
  obtain ⟨cells, size, wide, high⟩ := accepted.size
  obtain ⟨hscroll, across⟩ := accepted.hscroll selector inside
  obtain ⟨vscroll, down⟩ := accepted.vscroll selector column
  obtain ⟨-, again⟩ := readVscroll_group down
  have cell : 0 < ctx.geometry.cellHeight := by
    rw [(displayGeometry_eq accepted.geometry).2.2]
    split_ifs <;> omega
  have left : wrapCoordinate (x - hscroll) (cells.1 * tileWidth) / tileWidth < cells.1 :=
    Nat.div_lt_of_lt_mul (by rw [Nat.mul_comm]; exact wrapCoordinate_lt _ (Nat.mul_pos (by decide) wide))
  have top : planeY row vscroll (cells.2 * ctx.geometry.cellHeight) / ctx.geometry.cellHeight < cells.2 :=
    Nat.div_lt_of_lt_mul (by rw [Nat.mul_comm]; exact wrapCoordinate_lt _ (Nat.mul_pos cell high))
  rw [resolvePlanePixel, accepted.geometry, size, across, down]
  simp only [prepareRowPlane, size, across, again, Option.getD_some, Option.map_eq_none_iff, readNametableEntry,
    nametableCellAddress]
  rw [if_neg (by rw [planeX]; omega), ite_eq_left_iff]
  simp only [reduceCtorEq, imp_false, not_not]
  rfl

end Lines

end Planes

/-! ## The sprites of a line -/

section Sprites

variable {ctx : RenderContext} {line : RasterLine} {row : ℕ} {xOrigin : ℤ} {span : ℕ}

theorem Accepted.cellHeight (accepted : Accepted ctx line) :
    ctx.geometry.cellHeight = if interlaceIsMode2 line.registers then 16 else 8 := by
  rw [(displayGeometry_eq accepted.geometry).2.2, (displayGeometry_registers accepted.geometry).2.1]

theorem readSpriteEntry_cellHeight (accepted : Accepted ctx line) {spriteIndex : ℕ} {sprite : SpriteEntry}
    (h : readSpriteEntry ctx.vram line.registers spriteIndex = some sprite) :
    sprite.cellHeightPx = ctx.geometry.cellHeight := by
  unfold readSpriteEntry at h
  split at h
  · cases h
  · dsimp only at h
    split at h
    · cases h
    · cases h
      rw [accepted.cellHeight]
      rfl

/-- The walk of a line selects the sprites of the whole list that cover it, up to the limit. -/
theorem selectSprites_eq (accepted : Accepted ctx line) {satBase : ℕ}
    (base : satBaseAddress line.registers = some satBase) (limit : ℕ) {steps current : ℕ} {visited : List ℕ}
    {selected : List SpriteEntry} (inside : current < satMaxSprites line.registers)
    (room : selected.length ≤ limit) :
    selectSprites ctx satBase (satMaxSprites line.registers) limit row steps current visited selected =
      (selected ++ ((traverseFrom ctx.vram line.registers steps current visited).filterMap
        (readSpriteEntry ctx.vram line.registers)).filter fun sprite => sprite.CoversRow row).take limit := by
  induction steps generalizing current visited selected with
  | zero => simp [selectSprites, traverseFrom, List.take_of_length_le room]
  | succ steps ih =>
      rw [selectSprites, traverseFrom]
      dsimp only
      by_cases seen : current ∈ visited
      · simp [seen, List.take_of_length_le room]
      by_cases outside : 65536 < satBase + current * 8 + 8
      · have none : readSpriteEntry ctx.vram line.registers current = none := by
          rw [readSpriteEntry, base]
          exact if_pos (.inr outside)
        simp [seen, outside, none, List.take_of_length_le room]
      generalize entry_eq : decodeSpriteEntryEx (fun i => ctx.vram (Fin.ofNat 65536 (satBase + current * 8 + i)))
        ctx.geometry.im2 = entry
      have found : readSpriteEntry ctx.vram line.registers current = some entry := by
        rw [readSpriteEntry, base, ← entry_eq, (displayGeometry_registers accepted.geometry).2.1]
        exact if_neg (by omega)
      have covers : (entry.y ≤ row ∧ (row : ℤ) < entry.y + entry.heightCells * ctx.geometry.cellHeight) ↔
          entry.CoversRow row := by
        rw [SpriteEntry.CoversRow, readSpriteEntry_cellHeight accepted found]
      rw [if_neg (by simp [seen, outside]), if_neg seen, found]
      dsimp only
      simp only [covers, decide_eq_true_eq]
      have head : ∀ rest : List ℕ, ((current :: rest).filterMap (readSpriteEntry ctx.vram line.registers)).filter
          (fun sprite => sprite.CoversRow row) =
            (if entry.CoversRow row then [entry] else []) ++
              (rest.filterMap (readSpriteEntry ctx.vram line.registers)).filter fun sprite => sprite.CoversRow row := by
        intro rest
        rw [List.filterMap_cons_some found, List.filter_cons]
        by_cases covered : entry.CoversRow row <;> simp [covered]
      rw [head]
      by_cases full : entry.CoversRow row ∧ selected.length = limit
      · rw [if_pos full, if_pos full.1, ← full.2, List.take_left']
        rfl
      rw [if_neg full]
      have next : (if entry.CoversRow row then selected ++ [entry] else selected).length ≤ limit := by
        split_ifs with covered
        · have other : selected.length ≠ limit := fun same => full ⟨covered, same⟩
          rw [List.length_append, List.length_singleton]
          omega
        · exact room
      have joined : selected ++ (if entry.CoversRow row then [entry] else []) =
          if entry.CoversRow row then selected ++ [entry] else selected := by
        split_ifs <;> simp
      by_cases last : entry.link = 0 ∨ satMaxSprites line.registers ≤ entry.link
      · rw [if_pos last, if_pos last, List.filterMap_nil, List.filter_nil, List.append_nil, joined,
          List.take_of_length_le next]
      · rw [if_neg last, if_neg last, ih (by omega) next, ← joined, List.append_assoc]

theorem lineSprites_eq (accepted : Accepted ctx line) (row : ℕ) {satBase : ℕ}
    (base : satBaseAddress line.registers = some satBase) :
    selectSprites ctx satBase (satMaxSprites line.registers) (if hresIsH40 line.registers then 20 else 16) row
      (satMaxSprites line.registers) 0 [] [] = lineSprites ctx.vram line.registers row := by
  have some : 0 < satMaxSprites line.registers := by
    rw [satMaxSprites]
    split_ifs <;> omega
  rw [selectSprites_eq accepted base _ some (Nat.zero_le _), List.nil_append, lineSprites, satTraverse]
  cases first : readSpriteEntry ctx.vram line.registers 0 with
  | some entry => rfl
  | none =>
      obtain ⟨steps, same⟩ : ∃ steps, satMaxSprites line.registers = steps + 1 := ⟨_, (Nat.succ_pred some.ne').symm⟩
      rw [same, traverseFrom]
      simp [first]

/-- What a sprite draws at a column no earlier sprite has filled. -/
theorem drawSpriteColumns_eq (xOrigin : ℤ) (ctx : RenderContext) (sprite : SpriteEntry) (mirroredY : ℕ) (out : SpriteRow) {i : ℕ}
    (inside : i < span) (drawn : ℕ) :
    let index := spritePatternPixel sprite ctx.vram
      (if sprite.hFlip then sprite.widthCells * tileWidth - 1 - (xOrigin + i - sprite.x).toNat
        else (xOrigin + i - sprite.x).toNat) mirroredY
    (List.range drawn).foldl (drawSpriteColumn ctx sprite mirroredY xOrigin span) out i =
      if (out i).solid = false ∧ sprite.x ≤ xOrigin + i ∧ xOrigin + i < sprite.x + drawn ∧ index ≠ 0 then
        { solid := true, priority := sprite.priority, palette := sprite.palette, index := index }
      else out i := by
  intro index
  induction drawn with
  | zero =>
      rw [if_neg (by omega)]
      rfl
  | succ drawn ih =>
      rw [List.range_succ, List.foldl_append, List.foldl_cons, List.foldl_nil]
      generalize (List.range drawn).foldl (drawSpriteColumn ctx sprite mirroredY xOrigin span) out = before at ih ⊢
      rw [drawSpriteColumn]
      dsimp only
      by_cases here : sprite.x + drawn - xOrigin = i
      · have local_eq : (xOrigin + i - sprite.x).toNat = drawn := by omega
        have fresh : before i = out i := by
          rw [ih, if_neg (by omega)]
        have pattern : spritePatternPixel sprite ctx.vram
            (if sprite.hFlip then sprite.widthCells * tileWidth - 1 - drawn else drawn) mirroredY = index := by
          simp only [index, local_eq]
        have column : (sprite.x + drawn - xOrigin).toNat = i := by omega
        rw [column, fresh, pattern]
        by_cases solid : (out i).solid = true
        · rw [if_pos (.inr (.inr solid)), if_neg (by simp [solid]), fresh]
        · have open_column : ¬(sprite.x + drawn - xOrigin < 0 ∨ (span : ℤ) ≤ sprite.x + drawn - xOrigin ∨
              (out i).solid = true) := by
            simp only [not_or]
            exact ⟨by omega, by omega, solid⟩
          rw [if_neg open_column]
          by_cases clear : index = 0
          · rw [if_pos clear, if_neg (by simp [clear]), fresh]
          · rw [if_neg clear, Function.update_self]
            rw [if_pos ⟨by simpa using solid, by omega, by push_cast; omega, clear⟩]
      · have elsewhere : (xOrigin + i < sprite.x + drawn) ↔ (xOrigin + i < sprite.x + (drawn + 1 : ℕ)) := by
          push_cast
          omega
        simp only [← elsewhere]
        rw [← ih]
        generalize spritePatternPixel sprite ctx.vram
          (if sprite.hFlip then sprite.widthCells * tileWidth - 1 - drawn else drawn) mirroredY = pattern
        split_ifs with outside clear
        · rfl
        · rfl
        · apply Function.update_of_ne
          simp only [not_or] at outside
          omega

theorem spriteIndexAt_eq (vram : Vram) {sprite : SpriteEntry} (covers : sprite.CoversRow row) (x : ℤ) {cells : ℕ}
    (fits : cells ≤ sprite.widthCells) :
    spriteIndexAt vram row x (sprite, cells) =
      if sprite.x ≤ x ∧ x < sprite.x + (cells * tileWidth : ℕ) then
        spritePatternPixel sprite vram
          (if sprite.hFlip then sprite.widthCells * tileWidth - 1 - (x - sprite.x).toNat else (x - sprite.x).toNat)
          (if sprite.vFlip then sprite.heightCells * sprite.cellHeightPx - 1 - ((row : ℤ) - sprite.y).toNat
            else ((row : ℤ) - sprite.y).toNat)
      else 0 := by
  have wide : cells * tileWidth ≤ sprite.widthCells * tileWidth := Nat.mul_le_mul_right _ fits
  rw [spriteIndexAt]
  dsimp only
  by_cases left : x < sprite.x + (cells * tileWidth : ℕ)
  · rw [if_pos (by exact_mod_cast left)]
    by_cases right : sprite.x ≤ x
    · have covered : spriteCoversPixel sprite x row = true := by
        have across : ¬(x < sprite.x ∨ sprite.x + sprite.widthCells * tileWidth ≤ x) := by
          have : (cells * tileWidth : ℕ) ≤ ((sprite.widthCells * tileWidth : ℕ) : ℤ) := by exact_mod_cast wide
          push_cast at this left
          omega
        have down : ¬((row : ℤ) < sprite.y ∨ sprite.y + sprite.heightCells * sprite.cellHeightPx ≤ row) := by
          have covering := covers
          rw [SpriteEntry.CoversRow] at covering
          omega
        rw [spriteCoversPixel, decide_eq_false across, decide_eq_false down]
        rfl
      rw [if_pos ⟨right, left⟩, resolveSpritePixel, if_pos covered, Option.getD_some]
    · have missed : spriteCoversPixel sprite x row = false := by
        rw [spriteCoversPixel, decide_eq_true (.inl (not_le.mp right))]
        rfl
      rw [if_neg (by tauto), resolveSpritePixel, if_neg (by simp [missed]), Option.getD_none]
  · rw [if_neg (by exact_mod_cast left), if_neg (by tauto)]

/-- Drawing the sprites in order leaves at each column the first solid pixel. -/
theorem drawSprites_eq (selected : List SpriteEntry)
    (known : ∀ sprite ∈ selected, sprite.CoversRow row ∧ sprite.cellHeightPx = ctx.geometry.cellHeight)
    {i : ℕ} (inside : i < span) (budget : ℕ) (out : SpriteRow) :
    ((out i).solid = true → (selected.foldl (drawSprite ctx row xOrigin span) (budget, out)).2 i = out i) ∧
      (out i = {} → (selected.foldl (drawSprite ctx row xOrigin span) (budget, out)).2 i =
        firstSolid ctx.vram row (xOrigin + i) (withBudget budget selected)) := by
  induction selected generalizing budget out with
  | nil => exact ⟨fun _ => rfl, id⟩
  | cons sprite rest ih =>
      have later := ih fun other mem => known other (List.mem_cons_of_mem _ mem)
      obtain ⟨covers, height⟩ := known sprite List.mem_cons_self
      rw [List.foldl_cons, withBudget, firstSolid]
      have drawn := spriteIndexAt_eq ctx.vram covers (xOrigin + i) (Nat.min_le_left sprite.widthCells budget)
      by_cases spent : budget = 0
      · have nothing : spriteIndexAt ctx.vram row (xOrigin + i) (sprite, min sprite.widthCells budget) = 0 := by
          rw [drawn, spent, Nat.min_zero, if_neg (by simp)]
        rw [drawSprite, if_pos spent, if_pos nothing, spent, Nat.min_zero, Nat.sub_zero]
        exact later 0 out
      · rw [drawSprite, if_neg spent]
        dsimp only
        have columns := drawSpriteColumns_eq xOrigin ctx sprite
          (if sprite.vFlip then sprite.heightCells * ctx.geometry.cellHeight - 1 - ((row : ℤ) - sprite.y).toNat
            else ((row : ℤ) - sprite.y).toNat) out inside (min sprite.widthCells budget * tileWidth)
        dsimp only at columns
        rw [height] at drawn
        generalize (List.range (min sprite.widthCells budget * tileWidth)).foldl _ out = after at columns ⊢
        obtain ⟨keeps, finds⟩ := later (budget - min sprite.widthCells budget) after
        constructor
        · intro solid
          rw [if_neg (by simp [solid])] at columns
          rw [keeps (by rw [columns]; exact solid), columns]
        · intro empty
          have open_column : (out i).solid = false := by rw [empty]
          by_cases clear : spriteIndexAt ctx.vram row (xOrigin + i) (sprite, min sprite.widthCells budget) = 0
          · have unchanged : after i = out i := by
              rw [columns, if_neg]
              intro filled
              rw [drawn, if_pos ⟨filled.2.1, filled.2.2.1⟩] at clear
              exact filled.2.2.2 clear
            rw [if_pos clear]
            exact finds (unchanged.trans empty)
          · have reached : sprite.x ≤ xOrigin + i ∧
                xOrigin + i < sprite.x + (min sprite.widthCells budget * tileWidth : ℕ) := by
              by_contra missed
              rw [drawn, if_neg missed] at clear
              exact clear rfl
            rw [drawn, if_pos reached] at clear
            rw [if_pos ⟨open_column, reached.1, reached.2, clear⟩] at columns
            rw [drawn, if_pos reached, if_neg clear, keeps (by rw [columns]), columns]

theorem lineSprites_known (accepted : Accepted ctx line) :
    ∀ sprite ∈ lineSprites ctx.vram line.registers row,
      sprite.CoversRow row ∧ sprite.cellHeightPx = ctx.geometry.cellHeight := by
  intro sprite mem
  obtain ⟨listed, covers⟩ := List.mem_filter.mp (List.mem_of_mem_take mem)
  obtain ⟨spriteIndex, -, found⟩ := List.mem_filterMap.mp listed
  exact ⟨of_decide_eq_true covers, readSpriteEntry_cellHeight accepted found⟩

theorem buildSpriteRow_eq (accepted : Accepted ctx line) {i : ℕ} (inside : i < span) :
    buildSpriteRow ctx line row xOrigin span i = spriteAt ctx.vram line.registers row (xOrigin + i) := by
  obtain ⟨wide, -, mode⟩ := displayGeometry_registers accepted.geometry
  have base : ∃ satBase, satBaseAddress line.registers = some satBase := by
    rw [satBaseAddress]
    rcases mode with h40 | h32
    · rw [if_pos h40]
      exact ⟨_, rfl⟩
    · rw [if_pos h32]
      split_ifs
      · exact ⟨_, rfl⟩
      · exact ⟨_, rfl⟩
  obtain ⟨satBase, base⟩ := base
  have list := lineSprites_eq accepted row base
  rw [satMaxSprites] at list
  rw [buildSpriteRow, base, wide]
  dsimp only
  rw [list]
  exact (drawSprites_eq _ (lineSprites_known accepted) inside _ _).2 rfl

end Sprites

/-! ## A row -/

section Row

variable {ctx : RenderContext} {line : RasterLine} {row : ℕ}

/-- Both runs of a row are fresh, whatever columns have been evaluated. -/
structure RowFresh (ctx : RenderContext) (line : RasterLine) (row : ℕ) (state : RowState) : Prop where
  a : Fresh ctx (prepareRowPlane ctx line .a row) row state.runA
  b : Fresh ctx (prepareRowPlane ctx line .b row) row state.runB

theorem Accepted.widthPx (accepted : Accepted ctx line) (selector : PlaneSelector) (row : ℕ) :
    0 < (prepareRowPlane ctx line selector row).widthPx := by
  obtain ⟨cells, size, wide, -⟩ := accepted.size
  rw [prepareRowPlane]
  dsimp only
  rw [size, Option.getD_some]
  exact Nat.mul_pos wide (by decide)

/-- One column: the pixel is its reference whatever came before it. -/
theorem renderPixel_reference (accepted : Accepted ctx line) {sprites : SpriteRow} {state : RowState}
    (fresh : RowFresh ctx line row state) {x : ℕ}
    (sprite : sprites x = spriteAt ctx.vram line.registers row x) :
    (renderPixel ctx line row sprites state x).pixels = state.pixels ++ [referencePixel ctx line row x] ∧
      RowFresh ctx line row (renderPixel ctx line row sprites state x) := by
  have a := planeRunPixel_eq fresh.a (accepted.widthPx .a row) x
  have b := planeRunPixel_eq fresh.b (accepted.widthPx .b row) x
  rw [renderPixel, referencePixel]
  dsimp only
  by_cases blanked : line.registers 0 &&& 0x20 ≠ 0 ∧ x < tileWidth
  · rw [if_pos blanked, if_pos blanked]
    exact ⟨rfl, ⟨fresh.a, fresh.b⟩⟩
  rw [if_neg blanked, if_neg blanked, windowedPixel, sprite]
  by_cases covered : windowCovers line.registers ctx.geometry x row = true
  · rw [if_pos covered, if_pos covered]
    exact ⟨by rw [b.1]; rfl, fresh.a, b.2⟩
  · rw [if_neg covered, if_neg covered]
    exact ⟨by rw [a.1, b.1]; rfl, a.2, b.2⟩

theorem renderPixels_reference (accepted : Accepted ctx line) {sprites : SpriteRow} {columns : List ℕ}
    (drawn : ∀ x ∈ columns, sprites x = spriteAt ctx.vram line.registers row x) {state : RowState}
    (fresh : RowFresh ctx line row state) :
    (columns.foldl (renderPixel ctx line row sprites) state).pixels =
        state.pixels ++ columns.map (referencePixel ctx line row) ∧
      RowFresh ctx line row (columns.foldl (renderPixel ctx line row sprites) state) := by
  induction columns generalizing state with
  | nil => exact ⟨by simp, fresh⟩
  | cons x columns ih =>
      obtain ⟨first, still⟩ := renderPixel_reference accepted fresh (drawn x List.mem_cons_self)
      obtain ⟨rest, kept⟩ := ih (fun other mem => drawn other (List.mem_cons_of_mem _ mem)) still
      rw [List.foldl_cons]
      refine ⟨?_, kept⟩
      rw [rest, first, List.append_assoc, List.map_cons]
      rfl

/-- The state a row starts from. -/
def rowStart (ctx : RenderContext) (line : RasterLine) (row : ℕ) : RowState :=
  { runA := planeRunInit (prepareRowPlane ctx line .a row)
    runB := planeRunInit (prepareRowPlane ctx line .b row) }

theorem composed_reference (accepted : Accepted ctx line) {columns : List ℕ}
    (bounded : ∀ x ∈ columns, x < ctx.geometry.width) :
    (columns.foldl (renderPixel ctx line row (buildSpriteRow ctx line row 0 ctx.geometry.width))
      (rowStart ctx line row)).pixels = columns.map (referencePixel ctx line row) := by
  have sprites : ∀ x ∈ columns, buildSpriteRow ctx line row 0 ctx.geometry.width x =
      spriteAt ctx.vram line.registers row x := by
    intro x mem
    rw [buildSpriteRow_eq accepted (bounded x mem), Int.zero_add]
  exact (renderPixels_reference accepted sprites ⟨fresh_init, fresh_init⟩).1

theorem renderRow_reference (accepted : Accepted ctx line) :
    renderRow ctx line row = (List.range ctx.geometry.width).map (referencePixel ctx line row) :=
  composed_reference accepted fun _ mem => List.mem_range.mp mem

end Row

/-- The composer of an accepted line writes at every column the pixel evaluated alone, after
whatever columns; and a plane pixel is the resolved one unless its cell is outside VRAM. -/
theorem render_row_reference {ctx : RenderContext} {line : RasterLine} {row : ℕ}
    (accepted : validateLine line = some ctx.geometry) (inside : row < ctx.geometry.height) :
    renderRow ctx line row = (List.range ctx.geometry.width).map (referencePixel ctx line row) ∧
      (∀ columns : List ℕ, (∀ x ∈ columns, x < ctx.geometry.width) →
        (columns.foldl (renderPixel ctx line row (buildSpriteRow ctx line row 0 ctx.geometry.width))
          (rowStart ctx line row)).pixels = columns.map (referencePixel ctx line row)) ∧
      ∀ selector, ∀ x < ctx.geometry.width,
        (∀ location, resolvePlanePixel ctx.vram line.vsram line.registers selector x row = some location →
          planePixel ctx line selector row x = fetchCellPixel ctx location.entry location.tileX location.tileY) ∧
        (resolvePlanePixel ctx.vram line.vsram line.registers selector x row = none ↔
          let plane := prepareRowPlane ctx line selector row
          let cellCol := wrapCoordinate (x - plane.hscroll) plane.widthPx / tileWidth
          let cellRow :=
            planeY row (plane.vscroll (screenGroup line.registers x)) plane.heightPx / ctx.geometry.cellHeight
          65536 ≤ plane.base + (cellRow * plane.widthCells + cellCol) * 2 + 1) := by
  have checked := accepted_of_validate accepted
  constructor
  · exact renderRow_reference checked
  constructor
  · exact fun columns => composed_reference checked
  · intro selector x column
    exact ⟨fun location => planePixel_resolved checked.geometry, checked.refused column inside⟩

/-- A line in mode 5 with nothing else set, 32 cells wide. -/
def mode5Line : RasterLine :=
  { registers := fun i => if i.val = 1 then 0x04 else 0
    cram := fun _ => 0
    vsram := fun _ => 0 }

def mode5Context : RenderContext :=
  { vram := fun _ => 0
    geometry := { width := 256, height := 224, h40 := false, im2 := false, cellHeight := 8 } }

theorem render_row_reference_mode5 :
    renderRow mode5Context mode5Line 100 = (List.range 256).map (referencePixel mode5Context mode5Line 100) :=
  (render_row_reference (by decide) (by decide)).1

end Segarecomp.Genesis.FrameRow

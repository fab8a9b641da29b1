import Segarecomp.Genesis.PixelReference

/-! The columns beside the picture: the planes and, on request, the sprites of the same captured lines
over `side` more columns on the left and on the right. A native compatibility provider is left out. -/

namespace Segarecomp.Genesis.FrameExtension

open Schedule FrameRow FrameProducer Lib.Journal

/-! ## Colours -/

structure Rgb888 where
  r : Byte
  g : Byte
  b : Byte
  deriving DecidableEq, Repr

def scale3bitChannel (value : BitVec 16) : Byte := BitVec.ofNat 8 ((value &&& 7).toNat * 255 / 7)

def decodeCramWord (rawWord : BitVec 16) : Rgb888 where
  r := scale3bitChannel (rawWord >>> 1)
  g := scale3bitChannel (rawWord >>> 5)
  b := scale3bitChannel (rawWord >>> 9)

/-- One of the 64 entries of a palette. -/
def cramColor (cram : Palette) (entryIndex : ℕ) : Rgb888 :=
  decodeCramWord (word (cram (Fin.ofNat 128 (entryIndex * 2))) (cram (Fin.ofNat 128 (entryIndex * 2 + 1))))

def decodeCramEntry (cram : Palette) (entryIndex : ℕ) : Option Rgb888 :=
  if 64 ≤ entryIndex then none else some (cramColor cram entryIndex)

/-- An artifact that was never rendered has the legacy size. -/
def artifactWidth (frame : FrameArtifact) : ℕ := if frame.width ≠ 0 then frame.width else 320

def artifactHeight (frame : FrameArtifact) : ℕ := if frame.height ≠ 0 then frame.height else 224

def frameRowPalette (frame : FrameArtifact) (row : ℕ) : Option Palette :=
  let slot := (frame.rowPalette row).toNat
  if artifactHeight frame ≤ row then none
  else if slot = 0 then some frame.paletteSnapshot
  else if 256 ≤ slot ∨ frame.paletteCount ≤ slot then none
  else some (frame.extraPalettes (slot - 1))

/-- One row of a frame in colours. -/
def frameRowRgb888 (frame : FrameArtifact) (row : ℕ) : Option (List Rgb888) :=
  match frameRowPalette frame row with
  | none => none
  | some palette =>
      if 320 < artifactWidth frame ∨ 448 < artifactHeight frame then none
      else
        (List.range (artifactWidth frame)).mapM fun x =>
          decodeCramEntry palette (frame.pixels (row * artifactWidth frame + x)).toNat

/-! ## Requests and results -/

inductive ExtensionReason
  | none | invalidRequest | noPlan | targetTooSmall | nativeGeometry | noRaster | spriteState
  deriving DecidableEq, Repr

inductive ExtensionStatus
  | none | unavailable | partialSurface | available
  deriving DecidableEq, Repr

inductive ExtensionMode
  | none | backgrounds | sprites
  deriving DecidableEq, Repr

/-- What the adapter asks for; `plan` answers the columns per side for a native size. -/
structure ExtensionTarget where
  request : ℕ
  plan : Option (ℕ → ℕ → Option ℕ)
  capacity : ℕ

structure ExtensionFlags where
  windowEdge : Bool := false
  columnVscroll : Bool := false
  noVramJournal : Bool := false
  spritesBestEffort : Bool := false
  deriving DecidableEq, Repr

structure ExtensionResult where
  status : ExtensionStatus
  flags : ExtensionFlags
  mode : ExtensionMode
  spriteReason : ExtensionReason
  spritePixels : ℕ
  nativeW : ℕ
  nativeH : ℕ
  side : ℕ
  pitch : ℕ
  deriving DecidableEq, Repr

/-- The surface, a pixel of three bytes at each place. -/
abbrev Surface := ℕ → Rgb888

/-! ## The columns beside the picture -/

/-- The groups a row shows do not scroll alike. -/
def extVscrollDiffers (plane : RowPlane) (groups : ℕ) : Bool :=
  plane.perColumn && (List.range (min groups 20)).any fun g => decide (plane.vscroll g ≠ plane.vscroll 0)

/-- Every line has a sprite table, at the resolution of the picture. -/
def extSpriteStateOk (lineOf : ℕ → RasterLine) (geometry : DisplayGeometry) (height : ℕ) : Bool :=
  (List.range (if geometry.im2 then (height + 1) / 2 else height)).all fun l =>
    (satBaseAddress (lineOf l).registers).isSome && decide (hresIsH40 (lineOf l).registers = geometry.h40)

/-- Whether the sprite wins over both planes. -/
def extSpriteWins (a b s : CandidatePixel) : Bool :=
  s.solid && (s.priority || !((a.solid && a.priority) || (b.solid && b.priority)))

inductive Edge
  | left | right
  deriving DecidableEq, Repr

def Edge.x (edge : Edge) (width : ℕ) : ℕ :=
  match edge with
  | .left => 0
  | .right => width - 1

def Edge.group (edge : Edge) (groups : ℕ) : ℕ :=
  match edge with
  | .left => 0
  | .right => if groups ≠ 0 then groups - 1 else 0

/-- The column of the screen that is the `i`th beside an edge. -/
def Edge.column (edge : Edge) (width side i : ℕ) : ℤ :=
  match edge with
  | .left => i - side
  | .right => width + i

/-- Its place in a row of the surface. -/
def Edge.place (edge : Edge) (width side i : ℕ) : ℕ :=
  match edge with
  | .left => i
  | .right => side + width + i

/-- The planes of a row, its sprites over the whole surface, and what the window owns. -/
structure ExtensionRow where
  ctx : RenderContext
  line : RasterLine
  row : ℕ
  side : ℕ
  planeA : RowPlane
  planeB : RowPlane
  sprites : SpriteRow

def prepareExtensionRow (ctx : RenderContext) (line : RasterLine) (row side : ℕ) (sprites : Bool) : ExtensionRow where
  ctx := ctx
  line := line
  row := row
  side := side
  planeA := prepareRowPlane ctx line .a row
  planeB := prepareRowPlane ctx line .b row
  sprites := if sprites then buildSpriteRow ctx line row (-side) (ctx.geometry.width + 2 * side) else fun _ => {}

def ExtensionRow.groups (r : ExtensionRow) : ℕ := r.ctx.geometry.width / 16

def ExtensionRow.windowEdge (r : ExtensionRow) (edge : Edge) : Bool :=
  windowCovers r.line.registers r.ctx.geometry (edge.x r.ctx.geometry.width) r.row

/-- A plane beside the picture, with the scroll group of the edge. -/
def ExtensionRow.candidate (r : ExtensionRow) (plane : RowPlane) (edge : Edge) (i : ℕ) : CandidatePixel :=
  planeCandidateAt r.ctx plane (edge.column r.ctx.geometry.width r.side i)
    (if plane.perColumn then edge.group r.groups else 0) r.row

/-- The window does not exist beside the picture: where it owns the edge, plane A is left out. -/
def ExtensionRow.candidateA (r : ExtensionRow) (edge : Edge) (i : ℕ) : CandidatePixel :=
  if r.windowEdge edge then {} else r.candidate r.planeA edge i

def ExtensionRow.candidateB (r : ExtensionRow) (edge : Edge) (i : ℕ) : CandidatePixel := r.candidate r.planeB edge i

def ExtensionRow.sprite (r : ExtensionRow) (edge : Edge) (i : ℕ) : CandidatePixel :=
  r.sprites (edge.place r.ctx.geometry.width r.side i)

def ExtensionRow.index (r : ExtensionRow) (edge : Edge) (i : ℕ) : ℕ :=
  selectCramIndex (r.candidateA edge i) (r.candidateB edge i) (r.sprite edge i) (backdropCramIndex r.line.registers)

/-- The planes and the backdrop alone. -/
def ExtensionRow.background (r : ExtensionRow) (edge : Edge) (i : ℕ) : ℕ :=
  selectCramIndex (r.candidateA edge i) (r.candidateB edge i) {} (backdropCramIndex r.line.registers)

def ExtensionRow.columns (r : ExtensionRow) (edge : Edge) : Option (List Rgb888) :=
  (List.range r.side).mapM fun i => decodeCramEntry r.line.cram (r.index edge i)

def ExtensionRow.spriteWins (r : ExtensionRow) (edge : Edge) : ℕ :=
  ((List.range r.side).filter fun i =>
    extSpriteWins (r.candidateA edge i) (r.candidateB edge i) (r.sprite edge i)).length

/-! ## The rows -/

structure ExtensionState where
  reader : ℕ × Vram
  surface : Surface
  windowEdge : Bool := false
  columnVscroll : Bool := false
  spritePixels : ℕ := 0

def writeRow (surface : Surface) (base : ℕ) (row : List Rgb888) : Surface :=
  fun i => if base ≤ i ∧ i < base + row.length then row.getD (i - base) ⟨0, 0, 0⟩ else surface i

/-- What the extension of a frame does not change from row to row. -/
structure Extension where
  source : Source
  geometry : DisplayGeometry
  native : FrameArtifact
  side : ℕ
  sprites : Bool

def Extension.pitch (e : Extension) : ℕ := e.geometry.width + 2 * e.side

def Extension.reader (e : Extension) (reader : ℕ × Vram) (row : ℕ) : ℕ × Vram :=
  catchUp storeVram stampOf e.source.writes (fieldLine e.geometry row) e.source.writes.length reader

def Extension.prepare (e : Extension) (vram : Vram) (row : ℕ) : ExtensionRow :=
  prepareExtensionRow { vram := vram, geometry := e.geometry } (e.source.lineOf (fieldLine e.geometry row)) row e.side
    e.sprites

/-- One row: the left columns, the native row, and the right columns. -/
def Extension.next (e : Extension) (state : ExtensionState) (row : ℕ) : Option ExtensionState :=
  let reader := e.reader state.reader row
  let r := e.prepare reader.2 row
  match frameRowRgb888 e.native row, r.columns .left, r.columns .right with
  | some centre, some left, some right =>
      some
        { reader := reader
          surface := writeRow state.surface (row * e.pitch) (left ++ centre ++ right)
          windowEdge := state.windowEdge || r.windowEdge .left || r.windowEdge .right
          columnVscroll := state.columnVscroll || extVscrollDiffers r.planeA r.groups || extVscrollDiffers r.planeB r.groups
          spritePixels := state.spritePixels + r.spriteWins .left + r.spriteWins .right }
  | _, _, _ => none

def Extension.rows (e : Extension) (surface : Surface) : Option ExtensionState :=
  (List.range e.geometry.height).foldlM e.next { reader := (0, e.source.start), surface := surface }

def Extension.result (e : Extension) (target : ExtensionTarget) (journaled : Bool) (state : ExtensionState) :
    ExtensionResult :=
  let flags : ExtensionFlags :=
    { windowEdge := state.windowEdge, columnVscroll := state.columnVscroll, noVramJournal := !journaled
      spritesBestEffort := e.sprites }
  { status := if flags = {} then .available else .partialSurface
    flags := flags
    mode := if e.sprites then .sprites else .backgrounds
    spriteReason := if 2 ≤ target.request ∧ e.sprites = false then .spriteState else .none
    spritePixels := state.spritePixels
    nativeW := e.geometry.width
    nativeH := e.geometry.height
    side := e.side
    pitch := e.pitch * 3 }

/-- The extension of a frame, or why there is none. -/
def produceExtension (vram : Vram) (raster : RasterFrameState) (native : FrameArtifact) (target : ExtensionTarget)
    (surface : Surface) : Except ExtensionReason (ExtensionResult × Surface) :=
  let source := rasterSource vram raster
  match displayGeometry (source.lineOf 0).registers with
  | none => .error .nativeGeometry
  | some geometry =>
      if geometry.width ≠ artifactWidth native ∨ geometry.height ≠ artifactHeight native then .error .nativeGeometry
      else
        match target.plan.bind fun plan => plan geometry.width geometry.height with
        | none => .error .noPlan
        | some side =>
            if side = 0 then .error .noPlan
            else if 256 < side then .error .invalidRequest
            else if target.capacity < (geometry.width + 2 * side) * 3 * geometry.height then .error .targetTooSmall
            else
              let e : Extension :=
                { source := source, geometry := geometry, native := native, side := side
                  sprites := decide (2 ≤ target.request) && extSpriteStateOk source.lineOf geometry geometry.height }
              match e.rows surface with
              | none => .error .nativeGeometry
              | some state => .ok (e.result target (RasterFrameState.journaled raster) state, state.surface)

/-! ## Indices are entries of the palette -/

/-- A candidate whose index in CRAM is one of the 64 entries. -/
def Entry (c : CandidatePixel) : Prop := c.palette < 4 ∧ c.index < 16

theorem nibble_lt (value : Byte) (x : ℕ) : nibble value x < 16 := by
  have high : (value >>> 4).toNat < 16 := by
    rw [BitVec.toNat_ushiftRight, Nat.shiftRight_eq_div_pow]
    exact Nat.div_lt_of_lt_mul value.isLt
  have low : (value &&& 0x0F).toNat ≤ 15 := by
    rw [BitVec.toNat_and]
    exact Nat.and_le_right
  rw [nibble]
  split_ifs
  · exact high
  · omega

theorem entry_clear : Entry {} := ⟨by decide, by decide⟩

theorem entry_fetchCellPixel (ctx : RenderContext) (rawWord : BitVec 16) (tileX tileY : ℕ) :
    Entry (fetchCellPixel ctx (decodeNametableWord rawWord) tileX tileY) := by
  have palette : ((rawWord >>> 13) &&& 3).toNat ≤ 3 := by
    rw [BitVec.toNat_and]
    exact Nat.and_le_right
  exact ⟨Nat.lt_succ_of_le palette, nibble_lt _ _⟩

theorem entry_planeCandidateAt (ctx : RenderContext) (plane : RowPlane) (x : ℤ) (group row : ℕ) :
    Entry (planeCandidateAt ctx plane x group row) :=
  entry_fetchCellPixel ctx _ _ _

theorem palette_readSpriteEntry {vram : Vram} {registers : Registers} {spriteIndex : ℕ} {sprite : SpriteEntry}
    (h : readSpriteEntry vram registers spriteIndex = some sprite) : sprite.palette < 4 := by
  unfold readSpriteEntry at h
  split at h
  · cases h
  · dsimp only at h
    split at h
    · cases h
    · cases h
      refine Nat.lt_succ_of_le ?_
      rw [decodeSpriteEntryEx, BitVec.toNat_and]
      exact Nat.and_le_right

theorem spriteIndexAt_lt (vram : Vram) (row : ℕ) (x : ℤ) (drawn : SpriteEntry × ℕ) :
    spriteIndexAt vram row x drawn < 16 := by
  rw [spriteIndexAt]
  by_cases inside : x < drawn.1.x + drawn.2 * tileWidth
  · rw [if_pos inside, resolveSpritePixel]
    by_cases covers : spriteCoversPixel drawn.1 x row = true
    · rw [if_pos covers]
      exact nibble_lt _ _
    · rw [if_neg covers]
      decide
  · rw [if_neg inside]
    decide

theorem mem_withBudget {selected : List SpriteEntry} {budget : ℕ} {drawn : SpriteEntry × ℕ}
    (mem : drawn ∈ withBudget budget selected) : drawn.1 ∈ selected := by
  induction selected generalizing budget with
  | nil => cases mem
  | cons sprite rest ih =>
      rcases List.mem_cons.mp mem with rfl | later
      · exact List.mem_cons_self
      · exact List.mem_cons_of_mem _ (ih later)

theorem entry_firstSolid {vram : Vram} {row : ℕ} {x : ℤ} {drawn : List (SpriteEntry × ℕ)}
    (palettes : ∀ d ∈ drawn, d.1.palette < 4) : Entry (firstSolid vram row x drawn) := by
  induction drawn with
  | nil => exact entry_clear
  | cons d rest ih =>
      rw [firstSolid]
      split_ifs
      · exact ih fun other mem => palettes other (List.mem_cons_of_mem _ mem)
      · exact ⟨palettes d List.mem_cons_self, spriteIndexAt_lt vram row x d⟩

theorem entry_spriteAt (vram : Vram) (registers : Registers) (row : ℕ) (x : ℤ) :
    Entry (spriteAt vram registers row x) := by
  apply entry_firstSolid
  intro d mem
  rcases List.mem_filter.mp (List.mem_of_mem_take (mem_withBudget mem)) with ⟨listed, -⟩
  rcases List.mem_filterMap.mp listed with ⟨spriteIndex, -, found⟩
  exact palette_readSpriteEntry found

theorem selectCramIndex_lt {a b s : CandidatePixel} (planeA : Entry a) (planeB : Entry b) (sprite : Entry s)
    (registers : Registers) : selectCramIndex a b s (backdropCramIndex registers) < 64 := by
  have cell : ∀ {c : CandidatePixel}, Entry c → cramIndex c.palette c.index < 64 := by
    intro c entry
    rw [cramIndex]
    have palette := entry.1
    have index := entry.2
    omega
  have backdrop : backdropCramIndex registers ≤ 63 := by
    rw [backdropCramIndex, BitVec.toNat_and]
    exact Nat.and_le_right
  rw [selectCramIndex]
  split_ifs
  · exact cell sprite
  · exact cell planeA
  · exact cell planeB
  · exact cell sprite
  · exact cell planeA
  · exact cell planeB
  · omega

/-- Every pixel of the picture is an entry of its palette. -/
theorem referencePixel_lt (ctx : RenderContext) (line : RasterLine) (row x : ℕ) :
    (referencePixel ctx line row x).toNat < 64 := by
  have windowed : Entry (windowedPixel ctx line row x) := by
    rw [windowedPixel]
    split_ifs
    · exact entry_fetchCellPixel ctx _ _ _
    · exact entry_planeCandidateAt ctx _ _ _ _
  have picked := selectCramIndex_lt windowed (entry_planeCandidateAt ctx (prepareRowPlane ctx line .b row) x
    (screenGroup line.registers x) row) (entry_spriteAt ctx.vram line.registers row x) line.registers
  have backdrop : backdropCramIndex line.registers ≤ 63 := by
    rw [backdropCramIndex, BitVec.toNat_and]
    exact Nat.and_le_right
  rw [referencePixel]
  split_ifs
  · rw [BitVec.toNat_ofNat]
    exact (Nat.mod_le _ _).trans_lt (by omega)
  · rw [BitVec.toNat_ofNat]
    exact (Nat.mod_le _ _).trans_lt picked

theorem decodeCramEntry_lt {cram : Palette} {entryIndex : ℕ} (inside : entryIndex < 64) :
    decodeCramEntry cram entryIndex = some (cramColor cram entryIndex) :=
  if_neg (Nat.not_le.mpr inside)

theorem mapM_some {α β : Type} {f : α → Option β} {g : α → β} {l : List α} (all : ∀ a ∈ l, f a = some (g a)) :
    l.mapM f = some (l.map g) := by
  induction l with
  | nil => rfl
  | cons a l ih =>
      rw [List.mapM_cons, all a List.mem_cons_self, ih fun other mem => all other (List.mem_cons_of_mem _ mem)]
      rfl

/-! ## A plane scrolled by as much as the column -/

/-- A plane with its horizontal scroll increased. -/
def scrolled (plane : RowPlane) (d : ℤ) : RowPlane := { plane with hscroll := plane.hscroll + d }

/-- The composer of a row over planes and sprites of its own; `renderRow` takes those of its line. -/
def composeRow (ctx : RenderContext) (line : RasterLine) (row : ℕ) (planeA planeB : RowPlane) (sprites : SpriteRow) :
    List Byte :=
  ((List.range ctx.geometry.width).foldl (renderPixel ctx line row sprites)
    { runA := planeRunInit planeA, runB := planeRunInit planeB }).pixels

/-- The line with the window off and the left column shown. -/
def plainLine (line : RasterLine) : RasterLine :=
  { line with
    registers := fun i =>
      if i.val = 0 then line.registers i &&& ~~~0x20
      else if i.val = 17 ∨ i.val = 18 then 0
      else line.registers i }

section Background

variable {ctx : RenderContext} {line : RasterLine} {row : ℕ} {planeA planeB : RowPlane}

theorem planeCandidateAt_scrolled (ctx : RenderContext) (plane : RowPlane) (x d : ℤ) (group row : ℕ) :
    planeCandidateAt ctx (scrolled plane d) (x + d) group row = planeCandidateAt ctx plane x group row := by
  have same : x + d - (scrolled plane d).hscroll = x - plane.hscroll := by
    rw [scrolled]
    ring
  rw [planeCandidateAt, planeCandidateAt, same]
  rfl

theorem planeCandidateAt_group {plane : RowPlane} {group other : ℕ} (x : ℤ)
    (same : plane.vscroll (if group < 20 then group else 0) = plane.vscroll (if other < 20 then other else 0)) :
    planeCandidateAt ctx plane x group row = planeCandidateAt ctx plane x other row := by
  rw [planeCandidateAt, planeCandidateAt, same]

theorem vscroll_of_agree {plane : RowPlane} {groups g : ℕ} (agree : extVscrollDiffers plane groups = false)
    (perColumn : plane.perColumn = true) (inside : g < groups) :
    plane.vscroll (if g < 20 then g else 0) = plane.vscroll 0 := by
  rw [extVscrollDiffers, perColumn, Bool.true_and] at agree
  split_ifs with small
  · have none := List.any_eq_false.mp agree g (List.mem_range.mpr (lt_min inside small))
    simpa using none
  · rfl

theorem plainLine_open (line : RasterLine) : ¬((plainLine line).registers 0 &&& 0x20 ≠ 0) := by
  have cleared : (plainLine line).registers 0 = line.registers 0 &&& ~~~0x20 := rfl
  rw [not_not, cleared, BitVec.and_assoc]
  have bit : (~~~0x20 &&& 0x20 : BitVec 16) = 0 := by decide
  rw [bit]
  exact BitVec.and_zero

theorem windowCovers_plain (line : RasterLine) (geometry : DisplayGeometry) (x row : ℕ) :
    windowCovers (plainLine line).registers geometry x row = false := by
  have across : (plainLine line).registers 17 = 0 := rfl
  have down : (plainLine line).registers 18 = 0 := rfl
  rw [windowCovers, across, down]
  simp

/-- One column of the composer without window, sprites and blanking. -/
theorem renderPixel_plain (line : RasterLine) {state : RowState} (a : Fresh ctx planeA row state.runA) (b : Fresh ctx planeB row state.runB)
    (wideA : 0 < planeA.widthPx) (wideB : 0 < planeB.widthPx) (x : ℕ) :
    (renderPixel ctx (plainLine line) row (fun _ => {}) state x).pixels = state.pixels ++
        [BitVec.ofNat 8 (selectCramIndex
          (planeCandidateAt ctx planeA x (if planeA.perColumn then x / 16 else 0) row)
          (planeCandidateAt ctx planeB x (if planeB.perColumn then x / 16 else 0) row) {}
          (backdropCramIndex line.registers))] ∧
      Fresh ctx planeA row (renderPixel ctx (plainLine line) row (fun _ => {}) state x).runA ∧
      Fresh ctx planeB row (renderPixel ctx (plainLine line) row (fun _ => {}) state x).runB := by
  have shown := planeRunPixel_eq a wideA x
  have behind := planeRunPixel_eq b wideB x
  have backdrop : backdropCramIndex (plainLine line).registers = backdropCramIndex line.registers := rfl
  rw [renderPixel]
  dsimp only
  rw [if_neg fun blanked => plainLine_open line blanked.1, windowCovers_plain, if_neg Bool.false_ne_true, backdrop,
    ← shown.1, ← behind.1]
  exact ⟨rfl, shown.2, behind.2⟩

theorem renderPixels_plain {columns : List ℕ} {state : RowState} (a : Fresh ctx planeA row state.runA)
    (b : Fresh ctx planeB row state.runB) (wideA : 0 < planeA.widthPx) (wideB : 0 < planeB.widthPx) :
    (columns.foldl (renderPixel ctx (plainLine line) row (fun _ => {})) state).pixels = state.pixels ++
      columns.map fun x : ℕ => BitVec.ofNat 8 (selectCramIndex
        (planeCandidateAt ctx planeA x (if planeA.perColumn then x / 16 else 0) row)
        (planeCandidateAt ctx planeB x (if planeB.perColumn then x / 16 else 0) row) {}
        (backdropCramIndex line.registers)) := by
  induction columns generalizing state with
  | nil => simp
  | cons x columns ih =>
      rcases renderPixel_plain line a b wideA wideB x with ⟨first, a', b'⟩
      rw [List.foldl_cons, ih a' b', first, List.append_assoc, List.map_cons]
      rfl

/-- A plane beside an edge is the plane in the picture, scrolled by as much. -/
theorem candidate_scrolled {plane : RowPlane} {groups : ℕ} (agree : extVscrollDiffers plane groups = false)
    {group x : ℕ} (groupInside : group < groups) (inside : x / 16 < groups) {column d : ℤ} (moved : column + d = x) :
    planeCandidateAt ctx (scrolled plane d) x (if (scrolled plane d).perColumn then x / 16 else 0) row =
      planeCandidateAt ctx plane column (if plane.perColumn then group else 0) row := by
  have perColumn : (scrolled plane d).perColumn = plane.perColumn := rfl
  rw [← moved, planeCandidateAt_scrolled, perColumn]
  rcases Bool.eq_false_or_eq_true plane.perColumn with each | whole
  · rw [if_pos each, if_pos each]
    apply planeCandidateAt_group
    rw [vscroll_of_agree agree each groupInside, vscroll_of_agree agree each inside]
  · rw [if_neg (by simp [whole]), if_neg (by simp [whole])]

/-- The background beside an edge is what the composer shows in the picture, scrolled by as much. -/
theorem background_scrolled (accepted : Accepted ctx line) (side : ℕ) (sprites : Bool) (edge : Edge) (i : ℕ)
    (uncovered : (prepareExtensionRow ctx line row side sprites).windowEdge edge = false)
    (agreeA : extVscrollDiffers (prepareRowPlane ctx line .a row) (ctx.geometry.width / 16) = false)
    (agreeB : extVscrollDiffers (prepareRowPlane ctx line .b row) (ctx.geometry.width / 16) = false)
    (d : ℤ) {x : ℕ} (inside : x < ctx.geometry.width) (moved : edge.column ctx.geometry.width side i + d = x) :
    (composeRow ctx (plainLine line) row (scrolled (prepareRowPlane ctx line .a row) d)
      (scrolled (prepareRowPlane ctx line .b row) d) (fun _ => {}))[x]? =
        some (BitVec.ofNat 8 ((prepareExtensionRow ctx line row side sprites).background edge i)) := by
  have width : ctx.geometry.width = 320 ∨ ctx.geometry.width = 256 := by
    rw [(displayGeometry_eq accepted.geometry).1]
    split_ifs <;> simp
  have group : edge.group (ctx.geometry.width / 16) < ctx.geometry.width / 16 := by
    cases edge with
    | left =>
        rw [Edge.group]
        omega
    | right =>
        rw [Edge.group]
        split_ifs <;> omega
  have column : x / 16 < ctx.geometry.width / 16 := by omega
  have fresh : ∀ selector, Fresh ctx (scrolled (prepareRowPlane ctx line selector row) d) row
      (planeRunInit (scrolled (prepareRowPlane ctx line selector row) d)) := fun _ => fresh_init
  have wide : ∀ selector, 0 < (scrolled (prepareRowPlane ctx line selector row) d).widthPx :=
    fun selector => accepted.widthPx selector row
  rw [composeRow, renderPixels_plain (fresh .a) (fresh .b) (wide .a) (wide .b),
    List.nil_append, List.getElem?_map, List.getElem?_range inside, Option.map_some,
    candidate_scrolled agreeA group column moved, candidate_scrolled agreeB group column moved]
  rw [ExtensionRow.background, ExtensionRow.candidateA, uncovered, if_neg Bool.false_ne_true]
  rfl

end Background

/-! ## The native rows -/

section Native

variable {source : Source} {geometry : DisplayGeometry} {frame : FrameArtifact} {row : ℕ}

theorem frameRowPalette_some (inside : row < artifactHeight frame)
    (slot : (frame.rowPalette row).toNat < frame.paletteCount) :
    frameRowPalette frame row = some (frame.frameRowPalette row) := by
  rw [frameRowPalette, FrameArtifact.frameRowPalette, Palettes.slot, if_neg (Nat.not_le.mpr inside)]
  by_cases first : (frame.rowPalette row).toNat = 0
  · rw [if_pos first, if_pos first]
  · have byte := (frame.rowPalette row).isLt
    rw [if_neg first, if_neg first, if_neg (by omega)]

def rowContext (source : Source) (geometry : DisplayGeometry) (row : ℕ) : RenderContext :=
  { vram := source.vramAt (fieldLine geometry row), geometry := geometry }

def rowLine (source : Source) (geometry : DisplayGeometry) (row : ℕ) : RasterLine :=
  source.lineOf (fieldLine geometry row)

/-- The colours of a native row. -/
def nativeColours (source : Source) (geometry : DisplayGeometry) (row : ℕ) : List Rgb888 :=
  (List.range geometry.width).map fun x =>
    cramColor (rowLine source geometry row).cram
      (referencePixel (rowContext source geometry row) (rowLine source geometry row) row x).toNat

/-- A source of 224 lines of one geometry. -/
structure Uniform (source : Source) (geometry : DisplayGeometry) : Prop where
  count : source.lineCount = 224
  valid : ∀ i < 224, validateLine (source.lineOf i) = some geometry

theorem Uniform.line (uniform : Uniform source geometry) (inside : row < geometry.height) :
    validateLine (rowLine source geometry row) = some geometry :=
  uniform.valid _ (fieldLine_lt (uniform.valid 0 (by decide)) inside)

theorem Uniform.accepted (uniform : Uniform source geometry) (inside : row < geometry.height) :
    Accepted (rowContext source geometry row) (rowLine source geometry row) :=
  accepted_of_validate (uniform.line inside)

theorem Uniform.size (uniform : Uniform source geometry) :
    (geometry.width = 320 ∨ geometry.width = 256) ∧ (geometry.height = 448 ∨ geometry.height = 224) := by
  have selected := displayGeometry_eq (validateLine_geometry (uniform.valid 0 (by decide)))
  rw [selected.1, selected.2.1]
  constructor <;> split_ifs <;> simp

theorem frameRowRgb888_frame (uniform : Uniform source geometry) (inside : row < geometry.height) :
    frameRowRgb888 (source.frame geometry) row = some (nativeColours source geometry row) := by
  have size := uniform.size
  have pictures : Pictures source geometry (source.frame geometry) :=
    frame_pictures (.inl uniform.count) (uniform.valid 0 (by decide))
  have width : artifactWidth (source.frame geometry) = geometry.width :=
    if_pos (show geometry.width ≠ 0 by omega)
  have height : artifactHeight (source.frame geometry) = geometry.height :=
    if_pos (show geometry.height ≠ 0 by omega)
  have slot : ((source.frame geometry).rowPalette row).toNat < (source.frame geometry).paletteCount := by
    have slotted : Slotted source.lineOf source.lineCount source.slots := slots_slotted _ _
    have line := fieldLine_lt (uniform.valid 0 (by decide)) inside
    have held : (source.frame geometry).rowPalette row = _ :=
      (rows_rendered source geometry source.slots geometry.height).palette row inside
    have count := uniform.count
    rw [held, if_neg (by omega), BitVec.toNat_ofNat]
    exact (Nat.mod_le _ _).trans_lt (slotted.bound _ (by omega))
  rw [frameRowRgb888, frameRowPalette_some (by rw [height]; exact inside) slot, pictures.palette row inside, width, height]
  dsimp only
  rw [if_neg (by omega)]
  apply mapM_some
  intro x mem
  have column := List.mem_range.mp mem
  have pixel : (source.frame geometry).pixels (row * geometry.width + x) =
      referencePixel (rowContext source geometry row) (rowLine source geometry row) row x := by
    have shown := pictures.pixel row inside x column
    rw [Source.row] at shown
    have reference : renderRow (rowContext source geometry row) (rowLine source geometry row) row = _ :=
      renderRow_reference (uniform.accepted inside)
    rw [rowContext, rowLine] at reference
    rw [reference, List.getD_eq_getElem?_getD, List.getElem?_map, List.getElem?_range column] at shown
    exact shown
  rw [pixel]
  exact decodeCramEntry_lt (referencePixel_lt _ _ _ _)

end Native

/-! ## The rows of the surface -/

/-- A row beside the picture, with VRAM as the native row has it. -/
def Extension.row (e : Extension) (row : ℕ) : ExtensionRow :=
  prepareExtensionRow (rowContext e.source e.geometry row) (rowLine e.source e.geometry row) row e.side e.sprites

def Extension.columns (e : Extension) (row : ℕ) (edge : Edge) : List Rgb888 :=
  (List.range e.side).map fun i => cramColor (rowLine e.source e.geometry row).cram ((e.row row).index edge i)

def Extension.colours (e : Extension) (row : ℕ) : List Rgb888 :=
  e.columns row .left ++ nativeColours e.source e.geometry row ++ e.columns row .right

section Rows

variable {e : Extension} {row : ℕ}

theorem colours_length : (e.colours row).length = e.pitch := by
  simp only [Extension.colours, Extension.columns, nativeColours, List.length_append, List.length_map,
    List.length_range, Extension.pitch]
  omega

/-- The first `n` rows are written, and the reader has not passed a later row's line. -/
structure Extended (e : Extension) (n : ℕ) (state : ExtensionState) : Prop where
  reader : ∃ i, state.reader = (i, (e.source.writes.take i).foldl storeVram e.source.start) ∧
    ∀ row, n ≤ row → i ≤ reach stampOf e.source.writes (fieldLine e.geometry row)
  written : ∀ row < n, ∀ x < e.pitch, state.surface (row * e.pitch + x) = (e.colours row).getD x ⟨0, 0, 0⟩

theorem writeRow_inside {surface : Surface} {base x : ℕ} {row : List Rgb888} (inside : x < row.length) :
    writeRow surface base row (base + x) = row.getD x ⟨0, 0, 0⟩ := by
  have within : base ≤ base + x ∧ base + x < base + row.length := ⟨Nat.le_add_right _ _, by omega⟩
  rw [writeRow, if_pos within, Nat.add_sub_cancel_left]

theorem writeRow_before {surface : Surface} {base i : ℕ} {row : List Rgb888} (before : i < base) :
    writeRow surface base row i = surface i :=
  if_neg fun within => Nat.not_le_of_lt before within.1

theorem columns_some (accepted : Accepted (rowContext e.source e.geometry row) (rowLine e.source e.geometry row))
    (edge : Edge) : (e.row row).columns edge = some (e.columns row edge) := by
  apply mapM_some
  intro i mem
  have column : i < e.side := List.mem_range.mp mem
  have a : Entry ((e.row row).candidateA edge i) := by
    rw [ExtensionRow.candidateA]
    split_ifs
    · exact entry_clear
    · exact entry_planeCandidateAt _ _ _ _ _
  have s : Entry ((e.row row).sprite edge i) := by
    have place : edge.place e.geometry.width e.side i < e.geometry.width + 2 * e.side := by
      cases edge with
      | left =>
          rw [Edge.place]
          omega
      | right =>
          rw [Edge.place]
          omega
    rw [ExtensionRow.sprite, Extension.row, prepareExtensionRow]
    dsimp only
    split_ifs
    · have drawn : buildSpriteRow (rowContext e.source e.geometry row) (rowLine e.source e.geometry row) row (-e.side)
          (e.geometry.width + 2 * e.side) (edge.place e.geometry.width e.side i) = _ :=
        buildSpriteRow_eq accepted place
      rw [rowContext] at drawn ⊢
      rw [drawn]
      exact entry_spriteAt _ _ _ _
    · exact entry_clear
  exact decodeCramEntry_lt (selectCramIndex_lt a (entry_planeCandidateAt _ _ _ _ _) s _)

/-- One row: the reader catches up to its line, and the row is written. -/
theorem Extended.next {n : ℕ} {state : ExtensionState} (extended : Extended e n state)
    (uniform : Uniform e.source e.geometry) (native : e.native = e.source.frame e.geometry)
    (inside : n < e.geometry.height) :
    ∃ state', e.next state n = some state' ∧ Extended e (n + 1) state' := by
  rcases extended.reader with ⟨i, at_i, before⟩
  have caught : e.reader state.reader n =
      (reach stampOf e.source.writes (fieldLine e.geometry n), e.source.vramAt (fieldLine e.geometry n)) := by
    rw [Extension.reader, at_i]
    exact catchUp_spec _ (before n le_rfl) (Nat.le_add_left _ _)
  have prepared : e.prepare (e.source.vramAt (fieldLine e.geometry n)) n = e.row n := rfl
  have accepted := uniform.accepted inside
  have centre : frameRowRgb888 e.native n = some (nativeColours e.source e.geometry n) := by
    rw [native]
    exact frameRowRgb888_frame uniform inside
  rw [Extension.next, caught]
  dsimp only
  rw [prepared, centre, columns_some accepted, columns_some accepted]
  refine ⟨_, rfl, ⟨_, rfl, ?_⟩, ?_⟩
  · intro row later
    exact reach_mono (fieldLine_mono ((Nat.le_succ n).trans later))
  · intro row lt x within
    dsimp only
    rcases Nat.lt_succ_iff_lt_or_eq.mp lt with old | rfl
    · have earlier : row * e.pitch + x < n * e.pitch := by
        calc
          row * e.pitch + x < row * e.pitch + e.pitch := Nat.add_lt_add_left within _
          _ = (row + 1) * e.pitch := (Nat.succ_mul _ _).symm
          _ ≤ n * e.pitch := Nat.mul_le_mul_right _ old
      rw [writeRow_before earlier]
      exact extended.written row old x within
    · have length : x < (e.colours row).length := colours_length ▸ within
      exact writeRow_inside length

theorem rows_extended (uniform : Uniform e.source e.geometry) (native : e.native = e.source.frame e.geometry)
    (surface : Surface) {n : ℕ} (inside : n ≤ e.geometry.height) :
    ∃ state, (List.range n).foldlM e.next { reader := (0, e.source.start), surface := surface } = some state ∧
      Extended e n state := by
  induction n with
  | zero =>
      refine ⟨_, rfl, ⟨0, rfl, fun _ _ => Nat.zero_le _⟩, ?_⟩
      intro row lt
      exact absurd lt (Nat.not_lt_zero row)
  | succ n ih =>
      rcases ih (Nat.le_of_succ_le inside) with ⟨state, reached, extended⟩
      rcases extended.next uniform native inside with ⟨state', stepped, further⟩
      refine ⟨state', ?_, further⟩
      rw [List.range_succ, List.foldlM_append, reached]
      simp [stepped]

theorem colours_centre {x : ℕ} (inside : x < e.geometry.width) :
    (e.colours row).getD (e.side + x) ⟨0, 0, 0⟩ = (nativeColours e.source e.geometry row).getD x ⟨0, 0, 0⟩ := by
  have left : (e.columns row .left).length = e.side := by simp [Extension.columns]
  have centre : (nativeColours e.source e.geometry row).length = e.geometry.width := by simp [nativeColours]
  rw [Extension.colours, List.append_assoc, List.getD_append_right _ _ _ _ (by omega), left, Nat.add_sub_cancel_left,
    List.getD_append _ _ _ _ (by omega)]

theorem colours_beside (edge : Edge) {i : ℕ} (inside : i < e.side) :
    (e.colours row).getD (edge.place e.geometry.width e.side i) ⟨0, 0, 0⟩ =
      cramColor (rowLine e.source e.geometry row).cram ((e.row row).index edge i) := by
  have length : ∀ edge, (e.columns row edge).length = e.side := by simp [Extension.columns]
  have centre : (nativeColours e.source e.geometry row).length = e.geometry.width := by simp [nativeColours]
  have column : (e.columns row edge).getD i ⟨0, 0, 0⟩ =
      cramColor (rowLine e.source e.geometry row).cram ((e.row row).index edge i) := by
    rw [Extension.columns, List.getD_eq_getElem?_getD, List.getElem?_map, List.getElem?_range inside]
    rfl
  rw [← column]
  cases edge with
  | left =>
      have first := length .left
      rw [Extension.colours, Edge.place, List.append_assoc, List.getD_append _ _ _ _ (by omega)]
  | right =>
      have before : (e.columns row .left ++ nativeColours e.source e.geometry row).length = e.side + e.geometry.width := by
        rw [List.length_append, length .left, centre]
      rw [Extension.colours, Edge.place, List.getD_append_right _ _ _ _ (by omega), before, Nat.add_sub_cancel_left]

end Rows

theorem extSpriteStateOk_uniform {source : Source} {geometry : DisplayGeometry} (uniform : Uniform source geometry) :
    extSpriteStateOk source.lineOf geometry geometry.height = true := by
  rw [extSpriteStateOk, List.all_eq_true]
  intro l mem
  have line : l < 224 := by
    have bound := List.mem_range.mp mem
    rw [(displayGeometry_eq (validateLine_geometry (uniform.valid 0 (by decide)))).2.1] at bound
    split_ifs at bound <;> omega
  have selected := displayGeometry_registers (validateLine_geometry (uniform.valid l line))
  have table : (satBaseAddress (source.lineOf l).registers).isSome = true := by
    rw [satBaseAddress]
    rcases selected.2.2 with h40 | h32
    · rw [if_pos h40]
      rfl
    · rw [if_pos h32]
      split_ifs <;> rfl
  rw [table, selected.1]
  simp

/-! ## The surface continues the picture -/

/-- What a row of the surface has of the picture: the native row in the centre, the same sprite layer,
and beside an edge the planes as the composer of the native row shows them in the picture. -/
structure Continues (native : FrameArtifact) (r : ExtensionRow) (withSprites : Bool) (colour : ℕ → Rgb888) : Prop where
  shown : ∀ x < native.width, native.pixel r.row x =
    (composeRow r.ctx r.line r.row r.planeA r.planeB (buildSpriteRow r.ctx r.line r.row 0 native.width)).getD x 0
  centre : ∃ rgb, frameRowRgb888 native r.row = some rgb ∧ rgb.length = native.width ∧
    ∀ x < native.width, colour (r.side + x) = rgb.getD x ⟨0, 0, 0⟩
  sprites : ∀ x < native.width, r.sprites (r.side + x) =
    if withSprites then buildSpriteRow r.ctx r.line r.row 0 native.width x else {}
  beside : ∀ edge, ∀ i < r.side,
    colour (edge.place native.width r.side i) = cramColor r.line.cram (r.index edge i)
  plain : withSprites = false → ∀ edge i, r.index edge i = r.background edge i
  background : ∀ edge, r.windowEdge edge = false →
    extVscrollDiffers r.planeA r.groups = false → extVscrollDiffers r.planeB r.groups = false →
      ∀ i < r.side, ∀ d : ℤ, ∀ x < native.width, edge.column native.width r.side i + d = x →
        (composeRow r.ctx (plainLine r.line) r.row (scrolled r.planeA d) (scrolled r.planeB d) (fun _ => {}))[x]? =
          some (BitVec.ofNat 8 (r.background edge i))

theorem continues_row {e : Extension} {n row : ℕ} {state : ExtensionState} (extended : Extended e n state)
    (uniform : Uniform e.source e.geometry) (inside : row < n) (screen : row < e.geometry.height) :
    Continues (e.source.frame e.geometry) (e.row row) e.sprites fun x => state.surface (row * e.pitch + x) := by
  have accepted := uniform.accepted screen
  have written := extended.written row inside
  have pictures : Pictures e.source e.geometry (e.source.frame e.geometry) :=
    frame_pictures (.inl uniform.count) (uniform.valid 0 (by decide))
  constructor
  · exact pictures.pixel row screen
  · refine ⟨_, frameRowRgb888_frame uniform screen, ?_, ?_⟩
    · rw [nativeColours, List.length_map, List.length_range]
      rfl
    · intro x column
      have column : x < e.geometry.width := column
      rw [← colours_centre column]
      exact written _ (by change e.side + x < e.geometry.width + 2 * e.side; omega)
  · intro x column
    have column : x < e.geometry.width := column
    rw [Extension.row, prepareExtensionRow]
    dsimp only
    split_ifs
    · have wide : e.side + x < e.geometry.width + 2 * e.side := by omega
      have here : (-(e.side : ℤ)) + (e.side + x : ℕ) = 0 + x := by
        push_cast
        ring
      have outside : buildSpriteRow (rowContext e.source e.geometry row) (rowLine e.source e.geometry row) row (-e.side)
          (e.geometry.width + 2 * e.side) (e.side + x) = _ := buildSpriteRow_eq accepted wide
      have within : buildSpriteRow (rowContext e.source e.geometry row) (rowLine e.source e.geometry row) row 0
          e.geometry.width x = _ := buildSpriteRow_eq accepted column
      exact outside.trans ((congrArg _ here).trans within.symm)
    · rfl
  · intro edge i column
    have column : i < e.side := column
    have place : edge.place e.geometry.width e.side i < e.pitch := by
      rw [Extension.pitch]
      cases edge with
      | left =>
          rw [Edge.place]
          omega
      | right =>
          rw [Edge.place]
          omega
    exact (written _ place).trans (colours_beside edge column)
  · intro off edge i
    rw [ExtensionRow.index, ExtensionRow.background, ExtensionRow.sprite, Extension.row, prepareExtensionRow, off]
    rfl
  · intro edge uncovered agreeA agreeB i _ d x column moved
    exact background_scrolled accepted e.side e.sprites edge i uncovered agreeA agreeB d column moved

theorem extension_continues {vram : Vram} {raster : RasterFrameState} {native : FrameArtifact}
    {target : ExtensionTarget} {side : ℕ} (rendered : produceFrameRaster vram raster = some native)
    (planned : (target.plan.bind fun plan => plan native.width native.height) = some side)
    (some_side : side ≠ 0) (small : side ≤ 256)
    (room : (native.width + 2 * side) * 3 * native.height ≤ target.capacity) (surface : Surface) :
    ∃ geometry result after, displayGeometry (raster.lines (lineIndex 0)).registers = some geometry ∧
      produceExtension vram raster native target surface = .ok (result, after) ∧
      ∀ row < native.height,
        Continues native
          (prepareExtensionRow (rowContext (rasterSource vram raster) geometry row)
            (rowLine (rasterSource vram raster) geometry row) row side (decide (2 ≤ target.request)))
          (decide (2 ≤ target.request)) fun x => after (row * (native.width + 2 * side) + x) := by
  rcases valid_of_renderFrame rendered with ⟨geometry, valid⟩
  have uniform : Uniform (rasterSource vram raster) geometry := ⟨rfl, valid⟩
  have frame : native = (rasterSource vram raster).frame geometry := by
    have fits : ¬ (rasterSource vram raster).fits geometry = false := by
      rw [fits_of_valid valid]
      exact Bool.noConfusion
    rw [produceFrameRaster, renderFrame, uniform.valid 0 (by decide)] at rendered
    dsimp only at rendered
    rw [if_neg fits] at rendered
    exact (Option.some.inj rendered).symm
  subst frame
  have size := uniform.size
  have selected := validateLine_geometry (uniform.valid 0 (by decide))
  let e : Extension :=
    { source := rasterSource vram raster, geometry := geometry
      native := (rasterSource vram raster).frame geometry, side := side
      sprites := decide (2 ≤ target.request) && extSpriteStateOk (rasterSource vram raster).lineOf geometry geometry.height }
  have sprites : e.sprites = decide (2 ≤ target.request) := by
    change (_ && _) = _
    rw [extSpriteStateOk_uniform uniform, Bool.and_true]
  rcases rows_extended (e := e) uniform rfl surface le_rfl with ⟨state, reached, extended⟩
  refine ⟨geometry, e.result target (RasterFrameState.journaled raster) state, state.surface, selected, ?_, ?_⟩
  · have width : artifactWidth ((rasterSource vram raster).frame geometry) = geometry.width :=
      if_pos (show geometry.width ≠ 0 by omega)
    have height : artifactHeight ((rasterSource vram raster).frame geometry) = geometry.height :=
      if_pos (show geometry.height ≠ 0 by omega)
    have planned : (target.plan.bind fun plan => plan geometry.width geometry.height) = some side := planned
    have room : (geometry.width + 2 * side) * 3 * geometry.height ≤ target.capacity := room
    have rows : e.rows surface = some state := reached
    rw [produceExtension]
    dsimp only
    rw [selected]
    dsimp only
    rw [width, height, if_neg (by simp), planned]
    dsimp only
    rw [if_neg some_side, if_neg (Nat.not_lt.mpr small), if_neg (Nat.not_lt.mpr room), rows]
  · intro row inside
    have row_continues := continues_row extended uniform inside inside
    rw [sprites] at row_continues
    have shape : e.row row = prepareExtensionRow (rowContext (rasterSource vram raster) geometry row)
        (rowLine (rasterSource vram raster) geometry row) row side (decide (2 ≤ target.request)) := by
      rw [Extension.row, sprites]
    rw [← shape]
    exact row_continues

/-- Every line in mode 5 with nothing else set, and 16 columns per side with sprites. -/
def mode5Raster : RasterFrameState where
  lines := fun _ => mode5Line
  hasVramJournal := false
  vramWriteCount := 0
  vramWrites := fun _ => { address := 0, value := 0, line := 0 }
  vramStart := fun _ => 0

def wideTarget : ExtensionTarget where
  request := 2
  plan := some fun _ _ => some 16
  capacity := 193536

theorem extension_continues_mode5 : ∃ native result after,
    produceFrameRaster (fun _ => 0) mode5Raster = some native ∧
      produceExtension (fun _ => 0) mode5Raster native wideTarget (fun _ => ⟨0, 0, 0⟩) = .ok (result, after) := by
  have valid : validateLine mode5Line = some mode5Context.geometry := by decide
  have pictured : ∃ native, renderFrame (rasterSource (fun _ => 0) mode5Raster) = some native ∧
      Pictures (rasterSource (fun _ => 0) mode5Raster) mode5Context.geometry native :=
    renderFrame_pictures (.inl rfl) fun _ _ => valid
  rcases pictured with ⟨native, rendered, pictures⟩
  have room : (native.width + 2 * 16) * 3 * native.height ≤ wideTarget.capacity := by
    rw [pictures.width, pictures.height]
    decide
  have planned : (wideTarget.plan.bind fun plan => plan native.width native.height) = some 16 := rfl
  rcases extension_continues rendered planned (by decide) (by decide) room (fun _ => ⟨0, 0, 0⟩) with
    ⟨geometry, result, after, -, produced, -⟩
  exact ⟨native, result, after, rendered, produced⟩

end Segarecomp.Genesis.FrameExtension

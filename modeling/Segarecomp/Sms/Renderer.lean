import Mathlib.Tactic

/-! The Mode 4 renderer: a line is drawn from the VDP as its scanline event sees it, and the columns
beside the picture are an optional second output of the same pass. -/

namespace Segarecomp.Sms.Render

abbrev Byte := BitVec 8

/-- The VDP: what a line reads, the sprite flags it sets, and the rest of the device. -/
structure Vdp (ρ : Type*) where
  vram : BitVec 14 → Byte
  cram : BitVec 5 → Byte
  reg : BitVec 4 → Byte
  frame : ℕ
  traceCount : ℕ
  spriteOverflow : Bool
  spriteCollision : Bool
  rest : ρ

variable {ρ δ : Type*}

namespace Vdp

def bit (value : Byte) (mask : Byte) : Bool := value &&& mask ≠ 0

def read (v : Vdp ρ) (address : ℕ) : ℕ := (v.vram (BitVec.ofNat 14 address)).toNat

def color (v : Vdp ρ) (entry : ℕ) : Byte := v.cram (BitVec.ofNat 5 entry) &&& 0x3F

def setSpriteFlags (v : Vdp ρ) (overflow collision : Bool) : Vdp ρ :=
  { v with
    spriteOverflow := v.spriteOverflow || overflow
    spriteCollision := v.spriteCollision || collision }

/-- The active lines of the mode; `none` for an unsupported one. -/
def activeLines (v : Vdp ρ) : Option ℕ :=
  let m2 := bit (v.reg 0) 0x02
  let m3 := bit (v.reg 1) 0x08
  let m1 := bit (v.reg 1) 0x10
  if !bit (v.reg 0) 0x04 || bit (v.reg 0) 0x01 then none
  else if !m1 && !m2 then some 192
  else if !m3 && m2 && !m1 then some 192
  else if m3 && m2 && m1 then some 192
  else if !m3 && m2 && m1 then some 224
  else none

def vscrollLock (v : Vdp ρ) : Bool := bit (v.reg 0) 0x80

def hscrollLock (v : Vdp ρ) : Bool := bit (v.reg 0) 0x40

def leftBlank (v : Vdp ρ) : Bool := bit (v.reg 0) 0x20

def spriteShift (v : Vdp ρ) : Bool := bit (v.reg 0) 0x08

def display (v : Vdp ρ) : Bool := bit (v.reg 1) 0x40

def sprite8x16 (v : Vdp ρ) : Bool := bit (v.reg 1) 0x02

def spriteZoom (v : Vdp ρ) : Bool := bit (v.reg 1) 0x01

def backdrop (v : Vdp ρ) : Byte := v.color (16 + (v.reg 7 &&& 15).toNat)

/-- The colour of a pixel of a pattern row, from its four bit planes. -/
def patternPixel (v : Vdp ρ) (pattern row col : ℕ) : ℕ :=
  let p := pattern * 32 + row * 4
  let plane := fun k => v.read (p + k) / 2 ^ (7 - col) % 2
  plane 0 + plane 1 * 2 + plane 2 * 4 + plane 3 * 8

end Vdp

/-! ## Background -/

/-- A background sample; palette 255 marks the gap that fine scrolling leaves. -/
structure Sample where
  color : ℕ
  prio : ℕ
  pal : ℕ

/-- What line 0 latches for the frame. -/
structure Latch where
  height : ℕ
  vscroll : ℕ

def Latch.tall (latch : Latch) : Bool := latch.height = 224

def nameBase (v : Vdp ρ) (tall : Bool) : ℕ :=
  if tall then (v.reg 2 &&& 0x0C).toNat * 1024 + 0x700 else (v.reg 2 &&& 0x0E).toNat * 1024

def hscroll (v : Vdp ρ) (line : ℕ) : ℕ := if v.hscrollLock && decide (line < 16) then 0 else (v.reg 8).toNat

/-- The sample of a screen column. -/
def background (v : Vdp ρ) (latch : Latch) (line x : ℕ) : Sample :=
  let hscroll := hscroll v line
  let vs := if v.vscrollLock && decide (24 ≤ x / 8) then 0 else latch.vscroll
  let src := (x + 256 - hscroll) % 256
  if x < hscroll % 8 then ⟨0, 0, 255⟩
  else
    let ry := if latch.tall then (line + vs) % 256 else (line + vs) % 224
    let nt := nameBase v latch.tall + ry / 8 * 64 + src / 8 * 2
    let entry := v.read nt + v.read (nt + 1) * 256
    let prow := if entry / 0x400 % 2 = 1 then 7 - ry % 8 else ry % 8
    let pixel := if entry / 0x200 % 2 = 1 then 7 - src % 8 else src % 8
    ⟨v.patternPixel (entry % 0x200) prow pixel, entry / 0x1000 % 2, entry / 0x800 % 2⟩

def Sample.value (s : Sample) (v : Vdp ρ) : Byte := if s.pal = 255 then v.backdrop else v.color (s.pal * 16 + s.color)

/-- A background pixel that hides the sprites. -/
def Sample.covers (s : Sample) : Bool := decide (s.prio ≠ 0) && decide (s.color ≠ 0) && decide (s.pal ≠ 255)

/-! ## The extension -/

def EXT_SPILL_LEFT : ℕ := 8

def EXT_SPILL_RIGHT : ℕ := 15

def EXT_MAX_SIDE : ℕ := 80

inductive ExtClass where
  | none | wrapped | distinct | unavailable
deriving DecidableEq

inductive ExtReason where
  | none | left_mask | vscroll_lock | geometry | incomplete
deriving DecidableEq

structure ExtResult where
  sequence : ℕ
  height : ℕ
  side : ℕ
  cls : ExtClass
  reason : ExtReason
  sprites : Bool
  spritePixels : ℕ

/-- Columns beside the picture by line and place. -/
abbrev Columns := ℕ → ℕ → Byte

structure Extension where
  requestSide192 : ℕ
  requestSide224 : ℕ
  requestSprites : Bool
  side : ℕ
  sprites : Bool
  workSpritePixels : ℕ
  okLines : ℕ
  geometryFail : Bool
  firstReason : ExtReason
  workLeft : Columns
  workRight : Columns
  result : ExtResult
  left : Columns
  right : Columns
  unsupportedFrames : ℕ

def putRow (columns : Columns) (line : ℕ) (row : ℕ → Byte) : Columns :=
  fun n => if n = line then row else columns n

namespace Extension

/-- Line 0 latches the request for the height of the frame. -/
def beginFrame (e : Extension) (height : ℕ) : Extension :=
  let want := if height = 224 then e.requestSide224 else e.requestSide192
  let fail := decide (EXT_MAX_SIDE < want)
  let side := if fail then 0 else want
  { e with
    okLines := 0
    firstReason := .none
    geometryFail := fail
    side := side
    sprites := decide (side ≠ 0) && e.requestSprites
    workSpritePixels := 0 }

/-- A frame that begins in an unsupported mode. -/
def countUnsupported (e : Extension) (line : ℕ) : Extension :=
  if line = 0 ∧ (e.requestSide192 ≠ 0 ∨ e.requestSide224 ≠ 0) then
    { e with unsupportedFrames := e.unsupportedFrames + 1 }
  else e

def failLine (e : Extension) (line : ℕ) (reason : ExtReason) : Extension :=
  { e with
    workLeft := putRow e.workLeft line fun _ => 0
    workRight := putRow e.workRight line fun _ => 0
    firstReason := if e.firstReason = .none then reason else e.firstReason }

/-- The columns of a line from its samples, `none` when the display is off; and whether it has them. -/
def emitLine (e : Extension) (v : Vdp ρ) (line : ℕ) (samples : Option (ℕ → Sample)) : Extension × Bool :=
  if samples.isSome && v.leftBlank then (e.failLine line .left_mask, false)
  else if samples.isSome && v.vscrollLock then (e.failLine line .vscroll_lock, false)
  else
    let value := fun x => (samples.map fun s => (s x).value v).getD v.backdrop
    ({ e with
      workLeft := putRow e.workLeft line fun i => if i < e.side then value (256 - e.side + i) else e.workLeft line i
      workRight := putRow e.workRight line fun i => if i < e.side then value i else e.workRight line i
      okLines := e.okLines + 1 }, true)

/-- The colour a sprite shows at a place outside the picture, 0 for none. -/
def shown (s : Sample) (color : ℕ) : ℕ := if s.covers then 0 else color

/-- The sprite colour at column `i` of the left side. -/
def leftSpill (side : ℕ) (spill : ℕ → ℕ) (i : ℕ) : ℕ :=
  if side ≤ i + EXT_SPILL_LEFT then spill (i + EXT_SPILL_LEFT - side) else 0

def rightSpill (spill : ℕ → ℕ) (i : ℕ) : ℕ := if i < EXT_SPILL_RIGHT then spill i else 0

/-- The spilled pixels of a line over its columns. -/
def spillSprites (e : Extension) (v : Vdp ρ) (line : ℕ) (samples : ℕ → Sample) (spillLeft spillRight : ℕ → ℕ) :
    Extension :=
  let left := fun i => shown (samples (256 - e.side + i)) (leftSpill e.side spillLeft i)
  let right := fun i => shown (samples i) (rightSpill spillRight i)
  let count := fun (spill : ℕ → ℕ) => ((List.range e.side).filter fun i => spill i ≠ 0).length
  { e with
    workLeft := putRow e.workLeft line fun i =>
      if i < e.side ∧ left i ≠ 0 then v.color (16 + left i) else e.workLeft line i
    workRight := putRow e.workRight line fun i =>
      if i < e.side ∧ right i ≠ 0 then v.color (16 + right i) else e.workRight line i
    workSpritePixels := e.workSpritePixels + count left + count right }

def finishFrame (e : Extension) (sequence height : ℕ) : Extension :=
  let blank : ExtResult := ⟨sequence, height, 0, .none, .none, false, 0⟩
  if e.geometryFail then { e with result := { blank with cls := .unavailable, reason := .geometry } }
  else if e.side = 0 then { e with result := blank }
  else if e.okLines = height then
    { e with
      result := { blank with
        cls := .wrapped
        side := e.side
        sprites := e.sprites
        spritePixels := if e.sprites then e.workSpritePixels else 0 }
      left := e.workLeft
      right := e.workRight }
  else
    { e with result := { blank with
        cls := .unavailable
        reason := if e.firstReason ≠ .none then e.firstReason else .incomplete } }

end Extension

/-! ## Sprites -/

structure SpriteHit where
  xIndex : ℕ
  row : ℕ

def satBase (v : Vdp ρ) : ℕ := (v.reg 5 &&& 0x7E).toNat * 128

def zoom (v : Vdp ρ) : ℕ := if v.spriteZoom then 2 else 1

def spriteHeight (v : Vdp ρ) : ℕ := (if v.sprite8x16 then 16 else 8) * zoom v

/-- The sprites of a line in the order of the table, and whether a ninth was met. -/
def scanSprites (v : Vdp ρ) (tall : Bool) (line : ℕ) : List ℕ → List SpriteHit → List SpriteHit × Bool
  | [], hits => (hits, false)
  | i :: rest, hits =>
      let y := v.read (satBase v + i)
      if !tall && decide (y = 0xD0) then (hits, false)
      else
        let rel := (line + 256 - (y + 1)) % 256
        if spriteHeight v ≤ rel then scanSprites v tall line rest hits
        else if hits.length = 8 then (hits, true)
        else scanSprites v tall line rest (hits ++ [⟨i, rel / zoom v⟩])

/-- The line of sprite colours, those just outside the picture, and whether two met. -/
structure SpriteLine where
  color : ℕ → ℕ
  spillLeft : ℕ → ℕ
  spillRight : ℕ → ℕ
  collision : Bool

/-- One pixel column of a sprite at `sx`; `spill` tells whether the extension takes what is outside. -/
def spritePixel (v : Vdp ρ) (spill : Bool) (sx : ℤ) (tile row : ℕ) (s : SpriteLine) (px : ℕ) : SpriteLine :=
  let dx := sx + px
  let color := v.patternPixel tile (row % 8) (px / zoom v)
  if dx < 0 ∨ 255 < dx then
    if spill = true ∧ (dx < 0 ∧ -EXT_SPILL_LEFT ≤ dx ∨ 255 < dx ∧ dx ≤ 255 + EXT_SPILL_RIGHT) then
      if dx < 0 then
        let slot := (dx + EXT_SPILL_LEFT).toNat
        if color ≠ 0 ∧ s.spillLeft slot = 0 then { s with spillLeft := Function.update s.spillLeft slot color } else s
      else
        let slot := (dx - 256).toNat
        if color ≠ 0 ∧ s.spillRight slot = 0 then { s with spillRight := Function.update s.spillRight slot color }
        else s
    else s
  else if color = 0 then s
  else if s.color dx.toNat ≠ 0 then { s with collision := true }
  else { s with color := Function.update s.color dx.toNat color }

def drawSprite (v : Vdp ρ) (spill : Bool) (s : SpriteLine) (hit : SpriteHit) : SpriteLine :=
  let base := satBase v + 0x80 + 2 * hit.xIndex
  let sx : ℤ := v.read base - if v.spriteShift then 8 else 0
  let name := v.read (base + 1)
  let tile := (if v.sprite8x16 then name / 2 * 2 else name) + if (v.reg 6 &&& 0x04) ≠ 0 then 256 else 0
  (List.range (8 * zoom v)).foldl (spritePixel v spill sx (tile + hit.row / 8) hit.row) s

def spriteLine (v : Vdp ρ) (spill : Bool) (hits : List SpriteHit) : SpriteLine :=
  hits.foldl (drawSprite v spill) ⟨fun _ => 0, fun _ => 0, fun _ => 0, false⟩

/-! ## The renderer -/

structure FrameRecord (δ : Type*) where
  frame : ℕ
  height : ℕ
  traceCount : ℕ
  sha256 : δ

/-- The native renderer. -/
structure Native (δ : Type*) where
  pixels : ℕ → Byte
  last : ℕ → Byte
  latch : Latch
  lastHeight : ℕ
  lastFrame : ℕ
  inFrame : Bool
  framesCompleted : ℕ
  records : List (FrameRecord δ)
  recordCapacity : ℕ
  recordDropped : ℕ

structure Renderer (δ : Type*) where
  native : Native δ
  ext : Option Extension

def composed (v : Vdp ρ) (samples : ℕ → Sample) (sprites : ℕ → ℕ) (x : ℕ) : Byte :=
  let value := (samples x).value v
  let value := if sprites x ≠ 0 ∧ (samples x).covers = false then v.color (16 + sprites x) else value
  if v.leftBlank && decide (x < 8) then v.backdrop else value

def putPixels (pixels : ℕ → Byte) (line : ℕ) (row : ℕ → Byte) : ℕ → Byte :=
  fun n => if line * 256 ≤ n ∧ n < line * 256 + 256 then row (n - line * 256) else pixels n

namespace Renderer

/-- Hashing is given by `sha`. -/
def finishFrame (sha : List Byte → δ) (r : Renderer δ) (v : Vdp ρ) : Renderer δ :=
  let n := r.native
  let size := 256 * n.latch.height
  let last := fun i => if i < size then n.pixels i else n.last i
  let room := decide (n.records.length < n.recordCapacity)
  let native : Native δ := { n with
    last := last
    lastHeight := n.latch.height
    lastFrame := v.frame
    framesCompleted := n.framesCompleted + 1
    inFrame := false
    records := if room then n.records ++ [⟨v.frame, n.latch.height, v.traceCount, sha ((List.range size).map last)⟩]
      else n.records
    recordDropped := if room then n.recordDropped else n.recordDropped + 1 }
  { native := native, ext := r.ext.map fun e => e.finishFrame native.framesCompleted n.latch.height }

def beginFrame (r : Renderer δ) (v : Vdp ρ) (height : ℕ) : Renderer δ where
  native := { r.native with latch := ⟨height, (v.reg 9).toNat⟩, inFrame := true }
  ext := r.ext.map fun e => e.beginFrame height

/-- The extension when it takes part in the frame. -/
def extOn (r : Renderer δ) : Option Extension := r.ext.filter fun e => e.side ≠ 0

/-- A line with the display off. -/
def drawBlank (r : Renderer δ) (v : Vdp ρ) (line : ℕ) : Renderer δ where
  native := { r.native with pixels := putPixels r.native.pixels line fun _ => v.backdrop }
  ext := r.extOn.elim r.ext fun e => some (e.emitLine v line none).1

def drawLine (r : Renderer δ) (v : Vdp ρ) (line : ℕ) : Renderer δ × Vdp ρ :=
  let samples := background v r.native.latch line
  let emitted := r.extOn.map fun e => e.emitLine v line (some samples)
  let spill := emitted.any fun taken => taken.2 && taken.1.sprites
  let scanned := scanSprites v r.native.latch.tall line (List.range 64) []
  let sprites := spriteLine v spill scanned.1
  let native := { r.native with pixels := putPixels r.native.pixels line (composed v samples sprites.color) }
  let ext := emitted.elim r.ext fun taken =>
    some (if spill then taken.1.spillSprites v line samples sprites.spillLeft sprites.spillRight else taken.1)
  (⟨native, ext⟩, v.setSpriteFlags scanned.2 sprites.collision)

def drawActive (r : Renderer δ) (v : Vdp ρ) (line : ℕ) : Renderer δ × Vdp ρ :=
  if v.display then r.drawLine v line else (r.drawBlank v line, v)

/-- The renderer in which a line is drawn: line 0 has begun a frame. -/
def entered (r : Renderer δ) (v : Vdp ρ) (line height : ℕ) : Renderer δ :=
  if line = 0 then r.beginFrame v height else r

/-- A line of the active display from the VDP that also takes the sprite flags. -/
def renderLine (sha : List Byte → δ) (r : Renderer δ) (v : Vdp ρ) (line : ℕ) : Renderer δ × Vdp ρ :=
  match v.activeLines with
  | none => ({ r with ext := r.ext.map fun e => e.countUnsupported line }, v)
  | some height =>
      let r := r.entered v line height
      if r.native.inFrame = false ∨ r.native.latch.height ≤ line then (r, v)
      else
        let drawn := r.drawActive v line
        if line + 1 = drawn.1.native.latch.height then (drawn.1.finishFrame sha drawn.2, drawn.2) else drawn

end Renderer

/-! ## Runs -/

/-- What happens between and at the scanline events: anything to the VDP, a line, a new request. -/
inductive Event (ρ : Type*) where
  | vdp (change : Vdp ρ → Vdp ρ)
  | line (line : ℕ)
  | request (side192 side224 : ℕ) (sprites : Bool)

structure Machine (ρ δ : Type*) where
  renderer : Renderer δ
  vdp : Vdp ρ

def Machine.step (sha : List Byte → δ) (m : Machine ρ δ) : Event ρ → Machine ρ δ
  | .vdp change => { m with vdp := change m.vdp }
  | .line line => ⟨(m.renderer.renderLine sha m.vdp line).1, (m.renderer.renderLine sha m.vdp line).2⟩
  | .request side192 side224 sprites =>
      { m with renderer := { m.renderer with ext := m.renderer.ext.map fun e =>
          { e with requestSide192 := side192, requestSide224 := side224, requestSprites := sprites } } }

def Machine.run (sha : List Byte → δ) (m : Machine ρ δ) (events : List (Event ρ)) : Machine ρ δ :=
  events.foldl (Machine.step sha) m

/-! ## Start -/

def Native.init (records : ℕ) : Native δ where
  pixels _ := 0
  last _ := 0
  latch := ⟨0, 0⟩
  lastHeight := 0
  lastFrame := 0
  inFrame := false
  framesCompleted := 0
  records := []
  recordCapacity := records
  recordDropped := 0

/-- The request is kept, and so is what the columns hold. -/
def Extension.reset (e : Extension) : Extension :=
  { e with
    side := 0
    sprites := false
    workSpritePixels := 0
    okLines := 0
    geometryFail := false
    firstReason := .none
    result := ⟨0, 0, 0, .none, .none, false, 0⟩
    unsupportedFrames := 0 }

end Segarecomp.Sms.Render

import Segarecomp.Sms.RendererNative

/-! A WRAPPED frame beside the picture repeats the picture: its columns are the native background samples
one screen width away. -/

namespace Segarecomp.Sms.Render

variable {ρ δ : Type*}

/-! ## What a line has beside the picture -/

/-- The native background of a column. -/
def nativeSample (v : Vdp ρ) (latch : Latch) (line x : ℕ) : Byte :=
  if v.display then (background v latch line x).value v else v.backdrop

/-- The sprites of a line with what they spill. -/
def spilled (v : Vdp ρ) (latch : Latch) (line : ℕ) : SpriteLine :=
  spriteLine v true (scanSprites v latch.tall line (List.range 64) []).1

/-- The sprite colour that stands at column `i` of the left side, 0 for none. -/
def leftSprite (sprites : Bool) (side : ℕ) (v : Vdp ρ) (latch : Latch) (line i : ℕ) : ℕ :=
  if v.display && sprites then
    Extension.shown (background v latch line (256 - side + i)) (Extension.leftSpill side (spilled v latch line).spillLeft i)
  else 0

def rightSprite (sprites : Bool) (v : Vdp ρ) (latch : Latch) (line i : ℕ) : ℕ :=
  if v.display && sprites then
    Extension.shown (background v latch line i) (Extension.rightSpill (spilled v latch line).spillRight i)
  else 0

/-- The lines the extension does not extend. -/
def refused (v : Vdp ρ) : Bool := v.display && (v.leftBlank || v.vscrollLock)

/-- The work columns of a line hold its samples, under the sprites that spill. -/
structure Row (e : Extension) (v : Vdp ρ) (latch : Latch) (line : ℕ) : Prop where
  left : ∀ i < e.side, e.workLeft line i =
    if leftSprite e.sprites e.side v latch line i ≠ 0 then v.color (16 + leftSprite e.sprites e.side v latch line i)
    else nativeSample v latch line (256 - e.side + i)
  right : ∀ i < e.side, e.workRight line i =
    if rightSprite e.sprites v latch line i ≠ 0 then v.color (16 + rightSprite e.sprites v latch line i)
    else nativeSample v latch line i

/-! ## One line -/

variable {e e' : Extension} {v : Vdp ρ} {latch : Latch} {line n : ℕ}

/-- An extension in which another line was drawn. -/
structure Drew (e e' : Extension) (line : ℕ) : Prop where
  side : e'.side = e.side
  sprites : e'.sprites = e.sprites
  geometryFail : e'.geometryFail = e.geometryFail
  result : e'.result = e.result
  left : e'.left = e.left
  right : e'.right = e.right
  others : ∀ n ≠ line, e'.workLeft n = e.workLeft n ∧ e'.workRight n = e.workRight n

theorem Drew.row (drew : Drew e e' line) (other : n ≠ line) (row : Row e v latch n) :
    Row e' v latch n where
  left i lt := by
    rw [drew.side] at lt
    rw [(drew.others n other).1, drew.side, drew.sprites]
    exact row.left i lt
  right i lt := by
    rw [drew.side] at lt
    rw [(drew.others n other).2, drew.sprites]
    exact row.right i lt

theorem putRow_self (columns : Columns) (row : ℕ → Byte) : putRow columns line row line = row := if_pos rfl

theorem putRow_ne {columns : Columns} {row : ℕ → Byte} (other : n ≠ line) : putRow columns line row n = columns n :=
  if_neg other

theorem drew_emitLine (samples : Option (ℕ → Sample)) : Drew e (e.emitLine v line samples).1 line := by
  rw [Extension.emitLine]
  split_ifs
  all_goals exact ⟨rfl, rfl, rfl, rfl, rfl, rfl, fun _ other => ⟨putRow_ne other, putRow_ne other⟩⟩

theorem drew_spillSprites (samples : ℕ → Sample) (left right : ℕ → ℕ) :
    Drew e (e.spillSprites v line samples left right) line :=
  ⟨rfl, rfl, rfl, rfl, rfl, rfl, fun _ other => ⟨putRow_ne other, putRow_ne other⟩⟩

theorem Drew.trans {e'' : Extension} (first : Drew e e' line) (second : Drew e' e'' line) : Drew e e'' line where
  side := second.side.trans first.side
  sprites := second.sprites.trans first.sprites
  geometryFail := second.geometryFail.trans first.geometryFail
  result := second.result.trans first.result
  left := second.left.trans first.left
  right := second.right.trans first.right
  others n other :=
    ⟨(second.others n other).1.trans (first.others n other).1, (second.others n other).2.trans (first.others n other).2⟩

theorem emitLine_blank :
    (e.emitLine v line none).2 = true ∧ (e.emitLine v line none).1.okLines = e.okLines + 1 ∧
      ∀ i < e.side, (e.emitLine v line none).1.workLeft line i = v.backdrop ∧
        (e.emitLine v line none).1.workRight line i = v.backdrop := by
  refine ⟨rfl, rfl, fun i lt => ?_⟩
  change putRow _ _ _ line i = _ ∧ putRow _ _ _ line i = _
  rw [putRow_self, putRow_self, if_pos lt, if_pos lt]
  exact ⟨rfl, rfl⟩

theorem emitLine_refused (samples : ℕ → Sample) (refused : (v.leftBlank || v.vscrollLock) = true) :
    (e.emitLine v line (some samples)).2 = false ∧ (e.emitLine v line (some samples)).1.okLines = e.okLines := by
  rw [Extension.emitLine]
  split_ifs with left lock
  · exact ⟨rfl, rfl⟩
  · exact ⟨rfl, rfl⟩
  · simp_all

theorem emitLine_taken (samples : ℕ → Sample) (taken : (v.leftBlank || v.vscrollLock) = false) :
    (e.emitLine v line (some samples)).2 = true ∧ (e.emitLine v line (some samples)).1.okLines = e.okLines + 1 ∧
      ∀ i < e.side, (e.emitLine v line (some samples)).1.workLeft line i = (samples (256 - e.side + i)).value v ∧
        (e.emitLine v line (some samples)).1.workRight line i = (samples i).value v := by
  obtain ⟨left, lock⟩ := Bool.or_eq_false_iff.mp taken
  rw [Extension.emitLine, left, lock]
  refine ⟨rfl, rfl, fun i lt => ?_⟩
  change putRow _ _ _ line i = _ ∧ putRow _ _ _ line i = _
  rw [putRow_self, putRow_self, if_pos lt, if_pos lt]
  exact ⟨rfl, rfl⟩

theorem extOn_of_side {r : Renderer δ} (attached : r.ext = some e) (on : e.side ≠ 0) : r.extOn = some e := by
  rw [Renderer.extOn, attached, Option.filter_some, if_pos (decide_eq_true on)]

theorem extOn_of_zero {r : Renderer δ} (attached : r.ext = some e) (off : e.side = 0) : r.extOn = none := by
  rw [Renderer.extOn, attached, Option.filter_some, if_neg]
  rw [decide_eq_true_iff]
  exact not_not_intro off

/-- The columns after the samples and the spilled sprites of a line. -/
theorem row_spillSprites (samples : ∀ i < e.side,
      e.workLeft line i = nativeSample v latch line (256 - e.side + i) ∧ e.workRight line i = nativeSample v latch line i)
    (display : v.display = true) (sprites : e.sprites = true) :
    Row (e.spillSprites v line (background v latch line) (spilled v latch line).spillLeft (spilled v latch line).spillRight)
      v latch line where
  left i lt := by
    have colour : leftSprite e.sprites e.side v latch line i =
        Extension.shown (background v latch line (256 - e.side + i))
          (Extension.leftSpill e.side (spilled v latch line).spillLeft i) := by
      rw [leftSprite, display, sprites]
      rfl
    change putRow _ line _ line i =
      if leftSprite e.sprites e.side v latch line i ≠ 0 then v.color (16 + leftSprite e.sprites e.side v latch line i)
      else nativeSample v latch line (256 - e.side + i)
    rw [putRow_self, colour, ← (samples i lt).1]
    exact if_congr (and_iff_right lt) rfl rfl
  right i lt := by
    have colour : rightSprite e.sprites v latch line i =
        Extension.shown (background v latch line i) (Extension.rightSpill (spilled v latch line).spillRight i) := by
      rw [rightSprite, display, sprites]
      rfl
    change putRow _ line _ line i =
      if rightSprite e.sprites v latch line i ≠ 0 then v.color (16 + rightSprite e.sprites v latch line i)
      else nativeSample v latch line i
    rw [putRow_self, colour, ← (samples i lt).2]
    exact if_congr (and_iff_right lt) rfl rfl

theorem row_of_samples (samples : ∀ i < e.side,
      e.workLeft line i = nativeSample v latch line (256 - e.side + i) ∧ e.workRight line i = nativeSample v latch line i)
    (bare : (v.display && e.sprites) = false) : Row e v latch line where
  left i lt := by
    rw [leftSprite, bare, if_neg Bool.false_ne_true, if_neg (not_not_intro rfl)]
    exact (samples i lt).1
  right i lt := by
    rw [rightSprite, bare, if_neg Bool.false_ne_true, if_neg (not_not_intro rfl)]
    exact (samples i lt).2

/-- Drawing a line: an extension that takes part gets the row of the line, unless it refuses it. -/
structure Took (e e' : Extension) (v : Vdp ρ) (latch : Latch) (line : ℕ) : Prop where
  drew : Drew e e' line
  out : refused v = true → e'.okLines = e.okLines
  taken : refused v = false → e'.okLines = e.okLines + 1 ∧ Row e' v latch line

theorem drawBlank_took {r : Renderer δ} (attached : r.ext = some e) (on : e.side ≠ 0) (dark : v.display = false) :
    ∃ e', (r.drawBlank v line).ext = some e' ∧ Took e e' v r.native.latch line := by
  obtain ⟨-, okLines, row⟩ := @emitLine_blank _ e v line
  refine ⟨(e.emitLine v line none).1, ?_, drew_emitLine none, ?_, ?_⟩
  · rw [Renderer.drawBlank, extOn_of_side attached on]
    rfl
  · intro is
    rw [Render.refused, dark] at is
    exact absurd is Bool.false_ne_true
  · intro _
    refine ⟨okLines, row_of_samples ?_ (by rw [dark]; rfl)⟩
    intro i lt
    rw [nativeSample, nativeSample, dark]
    exact row i lt

theorem drawLine_took {r : Renderer δ} (attached : r.ext = some e) (on : e.side ≠ 0) (lit : v.display = true) :
    ∃ e', (r.drawLine v line).1.ext = some e' ∧ Took e e' v r.native.latch line := by
  have refused_iff : refused v = (v.leftBlank || v.vscrollLock) := by rw [refused, lit, Bool.true_and]
  have drew := @drew_emitLine _ e v line (some (background v r.native.latch line))
  have refusal := @emitLine_refused _ e v line (background v r.native.latch line)
  have taking := @emitLine_taken _ e v line (background v r.native.latch line)
  rw [Renderer.drawLine, extOn_of_side attached on]
  simp only [Option.map_some, Option.any_some, Option.elim_some]
  rw [← refused_iff] at refusal taking
  generalize e.emitLine v line (some (background v r.native.latch line)) = taken at drew refusal taking
  cases bad : refused v with
  | true =>
      obtain ⟨out, okLines⟩ := refusal bad
      refine ⟨taken.1, ?_, drew, fun _ => okLines, fun is => ?_⟩
      · rw [out, Bool.false_and, if_neg Bool.false_ne_true]
      · exact absurd (bad.symm.trans is).symm Bool.false_ne_true
  | false =>
      obtain ⟨out, okLines, row⟩ := taking bad
      have samples : ∀ i < taken.1.side,
          taken.1.workLeft line i = nativeSample v r.native.latch line (256 - taken.1.side + i) ∧
            taken.1.workRight line i = nativeSample v r.native.latch line i := by
        intro i lt
        rw [drew.side] at lt ⊢
        rw [nativeSample, nativeSample, lit]
        exact row i lt
      cases sprites : taken.1.sprites with
      | true =>
          refine ⟨taken.1.spillSprites v line (background v r.native.latch line)
            (spilled v r.native.latch line).spillLeft (spilled v r.native.latch line).spillRight, ?_,
            drew.trans (drew_spillSprites _ _ _), fun is => ?_, fun _ => ⟨okLines, ?_⟩⟩
          · rw [out, Bool.and_self, if_pos rfl]
            rfl
          · exact absurd (bad.symm.trans is) Bool.false_ne_true
          · exact row_spillSprites samples lit sprites
      | false =>
          refine ⟨taken.1, ?_, drew, fun is => ?_, fun _ => ⟨okLines, ?_⟩⟩
          · rw [Bool.and_false, if_neg Bool.false_ne_true]
          · exact absurd (bad.symm.trans is) Bool.false_ne_true
          · exact row_of_samples samples (by rw [sprites, Bool.and_false])

theorem drawActive_took {r : Renderer δ} (attached : r.ext = some e) (on : e.side ≠ 0) :
    ∃ e', (r.drawActive v line).1.ext = some e' ∧ Took e e' v r.native.latch line := by
  rw [Renderer.drawActive]
  split_ifs with lit
  · exact drawLine_took attached on lit
  · exact drawBlank_took attached on (Bool.eq_false_iff.mpr lit)

theorem drawActive_off {r : Renderer δ} (attached : r.ext = some e) (off : e.side = 0) :
    (r.drawActive v line).1.ext = some e := by
  have out := extOn_of_zero attached off
  rw [Renderer.drawActive]
  split_ifs
  · rw [Renderer.drawLine, out]
    exact attached
  · rw [Renderer.drawBlank, out]
    exact attached

theorem drawActive_latch (r : Renderer δ) :
    (r.drawActive v line).1.native.latch = r.native.latch ∧
      (r.drawActive v line).1.native.inFrame = r.native.inFrame := by
  rw [Renderer.drawActive]
  split_ifs <;> exact ⟨rfl, rfl⟩

end Segarecomp.Sms.Render

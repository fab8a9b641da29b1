import Segarecomp.Sms.Renderer

/-! What is drawn beside the picture leaves the picture, the records, the flags and the VDP alone. -/

namespace Segarecomp.Sms.Render

variable {ρ δ : Type*} {v : Vdp ρ} {sha : List Byte → δ} {line : ℕ}

/-! ## Sprites -/

/-- Two sprite lines that agree inside the picture. -/
def SpriteLine.Agree (s t : SpriteLine) : Prop := s.color = t.color ∧ s.collision = t.collision

theorem spritePixel_agree (v : Vdp ρ) (spill spill' : Bool) (sx : ℤ) (tile row px : ℕ) {s t : SpriteLine}
    (agree : s.Agree t) : (spritePixel v spill sx tile row s px).Agree (spritePixel v spill' sx tile row t px) := by
  obtain ⟨color, collision⟩ := agree
  rw [spritePixel, spritePixel]
  dsimp only
  by_cases outside : sx + px < 0 ∨ 255 < sx + px
  · -- only the spill slots change here
    rw [if_pos outside, if_pos outside]
    constructor
    · split_ifs <;> exact color
    · split_ifs <;> exact collision
  · rw [if_neg outside, if_neg outside, color]
    split_ifs
    · exact ⟨color, collision⟩
    · exact ⟨rfl, rfl⟩
    · exact ⟨rfl, collision⟩

theorem foldl_agree {α : Type*} {f g : SpriteLine → α → SpriteLine}
    (step : ∀ s t a, s.Agree t → (f s a).Agree (g t a)) (items : List α) {s t : SpriteLine} (agree : s.Agree t) :
    (items.foldl f s).Agree (items.foldl g t) := by
  induction items generalizing s t with
  | nil => exact agree
  | cons a rest ih => exact ih (step s t a agree)

theorem drawSprite_agree (v : Vdp ρ) (spill spill' : Bool) (hit : SpriteHit) {s t : SpriteLine}
    (agree : s.Agree t) : (drawSprite v spill s hit).Agree (drawSprite v spill' t hit) :=
  foldl_agree (fun _ _ px is => spritePixel_agree v spill spill' _ _ _ px is) _ agree

theorem spriteLine_agree (v : Vdp ρ) (spill spill' : Bool) (hits : List SpriteHit) :
    (spriteLine v spill hits).Agree (spriteLine v spill' hits) :=
  foldl_agree (fun _ _ hit is => drawSprite_agree v spill spill' hit is) hits ⟨rfl, rfl⟩

/-! ## Lines -/

variable {r r' : Renderer δ}

theorem drawLine_agree (same : r.native = r'.native) :
    (r.drawLine v line).1.native = (r'.drawLine v line).1.native ∧ (r.drawLine v line).2 = (r'.drawLine v line).2 := by
  rw [Renderer.drawLine, Renderer.drawLine]
  dsimp only
  rw [same]
  obtain ⟨color, collision⟩ := spriteLine_agree v
    ((r.extOn.map fun e => e.emitLine v line (some (background v r'.native.latch line))).any
      fun taken => taken.2 && taken.1.sprites)
    ((r'.extOn.map fun e => e.emitLine v line (some (background v r'.native.latch line))).any
      fun taken => taken.2 && taken.1.sprites)
    (scanSprites v r'.native.latch.tall line (List.range 64) []).1
  rw [color, collision]
  exact ⟨rfl, rfl⟩

theorem drawActive_agree (same : r.native = r'.native) :
    (r.drawActive v line).1.native = (r'.drawActive v line).1.native ∧
      (r.drawActive v line).2 = (r'.drawActive v line).2 := by
  rw [Renderer.drawActive, Renderer.drawActive]
  split_ifs
  · exact drawLine_agree same
  · exact ⟨by rw [Renderer.drawBlank, Renderer.drawBlank, same], rfl⟩

theorem renderLine_agree (same : r.native = r'.native) :
    (r.renderLine sha v line).1.native = (r'.renderLine sha v line).1.native ∧
      (r.renderLine sha v line).2 = (r'.renderLine sha v line).2 := by
  rw [Renderer.renderLine, Renderer.renderLine]
  cases v.activeLines with
  | none => exact ⟨same, rfl⟩
  | some height =>
      dsimp only
      have begun : (r.entered v line height).native = (r'.entered v line height).native := by
        rw [Renderer.entered, Renderer.entered]
        split_ifs
        · rw [Renderer.beginFrame, Renderer.beginFrame, same]
        · exact same
      generalize r.entered v line height = b at begun
      generalize r'.entered v line height = b' at begun
      rw [begun]
      by_cases idle : b'.native.inFrame = false ∨ b'.native.latch.height ≤ line
      · rw [if_pos idle, if_pos idle]
        exact ⟨begun, rfl⟩
      · rw [if_neg idle, if_neg idle]
        obtain ⟨native, vdp⟩ := @drawActive_agree _ _ v line _ _ begun
        rw [native, vdp]
        split_ifs
        · constructor
          · rw [Renderer.finishFrame, Renderer.finishFrame, native]
          · rfl
        · exact ⟨native, vdp⟩

/-! ## Runs -/

theorem run_agree (events : List (Event ρ)) {m m' : Machine ρ δ} (native : m.renderer.native = m'.renderer.native)
    (vdp : m.vdp = m'.vdp) :
    (m.run sha events).renderer.native = (m'.run sha events).renderer.native ∧
      (m.run sha events).vdp = (m'.run sha events).vdp := by
  induction events generalizing m m' with
  | nil => exact ⟨native, vdp⟩
  | cons event rest ih =>
      cases event with
      | vdp change => exact ih native (congrArg change vdp)
      | line line =>
          obtain ⟨drawn, flagged⟩ := @renderLine_agree _ _ m'.vdp sha line _ _ native
          rw [← vdp] at drawn flagged
          apply ih
          · rw [Machine.step, Machine.step, ← vdp]
            exact drawn
          · rw [Machine.step, Machine.step, ← vdp]
            exact flagged
      | request side192 side224 sprites => exact ih native vdp

end Segarecomp.Sms.Render

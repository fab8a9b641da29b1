import Segarecomp.Sms.RendererWrapped

/-! Frames over whole runs: a published WRAPPED frame repeats its picture when no line is drawn twice in a
frame. -/

namespace Segarecomp.Sms.Render

variable {ρ δ : Type*}

/-! ## The lines of a frame -/

/-- The lines drawn since line 0 with the VDP each was drawn from, and those of the last completed frame
with what that frame latched. -/
structure Film (ρ : Type*) where
  drawn : List (ℕ × Vdp ρ)
  shown : List (ℕ × Vdp ρ)
  latch : Latch

/-- The latch under which a scanline event draws its line, when it does. -/
def Machine.draws (m : Machine ρ δ) (line : ℕ) : Option Latch :=
  m.vdp.activeLines.bind fun height =>
    let native := (m.renderer.entered m.vdp line height).native
    if native.inFrame = false ∨ native.latch.height ≤ line then none else some native.latch

/-- The lines of the frame that a line belongs to, before it. -/
def Film.before (film : Film ρ) (line : ℕ) : List (ℕ × Vdp ρ) := if line = 0 then [] else film.drawn

def Film.draw (film : Film ρ) (v : Vdp ρ) (line : ℕ) (latch : Latch) : Film ρ :=
  let drawn := film.before line ++ [(line, v)]
  if line + 1 = latch.height then ⟨drawn, drawn, latch⟩ else { film with drawn := drawn }

def Film.step (film : Film ρ) (m : Machine ρ δ) : Event ρ → Film ρ
  | .line line => (m.draws line).elim film (film.draw m.vdp line)
  | _ => film

def Film.run (sha : List Byte → δ) (film : Film ρ) (m : Machine ρ δ) : List (Event ρ) → Film ρ
  | [] => film
  | event :: rest => (film.step m event).run sha (m.step sha event) rest

/-- The event does not draw a line that is already drawn in the frame in progress. -/
def Film.Fresh (film : Film ρ) (m : Machine ρ δ) : Event ρ → Prop
  | .line line => m.draws line ≠ none → line ∉ (film.before line).map Prod.fst
  | _ => True

/-- No line is drawn twice in a frame of the run. -/
def Film.Once (sha : List Byte → δ) (film : Film ρ) (m : Machine ρ δ) : List (Event ρ) → Prop
  | [] => True
  | event :: rest => film.Fresh m event ∧ (film.step m event).Once sha (m.step sha event) rest

/-! ## The frame in progress -/

variable {e e' : Extension} {v : Vdp ρ} {latch : Latch} {line n : ℕ} {drawn : List (ℕ × Vdp ρ)}

structure InProgress (e : Extension) (latch : Latch) (drawn : List (ℕ × Vdp ρ)) : Prop where
  rows : ∀ p ∈ drawn, refused p.2 = false → Row e p.2 latch p.1
  count : e.okLines = (drawn.filter fun p => !refused p.2).length
  different : (drawn.map Prod.fst).Nodup
  inside : ∀ p ∈ drawn, p.1 < latch.height

theorem InProgress.begin (height : ℕ) (latch : Latch) : InProgress (ρ := ρ) (e.beginFrame height) latch [] where
  rows _ is := absurd is List.not_mem_nil
  count := rfl
  different := List.nodup_nil
  inside _ is := absurd is List.not_mem_nil

theorem InProgress.draw (progress : InProgress e latch drawn) (took : Took e e' v latch line)
    (new : line ∉ drawn.map Prod.fst) (lt : line < latch.height) : InProgress e' latch (drawn ++ [(line, v)]) where
  rows p is accepted := by
    rcases List.mem_append.mp is with old | last
    · have other : p.1 ≠ line := fun same => new (same ▸ List.mem_map_of_mem old)
      exact took.drew.row other (progress.rows p old accepted)
    · cases List.mem_singleton.mp last
      exact (took.taken accepted).2
  count := by
    rw [List.filter_append, List.length_append, ← progress.count]
    cases accepted : refused v with
    | true =>
        rw [took.out accepted]
        simp [accepted]
    | false =>
        rw [(took.taken accepted).1]
        simp [accepted]
  different := by
    rw [List.map_append, List.nodup_append]
    refine ⟨progress.different, List.nodup_singleton _, ?_⟩
    intro a old b last
    rw [List.mem_singleton.mp last]
    rintro rfl
    exact new old
  inside p is := by
    rcases List.mem_append.mp is with old | last
    · exact progress.inside p old
    · cases List.mem_singleton.mp last
      exact lt

/-- As many accepted lines as the frame has lines are all its lines. -/
theorem InProgress.complete (progress : InProgress e latch drawn) (full : e.okLines = latch.height) (lt : n < latch.height) :
    ∃ v, (n, v) ∈ drawn ∧ refused v = false := by
  have part : ((drawn.filter fun p => !refused p.2).map Prod.fst).Sublist (drawn.map Prod.fst) :=
    List.filter_sublist.map Prod.fst
  have subset : (drawn.filter fun p => !refused p.2).map Prod.fst ⊆ List.range latch.height := by
    intro k is
    obtain ⟨p, member, rfl⟩ := List.mem_map.mp is
    exact List.mem_range.mpr (progress.inside p (List.mem_of_mem_filter member))
  have many : (List.range latch.height).length ≤ ((drawn.filter fun p => !refused p.2).map Prod.fst).length := by
    rw [List.length_range, List.length_map, ← progress.count, full]
  have all := ((progress.different.sublist part).subperm subset).perm_of_length_le many
  obtain ⟨p, member, rfl⟩ := List.mem_map.mp (all.mem_iff.mpr (List.mem_range.mpr lt))
  obtain ⟨drew, accepted⟩ := List.mem_filter.mp member
  exact ⟨p.2, drew, by simpa using accepted⟩

/-! ## The published frame -/

/-- The published columns of a line. -/
structure Published (e : Extension) (v : Vdp ρ) (latch : Latch) (line : ℕ) : Prop where
  left : ∀ i < e.result.side, e.left line i =
    if leftSprite e.result.sprites e.result.side v latch line i ≠ 0 then
      v.color (16 + leftSprite e.result.sprites e.result.side v latch line i)
    else nativeSample v latch line (256 - e.result.side + i)
  right : ∀ i < e.result.side, e.right line i =
    if rightSprite e.result.sprites v latch line i ≠ 0 then
      v.color (16 + rightSprite e.result.sprites v latch line i)
    else nativeSample v latch line i

/-- A WRAPPED result has every line of its frame. -/
structure Wrapped (e : Extension) (film : Film ρ) : Prop where
  height : e.result.height = film.latch.height
  side : e.result.side ≤ EXT_MAX_SIDE
  lines : ∀ n < film.latch.height, ∃ v, (n, v) ∈ film.shown ∧ refused v = false ∧ Published e v film.latch n

/-- The extension follows the film. -/
structure Follows (r : Renderer δ) (film : Film ρ) (e : Extension) : Prop where
  attached : r.ext = some e
  side : e.side ≤ EXT_MAX_SIDE
  progress : r.native.inFrame = true → e.side ≠ 0 → InProgress e r.native.latch film.drawn
  wrapped : e.result.cls = .wrapped → Wrapped e film

theorem latched_le (want : ℕ) : (if decide (EXT_MAX_SIDE < want) = true then 0 else want) ≤ EXT_MAX_SIDE := by
  split_ifs with large
  · exact Nat.zero_le _
  · rw [decide_eq_true_iff] at large
    omega

theorem side_beginFrame_le (height : ℕ) : (e.beginFrame height).side ≤ EXT_MAX_SIDE := latched_le _

theorem wrapped_of_finishFrame {sequence height : ℕ} (wrapped : (e.finishFrame sequence height).result.cls = .wrapped) :
    e.side ≠ 0 ∧ e.okLines = height ∧ (e.finishFrame sequence height).result.height = height ∧
      (e.finishFrame sequence height).result.side = e.side ∧
      (e.finishFrame sequence height).result.sprites = e.sprites ∧
      (e.finishFrame sequence height).left = e.workLeft ∧ (e.finishFrame sequence height).right = e.workRight := by
  rw [Extension.finishFrame] at wrapped ⊢
  by_cases fail : e.geometryFail = true
  · rw [if_pos fail] at wrapped
    cases wrapped
  · by_cases off : e.side = 0
    · rw [if_neg fail, if_pos off] at wrapped
      cases wrapped
    · by_cases full : e.okLines = height
      · rw [if_neg fail, if_neg off, if_pos full]
        exact ⟨off, full, rfl, rfl, rfl, rfl, rfl⟩
      · rw [if_neg fail, if_neg off, if_neg full] at wrapped
        cases wrapped

theorem finishFrame_keeps (sequence height : ℕ) : (e.finishFrame sequence height).side = e.side := by
  rw [Extension.finishFrame]
  split_ifs <;> rfl

theorem active_pos {height : ℕ} (is : v.activeLines = some height) : 0 < height := by
  rw [Vdp.activeLines] at is
  split_ifs at is <;> cases is <;> decide

theorem Wrapped.congr {film film' : Film ρ} (wrapped : Wrapped e film) (result : e'.result = e.result)
    (left : e'.left = e.left) (right : e'.right = e.right) (shown : film'.shown = film.shown)
    (latch : film'.latch = film.latch) : Wrapped e' film' where
  height := by rw [result, latch, wrapped.height]
  side := by rw [result]; exact wrapped.side
  lines n lt := by
    rw [latch] at lt
    obtain ⟨v, member, accepted, published⟩ := wrapped.lines n lt
    refine ⟨v, by rwa [shown], accepted, ?_⟩
    constructor
    · rw [result, left, latch]
      exact published.left
    · rw [result, right, latch]
      exact published.right

/-! ## Steps -/

/-- An extension that differs in its request and its statistics only. -/
structure SameWork (e e' : Extension) : Prop where
  side : e'.side = e.side
  sprites : e'.sprites = e.sprites
  okLines : e'.okLines = e.okLines
  workLeft : e'.workLeft = e.workLeft
  workRight : e'.workRight = e.workRight
  result : e'.result = e.result
  left : e'.left = e.left
  right : e'.right = e.right

theorem InProgress.congr (progress : InProgress e latch drawn) (same : SameWork e e') : InProgress e' latch drawn where
  rows p is accepted := by
    have row := progress.rows p is accepted
    constructor
    · rw [same.side, same.sprites, same.workLeft]
      exact row.left
    · rw [same.side, same.sprites, same.workRight]
      exact row.right
  count := same.okLines.trans progress.count
  different := progress.different
  inside := progress.inside

theorem Follows.congr {r r' : Renderer δ} {film : Film ρ} (follows : Follows r film e) (same : SameWork e e')
    (native : r'.native = r.native) (attached : r'.ext = some e') : Follows r' film e' where
  attached := attached
  side := by
    rw [same.side]
    exact follows.side
  progress in_frame on := by
    rw [native] at in_frame ⊢
    rw [same.side] at on
    exact (follows.progress in_frame on).congr same
  wrapped is := by
    rw [same.result] at is
    exact (follows.wrapped is).congr same.result same.left same.right rfl rfl

variable {r : Renderer δ} {film : Film ρ}

/-- The renderer that a line finds: after line 0 nothing of the frame is drawn. -/
structure Ready (r : Renderer δ) (film : Film ρ) (line : ℕ) (e : Extension) : Prop where
  attached : r.ext = some e
  side : e.side ≤ EXT_MAX_SIDE
  progress : e.side ≠ 0 → InProgress e r.native.latch (film.before line)
  wrapped : e.result.cls = .wrapped → Wrapped e film

theorem Follows.entered {height : ℕ} (follows : Follows r film e)
    (active : (r.entered v line height).native.inFrame = true) : ∃ e', Ready (r.entered v line height) film line e' := by
  rw [Renderer.entered] at active ⊢
  by_cases first : line = 0
  · rw [if_pos first]
    refine ⟨e.beginFrame height, ?_, side_beginFrame_le height, fun _ => ?_, fun is => ?_⟩
    · rw [Renderer.beginFrame, follows.attached]
      rfl
    · rw [Film.before, if_pos first]
      exact InProgress.begin height _
    · exact (follows.wrapped is).congr rfl rfl rfl rfl rfl
  · rw [if_neg first] at active ⊢
    refine ⟨e, follows.attached, follows.side, fun on => ?_, follows.wrapped⟩
    rw [Film.before, if_neg first]
    exact follows.progress active on

theorem Ready.draw (ready : Ready r film line e) (new : line ∉ (film.before line).map Prod.fst)
    (lt : line < r.native.latch.height) :
    ∃ e', (r.drawActive v line).1.ext = some e' ∧ e'.side ≤ EXT_MAX_SIDE ∧
      (e'.side ≠ 0 → InProgress e' r.native.latch (film.before line ++ [(line, v)])) ∧
      (e'.result.cls = .wrapped → Wrapped e' film) := by
  by_cases off : e.side = 0
  · exact ⟨e, drawActive_off ready.attached off, ready.side, fun on => absurd off on, ready.wrapped⟩
  · obtain ⟨e', attached, took⟩ := @drawActive_took _ _ e v line r ready.attached off
    have drew := took.drew
    refine ⟨e', attached, by rw [drew.side]; exact ready.side, fun _ => ?_, fun is => ?_⟩
    · exact (ready.progress off).draw took new lt
    · rw [drew.result] at is
      exact (ready.wrapped is).congr drew.result drew.left drew.right rfl rfl

theorem published_of_row {sequence height : ℕ} (row : Row e v latch n)
    (wrapped : (e.finishFrame sequence height).result.cls = .wrapped) :
    Published (e.finishFrame sequence height) v latch n := by
  obtain ⟨-, -, -, side, sprites, left, right⟩ := wrapped_of_finishFrame wrapped
  constructor
  · rw [side, sprites, left]
    exact row.left
  · rw [side, sprites, right]
    exact row.right

/-- A completed frame is published with all its lines. -/
theorem wrapped_finished {sequence : ℕ} (bound : e.side ≤ EXT_MAX_SIDE)
    (progress : e.side ≠ 0 → InProgress e latch drawn)
    (wrapped : (e.finishFrame sequence latch.height).result.cls = .wrapped) :
    Wrapped (e.finishFrame sequence latch.height) ⟨drawn, drawn, latch⟩ := by
  obtain ⟨on, full, height, side, -, -, -⟩ := wrapped_of_finishFrame wrapped
  refine ⟨height, by rw [side]; exact bound, fun n lt => ?_⟩
  obtain ⟨v, member, accepted⟩ := (progress on).complete full lt
  exact ⟨v, member, accepted, published_of_row ((progress on).rows _ member accepted) wrapped⟩

theorem Ready.rendered {sha : List Byte → δ} (ready : Ready r film line e) (new : line ∉ (film.before line).map Prod.fst)
    (lt : line < r.native.latch.height) :
    ∃ e', Follows
      (if line + 1 = (r.drawActive v line).1.native.latch.height then
        ((r.drawActive v line).1.finishFrame sha (r.drawActive v line).2, (r.drawActive v line).2)
        else r.drawActive v line).1
      (film.draw v line r.native.latch) e' := by
  obtain ⟨e', attached, side, progress, wrapped⟩ := @Ready.draw _ _ e v line r film ready new lt
  have latch := (@drawActive_latch _ _ v line r).1
  rw [latch, Film.draw]
  by_cases last : line + 1 = r.native.latch.height
  · rw [if_pos last, if_pos last]
    refine ⟨e'.finishFrame ((r.drawActive v line).1.native.framesCompleted + 1) r.native.latch.height, ?_, ?_, ?_, ?_⟩
    · rw [Renderer.finishFrame, attached, latch]
      rfl
    · rw [finishFrame_keeps]
      exact side
    · intro again
      exact absurd again Bool.false_ne_true
    · exact wrapped_finished side progress
  · rw [if_neg last, if_neg last]
    refine ⟨e', attached, side, fun _ on => ?_, fun is => (wrapped is).congr rfl rfl rfl rfl rfl⟩
    rw [latch]
    exact progress on

variable {m : Machine ρ δ} {sha : List Byte → δ}

theorem Follows.scanline (follows : Follows m.renderer film e) (fresh : film.Fresh m (.line line)) :
    ∃ e', Follows (m.renderer.renderLine sha m.vdp line).1 (film.step m (.line line)) e' := by
  rw [Renderer.renderLine, Film.step]
  rw [Film.Fresh, Machine.draws] at fresh
  rw [Machine.draws]
  cases mode : m.vdp.activeLines with
  | none =>
      have same : SameWork e (e.countUnsupported line) := by
        rw [Extension.countUnsupported]
        split_ifs <;> exact ⟨rfl, rfl, rfl, rfl, rfl, rfl, rfl, rfl⟩
      refine ⟨e.countUnsupported line, follows.congr same rfl ?_⟩
      change m.renderer.ext.map _ = _
      rw [follows.attached]
      rfl
  | some height =>
      rw [mode] at fresh
      dsimp only [Option.bind_some] at fresh ⊢
      by_cases idle : (m.renderer.entered m.vdp line height).native.inFrame = false ∨
          (m.renderer.entered m.vdp line height).native.latch.height ≤ line
      · have later : line ≠ 0 := by
          rintro rfl
          have pos := active_pos mode
          rw [Renderer.entered, if_pos rfl] at idle
          rcases idle with out | past
          · exact absurd out.symm Bool.false_ne_true
          · exact absurd past (Nat.not_le_of_lt pos)
        rw [if_pos idle, if_pos idle, Renderer.entered, if_neg later]
        exact ⟨e, follows⟩
      · rw [if_neg idle] at fresh
        rw [if_neg idle, if_neg idle]
        obtain ⟨inside, lt⟩ := not_or.mp idle
        have active : (m.renderer.entered m.vdp line height).native.inFrame = true := by
          rwa [Bool.not_eq_false] at inside
        obtain ⟨e', ready⟩ := follows.entered active
        exact ready.rendered (fresh (Option.some_ne_none _)) (Nat.lt_of_not_le lt)

theorem Follows.step {event : Event ρ} (follows : Follows m.renderer film e) (fresh : film.Fresh m event) :
    ∃ e', Follows (m.step sha event).renderer (film.step m event) e' := by
  cases event with
  | vdp change => exact ⟨e, follows⟩
  | line line => exact follows.scanline fresh
  | request side192 side224 sprites =>
      refine ⟨{ e with requestSide192 := side192, requestSide224 := side224, requestSprites := sprites }, ?_⟩
      refine follows.congr ⟨rfl, rfl, rfl, rfl, rfl, rfl, rfl, rfl⟩ rfl ?_
      change m.renderer.ext.map _ = _
      rw [follows.attached]
      rfl

theorem Follows.run (events : List (Event ρ)) {m : Machine ρ δ} {film : Film ρ} {e : Extension}
    (follows : Follows m.renderer film e) (once : film.Once sha m events) :
    ∃ e', Follows (m.run sha events).renderer (film.run sha m events) e' := by
  induction events generalizing m film e with
  | nil => exact ⟨e, follows⟩
  | cons event rest ih =>
      obtain ⟨fresh, later⟩ := once
      obtain ⟨e', next⟩ := @Follows.step _ _ _ _ m sha event follows fresh
      exact ih next later

/-! ## Runs -/

def Film.start : Film ρ := ⟨[], [], ⟨0, 0⟩⟩

/-- A renderer at power on, beside which the extension is attached or not. -/
def Machine.start (capacity : ℕ) (ext : Option Extension) (v : Vdp ρ) : Machine ρ δ := ⟨⟨Native.init capacity, ext⟩, v⟩

theorem start_follows (capacity : ℕ) (v : Vdp ρ) (e : Extension) :
    Follows (Machine.start (δ := δ) capacity (some e.reset) v).renderer (Film.start (ρ := ρ)) e.reset where
  attached := rfl
  side := Nat.zero_le _
  progress active _ := absurd (active : false = true) Bool.false_ne_true
  wrapped is := by cases is

/-- A screen column that the published extension has. -/
def Outside (e : Extension) (x : ℤ) : Prop :=
  -(e.result.side : ℤ) ≤ x ∧ x < 0 ∨ 256 ≤ x ∧ x < 256 + e.result.side

def columnAt (e : Extension) (line : ℕ) (x : ℤ) : Byte :=
  if x < 0 then e.left line (x + e.result.side).toNat else e.right line (x - 256).toNat

/-- The sprite colour that stands at a column, 0 for a background pixel. -/
def spriteAt (e : Extension) (v : Vdp ρ) (latch : Latch) (line : ℕ) (x : ℤ) : ℕ :=
  if x < 0 then leftSprite e.result.sprites e.result.side v latch line (x + e.result.side).toNat
  else rightSprite e.result.sprites v latch line (x - 256).toNat

theorem Published.column (published : Published e v latch n) (narrow : e.result.side ≤ EXT_MAX_SIDE) {x : ℤ}
    (outside : Outside e x) :
    columnAt e n x =
      if spriteAt e v latch n x ≠ 0 then v.color (16 + spriteAt e v latch n x)
      else nativeSample v latch n (x % 256).toNat := by
  have most : e.result.side ≤ 80 := narrow
  rw [columnAt, spriteAt]
  rcases outside with ⟨lower, left⟩ | ⟨right, upper⟩
  · have inside : (x + e.result.side).toNat < e.result.side := by omega
    have source : 256 - e.result.side + (x + e.result.side).toNat = (x % 256).toNat := by omega
    rw [if_pos left, if_pos left, published.left _ inside, source]
  · have inside : (x - 256).toNat < e.result.side := by omega
    have source : (x - 256).toNat = (x % 256).toNat := by omega
    have later : ¬ x < 0 := by omega
    rw [if_neg later, if_neg later, published.right _ inside, source]

/-- Rendering with an extension leaves the picture, the records, the flags and the VDP as rendering without
one, whatever is requested and whenever. Where no line is drawn twice in a frame, a WRAPPED result has at
every column the native background sample of its line one screen width away, but where a sprite stands. -/
theorem extension_apart (sha : List Byte → δ) (capacity : ℕ) (v : Vdp ρ) (e : Extension) (events : List (Event ρ)) :
    ((Machine.start capacity (some e.reset) v).run sha events).renderer.native =
        ((Machine.start capacity none v).run sha events).renderer.native ∧
      ((Machine.start capacity (some e.reset) v).run sha events).vdp =
        ((Machine.start capacity none v).run sha events).vdp ∧
      (Film.start.Once sha (Machine.start capacity (some e.reset) v) events →
        ∀ e', ((Machine.start capacity (some e.reset) v).run sha events).renderer.ext = some e' →
          e'.result.cls = .wrapped → ∀ line < e'.result.height,
            ∃ w, (line, w) ∈ (Film.start.run sha (Machine.start capacity (some e.reset) v) events).shown ∧
              ∀ x, Outside e' x →
                columnAt e' line x =
                  if spriteAt e' w (Film.start.run sha (Machine.start capacity (some e.reset) v) events).latch line x ≠ 0
                  then w.color (16 +
                    spriteAt e' w (Film.start.run sha (Machine.start capacity (some e.reset) v) events).latch line x)
                  else nativeSample w (Film.start.run sha (Machine.start capacity (some e.reset) v) events).latch line
                    (x % 256).toNat) := by
  obtain ⟨native, vdp⟩ := @run_agree _ _ sha events (Machine.start capacity (some e.reset) v)
    (Machine.start capacity none v) rfl rfl
  refine ⟨native, vdp, fun once e' attached is line lt => ?_⟩
  obtain ⟨last, follows⟩ := (start_follows capacity v e).run events once
  cases Option.some.inj (follows.attached.symm.trans attached)
  have wrapped := follows.wrapped is
  rw [wrapped.height] at lt
  obtain ⟨w, member, -, published⟩ := wrapped.lines line lt
  exact ⟨w, member, fun x outside => published.column wrapped.side outside⟩

/-! ## A frame that is torn -/

/-- A VDP with a white backdrop and the display off. -/
def whiteVdp (mode : Byte) : Vdp Unit where
  vram _ := 0
  cram _ := 0x3F
  reg i := if i = 0 then mode else 0
  frame := 0
  traceCount := 0
  spriteOverflow := false
  spriteCollision := false
  rest := ()

def blankExtension : Extension where
  requestSide192 := 0
  requestSide224 := 0
  requestSprites := false
  side := 0
  sprites := false
  workSpritePixels := 0
  okLines := 0
  geometryFail := false
  firstReason := .none
  workLeft _ _ := 0
  workRight _ _ := 0
  result := ⟨0, 0, 0, .none, .none, false, 0⟩
  left _ _ := 0
  right _ _ := 0
  unsupportedFrames := 0

def scanlines (start stop : ℕ) : List (Event Unit) := (List.range' start (stop - start)).map .line

def modeTo (mode : Byte) : Event Unit := .vdp fun _ => whiteVdp mode

/-- A whole frame; then, with 8 columns requested, ten lines, an unsupported mode until line 5 of the next
frame and again from line 100 to line 104: 192 lines are drawn, five of them twice. -/
def tornEvents : List (Event Unit) :=
  scanlines 0 192 ++ [.request 8 0 false] ++ scanlines 0 10 ++ [modeTo 0] ++ scanlines 10 192 ++ scanlines 0 5 ++
    [modeTo 4] ++ scanlines 5 100 ++ [modeTo 0] ++ scanlines 100 105 ++ [modeTo 4] ++ scanlines 105 192

def tornRun : Machine Unit Unit :=
  (Machine.start 0 (some blankExtension.reset) (whiteVdp 4)).run (fun _ => ()) tornEvents

set_option maxRecDepth 100000 in
/-- The result is WRAPPED, and line 100 is black beside the white picture. -/
theorem torn_frame_wrapped :
    (tornRun.renderer.ext.map fun e => (e.result.cls, e.result.side, columnAt e 100 (-8))) = some (.wrapped, 8, 0) ∧
      tornRun.renderer.native.pixels (100 * 256 + 248) = 0x3F ∧
      ∀ latch, nativeSample (whiteVdp 4) latch 100 248 = 0x3F := by
  refine ⟨?_, ?_, fun latch => rfl⟩
  · decide +kernel
  · decide +kernel

end Segarecomp.Sms.Render

import Segarecomp.SegaCd.Input

/-! The text of a valid list of events parses back to it. -/

namespace Segarecomp.SegaCd.Input

open Segarecomp.Lib.Lines

/-! ## Fields -/

theorem digit_digitChar {d : ℕ} (h : d < 10) : digit d.digitChar = d := by
  revert d
  decide

theorem toDigits_plain (n : ℕ) : ∀ c ∈ Nat.toDigits 10 n, c.isAlphanum = true := by
  intro c mem
  have digit := Nat.isDigit_of_mem_toDigits (by decide) le_rfl mem
  rw [Char.isAlphanum, digit, Bool.or_true]

theorem portText_plain (port : Port) : ∀ c ∈ portText port, c.isAlphanum = true := by
  apply List.all_eq_true.mp
  cases port <;> rfl

theorem actionText_plain (press : Bool) : ∀ c ∈ actionText press, c.isAlphanum = true := by
  apply List.all_eq_true.mp
  cases press <;> rfl

theorem maskNames_plain (mask : Byte) :
    ∀ name ∈ maskNames mask, ∀ c ∈ name, c.isAlphanum = true := by
  intro name mem
  obtain ⟨button, present, rfl⟩ := List.mem_map.mp mem
  have all : (scdInputButtons.all fun b => b.1.all Char.isAlphanum) = true := by rfl
  exact List.all_eq_true.mp (List.all_eq_true.mp all button (List.mem_of_mem_filter present))

theorem maskNames_ne_nil {mask : Byte} (h : mask ≠ 0) : maskNames mask ≠ [] := by
  revert mask
  decide +kernel

theorem addButton_names (mask : Byte) : (maskNames mask).foldlM addButton 0 = .ok mask := by
  revert mask
  decide +kernel

theorem scdInputTickFrom_append {s : List Char} {v w : ℕ} (t : List Char)
    (h : scdInputTickFrom v s = .ok w) : scdInputTickFrom v (s ++ t) = scdInputTickFrom w t := by
  induction s generalizing v with
  | nil =>
      cases h
      rfl
  | cons c s ih =>
      rw [scdInputTickFrom] at h
      rw [List.cons_append, scdInputTickFrom]
      split at h
      · cases h
      · next low =>
          split at h
          · cases h
          · next room =>
              rw [if_neg low, if_neg room]
              exact ih h

theorem scdInputTickFrom_digit {v d : ℕ} (h : d < 10) (range : v * 10 + d ≤ tickMax) :
    scdInputTickFrom v [d.digitChar] = .ok (v * 10 + d) := by
  have room : ¬v > (tickMax - d) / 10 := by
    rw [Nat.not_lt, Nat.le_div_iff_mul_le (by decide)]
    omega
  rw [scdInputTickFrom, digit_digitChar h, if_neg (by omega), if_neg room, scdInputTickFrom]

theorem scdInputTickFrom_toDigits {n : ℕ} (range : n ≤ tickMax) :
    scdInputTickFrom 0 (Nat.toDigits 10 n) = .ok n := by
  induction n using Nat.strong_induction_on with
  | _ n ih =>
      rcases Nat.lt_or_ge n 10 with small | large
      · rw [Nat.toDigits_of_lt_base small, scdInputTickFrom_digit small (by omega), Nat.zero_mul,
          Nat.zero_add]
      · have split := Nat.div_add_mod' n 10
        have high := ih (n / 10) (by omega) (by omega)
        have low := scdInputTickFrom_digit (Nat.mod_lt n (by decide)) (split.trans_le range)
        rw [split] at low
        rw [Nat.toDigits_of_base_le (by decide) large, scdInputTickFrom_append _ high]
        exact low

theorem scdInputTick_toDigits {n : ℕ} (range : n ≤ tickMax) :
    scdInputTick (Nat.toDigits 10 n) = .ok n := by
  rw [scdInputTick, if_neg Nat.toDigits_ne_nil, scdInputTickFrom_toDigits range]

theorem parsePort_portText (port : Port) : parsePort (portText port) = .ok port := by
  cases port <;> rfl

theorem parseAction_actionText (press : Bool) : parseAction (actionText press) = .ok press := by
  cases press <;> rfl

def maskText (mask : Byte) : List Char := [','].intercalate (maskNames mask)

theorem scdInputMask_maskText {mask : Byte} (h : mask ≠ 0) :
    scdInputMask (maskText mask) = .ok mask := by
  have split : (maskText mask).splitOn ',' = maskNames mask :=
    List.splitOn_intercalate ',' (fun name mem => not_mem_field (maskNames_plain mask name mem) rfl)
      (maskNames_ne_nil h)
  rw [scdInputMask, split, addButton_names]

/-! ## Lines -/

/-- The line of an event, without its line feed. -/
def eventLine (e : ScdInputEvent) : List Char :=
  [' '].intercalate
    [Nat.toDigits 10 e.tick, portText e.port, actionText e.press, maskText e.mask]

theorem scdInputFormat_eq (e : ScdInputEvent) : scdInputFormat e = eventLine e ++ ['\n'] := by
  simp [scdInputFormat, eventLine, maskText]

theorem mem_maskText {mask : Byte} {c : Char} (h : c ∈ maskText mask) :
    c.isAlphanum = true ∨ c = ',' := by
  rcases mem_intercalate h with comma | ⟨name, present, mem⟩
  · exact .inr comma
  · exact .inl (maskNames_plain mask name present c mem)

theorem mem_eventLine {e : ScdInputEvent} {c : Char} (h : c ∈ eventLine e) :
    c.isAlphanum = true ∨ c = ' ' ∨ c = ',' := by
  rcases mem_intercalate h with space | ⟨field, present, mem⟩
  · exact .inr (.inl space)
  · simp only [List.mem_cons, List.not_mem_nil, or_false] at present
    rcases present with rfl | rfl | rfl | rfl
    · exact .inl (toDigits_plain _ c mem)
    · exact .inl (portText_plain _ c mem)
    · exact .inl (actionText_plain _ c mem)
    · exact (mem_maskText mem).imp_right .inr

theorem not_mem_eventLine (sep : Char) (e : ScdInputEvent) (h : sep.isAlphanum = false)
    (space : sep ≠ ' ') (comma : sep ≠ ',') : sep ∉ eventLine e := by
  intro mem
  rcases mem_eventLine mem with plain | rfl | rfl
  · rw [h] at plain
    cases plain
  · exact space rfl
  · exact comma rfl

theorem maskText_length : ∀ mask : Byte, (maskText mask).length ≤ 30 := by
  decide +kernel

theorem eventLine_length {e : ScdInputEvent} (range : e.tick ≤ tickMax) :
    (eventLine e).length ≤ 60 := by
  have tick : (Nat.toDigits 10 e.tick).length ≤ 19 := by
    apply Nat.toDigits_length _ _ _ (by decide)
    exact range.trans_lt (by decide)
  have port : (portText e.port).length = 1 := by cases e.port <;> rfl
  have action : (actionText e.press).length ≤ 7 := by cases e.press <;> decide
  have mask := maskText_length e.mask
  simp only [eventLine, List.intercalate_cons_cons, List.intercalate_singleton,
    List.length_append, List.length_singleton]
  omega

theorem parseEvent_eventLine {e : ScdInputEvent} (button : e.mask ≠ 0) (range : e.tick ≤ tickMax) :
    parseEvent (eventLine e) = .ok e := by
  have fields : (eventLine e).splitOn ' ' =
      [Nat.toDigits 10 e.tick, portText e.port, actionText e.press, maskText e.mask] := by
    apply List.splitOn_intercalate
    · intro field mem
      simp only [List.mem_cons, List.not_mem_nil, or_false] at mem
      rcases mem with rfl | rfl | rfl | rfl
      · exact not_mem_field (toDigits_plain _) rfl
      · exact not_mem_field (portText_plain _) rfl
      · exact not_mem_field (actionText_plain _) rfl
      · intro space
        rcases mem_maskText space with plain | comma
        · cases plain
        · cases comma
    · exact List.cons_ne_nil _ _
  have port : portText e.port ≠ [] := by cases e.port <;> decide
  have action : actionText e.press ≠ [] := by cases e.press <;> decide
  have mask : maskText e.mask ≠ [] := by
    intro empty
    have read := scdInputMask_maskText button
    rw [empty] at read
    cases read
  rw [parseEvent, fields]
  simp only [Nat.toDigits_ne_nil, port, action, mask, or_self, if_false,
    scdInputTick_toDigits range, parsePort_portText, parseAction_actionText,
    scdInputMask_maskText button, bind, Except.bind, pure, Except.pure]

theorem eventLine_ne_nil (e : ScdInputEvent) : eventLine e ≠ [] := by
  have tick := Nat.toDigits_ne_nil (n := e.tick) (b := 10)
  simp [eventLine, List.intercalate_cons_cons, tick]

theorem stripReturn_eventLine (e : ScdInputEvent) : stripReturn (eventLine e) = eventLine e := by
  rw [stripReturn, if_neg]
  intro last
  exact not_mem_eventLine '\r' e rfl (by decide) (by decide) (List.mem_of_getLast? last)

theorem parseLine_eventLine {st : ParseState} {e : ScdInputEvent} (button : e.mask ≠ 0)
    (range : e.tick ≤ tickMax) (open_ : st.haveHeader = true) :
    parseLine st (eventLine e) = checkEvent st e := by
  have short : ¬(eventLine e).length > SCD_INPUT_MAX_LINE := by
    have := eventLine_length range
    unfold SCD_INPUT_MAX_LINE
    omega
  have event : ¬(eventLine e = [] ∨ (eventLine e).head? = some '#') := by
    intro h
    rcases h with empty | comment
    · exact eventLine_ne_nil e empty
    · exact not_mem_eventLine '#' e rfl (by decide) (by decide)
        (List.mem_of_head? comment)
  rw [parseLine, stripReturn_eventLine, if_neg short, if_neg event, if_neg (by simp [open_]),
    parseEvent_eventLine button range]

theorem scriptText_lines (events : List ScdInputEvent) :
    scriptText events = (header :: events.map eventLine).flatMap (· ++ ['\n']) := by
  rw [scriptText, List.flatMap_cons, List.flatMap_map]
  congr 1
  exact List.flatMap_congr fun e _ => scdInputFormat_eq e

theorem lines_scriptText (events : List ScdInputEvent) :
    lines (scriptText events) = header :: events.map eventLine := by
  rw [scriptText_lines]
  apply lines_flatMap
  intro line mem
  rcases List.mem_cons.mp mem with rfl | event
  · decide
  · obtain ⟨e, _, rfl⟩ := List.mem_map.mp event
    exact not_mem_eventLine '\n' e rfl (by decide) (by decide)

theorem scriptText_clean (events : List ScdInputEvent) : '\x00' ∉ scriptText events := by
  rw [scriptText_lines]
  intro mem
  obtain ⟨line, present, mem⟩ := List.mem_flatMap.mp mem
  rcases List.mem_append.mp mem with inside | feed
  · rcases List.mem_cons.mp present with rfl | event
    · revert inside
      decide
    · obtain ⟨e, _, rfl⟩ := List.mem_map.mp event
      exact not_mem_eventLine '\x00' e rfl (by decide) (by decide) inside
  · revert feed
    decide

/-! ## Valid lists of events -/

def padAfter (events : List ScdInputEvent) : Port → Byte :=
  events.foldl (fun pad e => e.apply pad) fun _ => 0

/-- What an event must satisfy after the events before it. -/
structure Admissible (done : List ScdInputEvent) (e : ScdInputEvent) : Prop where
  button : e.mask ≠ 0
  range : e.tick ≤ tickMax
  ordered : ∀ d ∈ done, d.tick ≤ e.tick
  once : ∀ d ∈ done, d.tick = e.tick → d.port = e.port → d.mask &&& e.mask = 0
  changes : padAfter done e.port &&& e.mask = if e.press then 0 else e.mask

inductive Script : List ScdInputEvent → Prop
  | nil : Script []
  | snoc {done : List ScdInputEvent} {e : ScdInputEvent} (script : Script done)
    (admissible : Admissible done e) (room : done.length < SCD_INPUT_MAX_EVENTS) :
    Script (done ++ [e])

/-- A list of events that a script can state within the limits of its size. -/
structure ValidEvents (events : List ScdInputEvent) : Prop where
  script : Script events
  size : (scriptText events).length ≤ SCD_INPUT_MAX_SCRIPT_BYTES

def stateAfter (events : List ScdInputEvent) : ParseState :=
  events.foldl touch { haveHeader := true }

theorem padAfter_snoc (done : List ScdInputEvent) (e : ScdInputEvent) :
    padAfter (done ++ [e]) = e.apply (padAfter done) := by
  rw [padAfter, List.foldl_concat, padAfter]

theorem stateAfter_snoc (done : List ScdInputEvent) (e : ScdInputEvent) :
    stateAfter (done ++ [e]) = touch (stateAfter done) e := by
  rw [stateAfter, List.foldl_concat, stateAfter]

/-- What the parser has noted about the events so far. -/
structure Noted (done : List ScdInputEvent) (st : ParseState) : Prop where
  haveHeader : st.haveHeader = true
  events : st.events = done
  held : st.held = padAfter done
  lastTick : ∀ e, done.getLast? = some e → st.lastTick = e.tick
  lastTouch : ∀ p b, st.lastTouch p b = uint64Max ∨
    ∃ d ∈ done, d.tick = st.lastTouch p b ∧ d.port = p ∧ d.mask.getLsbD b = true

theorem noted_stateAfter (done : List ScdInputEvent) : Noted done (stateAfter done) := by
  induction done using List.reverseRecOn with
  | nil =>
      refine ⟨rfl, rfl, rfl, ?_, fun _ _ => .inl rfl⟩
      intro e last
      cases last
  | append_singleton done e ih =>
      rw [stateAfter_snoc]
      constructor
      · exact ih.haveHeader
      · rw [touch, ih.events]
      · rw [touch, ih.held, padAfter_snoc]
      · intro last h
        rw [List.getLast?_concat] at h
        cases h
        rfl
      · intro p b
        simp only [touch]
        split
        · next now =>
            exact .inr ⟨e, List.mem_append_right _ List.mem_cons_self, rfl, now.1.symm, now.2⟩
        · exact (ih.lastTouch p b).imp_right fun ⟨d, mem, touched⟩ =>
            ⟨d, List.mem_append_left _ mem, touched⟩

theorem checkEvent_admissible {done : List ScdInputEvent} {e : ScdInputEvent}
    (admissible : Admissible done e) (room : done.length < SCD_INPUT_MAX_EVENTS) :
    checkEvent (stateAfter done) e = .ok (stateAfter (done ++ [e])) := by
  have noted := noted_stateAfter done
  have order : ¬((stateAfter done).events.length > 0 ∧ e.tick < (stateAfter done).lastTick) := by
    rw [noted.events]
    intro h
    obtain ⟨nonempty, before⟩ := h
    have last := List.getLast?_eq_some_getLast (List.ne_nil_of_length_pos nonempty)
    rw [noted.lastTick _ last] at before
    exact (admissible.ordered _ (List.getLast_mem _)).not_gt before
  have fresh : ¬((List.finRange 8).any fun b =>
      e.mask.getLsbD b && (stateAfter done).lastTouch e.port b == e.tick) = true := by
    intro h
    obtain ⟨b, _, touches⟩ := List.any_eq_true.mp h
    simp only [Bool.and_eq_true, beq_iff_eq] at touches
    obtain ⟨set, same⟩ := touches
    rcases noted.lastTouch e.port b with never | ⟨d, mem, tick, port, touched⟩
    · have range := admissible.range
      rw [← same, never] at range
      exact absurd range (by decide)
    · have disjoint := admissible.once d mem (tick.trans same) port
      have bit : (d.mask &&& e.mask).getLsbD b = true := by
        rw [BitVec.getLsbD_and, touched, set, Bool.and_true]
      simp [disjoint] at bit
  have change : ¬(if e.press then (stateAfter done).held e.port &&& e.mask ≠ 0
      else (stateAfter done).held e.port &&& e.mask ≠ e.mask) := by
    rw [noted.held, admissible.changes]
    cases e.press <;> simp
  have capacity : ¬(stateAfter done).events.length ≥ SCD_INPUT_MAX_EVENTS := by
    rw [noted.events]
    omega
  rw [checkEvent, if_neg order, if_neg fresh, if_neg change, if_neg capacity, stateAfter_snoc]

theorem parseLines_append {lines : List (List Char)} {number : ℕ} {st st' : ParseState}
    (h : parseLines number lines st = .ok st') (more : List (List Char)) :
    parseLines number (lines ++ more) st = parseLines (number + lines.length) more st' := by
  induction lines generalizing number st with
  | nil =>
      cases h
      rfl
  | cons line lines ih =>
      rw [parseLines] at h
      rw [List.cons_append, parseLines]
      split at h
      · cases h
      · next _ read =>
          rw [ih h, List.length_cons, Nat.add_assoc, Nat.add_comm 1]

theorem parseLines_events {events : List ScdInputEvent} (script : Script events) (number : ℕ) :
    parseLines number (events.map eventLine) (stateAfter []) = .ok (stateAfter events) := by
  induction script with
  | nil => rfl
  | @snoc done e _ admissible room ih =>
      have line := parseLine_eventLine admissible.button admissible.range
        (noted_stateAfter done).haveHeader
      rw [checkEvent_admissible admissible room] at line
      rw [List.map_append, parseLines_append ih, List.map_singleton, parseLines, line]
      rfl

theorem parseLine_header : parseLine {} header = .ok (stateAfter []) := by
  rfl

theorem scdInputParse_scriptText {events : List ScdInputEvent} (valid : ValidEvents events) :
    scdInputParse (scriptText events) = .ok events := by
  have noted := noted_stateAfter events
  have read : parseLines 1 (header :: events.map eventLine) {} = .ok (stateAfter events) := by
    rw [parseLines, parseLine_header]
    exact parseLines_events valid.script 2
  rw [scdInputParse, if_neg (Nat.not_lt.mpr valid.size), if_neg (scriptText_clean events),
    lines_scriptText, read]
  dsimp only
  rw [if_neg (by simp [noted.haveHeader]), noted.events]

end Segarecomp.SegaCd.Input

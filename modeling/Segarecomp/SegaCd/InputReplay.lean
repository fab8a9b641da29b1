import Segarecomp.Lib.Slicing
import Segarecomp.SegaCd.InputScript

/-! A recorded session replays: the serialised script parses back to the recorded events, and the
cursor brings the pads to where the live session had them. -/

namespace Segarecomp.SegaCd.Input

open Segarecomp.Lib.Slicing

/-! ## The cursor -/

section Cursor

variable {limit : ℕ} {input : ScdInput}

theorem applyDue_eq (limit : ℕ) (rest : List ScdInputEvent) (input : ScdInput) :
    applyDue limit rest input =
      { input with
        next := input.next + (rest.takeWhile (·.tick ≤ limit)).length
        pad := (rest.takeWhile (·.tick ≤ limit)).foldl (fun pad e => e.apply pad) input.pad } := by
  induction rest generalizing input with
  | nil => rfl
  | cons e rest ih =>
      rw [applyDue]
      by_cases due : e.tick ≤ limit
      · rw [if_pos due, ih, List.takeWhile_cons_of_pos (by simpa using due), List.length_cons,
          List.foldl_cons, Nat.add_assoc, Nat.add_comm 1]
      · rw [if_neg due, List.takeWhile_cons_of_neg (by simpa using due)]
        rfl

theorem scdInputAdvance_events (limit : ℕ) (input : ScdInput) :
    (scdInputAdvance limit input).events = input.events := by
  rw [scdInputAdvance, applyDue_eq]

theorem applyDue_absorbs {t u : ℕ} (h : t ≤ u) (rest : List ScdInputEvent) (input : ScdInput) :
    applyDue u (rest.drop (rest.takeWhile (·.tick ≤ t)).length) (applyDue t rest input) =
      applyDue u rest input := by
  induction rest generalizing input with
  | nil => rfl
  | cons e rest ih =>
      by_cases due : e.tick ≤ t
      · rw [List.takeWhile_cons_of_pos (by simpa using due), List.length_cons, List.drop_succ_cons,
          applyDue, if_pos due, applyDue, if_pos (due.trans h)]
        exact ih _
      · have stops : applyDue t (e :: rest) input = input := by rw [applyDue, if_neg due]
        rw [List.takeWhile_cons_of_neg (by simpa using due), List.length_nil, List.drop_zero, stops]

theorem scdInputAdvance_absorbs : Absorbs scdInputAdvance := by
  intro t u input h
  have rest : (scdInputAdvance t input).events.drop (scdInputAdvance t input).next =
      (input.events.drop input.next).drop
        ((input.events.drop input.next).takeWhile (·.tick ≤ t)).length := by
    rw [scdInputAdvance, applyDue_eq, List.drop_drop]
  rw [scdInputAdvance, rest]
  exact applyDue_absorbs h _ _

/-- The events are split into those applied and those to come. -/
structure Cursor (done rest : List ScdInputEvent) (input : ScdInput) : Prop where
  events : input.events = done ++ rest
  next : input.next = done.length
  pad : input.pad = padAfter done

/-- The cursor stands at a tick. -/
def Reached (now : ℕ) (input : ScdInput) : Prop :=
  ∃ done rest, Cursor done rest input ∧ (∀ e ∈ done, e.tick ≤ now) ∧ ∀ e ∈ rest, now < e.tick

theorem sorted_dropWhile {events : List ScdInputEvent}
    (sorted : events.Pairwise (·.tick ≤ ·.tick)) :
    ∀ e ∈ events.dropWhile (·.tick ≤ limit), limit < e.tick := by
  induction events with
  | nil => simp
  | cons first events ih =>
      obtain ⟨before, rest⟩ := List.pairwise_cons.mp sorted
      by_cases due : first.tick ≤ limit
      · rw [List.dropWhile_cons_of_pos (by simpa using due)]
        exact ih rest
      · rw [List.dropWhile_cons_of_neg (by simpa using due)]
        intro e mem
        rcases List.mem_cons.mp mem with rfl | later
        · omega
        · have := before e later
          omega

theorem Cursor.advance {done rest : List ScdInputEvent} (cursor : Cursor done rest input)
    (past : ∀ e ∈ done, e.tick ≤ limit) (sorted : rest.Pairwise (·.tick ≤ ·.tick)) :
    Reached limit (scdInputAdvance limit input) := by
  have due : input.events.drop input.next = rest := by
    rw [cursor.events, cursor.next, List.drop_left]
  refine ⟨done ++ rest.takeWhile (·.tick ≤ limit), rest.dropWhile (·.tick ≤ limit), ?_, ?_,
    sorted_dropWhile sorted⟩
  · rw [scdInputAdvance, due, applyDue_eq]
    constructor
    · rw [List.append_assoc, List.takeWhile_append_dropWhile, cursor.events]
    · rw [List.length_append, cursor.next]
    · rw [padAfter, List.foldl_append, cursor.pad, padAfter]
  · intro e mem
    rcases List.mem_append.mp mem with old | new
    · exact past e old
    · simpa using List.all_eq_true.mp List.all_takeWhile e new

theorem takeWhile_split {now : ℕ} {done rest : List ScdInputEvent}
    (past : ∀ e ∈ done, e.tick ≤ now) (ahead : ∀ e ∈ rest, now < e.tick) :
    (done ++ rest).takeWhile (·.tick ≤ now) = done := by
  rw [List.takeWhile_append_of_pos (by simpa using past)]
  cases rest with
  | nil => simp
  | cons e rest =>
      have later := ahead e List.mem_cons_self
      rw [List.takeWhile_cons_of_neg (by simpa using later), List.append_nil]

/-- A tick determines the pads: later events make no difference. -/
theorem Reached.pad_eq {now : ℕ} {more : List ScdInputEvent} {replay : ScdInput}
    (live : Reached now input) (replayed : Reached now replay)
    (events : replay.events = input.events ++ more) (later : ∀ e ∈ more, now < e.tick) :
    replay.pad = input.pad := by
  obtain ⟨done, rest, cursor, past, ahead⟩ := live
  obtain ⟨done', rest', cursor', past', ahead'⟩ := replayed
  have beyond : ∀ e ∈ rest ++ more, now < e.tick := by
    intro e mem
    rcases List.mem_append.mp mem with old | new
    · exact ahead e old
    · exact later e new
  have same : done' ++ rest' = done ++ (rest ++ more) := by
    rw [← cursor'.events, events, cursor.events, List.append_assoc]
  calc
    replay.pad = padAfter done' := cursor'.pad
    _ = padAfter ((done' ++ rest').takeWhile (·.tick ≤ now)) := by rw [takeWhile_split past' ahead']
    _ = padAfter ((done ++ (rest ++ more)).takeWhile (·.tick ≤ now)) := by rw [same]
    _ = padAfter done := by rw [takeWhile_split past beyond]
    _ = input.pad := cursor.pad.symm

end Cursor

/-! ## The recorder -/

theorem Script.sorted {events : List ScdInputEvent} (script : Script events) :
    events.Pairwise (·.tick ≤ ·.tick) := by
  induction script with
  | nil => exact List.Pairwise.nil
  | snoc _ admissible _ ih =>
      rw [List.pairwise_append]
      refine ⟨ih, List.pairwise_singleton _ _, ?_⟩
      intro d mem e single
      rw [List.mem_singleton.mp single]
      exact admissible.ordered d mem

def releaseEvent (was pad1 : Byte) (tick : ℕ) : ScdInputEvent where
  tick := tick
  port := .one
  press := false
  mask := was &&& ~~~pad1

def pressEvent (was pad1 : Byte) (tick : ℕ) : ScdInputEvent where
  tick := tick
  port := .one
  press := true
  mask := pad1 &&& ~~~was

section Masks

variable (was pad1 : Byte)

theorem release_held : was &&& (was &&& ~~~pad1) = was &&& ~~~pad1 := by
  rw [← BitVec.and_assoc, BitVec.and_self]

theorem release_after : was &&& ~~~(was &&& ~~~pad1) = was &&& pad1 := by
  ext i h
  simp only [BitVec.getElem_and, BitVec.getElem_not]
  cases was[i] <;> cases pad1[i] <;> rfl

theorem press_free : was &&& pad1 &&& (pad1 &&& ~~~was) = 0 := by
  ext i h
  simp only [BitVec.getElem_and, BitVec.getElem_not]
  cases was[i] <;> cases pad1[i] <;> simp

theorem press_fresh : was &&& ~~~pad1 &&& (pad1 &&& ~~~was) = 0 := by
  ext i h
  simp only [BitVec.getElem_and, BitVec.getElem_not]
  cases was[i] <;> cases pad1[i] <;> simp

theorem press_after : was &&& pad1 ||| pad1 &&& ~~~was = pad1 := by
  ext i h
  simp only [BitVec.getElem_and, BitVec.getElem_or, BitVec.getElem_not]
  cases was[i] <;> cases pad1[i] <;> rfl

theorem release_none (unreleased : was &&& ~~~pad1 = 0) : was &&& pad1 = was := by
  rw [← release_after, unreleased]
  exact BitVec.and_allOnes

theorem press_none (unpressed : pad1 &&& ~~~was = 0) : was &&& pad1 = pad1 := by
  have after := press_after was pad1
  rw [unpressed] at after
  simpa using after

end Masks

section Sample

variable {done : List ScdInputEvent} {was pad1 : Byte} {tick : ℕ}

theorem release_admissible (held : padAfter done .one = was) (fresh : ∀ d ∈ done, d.tick < tick)
    (range : tick ≤ tickMax) (released : was &&& ~~~pad1 ≠ 0) :
    Admissible done (releaseEvent was pad1 tick) := by
  constructor
  · exact released
  · exact range
  · exact fun d mem => (fresh d mem).le
  · exact fun d mem same => absurd same (fresh d mem).ne
  · exact (congrArg (· &&& _) held).trans (release_held was pad1)

theorem padAfter_release (held : padAfter done .one = was) :
    padAfter (done ++ [releaseEvent was pad1 tick]) .one = was &&& pad1 := by
  rw [padAfter_snoc, ScdInputEvent.apply]
  simp only [releaseEvent, Function.update_self, held, Bool.false_eq_true, if_false]
  exact release_after was pad1

theorem press_admissible (held : padAfter done .one = was &&& pad1)
    (before : ∀ d ∈ done, d.tick < tick ∨ d = releaseEvent was pad1 tick)
    (range : tick ≤ tickMax) (pressed : pad1 &&& ~~~was ≠ 0) :
    Admissible done (pressEvent was pad1 tick) := by
  constructor
  · exact pressed
  · exact range
  · intro d mem
    rcases before d mem with earlier | rfl
    · exact earlier.le
    · exact le_rfl
  · intro d mem same _
    rcases before d mem with earlier | rfl
    · exact absurd same earlier.ne
    · exact press_fresh was pad1
  · exact (congrArg (· &&& _) held).trans (press_free was pad1)

theorem padAfter_press (held : padAfter done .one = was &&& pad1) :
    padAfter (done ++ [pressEvent was pad1 tick]) .one = pad1 := by
  rw [padAfter_snoc, ScdInputEvent.apply]
  simp only [pressEvent, Function.update_self, held, if_true]
  exact press_after was pad1

theorem pendingEvents_eq (was pad1 : Byte) (tick : ℕ) :
    pendingEvents was pad1 tick =
      (if was &&& ~~~pad1 ≠ 0 then [releaseEvent was pad1 tick] else []) ++
        if pad1 &&& ~~~was ≠ 0 then [pressEvent was pad1 tick] else [] := rfl

theorem mem_pendingEvents {e : ScdInputEvent} (mem : e ∈ pendingEvents was pad1 tick) :
    e.tick = tick := by
  rw [pendingEvents_eq] at mem
  rcases List.mem_append.mp mem with release | press
  · split at release
    · rw [List.mem_singleton.mp release]
      rfl
    · cases release
  · split at press
    · rw [List.mem_singleton.mp press]
      rfl
    · cases press

/-- The transitions of a sample extend a script and leave the pad where the sample has it. -/
theorem pending_script (script : Script done) (held : padAfter done .one = was)
    (fresh : ∀ d ∈ done, d.tick < tick) (range : tick ≤ tickMax)
    (room : done.length + (pendingEvents was pad1 tick).length ≤ SCD_INPUT_MAX_EVENTS) :
    Script (done ++ pendingEvents was pad1 tick) ∧
      padAfter (done ++ pendingEvents was pad1 tick) .one = pad1 := by
  rw [pendingEvents_eq] at room ⊢
  by_cases released : was &&& ~~~pad1 ≠ 0
  · rw [if_pos released] at room ⊢
    have release := release_admissible held fresh range released
    have after : padAfter (done ++ [releaseEvent was pad1 tick]) .one = was &&& pad1 :=
      padAfter_release held
    have script := script.snoc release (by simp at room; omega)
    by_cases pressed : pad1 &&& ~~~was ≠ 0
    · rw [if_pos pressed] at room ⊢
      have press : Admissible (done ++ [releaseEvent was pad1 tick]) (pressEvent was pad1 tick) := by
        apply press_admissible after _ range pressed
        intro d mem
        rcases List.mem_append.mp mem with old | new
        · exact .inl (fresh d old)
        · exact .inr (List.mem_singleton.mp new)
      rw [← List.append_assoc]
      exact ⟨script.snoc press (by simp at room ⊢; omega), padAfter_press after⟩
    · rw [if_neg pressed, List.append_nil]
      exact ⟨script, after.trans (press_none was pad1 (not_not.mp pressed))⟩
  · rw [if_neg released, List.nil_append] at room ⊢
    have after : padAfter done .one = was &&& pad1 :=
      held.trans (release_none was pad1 (not_not.mp released)).symm
    by_cases pressed : pad1 &&& ~~~was ≠ 0
    · rw [if_pos pressed] at room ⊢
      have press : Admissible done (pressEvent was pad1 tick) :=
        press_admissible after (fun d mem => .inl (fresh d mem)) range pressed
      exact ⟨script.snoc press (by simp at room; omega), padAfter_press after⟩
    · rw [if_neg pressed, List.append_nil]
      exact ⟨script, after.trans (press_none was pad1 (not_not.mp pressed))⟩

end Sample

/-! ## Sessions -/

structure Session where
  now : ℕ
  input : ScdInput

/-- A step of a live machine: a device event, an instruction (none is due at or before it), or a
sample of the host's pad, accepted or not. -/
inductive LiveStep : Session → Session → Prop
  | device (s : Session) (limit : ℕ) (forward : s.now ≤ limit) :
    LiveStep s ⟨limit, scdInputAdvance limit s.input⟩
  | instruction (s : Session) (ready : ℕ) (forward : s.now ≤ ready)
    (idle : ready < scdInputNextEvent s.input) : LiveStep s ⟨ready, s.input⟩
  | sample (s : Session) (tick : ℕ) (pad1 : Byte) :
    LiveStep s ⟨s.now, (scdInputLiveSample s.now s.input tick pad1).2⟩

/-- What a recording session keeps. -/
structure Recorded (s : Session) : Prop where
  live : s.input.live = true
  recording : s.input.recording = true
  script : Script s.input.events
  bytes : s.input.scriptBytes = (scriptText s.input.events).length
  size : s.input.scriptBytes ≤ SCD_INPUT_MAX_SCRIPT_BYTES
  last : ∀ e ∈ s.input.events, e.tick ≤ s.input.liveLastTick
  held : padAfter s.input.events .one = s.input.livePad
  reached : Reached s.now s.input

/-- Steps only append events that lie ahead. -/
structure Appends (s s' : Session) : Prop where
  forward : s.now ≤ s'.now
  events : ∃ more, s'.input.events = s.input.events ++ more ∧ ∀ e ∈ more, s.now < e.tick

theorem Appends.refl (s : Session) : Appends s s := by
  constructor
  · exact le_rfl
  · exact ⟨[], (List.append_nil _).symm, by simp⟩

theorem Appends.trans {a b c : Session} (first : Appends a b) (second : Appends b c) :
    Appends a c := by
  obtain ⟨more, events, ahead⟩ := first.events
  obtain ⟨more', events', ahead'⟩ := second.events
  constructor
  · exact first.forward.trans second.forward
  · refine ⟨more ++ more', by rw [events', events, List.append_assoc], ?_⟩
    intro e mem
    rcases List.mem_append.mp mem with old | new
    · exact ahead e old
    · exact first.forward.trans_lt (ahead' e new)

section Steps

variable {s s' : Session}

theorem Recorded.device (inv : Recorded s) {limit : ℕ} (forward : s.now ≤ limit) :
    Recorded ⟨limit, scdInputAdvance limit s.input⟩ := by
  obtain ⟨done, rest, cursor, past, _⟩ := inv.reached
  have sorted := inv.script.sorted
  rw [cursor.events] at sorted
  have reached := cursor.advance (fun e mem => (past e mem).trans forward)
    (List.pairwise_append.mp sorted).2.1
  have events := scdInputAdvance_events limit s.input
  have kept : scdInputAdvance limit s.input = { s.input with
      next := (scdInputAdvance limit s.input).next
      pad := (scdInputAdvance limit s.input).pad } := by
    rw [scdInputAdvance, applyDue_eq]
  constructor
  · rw [kept]
    exact inv.live
  · rw [kept]
    exact inv.recording
  · rw [events]
    exact inv.script
  · rw [kept]
    exact inv.bytes
  · rw [kept]
    exact inv.size
  · rw [kept]
    exact inv.last
  · rw [kept]
    exact inv.held
  · exact reached

theorem Recorded.instruction (inv : Recorded s) {ready : ℕ} (forward : s.now ≤ ready)
    (idle : ready < scdInputNextEvent s.input) : Recorded ⟨ready, s.input⟩ := by
  obtain ⟨done, rest, cursor, past, _⟩ := inv.reached
  have sorted := inv.script.sorted
  rw [cursor.events] at sorted
  have reached : Reached ready s.input := by
    refine ⟨done, rest, cursor, fun e mem => (past e mem).trans forward, ?_⟩
    cases rest with
    | nil => simp
    | cons first rest =>
        have due : scdInputNextEvent s.input = first.tick := by
          simp [scdInputNextEvent, cursor.events, cursor.next]
        have order := List.pairwise_cons.mp (List.pairwise_append.mp sorted).2.1
        rw [due] at idle
        intro e mem
        rcases List.mem_cons.mp mem with rfl | later
        · exact idle
        · exact idle.trans_le (order.1 e later)
  exact { inv with reached }

/-- What a sample does while recording: nothing, or it appends its transitions. -/
theorem scdInputLiveSample_cases (inv : Recorded s) (tick : ℕ) (pad1 : Byte) :
    (scdInputLiveSample s.now s.input tick pad1).2 = s.input ∨
      (s.now < tick ∧ tick ≤ tickMax ∧ s.input.liveLastTick < tick) ∧
        s.input.events.length + (pendingEvents s.input.livePad pad1 tick).length ≤
          SCD_INPUT_MAX_EVENTS ∧
        s.input.scriptBytes + ((pendingEvents s.input.livePad pad1 tick).map fun e =>
          (scdInputFormat e).length).sum ≤ SCD_INPUT_MAX_SCRIPT_BYTES ∧
        (scdInputLiveSample s.now s.input tick pad1).2 =
          { s.input with
            events := s.input.events ++ pendingEvents s.input.livePad pad1 tick
            scriptBytes := s.input.scriptBytes +
              ((pendingEvents s.input.livePad pad1 tick).map fun e =>
                (scdInputFormat e).length).sum
            liveLastTick := tick
            livePad := pad1 } := by
  have kept : compact s.input = s.input := by
    rw [compact, if_neg]
    intro idle
    rw [inv.recording] at idle
    cases idle.1
  rw [scdInputLiveSample, if_neg (by simp [inv.live])]
  split
  · exact .inl rfl
  · rw [kept]
    dsimp only
    split
    · exact .inl rfl
    · next future =>
        split
        · exact .inl rfl
        · next room =>
            simp only [not_or, Nat.not_le, Nat.not_lt] at future room
            exact .inr ⟨⟨future.1, future.2.1, future.2.2⟩, room.1, room.2, rfl⟩

theorem scriptText_append (events pending : List ScdInputEvent) :
    (scriptText (events ++ pending)).length =
      (scriptText events).length + (pending.map fun e => (scdInputFormat e).length).sum := by
  rw [scriptText, scriptText, List.flatMap_append, ← List.append_assoc, List.length_append,
    List.length_flatMap]

theorem Recorded.sample (inv : Recorded s) (tick : ℕ) (pad1 : Byte) :
    Recorded ⟨s.now, (scdInputLiveSample s.now s.input tick pad1).2⟩ ∧
      Appends s ⟨s.now, (scdInputLiveSample s.now s.input tick pad1).2⟩ := by
  rcases scdInputLiveSample_cases inv tick pad1 with same | ⟨future, room, size, appended⟩
  · rw [same]
    exact ⟨inv, .refl s⟩
  · obtain ⟨ahead, range, later⟩ := future
    obtain ⟨script, held⟩ := pending_script inv.script inv.held
      (fun d mem => (inv.last d mem).trans_lt later) range room
    obtain ⟨done, rest, cursor, past, coming⟩ := inv.reached
    rw [appended]
    constructor
    · constructor
      · exact inv.live
      · exact inv.recording
      · exact script
      · rw [scriptText_append, ← inv.bytes]
      · exact size
      · intro e mem
        rcases List.mem_append.mp mem with old | new
        · exact ((inv.last e old).trans_lt later).le
        · exact (mem_pendingEvents new).le
      · exact held
      · refine ⟨done, rest ++ pendingEvents s.input.livePad pad1 tick, ⟨?_, cursor.next, cursor.pad⟩,
          past, ?_⟩
        · exact (congrArg (· ++ _) cursor.events).trans (List.append_assoc _ _ _)
        · intro e mem
          rcases List.mem_append.mp mem with old | new
          · exact coming e old
          · rw [mem_pendingEvents new]
            exact ahead
    · constructor
      · exact le_rfl
      · refine ⟨_, rfl, ?_⟩
        intro e mem
        rw [mem_pendingEvents mem]
        exact ahead

theorem LiveStep.recorded (step : LiveStep s s') (inv : Recorded s) :
    Recorded s' ∧ Appends s s' := by
  cases step with
  | device limit forward =>
      refine ⟨inv.device forward, forward, [], ?_, by simp⟩
      rw [scdInputAdvance_events, List.append_nil]
  | instruction ready forward idle =>
      exact ⟨inv.instruction forward idle, forward, [], (List.append_nil _).symm, by simp⟩
  | sample tick pad1 => exact inv.sample tick pad1

theorem recorded_of_steps (steps : Relation.ReflTransGen LiveStep s s') (inv : Recorded s) :
    Recorded s' ∧ Appends s s' := by
  induction steps with
  | refl => exact ⟨inv, .refl s⟩
  | tail _ step ih =>
      obtain ⟨next, appends⟩ := step.recorded ih.1
      exact ⟨next, ih.2.trans appends⟩

end Steps

theorem scdInputParse_header : scdInputParse SCD_INPUT_HEADER = .ok [] :=
  scdInputParse_scriptText ⟨.nil, by decide⟩

def liveStart : ScdInput where
  events := []
  live := true
  recording := true
  scriptBytes := 26

theorem scdInputLiveBegin_eq : scdInputLiveBegin true = .ok liveStart := by
  rw [scdInputLiveBegin, scdInputInstall, scdInputParse_header]
  rfl

theorem recorded_liveStart (now : ℕ) : Recorded ⟨now, liveStart⟩ := by
  constructor
  · rfl
  · rfl
  · exact .nil
  · rfl
  · exact Nat.le_of_ble_eq_true rfl
  · simp [liveStart]
  · rfl
  · exact ⟨[], [], ⟨rfl, rfl, rfl⟩, by simp, by simp⟩

theorem Recorded.serialize {s : Session} (inv : Recorded s) {capacity : ℕ}
    (room : s.input.scriptBytes + 1 ≤ capacity) :
    scdInputSerialize s.input capacity = some (scriptText s.input.events) ∧
      scdInputParse (scriptText s.input.events) = .ok s.input.events := by
  have parsed := scdInputParse_scriptText ⟨inv.script, inv.bytes ▸ inv.size⟩
  refine ⟨?_, parsed⟩
  rw [scdInputSerialize, if_neg (by simp [inv.live, inv.recording]; omega)]
  dsimp only
  rw [parsed]
  dsimp only
  rw [if_neg (by simp [inv.bytes])]

/-- The replay of a script is where a live session with the same events was. -/
theorem Recorded.replay {s s' : Session} (inv : Recorded s) (final : Recorded s')
    (appends : Appends s s') {ticks : List ℕ} (ordered : (ticks ++ [s.now]).Pairwise (· ≤ ·)) :
    (advanceAll scdInputAdvance (ticks ++ [s.now]) { events := s'.input.events }).pad =
      s.input.pad := by
  obtain ⟨more, events, later⟩ := appends.events
  have start : Cursor [] s'.input.events { events := s'.input.events } := ⟨rfl, rfl, rfl⟩
  rw [scdInputAdvance_absorbs.advanceAll ordered]
  apply inv.reached.pad_eq (start.advance (by simp) final.script.sorted)
  · rw [scdInputAdvance_events, events]
  · exact later

/-- A recorded session, seen at any time `s` of it, is replayed by the text it ends with; and every
valid list of events is read back from its text. -/
theorem recording_replays :
    (∀ (input : ScdInput) (now capacity : ℕ) (s s' : Session), scdInputLiveBegin true = .ok input →
      Relation.ReflTransGen LiveStep ⟨now, input⟩ s → Relation.ReflTransGen LiveStep s s' →
      s'.input.scriptBytes + 1 ≤ capacity →
      ∃ text replay, scdInputSerialize s'.input capacity = some text ∧
        scdInputParse text = .ok s'.input.events ∧ scdInputInstall text = .ok replay ∧
        ∀ ticks, (ticks ++ [s.now]).Pairwise (· ≤ ·) →
          (advanceAll scdInputAdvance (ticks ++ [s.now]) replay).pad = s.input.pad) ∧
    ∀ events, ValidEvents events → scdInputParse (scriptText events) = .ok events := by
  constructor
  · intro input now capacity s s' started before after room
    rw [scdInputLiveBegin_eq] at started
    cases started
    obtain ⟨inv, _⟩ := recorded_of_steps before (recorded_liveStart now)
    obtain ⟨final, appends⟩ := recorded_of_steps after inv
    obtain ⟨written, parsed⟩ := final.serialize room
    refine ⟨_, { events := s'.input.events }, written, parsed, ?_, ?_⟩
    · rw [scdInputInstall, parsed]
    · exact fun ticks ordered => inv.replay final appends ordered
  · exact fun events valid => scdInputParse_scriptText valid

/-- UP and A pressed at tick 5, A released at tick 9 once 5 has passed. -/
def pressed : Session := ⟨5, scdInputAdvance 5 (scdInputLiveSample 0 liveStart 5 0x41).2⟩
def released : Session := ⟨5, (scdInputLiveSample 5 pressed.input 9 0x01).2⟩

theorem recording_replays_up_a :
    pressed.input.pad .one = 0x41 ∧
      (∃ text replay, scdInputSerialize released.input 65537 = some text ∧
        scdInputParse text = .ok released.input.events ∧ scdInputInstall text = .ok replay ∧
        ∀ ticks, (ticks ++ [5]).Pairwise (· ≤ ·) →
          (advanceAll scdInputAdvance (ticks ++ [5]) replay).pad = pressed.input.pad) ∧
      scdInputParse (scriptText [⟨3, .two, true, 0x90⟩]) = .ok [⟨3, .two, true, 0x90⟩] := by
  have before : Relation.ReflTransGen LiveStep ⟨0, liveStart⟩ pressed :=
    (Relation.ReflTransGen.single (.sample _ 5 0x41)).tail (.device _ 5 (by decide))
  have after : Relation.ReflTransGen LiveStep pressed released :=
    .single (.sample pressed 9 0x01)
  have press : Script ([] ++ [⟨3, .two, true, 0x90⟩]) :=
    .snoc .nil ⟨by decide, by decide, by simp, by simp, by decide⟩ (by decide)
  constructor
  · decide
  constructor
  · exact recording_replays.1 liveStart 0 65537 pressed released scdInputLiveBegin_eq before after
      (by decide)
  · exact recording_replays.2 _ ⟨press, by decide⟩

end Segarecomp.SegaCd.Input

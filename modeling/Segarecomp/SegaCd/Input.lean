import Segarecomp.Lib.Lines
import Segarecomp.SegaCd.Machine

/-! Timed pad input: the script parser, the event cursor, and the recorder of live samples. A
script's bytes are characters; a tick is the source's `uint64_t`, which never passes `tickMax`. -/

namespace Segarecomp.SegaCd.Input

open Segarecomp.Lib.Lines

def SCD_INPUT_MAX_EVENTS : ℕ := 4096
def SCD_INPUT_MAX_SCRIPT_BYTES : ℕ := 65536
def SCD_INPUT_MAX_LINE : ℕ := 256

def tickMax : ℕ := 0x7FFFFFFFFFFFFFFF
def uint64Max : ℕ := 0xFFFFFFFFFFFFFFFF

inductive Port
  | one | two
  deriving DecidableEq, Repr

structure ScdInputEvent where
  tick : ℕ
  port : Port
  press : Bool
  mask : Byte
  deriving DecidableEq, Repr

inductive InputError
  | badTick | tickRange | badButton | unsupportedButton | duplicateButton | tooLarge | binary
  | lineTooLong | badHeader | missingHeader | badEvent | badPort | badAction | tickOrder
  | sameTickConflict | redundantTransition | tooManyEvents
  deriving DecidableEq, Repr

def scdInputButtons : List (List Char × Byte) :=
  [("UP".toList, 0x01), ("DOWN".toList, 0x02), ("LEFT".toList, 0x04), ("RIGHT".toList, 0x08),
    ("A".toList, 0x40), ("B".toList, 0x10), ("C".toList, 0x20), ("START".toList, 0x80)]

/-! ## The fields of an event line -/

/-- `(unsigned)(c - '0')`: a character below '0' wraps to a large number. -/
def digit (c : Char) : ℕ := (c.toNat + 2 ^ 32 - '0'.toNat) % 2 ^ 32

def scdInputTickFrom : ℕ → List Char → Except InputError ℕ
  | v, [] => .ok v
  | v, c :: s =>
    let d := digit c
    if d > 9 then .error .badTick
    else if v > (tickMax - d) / 10 then .error .tickRange
    else scdInputTickFrom (v * 10 + d) s

def scdInputTick (s : List Char) : Except InputError ℕ :=
  if s = [] then .error .badTick else scdInputTickFrom 0 s

def findButton (name : List Char) : Byte :=
  scdInputButtons.foldl (fun found b => if b.1 = name then b.2 else found) 0

def addButton (m : Byte) (name : List Char) : Except InputError Byte :=
  let found := findButton name
  if found = 0 then
    if name = ['X'] ∨ name = ['Y'] ∨ name = ['Z'] ∨ name = "MODE".toList then
      .error .unsupportedButton
    else .error .badButton
  else if m &&& found ≠ 0 then .error .duplicateButton
  else .ok (m ||| found)

/-- An empty name, so an empty list and a trailing comma as well, is a bad button. -/
def scdInputMask (s : List Char) : Except InputError Byte := (s.splitOn ',').foldlM addButton 0

def parsePort (s : List Char) : Except InputError Port :=
  if s = ['1'] then .ok .one else if s = ['2'] then .ok .two else .error .badPort

def parseAction (s : List Char) : Except InputError Bool :=
  if s = "press".toList then .ok true
  else if s = "release".toList then .ok false
  else .error .badAction

/-- Exactly four non-empty fields with single spaces between them. -/
def parseEvent (line : List Char) : Except InputError ScdInputEvent :=
  match line.splitOn ' ' with
  | [f0, f1, f2, f3] =>
    if f0 = [] ∨ f1 = [] ∨ f2 = [] ∨ f3 = [] then .error .badEvent
    else do
      let tick ← scdInputTick f0
      let port ← parsePort f1
      let press ← parseAction f2
      let mask ← scdInputMask f3
      return { tick, port, press, mask }
  | _ => .error .badEvent

/-! ## The parser -/

structure ParseState where
  haveHeader : Bool := false
  lastTouch : Port → Fin 8 → ℕ := fun _ _ => uint64Max
  held : Port → Byte := fun _ => 0
  lastTick : ℕ := 0
  events : List ScdInputEvent := []

/-- A port's mask after a transition. -/
def ScdInputEvent.apply (e : ScdInputEvent) (pad : Port → Byte) : Port → Byte :=
  Function.update pad e.port (if e.press then pad e.port ||| e.mask else pad e.port &&& ~~~e.mask)

def touch (st : ParseState) (e : ScdInputEvent) : ParseState :=
  { st with
    lastTouch := fun p b =>
      if p = e.port ∧ e.mask.getLsbD b = true then e.tick else st.lastTouch p b
    held := e.apply st.held
    lastTick := e.tick
    events := st.events ++ [e] }

/-- The checks of an event against those before it. -/
def checkEvent (st : ParseState) (e : ScdInputEvent) : Except InputError ParseState :=
  if st.events.length > 0 ∧ e.tick < st.lastTick then .error .tickOrder
  else if (List.finRange 8).any fun b => e.mask.getLsbD b && st.lastTouch e.port b == e.tick then
    .error .sameTickConflict
  else if (if e.press then st.held e.port &&& e.mask ≠ 0 else st.held e.port &&& e.mask ≠ e.mask)
  then .error .redundantTransition
  else if st.events.length ≥ SCD_INPUT_MAX_EVENTS then .error .tooManyEvents
  else .ok (touch st e)

def headerName : List Char := "segarecomp-input-script".toList
def header : List Char := "segarecomp-input-script 1".toList

def stripReturn (line : List Char) : List Char :=
  if line.getLast? = some '\r' then line.dropLast else line

def parseLine (st : ParseState) (line : List Char) : Except InputError ParseState :=
  let l := stripReturn line
  if l.length > SCD_INPUT_MAX_LINE then .error .lineTooLong
  else if l = [] ∨ l.head? = some '#' then .ok st
  else if st.haveHeader = false then
    if l = header then .ok { st with haveHeader := true }
    else if l.take headerName.length = headerName then .error .badHeader
    else .error .missingHeader
  else
    match parseEvent l with
    | .error error => .error error
    | .ok e => checkEvent st e

/-- Errors carry the number of their line. -/
def parseLines : ℕ → List (List Char) → ParseState → Except (InputError × ℕ) ParseState
  | _, [], st => .ok st
  | number, line :: lines, st =>
    match parseLine st line with
    | .error error => .error (error, number)
    | .ok st => parseLines (number + 1) lines st

def scdInputParse (text : List Char) : Except (InputError × ℕ) (List ScdInputEvent) :=
  if text.length > SCD_INPUT_MAX_SCRIPT_BYTES then .error (.tooLarge, 0)
  else if '\x00' ∈ text then .error (.binary, 0)
  else
    match parseLines 1 (lines text) {} with
    | .error error => .error error
    | .ok st => if st.haveHeader = false then .error (.missingHeader, 0) else .ok st.events

/-! ## The cursor -/

/-- The pad input of a machine; `livePad` is the recorder's port 1. -/
structure ScdInput where
  events : List ScdInputEvent
  next : ℕ := 0
  pad : Port → Byte := fun _ => 0
  live : Bool := false
  recording : Bool := false
  compacted : ℕ := 0
  liveLastTick : ℕ := 0
  livePad : Byte := 0
  scriptBytes : ℕ := 0

def scdInputInstall (text : List Char) : Except (InputError × ℕ) ScdInput :=
  match scdInputParse text with
  | .error error => .error error
  | .ok events => .ok { events }

def scdInputNextEvent (input : ScdInput) : ℕ :=
  match input.events[input.next]? with
  | some e => e.tick
  | none => uint64Max

def applyDue (limit : ℕ) : List ScdInputEvent → ScdInput → ScdInput
  | [], input => input
  | e :: rest, input =>
    if e.tick ≤ limit then
      applyDue limit rest { input with next := input.next + 1, pad := e.apply input.pad }
    else input

/-- Every event due at or before `limit`, in script order. -/
def scdInputAdvance (limit : ℕ) (input : ScdInput) : ScdInput :=
  applyDue limit (input.events.drop input.next) input

/-! ## The recorder -/

def portText : Port → List Char
  | .one => ['1']
  | .two => ['2']

def actionText (press : Bool) : List Char := if press then "press".toList else "release".toList

def maskNames (mask : Byte) : List (List Char) :=
  (scdInputButtons.filter fun b => mask &&& b.2 != 0).map Prod.fst

def scdInputFormat (e : ScdInputEvent) : List Char :=
  Nat.toDigits 10 e.tick ++ [' '] ++ portText e.port ++ [' '] ++ actionText e.press ++ [' '] ++
    [','].intercalate (maskNames e.mask) ++ ['\n']

def SCD_INPUT_HEADER : List Char := "segarecomp-input-script 1\n".toList

def scdInputLiveBegin (record : Bool) : Except (InputError × ℕ) ScdInput :=
  match scdInputInstall SCD_INPUT_HEADER with
  | .error error => .error error
  | .ok input =>
    .ok { input with live := true, recording := record, scriptBytes := SCD_INPUT_HEADER.length }

inductive LiveSample
  | ok | capacity | passed | noInput
  deriving DecidableEq, Repr

/-- The transitions of one sample: releases, then presses. -/
def pendingEvents (was pad1 : Byte) (tick : ℕ) : List ScdInputEvent :=
  let released := was &&& ~~~pad1
  let pressed := pad1 &&& ~~~was
  (if released ≠ 0 then [{ tick, port := .one, press := false, mask := released }] else []) ++
    (if pressed ≠ 0 then [{ tick, port := .one, press := true, mask := pressed }] else [])

def compact (input : ScdInput) : ScdInput :=
  if input.recording = false ∧ input.next = input.events.length then
    { input with
      compacted := input.compacted + input.events.length
      events := []
      next := 0
      scriptBytes := SCD_INPUT_HEADER.length }
  else input

def scdInputLiveSample (now : ℕ) (input : ScdInput) (tick : ℕ) (pad1 : Byte) :
    LiveSample × ScdInput :=
  if input.live = false then (.noInput, input)
  else if input.livePad &&& ~~~pad1 = 0 ∧ pad1 &&& ~~~input.livePad = 0 then (.ok, input)
  else
    let input := compact input
    if tick ≤ now ∨ tick > tickMax ∨ tick ≤ input.liveLastTick then (.passed, input)
    else
      let pending := pendingEvents input.livePad pad1 tick
      let bytes := (pending.map fun e => (scdInputFormat e).length).sum
      if input.events.length + pending.length > SCD_INPUT_MAX_EVENTS ∨
          input.scriptBytes + bytes > SCD_INPUT_MAX_SCRIPT_BYTES then (.capacity, input)
      else
        (.ok,
          { input with
            events := input.events ++ pending
            scriptBytes := input.scriptBytes + bytes
            liveLastTick := tick
            livePad := pad1 })

/-- A script's text: the header, then a line an event. -/
def scriptText (events : List ScdInputEvent) : List Char :=
  SCD_INPUT_HEADER ++ events.flatMap scdInputFormat

/-- The recorded script; nothing when it does not fit or does not parse back. -/
def scdInputSerialize (input : ScdInput) (capacity : ℕ) : Option (List Char) :=
  if input.live = false ∨ input.recording = false ∨ capacity < input.scriptBytes + 1 then none
  else
    let text := scriptText input.events
    match scdInputParse text with
    | .error _ => none
    | .ok check =>
      if text.length ≠ input.scriptBytes ∨ check.length ≠ input.events.length then none
      else some text

end Segarecomp.SegaCd.Input

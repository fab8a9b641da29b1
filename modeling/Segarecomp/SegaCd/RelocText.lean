import Segarecomp.Lib.Cursor
import Segarecomp.Lib.HexText
import Segarecomp.SegaCd.Reloc

/-! The `streams` member of a frontier capture: the text the observer puts out, and the build driver's strict
reader of it. -/

namespace Segarecomp.SegaCd.Reloc

open Lib.Cursor Lib.HexText

abbrev Text := List Char

/-! ## Writing -/

/-- `%u` and `%llu` -/
def unsigned (n : ℕ) : Text := Nat.toDigits 10 n

def cpuNumber : Cpu → ℕ
  | .main => 0
  | .sub => 1

def SourceClass.number : SourceClass → ℕ
  | .none => 0
  | .work => 1
  | .prg => 2
  | .word => 3
  | .rom => 4
  | .device => 5

def scdRelocMemoryName : StreamMemory → Text
  | .work => "work".toList
  | .prg => "prg".toList

def ScdRelocStream.kept (s : ScdRelocStream) : List Byte := (List.range (min s.length scdRelocMaxBytes)).map s.bytes

def ScdRelocStream.text (s : ScdRelocStream) : Text :=
  "\x7b\"writer_cpu\":".toList ++ unsigned (cpuNumber s.writerCpu) ++
  ",\"memory\":\"".toList ++ scdRelocMemoryName s.memory ++
  "\",\"destination\":".toList ++ unsigned s.destination ++
  ",\"length\":".toList ++ unsigned s.length ++
  ",\"pc\":".toList ++ unsigned s.pc ++
  ",\"paired\":".toList ++ unsigned (!s.unpaired).toNat ++
  ",\"source\":".toList ++ unsigned s.source ++
  ",\"source_class\":".toList ++ unsigned s.sourceClass.number ++
  ",\"source_gap\":".toList ++ unsigned s.sourceGap.toNat ++
  ",\"clobbered\":".toList ++ unsigned s.clobbered.toNat ++
  ",\"dropped\":".toList ++ unsigned s.dropped.toNat ++
  ",\"too_large\":".toList ++ unsigned s.tooLarge.toNat ++
  ",\"volatile\":".toList ++ unsigned s.volatileInput.toNat ++
  ",\"bytes\":\"".toList ++ writeBytes s.kept ++ "\"\x7d".toList

def itemsText : Bool → List ScdRelocStream → Text
  | _, [] => []
  | first, s :: streams => (if first then [] else [',']) ++ (s.text ++ itemsText false streams)

/-- The streams that are recorded, in the order of their slots. -/
def ScdReloc.recorded (r : ScdReloc) : List ScdRelocStream := (slots.map r.streams).filter fun s => s.used

def scdRelocReport (r : ScdReloc) : Text :=
  ",\"streams\":\x7b\"version\":1,\"slots\":".toList ++ unsigned scdRelocStreams ++
  ",\"max_bytes\":".toList ++ unsigned scdRelocMaxBytes ++
  ",\"writes\":".toList ++ unsigned r.writes.toNat ++
  ",\"evicted\":".toList ++ unsigned r.evicted.toNat ++
  ",\"items\":[".toList ++ itemsText true r.recorded ++ "]\x7d".toList

/-! ### The capture it stands in -/

/-- The live jump slots around the stop. -/
structure CaptureRun where
  base : ℕ
  slots : ℕ
  bytes : List Byte

structure CaptureRegion where
  base : ℕ
  length : ℕ
  track1FirstLba : ℕ
  deliveredOverflow : ℕ
  delivered : List (ℕ × ℕ)

/-- What a frontier capture says ahead of the streams. -/
structure Capture where
  /-- `program_identity`, a digest in hexadecimal -/
  passIdentity : Text
  cpu : Cpu
  pc : ℕ
  bytes : List Byte
  run : Option CaptureRun
  region : Option CaptureRegion

def CaptureRun.text (run : CaptureRun) : Text :=
  ",\"run\":\x7b\"base\":".toList ++ unsigned run.base ++ ",\"slots\":".toList ++ unsigned run.slots ++
  ",\"bytes\":\"".toList ++ writeBytes run.bytes ++ "\"\x7d".toList

def deliveredText : Bool → List (ℕ × ℕ) → Text
  | _, [] => []
  | first, (firstLba, count) :: delivered =>
    (if first then [] else [',']) ++ '[' :: unsigned firstLba ++ ',' :: unsigned count ++ ']' ::
      deliveredText false delivered

def CaptureRegion.text (region : CaptureRegion) : Text :=
  ",\"region\":\x7b\"base\":".toList ++ unsigned region.base ++ ",\"length\":".toList ++ unsigned region.length ++
  ",\"track1_first_lba\":".toList ++ unsigned region.track1FirstLba ++
  ",\"delivered_overflow\":".toList ++ unsigned region.deliveredOverflow ++
  ",\"delivered\":[".toList ++ deliveredText true region.delivered ++ "]\x7d".toList

def Capture.head (c : Capture) : Text :=
  "\x7b\"kind\":\"frontier\",\"pass_identity\":\"".toList ++ c.passIdentity ++
  "\",\"cpu\":".toList ++ unsigned (cpuNumber c.cpu) ++ ",\"pc\":".toList ++ unsigned c.pc ++
  ",\"bytes\":\"".toList ++ writeBytes c.bytes ++ "\"".toList ++
  (match c.run with
    | none => []
    | some run => run.text) ++
  (match c.region with
    | none => []
    | some region => region.text)

def scdCapture (c : Capture) (r : ScdReloc) : Text := c.head ++ scdRelocReport r ++ "\x7d\n".toList

/-! ## Reading -/

def kMaxStreamBytes : ℕ := 4096

def kMaxStreams : ℕ := 8

def kWorkBytes : ℕ := 0x10000

def kPrgBytes : ℕ := 0x80000

structure WriteStream where
  writerCpu : ℕ
  workRam : Bool
  destination : ℕ
  length : ℕ
  pc : ℕ
  paired : Bool
  source : ℕ
  sourceClass : ℕ
  sourceGap : Bool
  clobbered : Bool
  dropped : Bool
  tooLarge : Bool
  volatileInput : Bool
  bytes : List Byte
  deriving DecidableEq

structure StreamEvidence where
  present : Bool := false
  evicted : ℕ := 0
  items : List WriteStream := []
  deriving DecidableEq

def number : Reader ℕ := decimal 0xFFFFFFFF

def flag : Reader Bool := do
  let v ← number
  require (v ≤ 1)
  return v = 1

/-- A literal and the number behind it. -/
def numberAt (literal : String) : Reader ℕ := do
  expect literal.toList
  number

def flagAt (literal : String) : Reader Bool := do
  expect literal.toList
  flag

def memoryName : Reader Bool := fun text =>
  if "work".toList <+: text then some (true, text.drop 4)
  else if "prg".toList <+: text then some (false, text.drop 3)
  else none

def WriteStream.ram (s : WriteStream) : ℕ := if s.workRam then kWorkBytes else kPrgBytes

/-- The fields agree with each other and with the number of hexadecimal digits. -/
def WriteStream.Accepted (s : WriteStream) (hexSize : ℕ) : Prop :=
  s.length ≠ 0 ∧ s.destination < s.ram ∧ s.destination + s.length ≤ s.ram ∧
    hexSize = min s.length kMaxStreamBytes * 2 ∧ s.tooLarge = decide (kMaxStreamBytes < s.length) ∧ s.sourceClass ≤ 5

instance (s : WriteStream) (hexSize : ℕ) : Decidable (s.Accepted hexSize) :=
  inferInstanceAs (Decidable (_ ∧ _ ∧ _ ∧ _ ∧ _ ∧ _))

def readItem : Reader WriteStream := do
  let writerCpu ← numberAt "\x7b\"writer_cpu\":"
  require (writerCpu ≤ 1)
  expect ",\"memory\":\"".toList
  let workRam ← memoryName
  let destination ← numberAt "\",\"destination\":"
  let length ← numberAt ",\"length\":"
  let pc ← numberAt ",\"pc\":"
  let paired ← flagAt ",\"paired\":"
  let source ← numberAt ",\"source\":"
  let sourceClass ← numberAt ",\"source_class\":"
  let sourceGap ← flagAt ",\"source_gap\":"
  let clobbered ← flagAt ",\"clobbered\":"
  let dropped ← flagAt ",\"dropped\":"
  let tooLarge ← flagAt ",\"too_large\":"
  let volatileInput ← flagAt ",\"volatile\":"
  expect ",\"bytes\":\"".toList
  let hex ← run isDigit
  expect "\"\x7d".toList
  let s : WriteStream :=
    { writerCpu, workRam, destination, length, pc, paired, source, sourceClass, sourceGap, clobbered, dropped, tooLarge,
      volatileInput, bytes := readBytes hex }
  require (s.Accepted hex.length)
  return s

/-- The items up to the closing bracket, with room for so many more. -/
def readItems (room : ℕ) (first : Bool) : Reader (List WriteStream) := fun text =>
  if text.head? = some ']' then some ([], text)
  else
    match room with
    | 0 => none
    | room + 1 => (do
        expect (if first then [] else [','])
        let s ← readItem
        let items ← readItems room false
        return s :: items : Reader (List WriteStream)) text

def readStreams : Reader StreamEvidence := do
  let slots ← numberAt "\"streams\":\x7b\"version\":1,\"slots\":"
  require (slots = kMaxStreams)
  let maxBytes ← numberAt ",\"max_bytes\":"
  require (maxBytes = kMaxStreamBytes)
  let _ ← numberAt ",\"writes\":"
  let evicted ← numberAt ",\"evicted\":"
  expect ",\"items\":[".toList
  let items ← readItems kMaxStreams true
  expect "]\x7d".toList
  return { present := true, evicted := evicted, items := items }

def parseStreamEvidence (json : Text) : Option StreamEvidence :=
  match find "\"streams\":\x7b".toList json with
  | none => some {}
  | some text => (readStreams text).map Prod.fst

end Segarecomp.SegaCd.Reloc

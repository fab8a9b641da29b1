import Segarecomp.SegaCd.Machine

/-! The observer of write streams that a materialization pass attaches to the bus. -/

namespace Segarecomp.SegaCd.Reloc

def scdRelocStreams : ℕ := 8

def scdRelocMaxBytes : ℕ := 4096

inductive Width
  | byte | word | long
  deriving DecidableEq, Repr

def Width.bytes : Width → ℕ
  | .byte => 1
  | .word => 2
  | .long => 4

inductive StreamMemory
  | prg | work
  deriving DecidableEq, Repr

inductive SourceClass
  | none | work | prg | word | rom | device
  deriving DecidableEq, Repr

/-- The sum of two `uint32_t`. -/
def u32 (x : ℕ) : ℕ := x % 2 ^ 32

/-- Byte `k` of a value, the most significant one first. -/
def byteOf (value : BitVec 32) (width : Width) (k : ℕ) : Byte :=
  (value >>> (8 * (width.bytes - 1 - k))).setWidth 8

def bigEndian (value : BitVec 32) (width : Width) : List Byte := (List.range width.bytes).map (byteOf value width)

/-- The class of an address in the processor's space, and the address without its mirrors. -/
def scdRelocClassify (cpu : Cpu) (address : ℕ) : SourceClass × ℕ :=
  match cpu with
  | .main =>
    if 0xE00000 ≤ address then (.work, 0xFF0000 + address % 0x10000)
    else if address < 0x200000 then
      (if address % 0x40000 < 0x20000 then .rom else .prg, address % 0x40000)
    else if address < 0x400000 then (.word, 0x200000 + address % 0x40000)
    else (.device, address)
  | .sub =>
    if address % 0x100000 < 0x80000 then (.prg, address % 0x100000)
    else if address % 0x100000 < 0xE0000 then (.word, address % 0x100000)
    else (.device, address)

/-! ## The accesses that are noted -/

/-- A read that the bus served. -/
structure BusRead where
  cpu : Cpu
  address : ℕ
  width : Width
  value : BitVec 32

def BusRead.masked (b : BusRead) : ℕ := b.address % 2 ^ 24

def BusRead.klass (b : BusRead) : SourceClass := (scdRelocClassify b.cpu b.masked).1

def BusRead.normal (b : BusRead) : ℕ := (scdRelocClassify b.cpu b.masked).2

/-- A write to a RAM byte, at `offset` of its memory; `dropped` when the bytes did not arrive. -/
structure BusWrite where
  cpu : Cpu
  address : ℕ
  width : Width
  value : BitVec 32
  pc : ℕ
  memory : StreamMemory
  offset : ℕ
  dropped : Bool

def BusWrite.normal (w : BusWrite) : ℕ := (scdRelocClassify w.cpu (w.address % 2 ^ 24)).2

inductive Event
  | read (b : BusRead)
  | write (w : BusWrite)
  | foreign (memory : StreamMemory) (offset length : ℕ)
  | retire (cpu : Cpu)

/-! ## What is recorded -/

structure ScdRelocStream where
  used : Bool := false
  writerCpu : Cpu := .main
  memory : StreamMemory := .prg
  unpaired : Bool := false
  sourceGap : Bool := false
  clobbered : Bool := false
  dropped : Bool := false
  tooLarge : Bool := false
  volatileInput : Bool := false
  /-- of the first paired read -/
  sourceClass : SourceClass := .none
  destination : ℕ := 0
  length : ℕ := 0
  pc : ℕ := 0
  source : ℕ := 0
  sourceNext : ℕ := 0
  order : BitVec 64 := 0
  deviceReads : BitVec 64 := 0
  bytes : ℕ → Byte := fun _ => 0

structure ScdRelocRead where
  valid : Bool := false
  /-- the reader's retired instructions at the time, which stay the same within an instruction -/
  instant : ℕ := 0
  count : BitVec 32 := 0
  address : ℕ := 0
  width : Width := .byte
  value : BitVec 32 := 0
  klass : SourceClass := .none

structure ScdReloc where
  streams : ℕ → ScdRelocStream := fun _ => {}
  pending : Cpu → ScdRelocRead := fun _ => {}
  deviceReads : Cpu → BitVec 64 := fun _ => 0
  order : BitVec 64 := 0
  evicted : BitVec 64 := 0
  writes : BitVec 64 := 0

def ScdRelocRead.note (p : ScdRelocRead) (instant : ℕ) (b : BusRead) : ScdRelocRead :=
  if p.valid = true ∧ p.instant = instant then
    -- a retried instruction repeats its read; any other one makes the instruction unfit for a pair
    if p.address = b.normal ∧ p.width = b.width then { p with value := b.value }
    else { p with count := p.count + 1 }
  else
    { valid := true, instant := instant, count := 1, address := b.normal, width := b.width, value := b.value,
      klass := b.klass }

def ScdReloc.noteRead (r : ScdReloc) (instant : ℕ) (b : BusRead) : ScdReloc :=
  { r with
    deviceReads :=
      if b.klass = .device then Function.update r.deviceReads b.cpu (r.deviceReads b.cpu + 1) else r.deviceReads
    pending := Function.update r.pending b.cpu ((r.pending b.cpu).note instant b) }

def ScdRelocStream.Overlaps (s : ScdRelocStream) (memory : StreamMemory) (offset length : ℕ) : Prop :=
  s.used = true ∧ s.memory = memory ∧ offset < u32 (s.destination + s.length) ∧ s.destination < u32 (offset + length)

instance (s : ScdRelocStream) (memory : StreamMemory) (offset length : ℕ) :
    Decidable (s.Overlaps memory offset length) := inferInstanceAs (Decidable (_ ∧ _ ∧ _ ∧ _))

def ScdRelocStream.clobber (s : ScdRelocStream) : ScdRelocStream := { s with clobbered := true }

def ScdReloc.noteForeign (r : ScdReloc) (memory : StreamMemory) (offset length : ℕ) : ScdReloc :=
  { r with streams := fun i =>
      if (r.streams i).Overlaps memory offset length then (r.streams i).clobber else r.streams i }

/-! ## A write -/

def sameRamClass : StreamMemory → SourceClass
  | .work => .work
  | .prg => .prg

/-- The one data read of this very instruction, same width and value, from a cell that is not the written
one. -/
def ScdRelocRead.Pairs (p : ScdRelocRead) (instant : ℕ) (w : BusWrite) : Prop :=
  p.valid = true ∧ p.instant = instant ∧ p.count = 1 ∧ p.width = w.width ∧ p.value = w.value ∧ p.klass ≠ .device ∧
    ¬(p.klass = sameRamClass w.memory ∧ p.address < u32 (w.normal + w.width.bytes) ∧
      w.normal < u32 (p.address + w.width.bytes))

instance (p : ScdRelocRead) (instant : ℕ) (w : BusWrite) : Decidable (p.Pairs instant w) :=
  inferInstanceAs (Decidable (_ ∧ _ ∧ _ ∧ _ ∧ _ ∧ _ ∧ ¬_))

/-- The write goes on where the stream stopped. -/
def ScdRelocStream.Continued (s : ScdRelocStream) (w : BusWrite) : Prop :=
  s.used = true ∧ s.writerCpu = w.cpu ∧ s.memory = w.memory ∧ s.pc = w.pc ∧
    u32 (s.destination + s.length) = w.offset

instance (s : ScdRelocStream) (w : BusWrite) : Decidable (s.Continued w) :=
  inferInstanceAs (Decidable (_ ∧ _ ∧ _ ∧ _ ∧ _))

def slots : List ℕ := List.range scdRelocStreams

def ScdReloc.target (r : ScdReloc) (w : BusWrite) : Option ℕ :=
  slots.find? fun i => decide ((r.streams i).Continued w)

/-- Every other stream that this write touches no longer owns those bytes. -/
def ScdReloc.clobberOthers (r : ScdReloc) (w : BusWrite) (i : ℕ) : ScdRelocStream :=
  if r.target w ≠ some i ∧ (r.streams i).Overlaps w.memory w.offset w.width.bytes then (r.streams i).clobber
  else r.streams i

def oldest (streams : ℕ → ScdRelocStream) : ℕ :=
  (List.range' 1 (scdRelocStreams - 1)).foldl
    (fun slot i => if (streams i).order < (streams slot).order then i else slot) 0

/-- The slot of a new stream, and whether the table loses a stream by it. -/
def freeSlot (streams : ℕ → ScdRelocStream) : ℕ × Bool :=
  match slots.find? fun i => !(streams i).used with
  | some i => (i, false)
  | none =>
    match slots.find? fun i => (streams i).clobbered with
    | some i => (i, false)
    | none => (oldest streams, true)

def ScdReloc.opened (r : ScdReloc) (instant : ℕ) (w : BusWrite) : ScdRelocStream :=
  if (r.pending w.cpu).Pairs instant w then
    { used := true, writerCpu := w.cpu, memory := w.memory, destination := w.offset, pc := w.pc,
      deviceReads := r.deviceReads w.cpu, source := (r.pending w.cpu).address,
      sourceNext := (r.pending w.cpu).address, sourceClass := (r.pending w.cpu).klass }
  else
    { used := true, writerCpu := w.cpu, memory := w.memory, destination := w.offset, pc := w.pc,
      deviceReads := r.deviceReads w.cpu, unpaired := true }

def ScdRelocStream.follow (s : ScdRelocStream) (p : ScdRelocRead) (paired : Bool) (width : Width) : ScdRelocStream :=
  if paired = false then { s with unpaired := true }
  else if s.unpaired = false ∧ s.sourceNext ≠ p.address then { s with sourceGap := true }
  else { s with sourceNext := u32 (p.address + width.bytes) }

def ScdRelocStream.drop (s : ScdRelocStream) (dropped : Bool) : ScdRelocStream :=
  if dropped then { s with dropped := true } else s

def ScdRelocStream.sample (s : ScdRelocStream) (deviceReads : BitVec 64) : ScdRelocStream :=
  if s.deviceReads ≠ deviceReads then { s with volatileInput := true, deviceReads := deviceReads } else s

def ScdRelocStream.store (value : BitVec 32) (width : Width) (s : ScdRelocStream) (k : ℕ) : ScdRelocStream :=
  if u32 (s.length + k) < scdRelocMaxBytes then
    { s with bytes := Function.update s.bytes (u32 (s.length + k)) (byteOf value width k) }
  else { s with tooLarge := true }

def ScdRelocStream.grow (s : ScdRelocStream) (order : BitVec 64) (w : BusWrite) : ScdRelocStream :=
  let s := (List.range w.width.bytes).foldl (ScdRelocStream.store w.value w.width) s
  { s with length := u32 (s.length + w.width.bytes), order := order }

def ScdReloc.extend (r : ScdReloc) (instant : ℕ) (w : BusWrite) (s : ScdRelocStream) : ScdRelocStream :=
  (((s.follow (r.pending w.cpu) (decide ((r.pending w.cpu).Pairs instant w)) w.width).drop w.dropped).sample
    (r.deviceReads w.cpu)).grow (r.order + 1) w

def ScdReloc.noteWrite (r : ScdReloc) (instant : ℕ) (w : BusWrite) : ScdReloc :=
  let streams := r.clobberOthers w
  match r.target w with
  | some i =>
    { r with
      writes := r.writes + 1, order := r.order + 1
      streams := Function.update streams i (r.extend instant w (streams i)) }
  | none =>
    let slot := freeSlot streams
    { r with
      writes := r.writes + 1, order := r.order + 1
      evicted := if slot.2 then r.evicted + 1 else r.evicted
      streams := Function.update streams slot.1 (r.extend instant w (r.opened instant w)) }

/-! ## A run -/

structure Observer where
  reloc : ScdReloc := {}
  retired : Cpu → ℕ

def Observer.step (o : Observer) : Event → Observer
  | .read b => { o with reloc := o.reloc.noteRead (o.retired b.cpu) b }
  | .write w => { o with reloc := o.reloc.noteWrite (o.retired w.cpu) w }
  | .foreign memory offset length => { o with reloc := o.reloc.noteForeign memory offset length }
  | .retire cpu => { o with retired := Function.update o.retired cpu (o.retired cpu + 1) }

/-- The observer as it is attached, and the events since. -/
def observe (retired : Cpu → ℕ) (events : List Event) : Observer :=
  events.foldl Observer.step { retired := retired }

end Segarecomp.SegaCd.Reloc

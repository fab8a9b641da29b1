import Segarecomp.Z80.Forms

/-! The generation-time Z80 decoder over a logical fetch function. Addresses are 16-bit and
wrap; `decodeAt` scans a DD/FD run forwards, `classifyAll` precomputes every run end. -/

namespace Segarecomp.Z80

abbrev Addr := BitVec 16

def kAddressSpace : Nat := 65536
def kDd : BitVec 8 := 0xDD
def kFd : BitVec 8 := 0xFD

inductive FetchKind
  | byte | unresolved_mapping | non_code
  deriving DecidableEq, Repr

structure FetchedByte where
  kind : FetchKind := .non_code
  value : BitVec 8 := 0
  imageId : Nat := 0
  imageOffset : Nat := 0
  deriving DecidableEq, Repr

abbrev LogicalFetch := Addr → FetchedByte

inductive EffectivePrefix
  | none | dd | fd
  deriving DecidableEq, Repr

structure Provenance where
  imageId : Nat := 0
  address : Addr := 0
  imageOffset : Nat := 0
  logicalByteCount : Nat := 0
  prefixCount : Nat := 0
  effectivePrefix : EffectivePrefix := .none
  form : FormId := kNoForm
  opcode : BitVec 8 := 0
  operands : List (BitVec 8) := []
  deriving DecidableEq, Repr

structure DecodedInstruction where
  provenance : Provenance := {}
  form : FormId := kNoForm
  extraPrefixCount : Nat := 0
  deriving DecidableEq, Repr

inductive StartKind
  | decoded | prefix_lock | unresolved_fetch_mapping | mutable_code | excluded_form
  deriving DecidableEq, Repr

structure StartClassification where
  kind : StartKind := .excluded_form
  instruction : DecodedInstruction := {}
  blockingAddress : Addr := 0
  deriving DecidableEq, Repr

def isPrefix (b : FetchedByte) : Bool :=
  b.kind == .byte && (b.value == kDd || b.value == kFd)

def blocked (b : FetchedByte) (address : Addr) : StartClassification :=
  { kind := if b.kind = .unresolved_mapping then .unresolved_fetch_mapping else .mutable_code
    blockingAddress := address }

def leadSpace : EffectivePrefix → Space
  | .none => .base
  | .dd => .dd
  | .fd => .fd

/-- The opcode part of an instruction: form, opcode byte, bytes consumed from the opcode
address, and extra prefixes; or the classification of a start that stops there. -/
structure OpcodePart where
  form : FormId
  opcode : BitVec 8
  consumed : Nat
  extra : Nat
  deriving DecidableEq, Repr

def opcodePart (get : LogicalFetch) (prefixCount : Nat) (effective : EffectivePrefix)
    (opAddr : Addr) (op : FetchedByte) : Except StartClassification OpcodePart :=
  let leadClass := classifyOpcodeByte (leadSpace effective) op.value
  match leadClass.kind with
  | .form =>
    .ok ⟨leadClass.form, op.value, 1, if effective = .none then 0 else prefixCount - 1⟩
  | .prefix_ignored => .ok ⟨leadClass.form, op.value, 1, prefixCount⟩
  | .escape_cb | .escape_ed | .prefix_ignored_before_ed =>
    let second := get (opAddr + 1)
    if second.kind ≠ .byte then .error (blocked second (opAddr + 1))
    else
      let space : Space := if leadClass.kind = .escape_cb then .cb else .ed
      .ok ⟨(classifyOpcodeByte space second.value).form, second.value, 2, prefixCount⟩
  | .escape_ddcb | .escape_fdcb =>
    let d := get (opAddr + 1)
    if d.kind ≠ .byte then .error (blocked d (opAddr + 1))
    else
      let last := get (opAddr + 2)
      if last.kind ≠ .byte then .error (blocked last (opAddr + 2))
      else
        let space : Space := if leadClass.kind = .escape_ddcb then .ddcb else .fdcb
        .ok ⟨(classifyOpcodeByte space last.value).form, last.value, 3, prefixCount - 1⟩
  | _ => .error {}

/-- The operand bytes from `address`, or the byte that blocks them. -/
def readOperands (get : LogicalFetch) : Nat → Addr → Except StartClassification (List (BitVec 8))
  | 0, _ => .ok []
  | n + 1, address =>
    let b := get address
    if b.kind ≠ .byte then .error (blocked b address)
    else
      match readOperands get n (address + 1) with
      | .ok rest => .ok (b.value :: rest)
      | .error c => .error c

def operandTotal (desc : FormDescriptor) : Nat := desc.length - desc.opcodeIndex - 1

/-- Decode the instruction whose first non-prefix byte is at `opAddr`. -/
def finish (get : LogicalFetch) (start : Addr) (first : FetchedByte) (prefixCount : Nat)
    (effective : EffectivePrefix) (opAddr : Addr) : StartClassification :=
  let op := get opAddr
  if op.kind ≠ .byte then blocked op opAddr
  else
    match opcodePart get prefixCount effective opAddr op with
    | .error c => c
    | .ok part =>
      let desc := formDescriptor part.form
      let indexedCb := desc.space = .ddcb ∨ desc.space = .fdcb
      let operands : Except StartClassification (List (BitVec 8)) :=
        if indexedCb then .ok [(get (opAddr + 1)).value]
        else readOperands get (operandTotal desc) (opAddr + BitVec.ofNat 16 part.consumed)
      match operands with
      | .error c => c
      | .ok operands =>
        let consumed := if indexedCb then part.consumed else part.consumed + operandTotal desc
        { kind := .decoded
          instruction :=
            { provenance :=
                { imageId := first.imageId, address := start, imageOffset := first.imageOffset
                  logicalByteCount := prefixCount + consumed, prefixCount
                  effectivePrefix := effective, form := part.form, opcode := part.opcode, operands }
              form := part.form
              extraPrefixCount := part.extra } }

def prefixOf (b : FetchedByte) : EffectivePrefix := if b.value = kDd then .dd else .fd

/-- The forward scan of a prefix run. `room` is what is left of the 65,536 prefixes after
which the run is a lock, so `prefixCount + room = kAddressSpace` throughout. -/
def scanPrefixes (get : LogicalFetch) :
    (room prefixCount : Nat) → EffectivePrefix → Addr → Option (Nat × EffectivePrefix × Addr)
  | 0, _, _, _ => none
  | room + 1, prefixCount, effective, cursor =>
    let byte := get cursor
    if isPrefix byte then scanPrefixes get room (prefixCount + 1) (prefixOf byte) (cursor + 1)
    else some (prefixCount, effective, cursor)

def decodeAt (fetch : LogicalFetch) (address : Addr) : StartClassification :=
  match scanPrefixes fetch kAddressSpace 0 .none address with
  | none => { kind := .prefix_lock }
  | some (prefixCount, effective, cursor) =>
    finish fetch address (fetch address) prefixCount effective cursor

/-- One backwards step of the run-end table from `anchor`. -/
def runEndStep (table : Nat → FetchedByte) (anchor : Nat) (ends : Nat → Nat) (step : Nat) : Nat → Nat :=
  let a := (anchor + kAddressSpace - step) % kAddressSpace
  Function.update ends a (if isPrefix (table a) then ends ((a + 1) % kAddressSpace) else a)

def runEnds (table : Nat → FetchedByte) (anchor : Nat) : Nat → Nat :=
  (List.range' 1 (kAddressSpace - 1)).foldl (runEndStep table anchor)
    (Function.update (fun _ => 0) anchor anchor)

def classifyStart (table : Nat → FetchedByte) (ends : Nat → Nat) (a : Nat) : StartClassification :=
  let e := ends a
  let k := (e + kAddressSpace - a) % kAddressSpace
  let effective : EffectivePrefix :=
    if k > 0 then prefixOf (table ((e + kAddressSpace - 1) % kAddressSpace)) else .none
  finish (fun x => table x.toNat) (BitVec.ofNat 16 a) (table a) k effective (BitVec.ofNat 16 e)

/-- Classify all 65,536 starts; the result is indexed by start address. -/
def classifyAll (fetch : LogicalFetch) : Addr → StartClassification :=
  let table := fun a : Nat => fetch (BitVec.ofNat 16 a)
  match (List.range kAddressSpace).find? fun a => !isPrefix (table a) with
  | none => fun _ => { kind := .prefix_lock }
  | some anchor =>
    let ends := runEnds table anchor
    fun a => classifyStart table ends a.toNat

def logicalLength (instruction : DecodedInstruction) : Nat :=
  instruction.extraPrefixCount + (formDescriptor instruction.form).length

def displacement (instruction : DecodedInstruction) : Option (BitVec 8) :=
  if (formDescriptor instruction.form).displacementIndex = kNoIndex then none
  else some (instruction.provenance.operands.getD 0 0)

def immediate (instruction : DecodedInstruction) : Option (BitVec 16) :=
  let f := formDescriptor instruction.form
  if f.immediateIndex = kNoIndex then none
  else
    let base := if f.displacementIndex = kNoIndex then 0 else 1
    let low := (instruction.provenance.operands.getD base 0).setWidth 16
    if f.immediateSize = 2 then
      some (low ||| ((instruction.provenance.operands.getD (base + 1) 0).setWidth 16 <<< 8))
    else some low

inductive TimingOutcome
  | primary | alternate
  deriving DecidableEq, Repr

def tStates (instruction : DecodedInstruction) (outcome : TimingOutcome) : Nat :=
  let t := (formDescriptor instruction.form).timing
  let extra := 4 * instruction.extraPrefixCount
  if outcome = .primary ∨ t.klass = .fixed then t.primary + extra
  else if t.klass = .halt then t.alternate else t.alternate + extra

end Segarecomp.Z80

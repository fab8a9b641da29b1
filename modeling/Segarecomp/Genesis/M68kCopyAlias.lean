import Mathlib

/-! Copy aliases of the preparation pass: the verbatim run of the cartridge image around a work-RAM
address, the merged set of aliases, and what one round decides. -/

namespace Segarecomp.Genesis.M68kAlias

abbrev Byte := BitVec 8

def kWorkRamBegin : ℕ := 0xFF0000

def kWorkRamBytes : ℕ := 0x10000

def kMinRun : ℕ := 16

def kStopKnownButUnemittedTarget : BitVec 32 := 5

def kStopUnsupportedInterrupt : BitVec 32 := 6

def kStopInternalDispatchInconsistency : BitVec 32 := 7

def kIrq6VectorOffset : ℕ := 0x78

structure CopyAlias where
  execution : BitVec 32 := 0
  source : BitVec 32 := 0
  length : BitVec 32 := 0
  deriving DecidableEq, Repr

structure RamThunk where
  execution : BitVec 32 := 0
  bytes : List Byte
  deriving DecidableEq, Repr

abbrev RamThunkRecognizer := BitVec 32 → List Byte → Option (List Byte)

structure GuestStopRecord where
  pc : BitVec 32 := 0
  stopClass : BitVec 32 := 0
  workRam : List Byte
  deriving DecidableEq, Repr

inductive Termination where
  | routeAdvanced | nonAliasFrontier | noWorkRamFrontier | frontierNotVerbatimCopy
  | repeatedAliasNoProgress | ramThunkMismatch | maxRounds | toolFailure
  deriving DecidableEq, Repr

structure RoundObservation where
  toolFailure : Bool := false
  guestStop : Bool := false
  record : Option GuestStopRecord := none
  deriving DecidableEq, Repr

structure Step where
  termination : Option Termination := none
  aliases : List CopyAlias := []
  thunks : List RamThunk := []
  deriving DecidableEq, Repr

/-! ## The run around one occurrence -/

def byteAt (bytes : List Byte) (i : ℕ) : Byte := bytes.getD i 0

section Derive

variable (rom workRam : List Byte) (offset : ℕ)

/-- The run from `length` bytes on, extended byte by byte. -/
def extendForward (position length : ℕ) : ℕ :=
  if offset + length < workRam.length ∧ position + length < rom.length ∧
      byteAt workRam (offset + length) = byteAt rom (position + length) then
    extendForward position (length + 1)
  else length
termination_by workRam.length - (offset + length)

/-- The run from `back` bytes before it, extended word by word. -/
def extendBack (position back : ℕ) : ℕ :=
  if back + 2 ≤ offset ∧ back + 2 ≤ position ∧
      byteAt workRam (offset - back - 2) = byteAt rom (position - back - 2) ∧
      byteAt workRam (offset - back - 1) = byteAt rom (position - back - 1) then
    extendBack position (back + 2)
  else back
termination_by offset - back

structure Best where
  total : ℕ
  back : ℕ
  position : ℕ

def runAt (position : ℕ) : Best :=
  let length := extendForward rom workRam offset position kMinRun
  let back := extendBack rom workRam offset position 0
  { total := back + (length - length % 2), back, position }

/-- `std::search` from `start` on: the first place where the needle stands. -/
def search (needle : List Byte) (start : ℕ) : Option ℕ :=
  (List.range' start (rom.length + 1 - start)).find? fun position => needle.isPrefixOf (rom.drop position)

def needle : List Byte := (workRam.drop offset).take kMinRun

variable {rom workRam offset} in
theorem search_range {needle : List Byte} {start position : ℕ} (found : search rom needle start = some position) :
    start ≤ position ∧ position < rom.length + 1 := by
  have inside := List.mem_range'_1.mp (List.mem_of_find?_eq_some found)
  omega

def Best.orBetter (best : Option Best) (run : Best) : Option Best :=
  match best with
  | none => some run
  | some held => if held.total < run.total then some run else some held

/-- Only even occurrences are candidates. -/
def Best.consider (best : Option Best) (position : ℕ) : Option Best :=
  if position % 2 = 0 then Best.orBetter best (runAt rom workRam offset position) else best

/-- The occurrences from `start` on, overlapping ones included. -/
def bestRun (start : ℕ) (best : Option Best) : Option Best :=
  match found : search rom (needle workRam offset) start with
  | none => best
  | some position => bestRun (position + 1) (Best.consider rom workRam offset best position)
termination_by rom.length + 1 - start
decreasing_by
  have := search_range found
  omega

end Derive

def deriveCopyAlias (rom workRam : List Byte) (pc : BitVec 32) : Option CopyAlias :=
  if pc.toNat % 2 ≠ 0 ∨ pc.toNat < kWorkRamBegin ∨ kWorkRamBegin + kWorkRamBytes ≤ pc.toNat then none
  else
    let offset := pc.toNat - kWorkRamBegin
    if workRam.length < offset ∨ workRam.length - offset < kMinRun then none
    else
      match bestRun rom workRam offset 0 none with
      | none => none
      | some best =>
          some { execution := BitVec.ofNat 32 (kWorkRamBegin + offset - best.back)
                 source := BitVec.ofNat 32 (best.position - best.back)
                 length := BitVec.ofNat 32 best.total }

/-! ## The merged set -/

namespace CopyAlias

/-- Aliases are compared by execution base, then source, then length. -/
def key (a : CopyAlias) : ℕ ×ₗ ℕ ×ₗ ℕ := toLex (a.execution.toNat, toLex (a.source.toNat, a.length.toNat))

theorem key_injective : Function.Injective key := by
  rintro ⟨e, s, l⟩ ⟨e', s', l'⟩ same
  have pairs := toLex.injective same
  obtain ⟨execution, rest⟩ := Prod.mk.inj pairs
  obtain ⟨source, length⟩ := Prod.mk.inj (toLex.injective rest)
  cases BitVec.eq_of_toNat_eq execution
  cases BitVec.eq_of_toNat_eq source
  cases BitVec.eq_of_toNat_eq length
  rfl

instance : LinearOrder CopyAlias := LinearOrder.lift' key key_injective

def lastEnd (a : CopyAlias) : ℕ := a.execution.toNat + a.length.toNat

/-- The execution-to-source displacement. -/
def delta (a : CopyAlias) : ℤ := (a.execution.toNat : ℤ) - a.source.toNat

end CopyAlias

/-- `item` continues `last`: one displacement, and no gap between them. -/
def Joins (last item : CopyAlias) : Prop :=
  item.delta = last.delta ∧ item.execution.toNat ≤ last.lastEnd

instance (last item : CopyAlias) : Decidable (Joins last item) := inferInstanceAs (Decidable (_ ∧ _))

/-- The length is kept in 32 bits. -/
def join (last item : CopyAlias) : CopyAlias :=
  { last with length := BitVec.ofNat 32 (max last.lastEnd item.lastEnd - last.execution.toNat) }

def mergeStep (merged : List CopyAlias) (item : CopyAlias) : List CopyAlias :=
  match merged.getLast? with
  | some last => if Joins last item then merged.dropLast ++ [join last item] else merged ++ [item]
  | none => merged ++ [item]

def mergeCopyAliases (aliases : List CopyAlias) : List CopyAlias :=
  (aliases.insertionSort (· ≤ ·)).foldl mergeStep []

/-! ## One round -/

def thunkStep (record : GuestStopRecord) (pc : BitVec 32) (aliases : List CopyAlias) (thunks : List RamThunk)
    (recognizer : Option RamThunkRecognizer) : Step :=
  if pc.toNat % 2 ≠ 0 ∨ pc.toNat < kWorkRamBegin ∨ kWorkRamBegin + kWorkRamBytes ≤ pc.toNat then
    { termination := some .noWorkRamFrontier }
  else
    let offset := pc.toNat - kWorkRamBegin
    let window := min 6 (record.workRam.length - offset)
    let within (existing : RamThunk) :=
      existing.execution.toNat ≤ pc.toNat ∧ pc.toNat < existing.execution.toNat + existing.bytes.length
    match thunks.find? fun existing => decide (within existing) with
    | some existing =>
        if existing.execution = pc ∧ existing.bytes.length ≤ window ∧
            (record.workRam.drop offset).take existing.bytes.length = existing.bytes then
          { termination := some .repeatedAliasNoProgress }
        else { termination := some .ramThunkMismatch }
    | none =>
        match recognizer.bind fun recognize => recognize pc ((record.workRam.drop offset).take window) with
        | none => { termination := some .frontierNotVerbatimCopy }
        | some bytes =>
            if ∃ existing ∈ thunks, existing.execution.toNat < pc.toNat + bytes.length ∧
                pc.toNat < existing.execution.toNat + existing.bytes.length then
              { termination := some .ramThunkMismatch }
            else if ∃ item ∈ aliases, pc.toNat < item.lastEnd ∧ item.execution.toNat < pc.toNat + bytes.length then
              { termination := some .repeatedAliasNoProgress }
            else
              { aliases
                thunks := (thunks ++ [RamThunk.mk pc bytes]).insertionSort
                  (fun a b => a.execution.toNat ≤ b.execution.toNat) }

def irq6Vector (rom : List Byte) : BitVec 32 :=
  (((byteAt rom kIrq6VectorOffset).setWidth 32 <<< 24) |||
    ((byteAt rom (kIrq6VectorOffset + 1)).setWidth 32 <<< 16) |||
    ((byteAt rom (kIrq6VectorOffset + 2)).setWidth 32 <<< 8) |||
    (byteAt rom (kIrq6VectorOffset + 3)).setWidth 32) &&& 0x00FFFFFF#32

def nextStep (rom : List Byte) (observed : RoundObservation) (aliases : List CopyAlias) (thunks : List RamThunk)
    (recognizer : Option RamThunkRecognizer) : Step :=
  if observed.toolFailure then { termination := some .toolFailure }
  else if !observed.guestStop then { termination := some .routeAdvanced }
  else
    match observed.record with
    | none => { termination := some .toolFailure }
    | some record =>
        if record.workRam.length ≠ kWorkRamBytes then { termination := some .toolFailure }
        else if record.stopClass = kStopUnsupportedInterrupt then
          if rom.length < kIrq6VectorOffset + 4 then { termination := some .nonAliasFrontier }
          else if (irq6Vector rom).toNat < kWorkRamBegin then { termination := some .nonAliasFrontier }
          else thunkStep record (irq6Vector rom) aliases thunks recognizer
        else if record.stopClass ≠ kStopKnownButUnemittedTarget ∧
            record.stopClass ≠ kStopInternalDispatchInconsistency then
          { termination := some .nonAliasFrontier }
        else if record.pc.toNat % 2 ≠ 0 ∨ record.pc.toNat < kWorkRamBegin ∨
            kWorkRamBegin + kWorkRamBytes ≤ record.pc.toNat then
          { termination := some .noWorkRamFrontier }
        else
          match deriveCopyAlias rom record.workRam record.pc with
          | none => thunkStep record record.pc aliases thunks recognizer
          | some proposal =>
              let next := mergeCopyAliases (aliases ++ [proposal])
              if next = aliases then { termination := some .repeatedAliasNoProgress }
              else { aliases := next, thunks }

end Segarecomp.Genesis.M68kAlias

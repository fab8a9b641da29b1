import Segarecomp.Lib.Contagion
import Segarecomp.Lib.CountingSort
import Segarecomp.M68k.ControlSuccessors

/-! The even offsets of a byte range at which a closed decodable flow starts. The decoder is a parameter; what it reads
there is lifted and followed as the processor's own modules do. -/

namespace Segarecomp.SegaCd.FileCandidates

open Lib.Contagion Lib.CountingSort M68k.ControlSuccessors
open M68k.DirectFlow (Address Byte)
open M68k.StaticDiscovery (M68kDecodedInstruction)

def kP0 : Address := 0x00200000

def kP1 : Address := 0x00300000

inductive Defect
  | notDecoded | alwaysFaults | notUnderstood | targetOutsideFile | targetOdd | fallOffFile
  deriving DecidableEq, Repr

structure StructuralOptions where
  leaveFileIsBoundary : Bool := false
  faultsAreTerminators : Bool := false
  deriving DecidableEq, Repr

/-- By the index of an even offset. One without a defect is valid. -/
structure StructuralClosure where
  valid : List Bool
  decoded : List Bool
  defect : List (Option Defect)
  evenOffsets : ℕ
  decodable : ℕ
  validOffsets : ℕ
  deriving DecidableEq, Repr

/-- What the first loop leaves at an index: the defect of a bad one, the mark and the counts of a decoded one, and the
dependencies in the file. -/
structure Node where
  defect : Option Defect := none
  decoded : Bool := false
  decodable : ℕ := 0
  deps : List ℕ := []
  deriving DecidableEq, Repr

def sequential (successor : M68kControlSuccessor) : Prop :=
  successor.kind = .fallthrough ∨ successor.kind = .conditionalFallthrough

instance (successor : M68kControlSuccessor) : Decidable (sequential successor) := inferInstanceAs (Decidable (_ ∨ _))

/-- The offset of a target from the first byte of the file. -/
def signedTarget (successor : M68kControlSuccessor) : ℤ := (successor.target.toNat : ℤ) - (kP0.toNat : ℤ)

section Decoder

variable (decode : List Byte → Address → ℕ → Option M68kDecodedInstruction) (options : StructuralOptions)
  (window : List Byte) (n : ℕ)

/-- A successor from both bases: a boundary, a dependency or a defect. -/
def classify (at0 at1 : M68kControlSuccessor) : Except Defect (Option ℕ) :=
  if at0.target = at1.target then .ok none
  else if at1.target - at0.target ≠ kP1 - kP0 then .error .notUnderstood
  else if signedTarget at0 < 0 ∨ (n : ℤ) ≤ signedTarget at0 / 2 then
    if options.leaveFileIsBoundary ∧ ¬sequential at0 then .ok none
    else if sequential at0 ∧ 0 ≤ signedTarget at0 then .error .fallOffFile
    else .error .targetOutsideFile
  else if (signedTarget at0).toNat % 2 ≠ 0 then .error .targetOdd
  else .ok (some ((signedTarget at0).toNat / 2))

/-- The loop over the successors, up to the first defect; there are two slots. -/
def follow : List (M68kControlSuccessor × M68kControlSuccessor) → List ℕ → Option Defect × List ℕ
  | [], deps => (none, deps)
  | (at0, at1) :: rest, deps =>
    match classify options n at0 at1 with
    | .error defect => (some defect, deps)
    | .ok none => follow rest deps
    | .ok (some dep) => follow rest (if deps.length < 2 then deps ++ [dep] else deps)

def decodeAt (i : ℕ) (base : Address) : Option M68kDecodedInstruction :=
  decode window (base + BitVec.ofNat 32 (i * 2)) (i * 2)

def node (i : ℕ) : Node :=
  match decodeAt decode window i kP0, decodeAt decode window i kP1 with
  | some d0, some d1 =>
    if d0.kind ≠ .moveq ∧ (liftM68kInstruction d0).kind = .writeMoveq then { defect := some .notDecoded }
    else
      let s0 := m68kControlSuccessors (liftM68kInstruction d0)
      let s1 := m68kControlSuccessors (liftM68kInstruction d1)
      if s0.alwaysRaisesException then
        -- the count was already raised when the instruction was decoded
        if options.faultsAreTerminators then { decoded := true, decodable := 2 }
        else { defect := some .alwaysFaults, decoded := true, decodable := 1 }
      else if s0.dynamic = .unclassified ∨ s0.successors.length ≠ s1.successors.length then
        { defect := some .notUnderstood, decoded := true, decodable := 1 }
      else
        let followed := follow options n (s0.successors.zip s1.successors) []
        { defect := followed.1, decoded := true, decodable := 1, deps := followed.2 }
  | _, _ => { defect := some .notDecoded }

/-- The dependencies with their users, in the order of the users. -/
def edges : List (ℕ × ℕ) :=
  (List.range n).flatMap fun i => (node decode options window n i).deps.map fun dep => (dep, i)

/-- The users of an index, in their slice of the sorted edges. -/
def users (i : ℕ) : List ℕ :=
  let head := heads n (edges decode options window n)
  (List.range (head (i + 1) - head i)).map fun k => placed n (edges decode options window n) (head i + k)

def ownDefect (i : ℕ) : Option Defect := if i < n then (node decode options window n i).defect else none

/-- The defects after the worklist is empty, its back at the head of the list. -/
def defects : ℕ → Option Defect :=
  let bad := (List.range n).filter fun i => (ownDefect decode options window n i).isSome
  (spread (users decode options window n) n (ownDefect decode options window n, bad.reverse)).1

end Decoder

def structuralClosure (decode : List Byte → Address → ℕ → Option M68kDecodedInstruction) (bytes : List Byte)
    (options : StructuralOptions) : StructuralClosure :=
  let n := bytes.length / 2 % 2 ^ 32
  let window := bytes.take (n * 2)
  let defect := (List.range n).map (defects decode options window n)
  let valid := defect.map Option.isNone
  let nodes := (List.range n).map (node decode options window n)
  { valid := valid, decoded := nodes.map Node.decoded, defect := defect, evenOffsets := n
    decodable := (nodes.map Node.decodable).sum, validOffsets := valid.count true }

end Segarecomp.SegaCd.FileCandidates

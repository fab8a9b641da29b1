import Mathlib
import Segarecomp.Lib.Waves

/-! The hybrid admission of ahead-of-time identities: structural pruning and closure of a proposed
region, the plan either one yields, and the validation of a plan before the identities are
filtered. -/

namespace Segarecomp.Genesis.HybridAdmission

open Lib.Waves

/-! ## Identities -/

inductive M68kStackedContinuationKind
  | none | call_continuation | exception_continuation | pushed_code_address
  deriving DecidableEq, Repr

structure M68kControlSuccessors where
  successors : List ℕ := []
  stacked : M68kStackedContinuationKind := .none
  stackedAddress : ℕ := 0
  deriving DecidableEq, Repr

structure ImmutableRomAotEntry (Operation : Type) where
  address : ℕ
  operation : Operation
  executionAlias : Bool := false
  aliasSourceAddress : ℕ := 0
  materializedRamThunk : Bool := false
  ramJmpLiveOperand : Bool := false
  deriving DecidableEq, Repr

structure ImmutableCopyAlias where
  executionBase : ℕ
  sourceBase : ℕ
  length : ℕ
  deriving DecidableEq, Repr

structure ImmutableRomAotRange where
  beginAddress : ℕ
  endAddress : ℕ
  deriving DecidableEq, Repr

/-- `roots` are the machine's reachability roots of the program. -/
structure FrontendProgram where
  immutableRomAotEnabled : Bool
  immutableCopyAliases : List ImmutableCopyAlias
  roots : List ℕ
  deriving DecidableEq, Repr

/-- The 24-bit bus address. -/
def bus (address : ℕ) : ℕ := address % 2 ^ 24

variable {Operation : Type}

def entryAddress (entry : ImmutableRomAotEntry Operation) : ℕ := bus entry.address

/-- A live work-RAM jump reads its destination at run time: its operand is no fixed successor. -/
def genesisEntryControlSuccessors (m68kControlSuccessors : Operation → M68kControlSuccessors)
    (entry : ImmutableRomAotEntry Operation) : M68kControlSuccessors :=
  if entry.ramJmpLiveOperand then {} else m68kControlSuccessors entry.operation

/-- The sorted distinct execution addresses. -/
def sortedUniverse (entries : List (ImmutableRomAotEntry Operation)) : List ℕ :=
  ((entries.map entryAddress).insertionSort (· ≤ ·)).dedup

/-- The identities by execution address, the first one of an address. -/
def broad (entries : List (ImmutableRomAotEntry Operation)) : List (ℕ × ImmutableRomAotEntry Operation) :=
  (sortedUniverse entries).filterMap fun address =>
    (entries.find? fun entry => entryAddress entry = address).map (address, ·)

def broadContains (entries : List (ImmutableRomAotEntry Operation)) (address : ℕ) : Bool :=
  entries.any fun entry => entryAddress entry = address

/-- The fixed successors and the call continuation of an identity. -/
def obligations (control : M68kControlSuccessors) : List ℕ :=
  control.successors.map bus ++
    if control.stacked = .call_continuation then [bus control.stackedAddress] else []

/-! ## Ranges -/

def ImmutableRomAotRange.Valid (range : ImmutableRomAotRange) : Prop :=
  range.beginAddress < range.endAddress ∧ range.beginAddress % 2 = 0 ∧ range.endAddress % 2 = 0

instance (range : ImmutableRomAotRange) : Decidable range.Valid := inferInstanceAs (Decidable (_ ∧ _))

/-- Non-empty, even, ascending and apart. -/
def WellFormed (ranges : List ImmutableRomAotRange) : Prop :=
  (∀ range ∈ ranges, range.Valid) ∧ ranges.IsChain fun a b => a.endAddress < b.beginAddress

instance (ranges : List ImmutableRomAotRange) : Decidable (WellFormed ranges) :=
  inferInstanceAs (Decidable (_ ∧ _))

/-- The last range that begins at or below the address, as the upper bound finds it in sorted
ranges, holds the address. -/
def genesisHybridAdmissionContains (ranges : List ImmutableRomAotRange) (address : ℕ) : Bool :=
  match (ranges.takeWhile fun range => range.beginAddress ≤ address).getLast? with
  | some range => range.beginAddress ≤ address ∧ address < range.endAddress
  | none => false

/-- The ranges so far stand last one first. -/
def endLast (ranges : List ImmutableRomAotRange) (endAddress : ℕ) : List ImmutableRomAotRange :=
  match ranges with
  | last :: rest => { last with endAddress := endAddress } :: rest
  | [] => []

/-- One address of the universe; `true` while the last range is open. -/
def extendRanges (keep : List ℕ) (state : List ImmutableRomAotRange × Bool) (address : ℕ) :
    List ImmutableRomAotRange × Bool :=
  if address ∉ keep then (state.1, false)
  else if state.2 then (endLast state.1 (address + 2), true)
  else (⟨address, address + 2⟩ :: state.1, true)

def genesisHybridAdmissionRanges (addresses admitted : List ℕ) : List ImmutableRomAotRange :=
  (addresses.foldl (extendRanges admitted) ([], false)).1.reverse

/-! ## Plans and their validation -/

inductive GenesisAdmissionStrategy
  | broad | hybrid
  deriving DecidableEq, Repr

structure GenesisHybridAdmissionPlan where
  romSha256 : String
  universeSha256 : String
  aliases : List ImmutableCopyAlias
  strategy : GenesisAdmissionStrategy
  ranges : List ImmutableRomAotRange
  deriving DecidableEq, Repr

/-- The reasons of a refusal, by the text the source gives them. -/
inductive Refusal
  | broad_aot_not_enabled | rom_sha256_mismatch | alias_set_mismatch | universe_mismatch
  | empty_admission | malformed_range | materialized_image_not_admitted
  | fixed_successor_not_admitted | call_continuation_not_admitted | machine_root_not_admitted
  | malformed_region | region_prune_cap_exhausted | region_close_cap_exhausted
  deriving DecidableEq, Repr

def hexDigit (n : ℕ) : Char := if n < 10 then Char.ofNat (48 + n) else Char.ofNat (87 + n)

def hex8 (value : ℕ) : String :=
  String.ofList ([7, 6, 5, 4, 3, 2, 1, 0].map fun place => hexDigit (value / 16 ^ place % 16))

def universeText (addresses : List ℕ) : String :=
  addresses.foldl (fun text address => text ++ hex8 address ++ "\n") ""

section Validate

variable (sha256Hex : String → String) (m68kControlSuccessors : Operation → M68kControlSuccessors)

def genesisHybridAdmissionUniverseDigest (addresses : List ℕ) : String := sha256Hex (universeText addresses)

/-- What the plan fails to admit for one identity. -/
def identityRefusal (entries : List (ImmutableRomAotEntry Operation)) (admitted : ℕ → Bool)
    (identity : ℕ × ImmutableRomAotEntry Operation) : Option Refusal :=
  let control := genesisEntryControlSuccessors m68kControlSuccessors identity.2
  let missing (target : ℕ) : Bool := broadContains entries target && !admitted target
  if admitted identity.1 = false then
    if identity.2.executionAlias then some .materialized_image_not_admitted else none
  else if (control.successors.map bus).any missing then some .fixed_successor_not_admitted
  else if control.stacked = .call_continuation ∧ missing (bus control.stackedAddress) then
    some .call_continuation_not_admitted
  else none

/-- The first failed check of a plan. -/
def planRefusal (program : FrontendProgram) (romSha256 : String) (plan : GenesisHybridAdmissionPlan)
    (entries : List (ImmutableRomAotEntry Operation)) : Option Refusal :=
  let admitted (address : ℕ) : Bool := genesisHybridAdmissionContains plan.ranges (bus address)
  if program.immutableRomAotEnabled = false then some .broad_aot_not_enabled
  else if plan.romSha256 ≠ romSha256 then some .rom_sha256_mismatch
  else if plan.aliases ≠ program.immutableCopyAliases then some .alias_set_mismatch
  else if genesisHybridAdmissionUniverseDigest sha256Hex (sortedUniverse entries) ≠ plan.universeSha256 then
    some .universe_mismatch
  else if plan.strategy = .broad then none
  else if plan.ranges = [] then some .empty_admission
  else if ¬WellFormed plan.ranges then some .malformed_range
  else
    match (broad entries).findSome? (identityRefusal m68kControlSuccessors entries admitted) with
    | some refusal => some refusal
    | none =>
      if (broad entries).all fun identity => !admitted identity.1 then some .empty_admission
      else if program.roots.any fun root => broadContains entries (bus root) && !admitted root then
        some .machine_root_not_admitted
      else none

/-- The first failed check, if any, and the identities after it: filtered only when none failed. -/
def applyGenesisHybridAdmission (program : FrontendProgram) (romSha256 : String)
    (plan : GenesisHybridAdmissionPlan) (entries : List (ImmutableRomAotEntry Operation)) :
    Option Refusal × List (ImmutableRomAotEntry Operation) :=
  match planRefusal sha256Hex m68kControlSuccessors program romSha256 plan entries with
  | some refusal => (some refusal, entries)
  | none =>
    if plan.strategy = .broad then (none, entries)
    else (none, entries.filter fun entry => genesisHybridAdmissionContains plan.ranges (entryAddress entry))

end Validate

/-! ## Pruning and closing a region -/

inductive FailureClass
  | pruned | outside_region
  deriving DecidableEq, Repr

structure GenesisRegionPruneResult where
  admitted : List ℕ := []
  universeCount : ℕ := 0
  k0Count : ℕ := 0
  prunedCount : ℕ := 0
  rounds : ℕ := 0
  failure : Option Refusal := none
  failureClass : Option FailureClass := none
  deriving DecidableEq, Repr

def GenesisRegionPruneResult.reject (result : GenesisRegionPruneResult) (reason : Refusal) :
    GenesisRegionPruneResult :=
  { result with admitted := [], failure := some reason }

/-- The identity's execution address is in a region, or it is a copy of a cartridge address that
is. -/
def inRegion (regions : List ImmutableRomAotRange) (identity : ℕ × ImmutableRomAotEntry Operation) : Bool :=
  genesisHybridAdmissionContains regions identity.1 ||
    (identity.2.executionAlias && !identity.2.materializedRamThunk && !identity.2.ramJmpLiveOperand &&
      genesisHybridAdmissionContains regions (bus identity.2.aliasSourceAddress))

def sortWave (wave : List ℕ) : List ℕ := wave.insertionSort (· ≤ ·)

section Regions

variable (m68kControlSuccessors : Operation → M68kControlSuccessors)

def targets (entry : ImmutableRomAotEntry Operation) : List ℕ :=
  obligations (genesisEntryControlSuccessors m68kControlSuccessors entry)

def regionNodes (entries : List (ImmutableRomAotEntry Operation)) (regions : List ImmutableRomAotRange) :
    List (ℕ × ImmutableRomAotEntry Operation) :=
  (broad entries).filter (inRegion regions)

/-- The nodes with an obligation to the address. -/
def requiredBy (nodes : List (ℕ × ImmutableRomAotEntry Operation)) (address : ℕ) : List ℕ :=
  (nodes.filter fun node => address ∈ targets m68kControlSuccessors node.2).map Prod.fst

/-- The nodes with an obligation to an identity that is no node. -/
def violating (entries : List (ImmutableRomAotEntry Operation))
    (nodes : List (ℕ × ImmutableRomAotEntry Operation)) : List ℕ :=
  (nodes.filter fun node => (targets m68kControlSuccessors node.2).any fun target =>
    broadContains entries target && !nodes.any fun other => other.1 = target).map Prod.fst

/-- The checks after the removal: something is left, every materialised identity and every machine
root. -/
def pruneVerdict (program : FrontendProgram) (entries : List (ImmutableRomAotEntry Operation))
    (regions : List ImmutableRomAotRange) (result : GenesisRegionPruneResult) : GenesisRegionPruneResult :=
  if result.admitted = [] then result.reject .empty_admission
  else
    match (broad entries).find? fun identity =>
        identity.2.executionAlias && !decide (identity.1 ∈ result.admitted) with
    | some identity =>
      let reason : FailureClass := if inRegion regions identity then .pruned else .outside_region
      { result.reject .materialized_image_not_admitted with failureClass := some reason }
    | none =>
      match program.roots.find? fun root =>
          broadContains entries (bus root) && !decide (bus root ∈ result.admitted) with
      | some root =>
        let reason : FailureClass :=
          if genesisHybridAdmissionContains regions (bus root) then .pruned else .outside_region
        { result.reject .machine_root_not_admitted with failureClass := some reason }
      | none => result

/-- Identities whose obligation leaves the region are removed, then in waves those that require a
removed one. -/
def pruneGenesisRegionAdmission (program : FrontendProgram) (entries : List (ImmutableRomAotEntry Operation))
    (regions : List ImmutableRomAotRange) (maxRounds : ℕ) : GenesisRegionPruneResult :=
  if ¬WellFormed regions then GenesisRegionPruneResult.reject {} .malformed_region
  else
    let nodes := regionNodes entries regions
    let leaving := violating m68kControlSuccessors entries nodes
    let result : GenesisRegionPruneResult :=
      { universeCount := (broad entries).length, k0Count := nodes.length }
    match spread (requiredBy m68kControlSuccessors nodes) sortWave maxRounds leaving [] leaving 0 with
    | none => { result with rounds := maxRounds + 1 }.reject .region_prune_cap_exhausted
    | some waves =>
      let admitted := (nodes.map Prod.fst).filter (· ∉ waves.expanded)
      pruneVerdict program entries regions { result with
        admitted := admitted, prunedCount := nodes.length - admitted.length, rounds := waves.rounds }

structure GenesisRegionCloseCounts where
  addedCount : ℕ := 0
  rootAddedCount : ℕ := 0
  deriving DecidableEq, Repr

/-- The identities that an identity requires. -/
def required (entries : List (ImmutableRomAotEntry Operation)) (address : ℕ) : List ℕ :=
  ((broad entries).filter (·.1 = address)).flatMap fun identity =>
    (targets m68kControlSuccessors identity.2).filter (broadContains entries)

/-- The materialised identities and the machine's roots. -/
def mandatoryAddresses (program : FrontendProgram) (entries : List (ImmutableRomAotEntry Operation)) : List ℕ :=
  ((broad entries).filter (·.2.executionAlias)).map Prod.fst ++
    (program.roots.map bus).filter (broadContains entries)

/-- The identities in the region, the mandatory ones, and in waves what they require. -/
def closeGenesisRegionAdmission (program : FrontendProgram) (entries : List (ImmutableRomAotEntry Operation))
    (regions : List ImmutableRomAotRange) (maxRounds : ℕ) :
    GenesisRegionPruneResult × GenesisRegionCloseCounts :=
  if ¬WellFormed regions then (GenesisRegionPruneResult.reject {} .malformed_region, {})
  else
    let nodes := (regionNodes entries regions).map Prod.fst
    let start := discover (mandatoryAddresses program entries) nodes
    let result : GenesisRegionPruneResult :=
      { universeCount := (broad entries).length, k0Count := nodes.length }
    let counts : GenesisRegionCloseCounts := { rootAddedCount := start.2.length }
    match spread (required m68kControlSuccessors entries) sortWave maxRounds start.1 [] (nodes ++ start.2) 0 with
    | none => ({ result with rounds := maxRounds + 1 }.reject .region_close_cap_exhausted, counts)
    | some waves =>
      let admitted := sortWave waves.seen
      let result := { result with admitted := admitted, rounds := waves.rounds }
      let counts := { counts with addedCount := admitted.length - nodes.length }
      if admitted = [] then (result.reject .empty_admission, counts) else (result, counts)

inductive GenesisRegionAdmissionClosure
  | prune | close
  deriving DecidableEq, Repr

structure GenesisExecutableRegionProposal where
  romSha256 : String
  ranges : List ImmutableRomAotRange
  deriving DecidableEq, Repr

/-- The plan, if any, the result it came from and the counts of a closure. -/
def planGenesisRegionAdmission (sha256Hex : String → String) (program : FrontendProgram) (romSha256 : String)
    (entries : List (ImmutableRomAotEntry Operation)) (proposal : GenesisExecutableRegionProposal)
    (maxRounds : ℕ) (closure : GenesisRegionAdmissionClosure) (counts : GenesisRegionCloseCounts) :
    Option GenesisHybridAdmissionPlan × GenesisRegionPruneResult × GenesisRegionCloseCounts :=
  if program.immutableRomAotEnabled = false then (none, { failure := some .broad_aot_not_enabled }, counts)
  else if proposal.romSha256 ≠ romSha256 then (none, { failure := some .rom_sha256_mismatch }, counts)
  else
    let outcome :=
      match closure with
      | .close => closeGenesisRegionAdmission m68kControlSuccessors program entries proposal.ranges maxRounds
      | .prune => (pruneGenesisRegionAdmission m68kControlSuccessors program entries proposal.ranges maxRounds, counts)
    if outcome.1.failure.isSome then (none, outcome)
    else
      let plan : GenesisHybridAdmissionPlan :=
        { romSha256 := romSha256
          universeSha256 := genesisHybridAdmissionUniverseDigest sha256Hex (sortedUniverse entries)
          aliases := program.immutableCopyAliases
          strategy := .hybrid
          ranges := genesisHybridAdmissionRanges (sortedUniverse entries) outcome.1.admitted }
      (some plan, outcome)

end Regions

end Segarecomp.Genesis.HybridAdmission

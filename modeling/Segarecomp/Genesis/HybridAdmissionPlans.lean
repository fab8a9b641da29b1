import Segarecomp.Genesis.HybridAdmissionClosure
import Segarecomp.Genesis.HybridAdmissionText
import Segarecomp.Media.Sha256

/-! The plans that a region proposal leads to, and their texts. -/

namespace Segarecomp.Genesis.HybridAdmission

open Lib.HexText Lib.Waves

/-! ## Copy aliases -/

def genesisAliasWorkRamBegin : ℕ := 0xFF0000

def genesisAliasWorkRamEnd : ℕ := 0x1000000

/-- How an alias that is there already answers for a new one: an exact duplicate is taken, an overlap is not. -/
def aliasAnswer (entry existing : ImmutableCopyAlias) : Option Bool :=
  if existing = entry then some true
  else if entry.executionBase < (existing.executionBase + existing.length) % 2 ^ 32 ∧
      existing.executionBase < entry.executionBase + entry.length then some false
  else none

/-- The aliases of the program after one more, `none` when it is refused; `sourceMapped` is whether the cartridge's
mapping claim alone covers the bytes copied. -/
def applyGenesisImmutableCopyAlias (sourceMapped : ℕ → ℕ → Bool) (aliases : List ImmutableCopyAlias)
    (entry : ImmutableCopyAlias) : Option (List ImmutableCopyAlias) :=
  if entry.length = 0 ∨ entry.length % 2 ≠ 0 ∨ entry.executionBase % 2 ≠ 0 ∨ entry.sourceBase % 2 ≠ 0 then none
  else if entry.executionBase < genesisAliasWorkRamBegin ∨ genesisAliasWorkRamEnd < entry.executionBase + entry.length then
    none
  else if sourceMapped entry.sourceBase entry.length = false then none
  else
    match aliases.findSome? (aliasAnswer entry) with
    | some true => some aliases
    | some false => none
    | none => some ((aliases ++ [entry]).mergeSort fun a b => a.executionBase ≤ b.executionBase)

/-- The lists of aliases that a program can have. -/
inductive Prepared (sourceMapped : ℕ → ℕ → Bool) : List ImmutableCopyAlias → Prop
  | none : Prepared sourceMapped []
  | apply {aliases after : List ImmutableCopyAlias} {entry : ImmutableCopyAlias} (before : Prepared sourceMapped aliases)
      (narrow : entry.Narrow) (applied : applyGenesisImmutableCopyAlias sourceMapped aliases entry = some after) :
      Prepared sourceMapped after

structure PlacedAliases (aliases : List ImmutableCopyAlias) : Prop where
  narrow : ∀ entry ∈ aliases, entry.Narrow
  inRam : ∀ entry ∈ aliases, 0 < entry.length ∧ entry.executionBase + entry.length ≤ genesisAliasWorkRamEnd
  ordered : aliases.Pairwise fun a b => a.executionBase < b.executionBase

variable {sourceMapped : ℕ → ℕ → Bool} {aliases after : List ImmutableCopyAlias} {entry existing : ImmutableCopyAlias}

/-- Two aliases in work RAM that begin at one address are one, or overlap. -/
theorem aliasAnswer_none (answer : aliasAnswer entry existing = none)
    (inRam : 0 < existing.length ∧ existing.executionBase + existing.length ≤ genesisAliasWorkRamEnd)
    (nonempty : 0 < entry.length) : existing.executionBase ≠ entry.executionBase := by
  intro same
  have top : existing.executionBase + existing.length < 2 ^ 32 := inRam.2.trans_lt (by decide)
  rw [aliasAnswer, Nat.mod_eq_of_lt top] at answer
  split_ifs at answer with duplicate overlap
  exact overlap ⟨by omega, by omega⟩

theorem PlacedAliases.append (placed : PlacedAliases aliases) (narrow : entry.Narrow)
    (inRam : 0 < entry.length ∧ entry.executionBase + entry.length ≤ genesisAliasWorkRamEnd)
    (free : aliases.findSome? (aliasAnswer entry) = none) :
    PlacedAliases ((aliases ++ [entry]).mergeSort fun a b => a.executionBase ≤ b.executionBase) := by
  have same := List.mergeSort_perm (aliases ++ [entry]) fun a b => decide (a.executionBase ≤ b.executionBase)
  have distinct : (aliases ++ [entry]).Pairwise fun a b => a.executionBase ≠ b.executionBase := by
    refine List.pairwise_append.mpr ⟨placed.ordered.imp fun less => less.ne, List.pairwise_singleton _ _, ?_⟩
    intro old member new is
    rw [List.mem_singleton.mp is]
    exact aliasAnswer_none (List.findSome?_eq_none_iff.mp free old member) (placed.inRam old member) inRam.1
  have sorted := @List.pairwise_mergeSort ImmutableCopyAlias (fun a b => decide (a.executionBase ≤ b.executionBase))
    (fun a b c first second => by
      rw [decide_eq_true_iff] at first second ⊢
      exact first.trans second)
    (fun a b => by
      rw [Bool.or_eq_true, decide_eq_true_iff, decide_eq_true_iff]
      exact Nat.le_total _ _) (aliases ++ [entry])
  have apart := (same.pairwise_iff fun ne => ne.symm).mpr distinct
  have members : ∀ {P : ImmutableCopyAlias → Prop}, (∀ old ∈ aliases, P old) → P entry →
      ∀ item ∈ (aliases ++ [entry]).mergeSort fun a b => decide (a.executionBase ≤ b.executionBase), P item := by
    intro P old new item member
    rcases List.mem_append.mp (same.mem_iff.mp member) with before | last
    · exact old item before
    · exact List.mem_singleton.mp last ▸ new
  exact {
    narrow := members placed.narrow narrow
    inRam := members placed.inRam inRam
    ordered := sorted.imp₂ (fun _ _ le ne => lt_of_le_of_ne (of_decide_eq_true le) ne) apart }

theorem Prepared.placed (prepared : Prepared sourceMapped aliases) : PlacedAliases aliases := by
  induction prepared with
  | none => exact ⟨fun _ member => absurd member List.not_mem_nil, fun _ member => absurd member List.not_mem_nil, .nil⟩
  | apply before narrow applied ih =>
      rw [applyGenesisImmutableCopyAlias] at applied
      split_ifs at applied with odd outside
      rw [not_or] at odd outside
      split at applied
      next => exact Option.some.inj applied ▸ ih
      next => cases applied
      next free =>
        rw [← Option.some.inj applied]
        exact ih.append narrow ⟨Nat.pos_of_ne_zero odd.1, Nat.le_of_not_lt outside.2⟩ free

/-! ## Digests -/

/-- The digest of a text of single bytes. -/
def sha256Text (text : String) : String :=
  String.ofList (Media.Sha256.sha256Hex (text.toList.map fun c => BitVec.ofNat 8 c.toNat))

theorem isDigit_digit {value : ℕ} (small : value < 16) : isDigit (Media.Sha256.digit value) = true := by
  revert value
  decide

theorem validSha256_hexText (state : Media.Sha256.State) : validSha256 (Media.Sha256.hexText state) = true := by
  have nibble (word : BitVec 32) (shift : ℕ) : ((word >>> shift) &&& 0xF).toNat < 16 :=
    Nat.lt_of_le_of_lt Nat.and_le_right (by decide)
  rw [validSha256, Bool.and_eq_true, decide_eq_true_iff]
  constructor
  · simp [Media.Sha256.hexText]
  · rw [List.all_eq_true]
    intro c member
    rcases List.mem_flatMap.mp member with ⟨word, -, inside⟩
    rcases List.mem_map.mp inside with ⟨shift, -, rfl⟩
    exact isDigit_digit (nibble word shift)

theorem validSha256_sha256Text (text : String) : validSha256 (sha256Text text).toList = true := by
  rw [sha256Text, String.toList_ofList]
  exact validSha256_hexText _

/-! ## The plan of a proposal -/

section Plans

variable {Operation : Type} {m68kControlSuccessors : Operation → M68kControlSuccessors} {program : FrontendProgram}
  {entries : List (ImmutableRomAotEntry Operation)} {regions : List ImmutableRomAotRange} {maxRounds : ℕ}
  {result : GenesisRegionPruneResult}

/-- Something is admitted, and nothing but identities. -/
def AdmitsIdentities (entries : List (ImmutableRomAotEntry Operation)) (admitted : List ℕ) : Prop :=
  admitted ≠ [] ∧ ∀ address ∈ admitted, address ∈ sortedUniverse entries

theorem mem_universe_of_broad {identity : ℕ × ImmutableRomAotEntry Operation} (member : identity ∈ broad entries) :
    identity.1 ∈ sortedUniverse entries :=
  mem_sortedUniverse.mpr ⟨identity.2, (broad_sound member).1, (broad_sound member).2⟩

theorem mem_universe_of_node {address : ℕ} (member : address ∈ (regionNodes entries regions).map Prod.fst) :
    address ∈ sortedUniverse entries := by
  rcases List.mem_map.mp member with ⟨node, inRegion, rfl⟩
  exact mem_universe_of_broad (List.mem_of_mem_filter inRegion)

theorem pruneVerdict_passed (passed : (pruneVerdict program entries regions result).failure = none) :
    result.admitted ≠ [] ∧ pruneVerdict program entries regions result = result := by
  rw [pruneVerdict] at passed ⊢
  split_ifs at passed ⊢ with empty
  · cases passed
  · refine ⟨empty, ?_⟩
    split at passed
    next => cases passed
    next =>
      split at passed
      next => cases passed
      next => rfl

theorem prune_admits
    (passed : (pruneGenesisRegionAdmission m68kControlSuccessors program entries regions maxRounds).failure = none) :
    AdmitsIdentities entries
      (pruneGenesisRegionAdmission m68kControlSuccessors program entries regions maxRounds).admitted := by
  have wf := prune_wellFormed passed
  rw [pruneGenesisRegionAdmission, if_neg (not_not.mpr wf)] at passed ⊢
  dsimp only at passed ⊢
  split at passed
  next => cases passed
  next waves spreads =>
    have verdict := pruneVerdict_passed passed
    rw [verdict.2]
    exact ⟨verdict.1, fun address member => mem_universe_of_node (List.mem_of_mem_filter member)⟩

/-- The seeds of a closure are identities, and so is what they require. -/
theorem closedOver_universe {seeds : List ℕ} (known : ∀ address ∈ seeds, address ∈ sortedUniverse entries) :
    ClosedOver (required m68kControlSuccessors entries) seeds {address | address ∈ sortedUniverse entries} := by
  refine ⟨known, ?_⟩
  intro address _ target requires
  rcases List.mem_flatMap.mp requires with ⟨identity, -, obligation⟩
  exact mem_sortedUniverse.mpr (broadContains_iff.mp (List.mem_filter.mp obligation).2)

theorem mem_universe_of_mandatory {address : ℕ} (member : address ∈ mandatoryAddresses program entries) :
    address ∈ sortedUniverse entries := by
  rcases List.mem_append.mp member with copied | root
  · rcases List.mem_map.mp copied with ⟨identity, kept, rfl⟩
    exact mem_universe_of_broad (List.mem_of_mem_filter kept)
  · exact mem_sortedUniverse.mpr (broadContains_iff.mp (List.mem_filter.mp root).2)

theorem close_admits
    (passed : (closeGenesisRegionAdmission m68kControlSuccessors program entries regions maxRounds).1.failure = none) :
    AdmitsIdentities entries
      (closeGenesisRegionAdmission m68kControlSuccessors program entries regions maxRounds).1.admitted := by
  have wf := close_nonempty passed
  refine ⟨wf.2, ?_⟩
  have seeds : ∀ address ∈ (regionNodes entries regions).map Prod.fst ++
      (discover (mandatoryAddresses program entries) ((regionNodes entries regions).map Prod.fst)).2,
      address ∈ sortedUniverse entries := by
    intro address seed
    rcases List.mem_append.mp seed with node | new
    · exact mem_universe_of_node node
    · exact mem_universe_of_mandatory (mem_discover_new.mp new).2
  have start (address : ℕ) :
      address ∈ (discover (mandatoryAddresses program entries) ((regionNodes entries regions).map Prod.fst)).1 ↔
        address ∈ (regionNodes entries regions).map Prod.fst ++
          (discover (mandatoryAddresses program entries) ((regionNodes entries regions).map Prod.fst)).2 := by
    rw [mem_discover_seen, List.mem_append, mem_discover_new]
    tauto
  rw [closeGenesisRegionAdmission, if_neg (not_not.mpr wf.1)] at passed ⊢
  dsimp only at passed ⊢
  split at passed
  next => cases passed
  next waves spreads =>
    have least := (spread_least (fun _ _ => mem_sortWave) start spreads).2.2 (closedOver_universe seeds)
    split_ifs
    · intro address member
      exact absurd member List.not_mem_nil
    · intro address member
      exact least (mem_sortWave.mp member)

variable {romSha256 : String} {proposal : GenesisExecutableRegionProposal} {closure : GenesisRegionAdmissionClosure}
  {counts : GenesisRegionCloseCounts} {plan : GenesisHybridAdmissionPlan}

theorem plan_fields (planned : (planGenesisRegionAdmission m68kControlSuccessors sha256Text program romSha256 entries
      proposal maxRounds closure counts).1 = some plan) :
    ∃ admitted, AdmitsIdentities entries admitted ∧
      plan = ⟨romSha256, genesisHybridAdmissionUniverseDigest sha256Text (sortedUniverse entries),
        program.immutableCopyAliases, .hybrid, genesisHybridAdmissionRanges (sortedUniverse entries) admitted⟩ := by
  rw [planGenesisRegionAdmission.eq_def] at planned
  split_ifs at planned
  cases closure with
  | close =>
      dsimp only at planned
      split_ifs at planned with failed
      have passed := Option.not_isSome_iff_eq_none.mp failed
      exact ⟨_, close_admits passed, (Option.some.inj planned).symm⟩
  | prune =>
      dsimp only at planned
      split_ifs at planned with failed
      have passed := Option.not_isSome_iff_eq_none.mp failed
      exact ⟨_, prune_admits passed, (Option.some.inj planned).symm⟩

theorem plan_of_prune (counts : GenesisRegionCloseCounts) (enabled : program.immutableRomAotEnabled = true)
    (same : proposal.romSha256 = romSha256)
    (passed : (pruneGenesisRegionAdmission m68kControlSuccessors program entries proposal.ranges maxRounds).failure = none) :
    (planGenesisRegionAdmission m68kControlSuccessors sha256Text program romSha256 entries proposal maxRounds .prune
      counts).1 = some ⟨romSha256, genesisHybridAdmissionUniverseDigest sha256Text (sortedUniverse entries),
        program.immutableCopyAliases, .hybrid, genesisHybridAdmissionRanges (sortedUniverse entries)
          (pruneGenesisRegionAdmission m68kControlSuccessors program entries proposal.ranges maxRounds).admitted⟩ := by
  rw [planGenesisRegionAdmission, if_neg (by simp [enabled]), if_neg (not_not.mpr same)]
  dsimp only
  rw [if_neg (by simp [passed])]

variable {addresses admitted : List ℕ}

theorem ranges_onBus (ascending : addresses.Pairwise (· < ·)) (even : ∀ x ∈ addresses, x % 2 = 0)
    (narrow : ∀ x ∈ addresses, x < 2 ^ 24) :
    ∀ range ∈ genesisHybridAdmissionRanges addresses admitted, range.OnBus := by
  have done := (Compressed.start admitted).foldl addresses ascending even
  intro range member
  have inside := List.mem_reverse.mp member
  rcases done.bounded range inside with ⟨x, known, stop⟩
  have below := narrow x known
  have parity := even x known
  exact ⟨done.valid range inside, by omega⟩

theorem universe_narrow {address : ℕ} (member : address ∈ sortedUniverse entries) : address < 2 ^ 24 := by
  rcases mem_sortedUniverse.mp member with ⟨entry, -, rfl⟩
  exact Nat.mod_lt _ (by decide)

theorem universe_even (even : ∀ entry ∈ entries, entryAddress entry % 2 = 0) {address : ℕ}
    (member : address ∈ sortedUniverse entries) : address % 2 = 0 := by
  rcases mem_sortedUniverse.mp member with ⟨entry, present, rfl⟩
  exact even entry present

theorem plan_readable (digest : validSha256 romSha256.toList = true)
    (prepared : Prepared sourceMapped program.immutableCopyAliases)
    (even : ∀ entry ∈ entries, entryAddress entry % 2 = 0)
    (planned : (planGenesisRegionAdmission m68kControlSuccessors sha256Text program romSha256 entries proposal maxRounds
      closure counts).1 = some plan) : Readable plan := by
  rcases plan_fields planned with ⟨admitted, admits, rfl⟩
  have evens : ∀ x ∈ sortedUniverse entries, x % 2 = 0 := fun x member => universe_even even member
  have exact_ranges := ranges_exact sortedUniverse_ascending evens admitted
  have nonempty : genesisHybridAdmissionRanges (sortedUniverse entries) admitted ≠ [] := by
    rcases List.exists_mem_of_ne_nil _ admits.1 with ⟨address, member⟩
    rcases (exact_ranges.2 address (admits.2 address member)).mpr member with ⟨range, present, -⟩
    exact List.ne_nil_of_mem present
  exact {
    rom := digest
    digest := validSha256_sha256Text _
    narrow := prepared.placed.narrow
    ordered := prepared.placed.ordered
    hybrid := rfl
    some := nonempty
    fits := ranges_onBus sortedUniverse_ascending evens fun x member => universe_narrow member
    apart := exact_ranges.1.ascending }

end Plans

/-- An accepted text is the text of its plan, and the text of a plan that was returned is accepted as that plan unless
it is larger than a reader takes. -/
theorem plan_text_canonical {Operation : Type} :
    (∀ text plan, parseGenesisHybridAdmissionPlan text = .ok plan → formatGenesisHybridAdmissionPlan plan = text) ∧
    ∀ (m68kControlSuccessors : Operation → M68kControlSuccessors) (sourceMapped : ℕ → ℕ → Bool)
      (program : FrontendProgram) (romSha256 : String) (entries : List (ImmutableRomAotEntry Operation))
      (proposal : GenesisExecutableRegionProposal) (maxRounds : ℕ) (closure : GenesisRegionAdmissionClosure)
      (counts : GenesisRegionCloseCounts) (plan : GenesisHybridAdmissionPlan),
      validSha256 romSha256.toList = true → Prepared sourceMapped program.immutableCopyAliases →
      (∀ entry ∈ entries, entryAddress entry % 2 = 0) →
      (planGenesisRegionAdmission m68kControlSuccessors sha256Text program romSha256 entries proposal maxRounds closure
        counts).1 = some plan →
      parseGenesisHybridAdmissionPlan (formatGenesisHybridAdmissionPlan plan) =
        if (formatGenesisHybridAdmissionPlan plan).length ≤ genesisHybridAdmissionPlanMaxBytes then .ok plan
        else .error .plan_too_large := by
  refine ⟨fun text plan => format_of_parse, ?_⟩
  intro m68kControlSuccessors sourceMapped program romSha256 entries proposal maxRounds closure counts plan digest
    prepared even planned
  exact parse_format (plan_readable digest prepared even planned)

def zeroDigest : String := String.ofList (List.replicate 64 '0')

theorem validSha256_zeroDigest : validSha256 zeroDigest.toList = true := by
  have digits : validSha256 (List.replicate 64 '0') = true := by decide
  exact (congrArg validSha256 String.toList_ofList).trans digits

theorem plan_text_canonical_sample : ∃ plan,
    (planGenesisRegionAdmission id sha256Text ⟨true, [], [0x200]⟩ zeroDigest
      [plainEntry 0x204 [0x300], plainEntry 0x200 [0x202], plainEntry 0x202 []] ⟨zeroDigest, [⟨0x200, 0x204⟩]⟩ 4 .prune
      {}).1 = some plan ∧
    parseGenesisHybridAdmissionPlan (formatGenesisHybridAdmissionPlan plan) =
      if (formatGenesisHybridAdmissionPlan plan).length ≤ genesisHybridAdmissionPlanMaxBytes then .ok plan
      else .error .plan_too_large := by
  have planned := @plan_of_prune _ id ⟨true, [], [0x200]⟩
    [plainEntry 0x204 [0x300], plainEntry 0x200 [0x202], plainEntry 0x202 []] 4 zeroDigest
    ⟨zeroDigest, [⟨0x200, 0x204⟩]⟩ {} rfl rfl (by decide)
  exact ⟨_, planned, plan_text_canonical.2 _ (fun _ _ => true) _ _ _ _ _ _ _ _ validSha256_zeroDigest .none (by decide)
    planned⟩

/-! ## A plan that is too long -/

/-- Ranges that hold the beginning of every one of `n` pieces of four bytes, and not its middle, are as many. -/
theorem ranges_count {ranges : List ImmutableRomAotRange} {n : ℕ} (held : ∀ i < n, Within ranges (4 * i))
    (gaps : ∀ i < n, ¬Within ranges (4 * i + 2)) : n ≤ ranges.length := by
  have holder : ∀ i : Fin n, ∃ k : Fin ranges.length, ranges[k].beginAddress ≤ 4 * i ∧ 4 * i < ranges[k].endAddress := by
    intro i
    rcases held i i.isLt with ⟨range, member, holds⟩
    rcases List.mem_iff_getElem.mp member with ⟨k, inside, rfl⟩
    exact ⟨⟨k, inside⟩, holds⟩
  choose place holds using holder
  have below : ∀ i j : Fin n, i < j → place i ≠ place j := by
    intro i j less same
    have first := holds i
    have second := holds j
    rw [same] at first
    refine gaps i i.isLt ⟨ranges[place j], List.getElem_mem _, ?_⟩
    have less' : (i : ℕ) < j := less
    omega
  have injective : Function.Injective place := by
    intro i j same
    rcases lt_trichotomy i j with less | equal | more
    · exact absurd same (below i j less)
    · exact equal
    · exact absurd same.symm (below j i more)
  simpa using Fintype.card_le_of_injective place injective

/-- An identity every two bytes, none with a successor. -/
def denseEntries (n : ℕ) : List (ImmutableRomAotEntry Unit) := (List.range (2 * n)).map fun i => ⟨2 * i, (), false, 0, false, false⟩

/-- Regions with every second identity. -/
def sparseRegions (n : ℕ) : List ImmutableRomAotRange := (List.range n).map fun i => ⟨4 * i, 4 * i + 2⟩

section Sparse

variable {n : ℕ}

theorem sparseRegions_wellFormed (n : ℕ) : WellFormed (sparseRegions n) := by
  constructor
  · intro range member
    rcases List.mem_map.mp member with ⟨i, -, rfl⟩
    exact ⟨by dsimp only; omega, by dsimp only; omega, by dsimp only; omega⟩
  · have ordered : (List.range n).Pairwise (· < ·) := List.pairwise_lt_range
    rw [sparseRegions, List.isChain_map]
    apply List.Pairwise.isChain
    exact ordered.imp fun {a b} less => by dsimp only; omega

theorem within_sparseRegions {x : ℕ} : Within (sparseRegions n) x ↔ x / 4 < n ∧ x % 4 < 2 := by
  constructor
  · rintro ⟨range, member, low, high⟩
    rcases List.mem_map.mp member with ⟨i, inside, rfl⟩
    have bound := List.mem_range.mp inside
    dsimp only at low high
    omega
  · rintro ⟨inside, low⟩
    refine ⟨⟨4 * (x / 4), 4 * (x / 4) + 2⟩, List.mem_map.mpr ⟨x / 4, List.mem_range.mpr inside, rfl⟩, ?_⟩
    dsimp only
    omega

theorem denseEntries_address (small : n ≤ 2 ^ 20) {entry : ImmutableRomAotEntry Unit} (member : entry ∈ denseEntries n) :
    ∃ i < 2 * n, entryAddress entry = 2 * i ∧ entry.executionAlias = false := by
  rcases List.mem_map.mp member with ⟨i, inside, rfl⟩
  have bound := List.mem_range.mp inside
  exact ⟨i, bound, Nat.mod_eq_of_lt (by dsimp only; omega), rfl⟩

theorem denseEntries_present (small : n ≤ 2 ^ 20) {i : ℕ} (inside : i < 2 * n) :
    2 * i ∈ sortedUniverse (denseEntries n) := by
  refine mem_sortedUniverse.mpr ⟨⟨2 * i, (), false, 0, false, false⟩, ?_, Nat.mod_eq_of_lt (by dsimp only; omega)⟩
  exact List.mem_map.mpr ⟨i, List.mem_range.mpr inside, rfl⟩

theorem prune_unlinked {entries : List (ImmutableRomAotEntry Unit)} {regions : List ImmutableRomAotRange}
    (wf : WellFormed regions) (some : (regionNodes entries regions).map Prod.fst ≠ [])
    (plain : ∀ entry ∈ entries, entry.executionAlias = false) :
    pruneGenesisRegionAdmission (fun _ => {}) ⟨true, [], []⟩ entries regions 1 =
      { admitted := (regionNodes entries regions).map Prod.fst, universeCount := (broad entries).length,
        k0Count := (regionNodes entries regions).length } := by
  have targetless (entry : ImmutableRomAotEntry Unit) : targets (fun _ => {}) entry = [] := by
    rw [targets, genesisEntryControlSuccessors]
    split_ifs <;> rfl
  have leaving : violating (fun _ => {}) entries (regionNodes entries regions) = [] := by
    simp [violating, targetless]
  have kept : ((regionNodes entries regions).map Prod.fst).filter (fun address => decide (address ∉ ([] : List ℕ))) =
      (regionNodes entries regions).map Prod.fst := by simp
  have noAlias : ((broad entries).find? fun identity =>
      identity.2.executionAlias && !decide (identity.1 ∈ (regionNodes entries regions).map Prod.fst)) = none := by
    rw [List.find?_eq_none]
    intro identity member
    rw [plain identity.2 (broad_sound member).1]
    simp
  have nothing (cap : ℕ) : spread (requiredBy (fun _ : Unit => {}) (regionNodes entries regions)) sortWave cap [] [] [] 0 =
      Option.some ⟨[], [], 0⟩ := by
    cases cap <;> rfl
  rw [pruneGenesisRegionAdmission, if_neg (not_not.mpr wf)]
  dsimp only
  rw [leaving, nothing]
  dsimp only
  rw [kept, pruneVerdict, if_neg some, noAlias]
  simp

theorem node_iff (small : n ≤ 2 ^ 20) {x : ℕ} :
    x ∈ (regionNodes (denseEntries n) (sparseRegions n)).map Prod.fst ↔
      x ∈ sortedUniverse (denseEntries n) ∧ Within (sparseRegions n) x := by
  have inside (identity : ℕ × ImmutableRomAotEntry Unit) (known : identity ∈ broad (denseEntries n)) :
      inRegion (sparseRegions n) identity = true ↔ Within (sparseRegions n) identity.1 := by
    rcases denseEntries_address small (broad_sound known).1 with ⟨-, -, -, plain⟩
    rw [inRegion, plain, ← contains_iff (sparseRegions_wellFormed n)]
    simp
  rw [List.mem_map]
  constructor
  · rintro ⟨identity, member, rfl⟩
    rcases List.mem_filter.mp member with ⟨known, regional⟩
    exact ⟨mem_universe_of_broad known, (inside identity known).mp regional⟩
  · rintro ⟨known, regional⟩
    rcases broad_complete (mem_sortedUniverse.mp known) with ⟨entry, member⟩
    exact ⟨(x, entry), List.mem_filter.mpr ⟨member, (inside _ member).mpr regional⟩, rfl⟩

theorem sparse_ranges (small : n ≤ 2 ^ 20) : n ≤ (genesisHybridAdmissionRanges (sortedUniverse (denseEntries n))
    ((regionNodes (denseEntries n) (sparseRegions n)).map Prod.fst)).length := by
  have evens : ∀ x ∈ sortedUniverse (denseEntries n), x % 2 = 0 := by
    intro x member
    apply universe_even _ member
    intro entry present
    rcases denseEntries_address small present with ⟨i, -, place, -⟩
    omega
  have held := (ranges_exact sortedUniverse_ascending evens
    ((regionNodes (denseEntries n) (sparseRegions n)).map Prod.fst)).2
  apply ranges_count
  · intro i below
    have place : 4 * i = 2 * (2 * i) := by omega
    have known : 4 * i ∈ sortedUniverse (denseEntries n) := place ▸ denseEntries_present small (by omega)
    exact (held _ known).mpr ((node_iff small).mpr ⟨known, within_sparseRegions.mpr (by omega)⟩)
  · intro i below within
    have place : 4 * i + 2 = 2 * (2 * i + 1) := by omega
    have known : 4 * i + 2 ∈ sortedUniverse (denseEntries n) := place ▸ denseEntries_present small (by omega)
    have middle := within_sparseRegions.mp ((node_iff small).mp ((held _ known).mp within)).2
    omega

theorem sparse_plan (small : n ≤ 2 ^ 20) (positive : 0 < n) : ∃ plan,
    (planGenesisRegionAdmission (fun _ => {}) sha256Text ⟨true, [], []⟩ zeroDigest (denseEntries n)
      ⟨zeroDigest, sparseRegions n⟩ 1 .prune {}).1 = some plan ∧ plan.strategy = .hybrid ∧ n ≤ plan.ranges.length := by
  have first : 0 ∈ (regionNodes (denseEntries n) (sparseRegions n)).map Prod.fst :=
    (node_iff small).mpr ⟨denseEntries_present (i := 0) small (by omega), within_sparseRegions.mpr (by omega)⟩
  have pruned := prune_unlinked (sparseRegions_wellFormed n) (List.ne_nil_of_mem first)
    fun entry member => by
      rcases denseEntries_address small member with ⟨-, -, -, plain⟩
      exact plain
  have planned := @plan_of_prune _ (fun _ => {}) ⟨true, [], []⟩ (denseEntries n) 1 zeroDigest
    ⟨zeroDigest, sparseRegions n⟩ {} rfl rfl (by rw [pruned])
  rw [pruned] at planned
  exact ⟨_, planned, rfl, sparse_ranges small⟩

end Sparse

/-- Every second identity of 1400000 makes a plan that its own reader refuses. -/
theorem long_plan_refused : ∃ plan,
    (planGenesisRegionAdmission (fun _ => {}) sha256Text ⟨true, [], []⟩ zeroDigest (denseEntries 700000)
      ⟨zeroDigest, sparseRegions 700000⟩ 1 .prune {}).1 = some plan ∧
    parseGenesisHybridAdmissionPlan (formatGenesisHybridAdmissionPlan plan) = .error .plan_too_large := by
  rcases sparse_plan (n := 700000) (by decide) (by decide) with ⟨plan, planned, hybrid, many⟩
  have long : genesisHybridAdmissionPlanMaxBytes < (formatGenesisHybridAdmissionPlan plan).length := by
    calc genesisHybridAdmissionPlanMaxBytes < 24 * 700000 := by decide
      _ ≤ 24 * plan.ranges.length := Nat.mul_le_mul_left 24 many
      _ ≤ (formatGenesisHybridAdmissionPlan plan).length := length_format hybrid
  exact ⟨plan, planned, if_pos long⟩

end Segarecomp.Genesis.HybridAdmission

import Segarecomp.Genesis.HybridAdmissionRanges

/-! Pruning is the greatest, and closing the least, set of identities closed under the obligations,
and the plan of either is accepted. -/

namespace Segarecomp.Genesis.HybridAdmission

open Lib.Waves

variable {Operation : Type} {m68kControlSuccessors : Operation → M68kControlSuccessors}
  {program : FrontendProgram} {entries : List (ImmutableRomAotEntry Operation)}
  {regions : List ImmutableRomAotRange} {maxRounds address : ℕ}

/-! ## What admission is about -/

def identities (entries : List (ImmutableRomAotEntry Operation)) : Set ℕ :=
  {address | ∃ entry ∈ entries, entryAddress entry = address}

/-- In a region by its execution address, or as a copy of a cartridge address in one. -/
def regionIdentities (entries : List (ImmutableRomAotEntry Operation)) (regions : List ImmutableRomAotRange) :
    Set ℕ :=
  {address | ∃ entry ∈ entries, entryAddress entry = address ∧
    (Within regions address ∨
      entry.executionAlias = true ∧ entry.materializedRamThunk = false ∧ entry.ramJmpLiveOperand = false ∧
        Within regions (bus entry.aliasSourceAddress))}

def mandatory (program : FrontendProgram) (entries : List (ImmutableRomAotEntry Operation)) : Set ℕ :=
  {address | ∃ entry ∈ entries, entryAddress entry = address ∧
    (entry.executionAlias = true ∨ ∃ root ∈ program.roots, bus root = address)}

/-- Closed under fixed successors and call continuations among identities. -/
def Obliged (m68kControlSuccessors : Operation → M68kControlSuccessors)
    (entries : List (ImmutableRomAotEntry Operation)) (K : Set ℕ) : Prop :=
  ∀ entry ∈ entries, entryAddress entry ∈ K →
    ∀ target ∈ targets m68kControlSuccessors entry, target ∈ identities entries → target ∈ K

/-- The greatest closed subset of the region's identities, refused and cleared when it is empty or
misses a mandatory identity. -/
def PruneExact (m68kControlSuccessors : Operation → M68kControlSuccessors) (program : FrontendProgram)
    (entries : List (ImmutableRomAotEntry Operation)) (regions : List ImmutableRomAotRange)
    (result : GenesisRegionPruneResult) : Prop :=
  ∃ K, IsGreatest {K | K ⊆ regionIdentities entries regions ∧ Obliged m68kControlSuccessors entries K} K ∧
    (result.failure = none ↔ K.Nonempty ∧ mandatory program entries ⊆ K) ∧
    (result.failure = none → {address | address ∈ result.admitted} = K) ∧
    (result.failure ≠ none → result.admitted = [])

/-- The least closed superset of the region's identities and the mandatory ones. -/
def CloseExact (m68kControlSuccessors : Operation → M68kControlSuccessors) (program : FrontendProgram)
    (entries : List (ImmutableRomAotEntry Operation)) (regions : List ImmutableRomAotRange)
    (result : GenesisRegionPruneResult) : Prop :=
  IsLeast {K | regionIdentities entries regions ⊆ K ∧ mandatory program entries ⊆ K ∧
    Obliged m68kControlSuccessors entries K} {address | address ∈ result.admitted}

/-! ## The model's lists as these sets -/

theorem mem_sortWave {wave : List ℕ} : address ∈ sortWave wave ↔ address ∈ wave :=
  List.mem_insertionSort _

theorem inRegion_iff (wf : WellFormed regions) (entry : ImmutableRomAotEntry Operation) :
    inRegion regions (address, entry) = true ↔
      Within regions address ∨
        entry.executionAlias = true ∧ entry.materializedRamThunk = false ∧ entry.ramJmpLiveOperand = false ∧
          Within regions (bus entry.aliasSourceAddress) := by
  rw [inRegion, Bool.or_eq_true, Bool.and_eq_true, Bool.and_eq_true, Bool.and_eq_true, contains_iff wf, contains_iff wf]
  simp only [Bool.not_eq_true', and_assoc]

theorem mem_regionNodes (wf : WellFormed regions) (distinct : (entries.map entryAddress).Nodup) :
    address ∈ (regionNodes entries regions).map Prod.fst ↔ address ∈ regionIdentities entries regions := by
  constructor
  · intro mem
    obtain ⟨⟨_, entry⟩, node, rfl⟩ := List.mem_map.mp mem
    obtain ⟨known, inside⟩ := List.mem_filter.mp node
    obtain ⟨mem', same⟩ := broad_sound known
    exact ⟨entry, mem', same, (inRegion_iff wf entry).mp inside⟩
  · rintro ⟨entry, mem, rfl, inside⟩
    refine List.mem_map.mpr ⟨(entryAddress entry, entry), List.mem_filter.mpr ⟨?_, ?_⟩, rfl⟩
    · exact broad_of_distinct distinct mem
    · exact (inRegion_iff wf entry).mpr inside

theorem regionNode (distinct : (entries.map entryAddress).Nodup) {entry : ImmutableRomAotEntry Operation}
    (mem : entry ∈ entries) (node : entryAddress entry ∈ (regionNodes entries regions).map Prod.fst) :
    (entryAddress entry, entry) ∈ regionNodes entries regions := by
  obtain ⟨⟨address', other⟩, known, same⟩ := List.mem_map.mp node
  obtain ⟨mem', same'⟩ := broad_sound (List.mem_filter.mp known).1
  have eq : other = entry := List.inj_on_of_nodup_map distinct mem' mem (same'.trans same)
  rw [← eq, same']
  exact known

/-! ## Pruning -/

theorem mem_requiredBy {nodes : List (ℕ × ImmutableRomAotEntry Operation)} {parent : ℕ} :
    parent ∈ requiredBy m68kControlSuccessors nodes address ↔
      ∃ entry, (parent, entry) ∈ nodes ∧ address ∈ targets m68kControlSuccessors entry := by
  simp [requiredBy]

theorem mem_violating {nodes : List (ℕ × ImmutableRomAotEntry Operation)} :
    address ∈ violating m68kControlSuccessors entries nodes ↔
      ∃ entry, (address, entry) ∈ nodes ∧ ∃ target ∈ targets m68kControlSuccessors entry,
        target ∈ identities entries ∧ target ∉ nodes.map Prod.fst := by
  have node_iff (target : ℕ) :
      (nodes.any fun other => other.1 = target) = true ↔ target ∈ nodes.map Prod.fst := by
    rw [List.any_eq_true, List.mem_map]
    simp only [decide_eq_true_eq]
  have leaves (node : ℕ × ImmutableRomAotEntry Operation) :
      ((targets m68kControlSuccessors node.2).any fun target =>
        broadContains entries target && !nodes.any fun other => other.1 = target) = true ↔
        ∃ target ∈ targets m68kControlSuccessors node.2,
          target ∈ identities entries ∧ target ∉ nodes.map Prod.fst := by
    simp only [List.any_eq_true (p := fun target => broadContains entries target && _), Bool.and_eq_true,
      Bool.not_eq_true', ← Bool.not_eq_true, node_iff, broadContains_iff]
    rfl
  rw [violating, List.mem_map]
  constructor
  · rintro ⟨⟨_, entry⟩, mem, rfl⟩
    obtain ⟨node, leaving⟩ := List.mem_filter.mp mem
    exact ⟨entry, node, (leaves _).mp leaving⟩
  · rintro ⟨entry, node, leaving⟩
    exact ⟨(address, entry), List.mem_filter.mpr ⟨node, (leaves _).mpr leaving⟩, rfl⟩

/-- The nodes left when the waves have removed what leads out of the region are the greatest set
closed under the obligations. -/
theorem prune_set {waves : Outcome ℕ} (wf : WellFormed regions) (distinct : (entries.map entryAddress).Nodup)
    (eq : spread (requiredBy m68kControlSuccessors (regionNodes entries regions)) sortWave maxRounds
      (violating m68kControlSuccessors entries (regionNodes entries regions)) []
      (violating m68kControlSuccessors entries (regionNodes entries regions)) 0 = some waves) :
    IsGreatest {K | K ⊆ regionIdentities entries regions ∧ Obliged m68kControlSuccessors entries K}
      {address | address ∈ ((regionNodes entries regions).map Prod.fst).filter (· ∉ waves.expanded)} := by
  obtain ⟨expanded, closed, least⟩ := spread_least (fun _ _ => mem_sortWave) (fun _ => Iff.rfl) eq
  have kept (address : ℕ) : address ∈ ((regionNodes entries regions).map Prod.fst).filter (· ∉ waves.expanded) ↔
      address ∈ regionIdentities entries regions ∧ address ∉ waves.seen := by
    rw [List.mem_filter, mem_regionNodes wf distinct, decide_eq_true_eq, expanded]
  refine ⟨⟨fun address mem => ((kept address).mp mem).1, ?_⟩, ?_⟩
  · intro entry mem inside target obliged known
    obtain ⟨region, present⟩ := (kept _).mp inside
    have node := regionNode distinct mem ((mem_regionNodes wf distinct).mpr region)
    have inRegion : target ∈ (regionNodes entries regions).map Prod.fst := by
      by_contra outside
      exact present (closed.1 _ (mem_violating.mpr ⟨entry, node, target, obliged, known, outside⟩))
    refine (kept target).mpr ⟨(mem_regionNodes wf distinct).mp inRegion, fun removed => ?_⟩
    exact present (closed.2 target removed _ (mem_requiredBy.mpr ⟨entry, node, obliged⟩))
  -- the nodes outside a closed set hold every violating one and are closed backwards
  · rintro K ⟨within, obliged⟩ address mem
    refine (kept address).mpr ⟨within mem, fun removed => ?_⟩
    let outside : Set ℕ := {a | a ∈ identities entries ∧ a ∉ K}
    have coClosed : ClosedOver (requiredBy m68kControlSuccessors (regionNodes entries regions))
        (violating m68kControlSuccessors entries (regionNodes entries regions)) outside := by
      constructor
      · intro a leaving
        obtain ⟨entry, node, target, obligation, known, escapes⟩ := mem_violating.mp leaving
        obtain ⟨mem', same⟩ := broad_sound (List.mem_filter.mp node).1
        refine ⟨⟨entry, mem', same⟩, fun inK => escapes ((mem_regionNodes wf distinct).mpr (within ?_))⟩
        exact obliged entry mem' (same ▸ inK) target obligation known
      · rintro a ⟨known, notK⟩ parent requires
        obtain ⟨entry, node, obligation⟩ := mem_requiredBy.mp requires
        obtain ⟨mem', same⟩ := broad_sound (List.mem_filter.mp node).1
        exact ⟨⟨entry, mem', same⟩, fun inK => notK (obliged entry mem' (same ▸ inK) a obligation known)⟩
    exact (least coClosed removed).2 mem

theorem alias_missing_iff {admitted : List ℕ} (distinct : (entries.map entryAddress).Nodup) :
    ((broad entries).find? fun identity => identity.2.executionAlias && !decide (identity.1 ∈ admitted)) = none ↔
      ∀ entry ∈ entries, entry.executionAlias = true → entryAddress entry ∈ admitted := by
  rw [List.find?_eq_none]
  constructor
  · intro none_missing entry mem isAlias
    have kept := none_missing _ (broad_of_distinct distinct mem)
    by_contra missing
    exact kept (by simp [isAlias, missing])
  · rintro all ⟨address, entry⟩ known missing
    obtain ⟨mem, same⟩ := broad_sound known
    obtain ⟨isAlias, absent⟩ := Bool.and_eq_true_iff.mp missing
    have kept := all entry mem isAlias
    rw [same] at kept
    simp [kept] at absent

theorem root_missing_iff {admitted : List ℕ} :
    (program.roots.find? fun root => broadContains entries (bus root) && !decide (bus root ∈ admitted)) = none ↔
      ∀ root ∈ program.roots, bus root ∈ identities entries → bus root ∈ admitted := by
  rw [List.find?_eq_none]
  constructor
  · intro none_missing root mem known
    by_contra missing
    exact none_missing root mem (by simpa [missing] using broadContains_iff.mpr known)
  · intro all root mem missing
    obtain ⟨known, absent⟩ := Bool.and_eq_true_iff.mp missing
    have kept := all root mem (broadContains_iff.mp known)
    simp [kept] at absent

theorem mandatory_subset_iff {K : Set ℕ} :
    mandatory program entries ⊆ K ↔
      (∀ entry ∈ entries, entry.executionAlias = true → entryAddress entry ∈ K) ∧
        ∀ root ∈ program.roots, bus root ∈ identities entries → bus root ∈ K := by
  constructor
  · intro subset
    refine ⟨fun entry mem isAlias => subset ⟨entry, mem, rfl, .inl isAlias⟩, fun root mem known => ?_⟩
    obtain ⟨entry, mem', same⟩ := known
    exact subset ⟨entry, mem', same, .inr ⟨root, mem, rfl⟩⟩
  · rintro ⟨aliases, roots⟩ address ⟨entry, mem, rfl, isAlias | ⟨root, isRoot, same⟩⟩
    · exact aliases entry mem isAlias
    · exact same ▸ roots root isRoot ⟨entry, mem, same.symm⟩

/-- The verdict passes exactly a non-empty set with every mandatory identity, and clears any other. -/
theorem pruneVerdict_spec (program : FrontendProgram) (regions : List ImmutableRomAotRange)
    (distinct : (entries.map entryAddress).Nodup) (result : GenesisRegionPruneResult)
    (open_result : result.failure = none) :
    let verdict := pruneVerdict program entries regions result
    (verdict.failure = none ↔
      {address | address ∈ result.admitted}.Nonempty ∧
        mandatory program entries ⊆ {address | address ∈ result.admitted}) ∧
      (verdict.failure = none → verdict = result) ∧
      (verdict.failure ≠ none → verdict.admitted = []) := by
  dsimp only
  rw [mandatory_subset_iff, pruneVerdict]
  by_cases empty : result.admitted = []
  · rw [if_pos empty]
    refine ⟨iff_of_false (Option.some_ne_none _) ?_, fun passed => absurd passed (Option.some_ne_none _), fun _ => rfl⟩
    rintro ⟨⟨address, mem⟩, -⟩
    exact absurd (empty ▸ mem : address ∈ []) List.not_mem_nil
  rw [if_neg empty]
  have nonempty : {address | address ∈ result.admitted}.Nonempty := List.exists_mem_of_ne_nil _ empty
  cases missing : (broad entries).find? fun identity =>
      identity.2.executionAlias && !decide (identity.1 ∈ result.admitted) with
  | some identity =>
    refine ⟨iff_of_false (Option.some_ne_none _) ?_, fun passed => absurd passed (Option.some_ne_none _), fun _ => rfl⟩
    rintro ⟨-, aliases, -⟩
    have none_missing := (alias_missing_iff distinct).mpr aliases
    rw [missing] at none_missing
    exact Option.some_ne_none _ none_missing
  | none =>
    have aliases := (alias_missing_iff distinct).mp missing
    cases absent : program.roots.find? fun root =>
        broadContains entries (bus root) && !decide (bus root ∈ result.admitted) with
    | some root =>
      refine ⟨iff_of_false (Option.some_ne_none _) ?_, fun passed => absurd passed (Option.some_ne_none _), fun _ => rfl⟩
      rintro ⟨-, -, roots⟩
      have none_absent := root_missing_iff.mpr roots
      rw [absent] at none_absent
      exact Option.some_ne_none _ none_absent
    | none =>
      refine ⟨iff_of_true open_result ⟨nonempty, aliases, root_missing_iff.mp absent⟩, fun _ => rfl, fun failed => ?_⟩
      exact absurd open_result failed

theorem prune_greatest (program : FrontendProgram) (maxRounds : ℕ) (distinct : (entries.map entryAddress).Nodup)
    (wf : WellFormed regions)
    (rounds : (pruneGenesisRegionAdmission m68kControlSuccessors program entries regions maxRounds).failure ≠
      some .region_prune_cap_exhausted) :
    PruneExact m68kControlSuccessors program entries regions
      (pruneGenesisRegionAdmission m68kControlSuccessors program entries regions maxRounds) := by
  rw [pruneGenesisRegionAdmission, if_neg (not_not.mpr wf)] at rounds ⊢
  dsimp only at rounds ⊢
  cases eq : spread (requiredBy m68kControlSuccessors (regionNodes entries regions)) sortWave maxRounds
      (violating m68kControlSuccessors entries (regionNodes entries regions)) []
      (violating m68kControlSuccessors entries (regionNodes entries regions)) 0 with
  | none =>
    rw [eq] at rounds
    exact absurd rfl rounds
  | some waves =>
    dsimp only
    refine ⟨_, prune_set wf distinct eq, ?_⟩
    have spec := pruneVerdict_spec program regions distinct
      { admitted := ((regionNodes entries regions).map Prod.fst).filter (· ∉ waves.expanded)
        universeCount := (broad entries).length
        k0Count := (regionNodes entries regions).length
        prunedCount := (regionNodes entries regions).length -
          (((regionNodes entries regions).map Prod.fst).filter (· ∉ waves.expanded)).length
        rounds := waves.rounds } rfl
    exact ⟨spec.1, fun passed => by rw [spec.2.1 passed], spec.2.2⟩

/-! ## Closing -/

theorem mem_mandatoryAddresses (distinct : (entries.map entryAddress).Nodup) :
    address ∈ mandatoryAddresses program entries ↔ address ∈ mandatory program entries := by
  rw [mandatoryAddresses, List.mem_append, List.mem_map, List.mem_filter, List.mem_map, broadContains_iff]
  constructor
  · rintro (⟨⟨_, entry⟩, node, rfl⟩ | ⟨⟨root, isRoot, rfl⟩, entry, mem, same⟩)
    · obtain ⟨known, isAlias⟩ := List.mem_filter.mp node
      obtain ⟨mem, same⟩ := broad_sound known
      exact ⟨entry, mem, same, .inl isAlias⟩
    · exact ⟨entry, mem, same, .inr ⟨root, isRoot, rfl⟩⟩
  · rintro ⟨entry, mem, rfl, isAlias | ⟨root, isRoot, same⟩⟩
    · exact .inl ⟨_, List.mem_filter.mpr ⟨broad_of_distinct distinct mem, isAlias⟩, rfl⟩
    · exact .inr ⟨⟨root, isRoot, same⟩, entry, mem, rfl⟩

theorem mem_required (distinct : (entries.map entryAddress).Nodup) {target : ℕ} :
    target ∈ required m68kControlSuccessors entries address ↔
      ∃ entry ∈ entries, entryAddress entry = address ∧
        target ∈ targets m68kControlSuccessors entry ∧ target ∈ identities entries := by
  rw [required, List.mem_flatMap]
  constructor
  · rintro ⟨⟨_, entry⟩, node, obligation⟩
    obtain ⟨known, same⟩ := List.mem_filter.mp node
    obtain ⟨mem, same'⟩ := broad_sound known
    obtain ⟨inTargets, isIdentity⟩ := List.mem_filter.mp obligation
    exact ⟨entry, mem, same'.trans (of_decide_eq_true same), inTargets, broadContains_iff.mp isIdentity⟩
  · rintro ⟨entry, mem, rfl, inTargets, isIdentity⟩
    refine ⟨_, List.mem_filter.mpr ⟨broad_of_distinct distinct mem, decide_eq_true rfl⟩, ?_⟩
    exact List.mem_filter.mpr ⟨inTargets, broadContains_iff.mpr isIdentity⟩

/-- Closed over the seeds of the closure is closed under the obligations and above the seeds. -/
theorem closedOver_required_iff (distinct : (entries.map entryAddress).Nodup) {seeds : List ℕ} {K : Set ℕ}
    (seeds_iff : ∀ address, address ∈ seeds ↔
      address ∈ regionIdentities entries regions ∨ address ∈ mandatory program entries) :
    ClosedOver (required m68kControlSuccessors entries) seeds K ↔
      regionIdentities entries regions ⊆ K ∧ mandatory program entries ⊆ K ∧
        Obliged m68kControlSuccessors entries K := by
  constructor
  · rintro ⟨seeded, followed⟩
    refine ⟨fun a mem => seeded a ((seeds_iff a).mpr (.inl mem)),
      fun a mem => seeded a ((seeds_iff a).mpr (.inr mem)), ?_⟩
    intro entry mem inK target obligation known
    exact followed _ inK target ((mem_required distinct).mpr ⟨entry, mem, rfl, obligation, known⟩)
  · rintro ⟨region, mandatory, obliged⟩
    refine ⟨fun a mem => ((seeds_iff a).mp mem).elim (region ·) (mandatory ·), ?_⟩
    intro a inK target requires
    obtain ⟨entry, mem, rfl, obligation, known⟩ := (mem_required distinct).mp requires
    exact obliged entry mem inK target obligation known

theorem close_least (program : FrontendProgram) (maxRounds : ℕ) (distinct : (entries.map entryAddress).Nodup)
    (wf : WellFormed regions)
    (rounds : (closeGenesisRegionAdmission m68kControlSuccessors program entries regions maxRounds).1.failure ≠
      some .region_close_cap_exhausted) :
    CloseExact m68kControlSuccessors program entries regions
      (closeGenesisRegionAdmission m68kControlSuccessors program entries regions maxRounds).1 := by
  rw [CloseExact]
  rw [closeGenesisRegionAdmission, if_neg (not_not.mpr wf)] at rounds ⊢
  dsimp only at rounds ⊢
  have seen (address : ℕ) :
      address ∈ (discover (mandatoryAddresses program entries) ((regionNodes entries regions).map Prod.fst)).1 ↔
        address ∈ (regionNodes entries regions).map Prod.fst ∨ address ∈ mandatoryAddresses program entries :=
    mem_discover_seen
  have new (address : ℕ) :
      address ∈ (discover (mandatoryAddresses program entries) ((regionNodes entries regions).map Prod.fst)).2 ↔
        address ∉ (regionNodes entries regions).map Prod.fst ∧ address ∈ mandatoryAddresses program entries :=
    mem_discover_new
  generalize discover (mandatoryAddresses program entries) ((regionNodes entries regions).map Prod.fst) = start
    at rounds seen new ⊢
  have same (address : ℕ) : address ∈ start.1 ↔ address ∈ (regionNodes entries regions).map Prod.fst ++ start.2 := by
    rw [List.mem_append, seen, new]
    tauto
  have seeds (address : ℕ) : address ∈ (regionNodes entries regions).map Prod.fst ++ start.2 ↔
      address ∈ regionIdentities entries regions ∨ address ∈ mandatory program entries := by
    rw [← same, seen, mem_regionNodes wf distinct, mem_mandatoryAddresses distinct]
  cases eq : spread (required m68kControlSuccessors entries) sortWave maxRounds start.1 []
      ((regionNodes entries regions).map Prod.fst ++ start.2) 0 with
  | none =>
    rw [eq] at rounds
    exact absurd rfl rounds
  | some waves =>
    obtain ⟨-, least⟩ := spread_least (fun _ _ => mem_sortWave) same eq
    simp only [closedOver_required_iff distinct seeds] at least
    have admitted : {address | address ∈ sortWave waves.seen} = {address | address ∈ waves.seen} :=
      Set.ext fun _ => mem_sortWave
    rw [← admitted] at least
    dsimp only
    by_cases empty : sortWave waves.seen = []
    · rw [if_pos empty]
      rw [empty] at least
      exact least
    · rw [if_neg empty]
      exact least

/-! ## The plan -/

theorem bus_bus (address : ℕ) : bus (bus address) = bus address := Nat.mod_mod _ _

/-- A set of identities a plan can carry. -/
structure Admissible (m68kControlSuccessors : Operation → M68kControlSuccessors) (program : FrontendProgram)
    (entries : List (ImmutableRomAotEntry Operation)) (admitted : List ℕ) : Prop where
  nonempty : ∃ address ∈ admitted, address ∈ identities entries
  obliged : Obliged m68kControlSuccessors entries {address | address ∈ admitted}
  mandatory : mandatory program entries ⊆ {address | address ∈ admitted}

section Plan

variable {sha256Hex : String → String} {romSha256 : String} {admitted : List ℕ}

/-- What the ranges of the plan say of an identity is whether it was admitted. -/
theorem plan_admits (even : ∀ entry ∈ entries, entryAddress entry % 2 = 0) (known : address ∈ identities entries) :
    genesisHybridAdmissionContains (genesisHybridAdmissionRanges (sortedUniverse entries) admitted) (bus address) =
      decide (address ∈ admitted) := by
  obtain ⟨entry, mem, rfl⟩ := known
  rw [entryAddress, bus_bus, Bool.eq_iff_iff, decide_eq_true_iff]
  apply ranges_contains sortedUniverse_ascending
  · intro x known
    obtain ⟨other, mem', rfl⟩ := mem_sortedUniverse.mp known
    exact even other mem'
  · exact mem_sortedUniverse.mpr ⟨entry, mem, rfl⟩

theorem identityRefusal_none (even : ∀ entry ∈ entries, entryAddress entry % 2 = 0)
    (fit : Admissible m68kControlSuccessors program entries admitted)
    {identity : ℕ × ImmutableRomAotEntry Operation} (node : identity ∈ broad entries) :
    identityRefusal m68kControlSuccessors entries
      (fun address => genesisHybridAdmissionContains
        (genesisHybridAdmissionRanges (sortedUniverse entries) admitted) (bus address)) identity = none := by
  obtain ⟨mem, same⟩ := broad_sound node
  have known : identity.1 ∈ identities entries := ⟨_, mem, same⟩
  rw [identityRefusal]
  dsimp only
  rw [plan_admits even known]
  by_cases kept : identity.1 ∈ admitted
  · have satisfied : ∀ target ∈ targets m68kControlSuccessors identity.2,
        ¬(broadContains entries target && !genesisHybridAdmissionContains
          (genesisHybridAdmissionRanges (sortedUniverse entries) admitted) (bus target)) = true := by
      intro target obligation missing
      obtain ⟨isIdentity, absent⟩ := Bool.and_eq_true_iff.mp missing
      have isIdentity' : target ∈ identities entries := broadContains_iff.mp isIdentity
      rw [plan_admits even isIdentity'] at absent
      have present : target ∈ admitted := fit.obliged _ mem (same ▸ kept) target obligation isIdentity'
      simp [present] at absent
    rw [if_neg (by simp [kept]), if_neg, if_neg]
    · rintro ⟨isCall, missing⟩
      refine satisfied _ ?_ missing
      rw [targets, obligations, if_pos isCall]
      exact List.mem_append_right _ (List.mem_singleton.mpr rfl)
    · intro fixed
      obtain ⟨target, successor, missing⟩ := List.any_eq_true.mp fixed
      exact satisfied target (List.mem_append_left _ successor) missing
  · have notAlias : identity.2.executionAlias = false := by
      by_contra isAlias
      exact kept (fit.mandatory ⟨_, mem, same, .inl (Bool.eq_true_of_not_eq_false isAlias)⟩)
    rw [if_pos (by simp [kept]), notAlias]
    rfl

theorem planRefusal_none (enabled : program.immutableRomAotEnabled = true)
    (even : ∀ entry ∈ entries, entryAddress entry % 2 = 0)
    (fit : Admissible m68kControlSuccessors program entries admitted) :
    planRefusal sha256Hex m68kControlSuccessors program romSha256
      { romSha256 := romSha256
        universeSha256 := genesisHybridAdmissionUniverseDigest sha256Hex (sortedUniverse entries)
        aliases := program.immutableCopyAliases
        strategy := .hybrid
        ranges := genesisHybridAdmissionRanges (sortedUniverse entries) admitted } entries = none := by
  have evens : ∀ x ∈ sortedUniverse entries, x % 2 = 0 := by
    intro x known
    obtain ⟨entry, mem, rfl⟩ := mem_sortedUniverse.mp known
    exact even entry mem
  obtain ⟨wf, cover⟩ := ranges_exact sortedUniverse_ascending evens admitted
  obtain ⟨some_address, kept, known⟩ := fit.nonempty
  obtain ⟨entry, mem, same⟩ := known
  have some_range : genesisHybridAdmissionRanges (sortedUniverse entries) admitted ≠ [] := by
    obtain ⟨range, inRanges, -⟩ := (cover some_address (mem_sortedUniverse.mpr ⟨entry, mem, same⟩)).mpr kept
    exact List.ne_nil_of_mem inRanges
  have satisfied : (broad entries).findSome? (identityRefusal m68kControlSuccessors entries
      (fun address => genesisHybridAdmissionContains
        (genesisHybridAdmissionRanges (sortedUniverse entries) admitted) (bus address))) = none :=
    List.findSome?_eq_none_iff.mpr fun identity node => identityRefusal_none even fit node
  rw [planRefusal, if_neg (by simp [enabled]), if_neg (not_not.mpr rfl), if_neg (not_not.mpr rfl),
    if_neg (not_not.mpr rfl), if_neg (by simp), if_neg some_range, if_neg (not_not.mpr wf)]
  dsimp only
  rw [satisfied]
  dsimp only
  rw [if_neg, if_neg]
  · intro missing
    obtain ⟨root, isRoot, missing⟩ := List.any_eq_true.mp missing
    obtain ⟨isIdentity, absent⟩ := Bool.and_eq_true_iff.mp missing
    obtain ⟨entry, mem, same⟩ := broadContains_iff.mp isIdentity
    have present : bus root ∈ admitted := fit.mandatory ⟨entry, mem, same, .inr ⟨root, isRoot, rfl⟩⟩
    have isIdentity' : bus root ∈ identities entries := ⟨entry, mem, same⟩
    rw [← bus_bus, plan_admits even isIdentity'] at absent
    simp [present] at absent
  · intro none_kept
    obtain ⟨entry', node⟩ := broad_complete ⟨entry, mem, same⟩
    have known : some_address ∈ identities entries := ⟨entry, mem, same⟩
    have absent := List.all_eq_true.mp none_kept _ node
    rw [plan_admits even known] at absent
    simp [kept] at absent

theorem apply_admissible (enabled : program.immutableRomAotEnabled = true)
    (even : ∀ entry ∈ entries, entryAddress entry % 2 = 0)
    (fit : Admissible m68kControlSuccessors program entries admitted) :
    applyGenesisHybridAdmission sha256Hex m68kControlSuccessors program romSha256
      { romSha256 := romSha256
        universeSha256 := genesisHybridAdmissionUniverseDigest sha256Hex (sortedUniverse entries)
        aliases := program.immutableCopyAliases
        strategy := .hybrid
        ranges := genesisHybridAdmissionRanges (sortedUniverse entries) admitted } entries =
      (none, entries.filter fun entry => entryAddress entry ∈ admitted) := by
  rw [applyGenesisHybridAdmission, planRefusal_none enabled even fit]
  dsimp only
  rw [if_neg (by simp)]
  congr 1
  apply List.filter_congr
  intro entry mem
  have known : entryAddress entry ∈ identities entries := ⟨entry, mem, rfl⟩
  rw [← plan_admits even known, entryAddress, bus_bus]

theorem apply_refused {plan : GenesisHybridAdmissionPlan}
    (refused : (applyGenesisHybridAdmission sha256Hex m68kControlSuccessors program romSha256 plan entries).1 ≠ none) :
    (applyGenesisHybridAdmission sha256Hex m68kControlSuccessors program romSha256 plan entries).2 = entries := by
  rw [applyGenesisHybridAdmission] at refused ⊢
  cases verdict : planRefusal sha256Hex m68kControlSuccessors program romSha256 plan entries with
  | some refusal => rfl
  | none =>
    rw [verdict] at refused
    dsimp only at refused ⊢
    split_ifs at refused ⊢ with unfiltered
    · rfl
    · exact absurd rfl refused

/-! ## What a result without a failure is fit for -/

theorem prune_admissible (distinct : (entries.map entryAddress).Nodup) (wf : WellFormed regions)
    (passed : (pruneGenesisRegionAdmission m68kControlSuccessors program entries regions maxRounds).failure = none) :
    Admissible m68kControlSuccessors program entries
      (pruneGenesisRegionAdmission m68kControlSuccessors program entries regions maxRounds).admitted := by
  obtain ⟨K, ⟨⟨within, obliged⟩, -⟩, verdict, exact_set, -⟩ :=
    prune_greatest program maxRounds distinct wf (by rw [passed]; exact (Option.some_ne_none _).symm)
  obtain ⟨⟨address, mem⟩, all⟩ := verdict.mp passed
  have same := exact_set passed
  rw [← same] at obliged all
  have kept : address ∈ (pruneGenesisRegionAdmission m68kControlSuccessors program entries regions
      maxRounds).admitted := same.ge mem
  refine ⟨⟨address, kept, ?_⟩, obliged, all⟩
  obtain ⟨entry, known, eq, -⟩ := within mem
  exact ⟨entry, known, eq⟩

theorem close_nonempty
    (passed : (closeGenesisRegionAdmission m68kControlSuccessors program entries regions maxRounds).1.failure = none) :
    WellFormed regions ∧
      (closeGenesisRegionAdmission m68kControlSuccessors program entries regions maxRounds).1.admitted ≠ [] := by
  rw [closeGenesisRegionAdmission] at passed ⊢
  by_cases wf : WellFormed regions
  · rw [if_neg (not_not.mpr wf)] at passed ⊢
    dsimp only at passed ⊢
    refine ⟨wf, ?_⟩
    cases eq : spread (required m68kControlSuccessors entries) sortWave maxRounds
        (discover (mandatoryAddresses program entries) ((regionNodes entries regions).map Prod.fst)).1 []
        ((regionNodes entries regions).map Prod.fst ++
          (discover (mandatoryAddresses program entries) ((regionNodes entries regions).map Prod.fst)).2) 0 with
    | none =>
      rw [eq] at passed
      exact absurd passed (Option.some_ne_none _)
    | some waves =>
      rw [eq] at passed
      dsimp only at passed ⊢
      split_ifs at passed ⊢ with empty
      · exact absurd passed (Option.some_ne_none _)
      · exact empty
  · rw [if_pos wf] at passed
    exact absurd passed (Option.some_ne_none _)

theorem close_admissible (distinct : (entries.map entryAddress).Nodup)
    (passed : (closeGenesisRegionAdmission m68kControlSuccessors program entries regions maxRounds).1.failure = none) :
    Admissible m68kControlSuccessors program entries
      (closeGenesisRegionAdmission m68kControlSuccessors program entries regions maxRounds).1.admitted := by
  obtain ⟨wf, nonempty⟩ := close_nonempty passed
  obtain ⟨⟨-, all, obliged⟩, least⟩ := close_least program maxRounds distinct wf
    (by rw [passed]; exact (Option.some_ne_none _).symm)
  obtain ⟨address, kept⟩ := List.exists_mem_of_ne_nil _ nonempty
  have known : (identities entries) ∈ {K | regionIdentities entries regions ⊆ K ∧ mandatory program entries ⊆ K ∧
      Obliged m68kControlSuccessors entries K} :=
    ⟨fun _ ⟨entry, mem, same, _⟩ => ⟨entry, mem, same⟩, fun _ ⟨entry, mem, same, _⟩ => ⟨entry, mem, same⟩,
      fun _ _ _ _ _ isIdentity => isIdentity⟩
  exact ⟨⟨address, kept, least known kept⟩, obliged, all⟩

theorem prune_wellFormed
    (passed : (pruneGenesisRegionAdmission m68kControlSuccessors program entries regions maxRounds).failure = none) :
    WellFormed regions := by
  by_contra malformed
  rw [pruneGenesisRegionAdmission, if_pos malformed] at passed
  exact absurd passed (Option.some_ne_none _)

/-- A plan that was returned is accepted, and leaves the admitted identities in their order. -/
theorem plan_accepted {proposal : GenesisExecutableRegionProposal} {closure : GenesisRegionAdmissionClosure}
    {counts : GenesisRegionCloseCounts} {plan : GenesisHybridAdmissionPlan}
    (distinct : (entries.map entryAddress).Nodup) (even : ∀ entry ∈ entries, entryAddress entry % 2 = 0)
    (planned : (planGenesisRegionAdmission m68kControlSuccessors sha256Hex program romSha256 entries proposal
      maxRounds closure counts).1 = some plan) :
    applyGenesisHybridAdmission sha256Hex m68kControlSuccessors program romSha256 plan entries =
      (none, entries.filter fun entry => entryAddress entry ∈
        (planGenesisRegionAdmission m68kControlSuccessors sha256Hex program romSha256 entries proposal
          maxRounds closure counts).2.1.admitted) := by
  rw [planGenesisRegionAdmission.eq_def] at planned ⊢
  by_cases disabled : program.immutableRomAotEnabled = false
  · rw [if_pos disabled] at planned
    cases planned
  by_cases foreign : proposal.romSha256 ≠ romSha256
  · rw [if_neg disabled, if_pos foreign] at planned
    cases planned
  rw [if_neg disabled, if_neg foreign] at planned ⊢
  have enabled : program.immutableRomAotEnabled = true := Bool.eq_true_of_not_eq_false disabled
  cases closure with
  | close =>
    dsimp only at planned ⊢
    by_cases failed : (closeGenesisRegionAdmission m68kControlSuccessors program entries proposal.ranges
        maxRounds).1.failure.isSome
    · rw [if_pos failed] at planned
      cases planned
    · rw [if_neg failed] at planned ⊢
      cases planned
      exact apply_admissible enabled even (close_admissible distinct (Option.not_isSome_iff_eq_none.mp failed))
  | prune =>
    dsimp only at planned ⊢
    by_cases failed : (pruneGenesisRegionAdmission m68kControlSuccessors program entries proposal.ranges
        maxRounds).failure.isSome
    · rw [if_pos failed] at planned
      cases planned
    · rw [if_neg failed] at planned ⊢
      cases planned
      have passed := Option.not_isSome_iff_eq_none.mp failed
      exact apply_admissible enabled even (prune_admissible distinct (prune_wellFormed passed) passed)

end Plan

/-- Pruning is the greatest closed subset of the region's identities, or a refusal; closing is the
least closed superset; the plan of either is accepted; a refused plan filters nothing. -/
theorem region_admission_exact (sha256Hex : String → String)
    (m68kControlSuccessors : Operation → M68kControlSuccessors) (program : FrontendProgram) (romSha256 : String)
    (entries : List (ImmutableRomAotEntry Operation)) (proposal : GenesisExecutableRegionProposal) (maxRounds : ℕ)
    (distinct : (entries.map entryAddress).Nodup) (even : ∀ entry ∈ entries, entryAddress entry % 2 = 0)
    (wf : WellFormed proposal.ranges) :
    ((pruneGenesisRegionAdmission m68kControlSuccessors program entries proposal.ranges maxRounds).failure ≠
        some .region_prune_cap_exhausted →
      PruneExact m68kControlSuccessors program entries proposal.ranges
        (pruneGenesisRegionAdmission m68kControlSuccessors program entries proposal.ranges maxRounds)) ∧
    ((closeGenesisRegionAdmission m68kControlSuccessors program entries proposal.ranges maxRounds).1.failure ≠
        some .region_close_cap_exhausted →
      CloseExact m68kControlSuccessors program entries proposal.ranges
        (closeGenesisRegionAdmission m68kControlSuccessors program entries proposal.ranges maxRounds).1) ∧
    (∀ closure counts plan,
      (planGenesisRegionAdmission m68kControlSuccessors sha256Hex program romSha256 entries proposal
        maxRounds closure counts).1 = some plan →
      applyGenesisHybridAdmission sha256Hex m68kControlSuccessors program romSha256 plan entries =
        (none, entries.filter fun entry => entryAddress entry ∈
          (planGenesisRegionAdmission m68kControlSuccessors sha256Hex program romSha256 entries proposal
            maxRounds closure counts).2.1.admitted)) ∧
    ∀ romSha256' plan,
      (applyGenesisHybridAdmission sha256Hex m68kControlSuccessors program romSha256' plan entries).1 ≠ none →
      (applyGenesisHybridAdmission sha256Hex m68kControlSuccessors program romSha256' plan entries).2 = entries :=
  ⟨prune_greatest _ _ distinct wf, close_least _ _ distinct wf, fun _ _ _ => plan_accepted distinct even,
    fun _ _ => apply_refused⟩

def plainEntry (address : ℕ) (successors : List ℕ) : ImmutableRomAotEntry M68kControlSuccessors where
  address := address
  operation := { successors := successors }

theorem region_admission_sample :
    applyGenesisHybridAdmission id id ⟨true, [], [0x200]⟩ "rom"
        { romSha256 := "rom", universeSha256 := "00000200\n00000202\n00000204\n", aliases := [],
          strategy := .hybrid, ranges := [⟨0x200, 0x204⟩] }
        [plainEntry 0x204 [0x300], plainEntry 0x200 [0x202], plainEntry 0x202 []] =
      (none, [plainEntry 0x200 [0x202], plainEntry 0x202 []]) :=
  ((region_admission_exact id id ⟨true, [], [0x200]⟩ "rom"
    [plainEntry 0x204 [0x300], plainEntry 0x200 [0x202], plainEntry 0x202 []] ⟨"rom", [⟨0x200, 0x204⟩]⟩ 4
    (by decide) (by decide) (by decide)).2.2.1 .prune {} _ rfl).trans (by decide)

/-- A region that misses a machine root clears the set although an identity of it is closed by
itself, and a plan for an identity at an odd address is refused. -/
theorem missed_root_and_odd_address :
    ((pruneGenesisRegionAdmission id ⟨true, [], [0x300]⟩ [plainEntry 0x200 [], plainEntry 0x300 []]
        [⟨0x200, 0x202⟩] 4).failure ≠ some .region_prune_cap_exhausted ∧
      ¬IsGreatest {K | K ⊆ regionIdentities [plainEntry 0x200 [], plainEntry 0x300 []] [⟨0x200, 0x202⟩] ∧
          Obliged id [plainEntry 0x200 [], plainEntry 0x300 []] K}
        {address | address ∈ (pruneGenesisRegionAdmission id ⟨true, [], [0x300]⟩
          [plainEntry 0x200 [], plainEntry 0x300 []] [⟨0x200, 0x202⟩] 4).admitted}) ∧
    ∃ plan, (planGenesisRegionAdmission id id ⟨true, [], []⟩ "rom" [plainEntry 0x201 []]
        ⟨"rom", [⟨0x200, 0x202⟩]⟩ 4 .prune {}).1 = some plan ∧
      (applyGenesisHybridAdmission id id ⟨true, [], []⟩ "rom" plan [plainEntry 0x201 []]).1 =
        some .malformed_range := by
  refine ⟨⟨by decide, fun greatest => ?_⟩, ⟨_, rfl, by decide⟩⟩
  have alone : ({0x200} : Set ℕ) ∈ {K | K ⊆ regionIdentities [plainEntry 0x200 [], plainEntry 0x300 []]
      [⟨0x200, 0x202⟩] ∧ Obliged id [plainEntry 0x200 [], plainEntry 0x300 []] K} := by
    constructor
    · rintro _ rfl
      exact ⟨plainEntry 0x200 [], List.mem_cons_self, by decide, .inl ⟨⟨0x200, 0x202⟩, List.mem_cons_self, by decide⟩⟩
    · intro entry mem _ target obligation
      rcases List.mem_cons.mp mem with rfl | mem
      · exact absurd obligation List.not_mem_nil
      · rw [List.mem_singleton.mp mem] at obligation
        exact absurd obligation List.not_mem_nil
  have kept := greatest.2 alone (Set.mem_singleton 0x200)
  have cleared : (pruneGenesisRegionAdmission id ⟨true, [], [0x300]⟩
      [plainEntry 0x200 [], plainEntry 0x300 []] [⟨0x200, 0x202⟩] 4).admitted = [] := by decide
  exact absurd (cleared ▸ kept : 0x200 ∈ []) List.not_mem_nil

end Segarecomp.Genesis.HybridAdmission

import Segarecomp.SegaCd.FileCandidates

/-! Closed flows: what makes an offset bad by itself, which offsets it needs, and what the first loop makes of both. -/

namespace Segarecomp.SegaCd.FileCandidates

open M68k.ControlSuccessors
open M68k.DirectFlow (Address Byte)
open M68k.StaticDiscovery (M68kDecodedInstruction)

/-! ## Flows -/

section Flows

variable (decode : List Byte → Address → ℕ → Option M68kDecodedInstruction) (options : StructuralOptions)
  (window : List Byte) (n : ℕ)

/-- An instruction is decoded at the index, with these successors from the two bases. -/
def Decodes (i : ℕ) (s0 s1 : M68kControlSuccessors) : Prop :=
  ∃ d0 d1, decodeAt decode window i kP0 = some d0 ∧ decodeAt decode window i kP1 = some d1 ∧
    ¬(d0.kind ≠ .moveq ∧ (liftM68kInstruction d0).kind = .writeMoveq) ∧
    s0 = m68kControlSuccessors (liftM68kInstruction d0) ∧ s1 = m68kControlSuccessors (liftM68kInstruction d1)

/-- The instruction goes on to successors that are understood. -/
structure Flow (i : ℕ) (s0 s1 : M68kControlSuccessors) : Prop where
  decodes : Decodes decode window i s0 s1
  plain : s0.alwaysRaisesException = false
  classified : s0.dynamic ≠ .unclassified
  paired : s0.successors.length = s1.successors.length

/-- A successor, seen from both bases. -/
def Pair (i : ℕ) (at0 at1 : M68kControlSuccessor) : Prop :=
  ∃ s0 s1, Flow decode window i s0 s1 ∧ (at0, at1) ∈ s0.successors.zip s1.successors

/-- A successor that moves with the file. -/
def Relative (i : ℕ) (at0 : M68kControlSuccessor) : Prop :=
  ∃ at1, Pair decode window i at0 at1 ∧ at0.target ≠ at1.target ∧ at1.target - at0.target = kP1 - kP0

def InFile (target : ℤ) : Prop := 0 ≤ target ∧ target / 2 < n

/-- The defects of an offset itself. -/
inductive Own (i : ℕ) : Defect → Prop
  | notDecoded (none : ∀ s0 s1, ¬Decodes decode window i s0 s1) : Own i .notDecoded
  | alwaysFaults {s0 s1 : M68kControlSuccessors} (decodes : Decodes decode window i s0 s1)
      (raises : s0.alwaysRaisesException = true) (strict : options.faultsAreTerminators = false) : Own i .alwaysFaults
  | notUnderstood {s0 s1 : M68kControlSuccessors} (decodes : Decodes decode window i s0 s1)
      (plain : s0.alwaysRaisesException = false)
      (unclear : s0.dynamic = .unclassified ∨ s0.successors.length ≠ s1.successors.length) : Own i .notUnderstood
  | notLinear {at0 at1 : M68kControlSuccessor} (pair : Pair decode window i at0 at1) (moves : at0.target ≠ at1.target)
      (apart : at1.target - at0.target ≠ kP1 - kP0) : Own i .notUnderstood
  | fallOffFile {at0 : M68kControlSuccessor} (relative : Relative decode window i at0) (falls : sequential at0)
      (forward : 0 ≤ signedTarget at0) (outside : ¬InFile n (signedTarget at0)) : Own i .fallOffFile
  | targetOutsideFile {at0 : M68kControlSuccessor} (relative : Relative decode window i at0)
      (outside : ¬InFile n (signedTarget at0)) (backward : sequential at0 → signedTarget at0 < 0)
      (strict : ¬sequential at0 → options.leaveFileIsBoundary = false) : Own i .targetOutsideFile
  | targetOdd {at0 : M68kControlSuccessor} (relative : Relative decode window i at0)
      (inside : InFile n (signedTarget at0)) (odd : signedTarget at0 % 2 = 1) : Own i .targetOdd

/-- `j` is a fixed successor of `i` in the file. -/
def Successor (i j : ℕ) : Prop :=
  ∃ at0, Relative decode window i at0 ∧ InFile n (signedTarget at0) ∧ signedTarget at0 = 2 * j

end Flows

variable {decode : List Byte → Address → ℕ → Option M68kDecodedInstruction} {options : StructuralOptions}
  {window : List Byte} {n i j : ℕ} {at0 at1 : M68kControlSuccessor} {s0 s1 : M68kControlSuccessors} {defect : Defect}
  {deps : List ℕ} {dep : ℕ} {pairs : List (M68kControlSuccessor × M68kControlSuccessor)}

theorem Successor.inside (successor : Successor decode window n i j) : j < n := by
  rcases successor with ⟨at0, -, inside, target⟩
  have below := inside.2
  omega

theorem Decodes.unique {t0 t1 : M68kControlSuccessors} (decodes : Decodes decode window i s0 s1)
    (decodes' : Decodes decode window i t0 t1) : t0 = s0 ∧ t1 = s1 := by
  rcases decodes with ⟨d0, d1, first, second, -, rfl, rfl⟩
  rcases decodes' with ⟨e0, e1, first', second', -, rfl, rfl⟩
  have same := Option.some.inj (first.symm.trans first')
  have same' := Option.some.inj (second.symm.trans second')
  rw [same, same']
  exact ⟨rfl, rfl⟩

/-! ## One successor -/

theorem not_inFile_iff (target : ℤ) : ¬InFile n target ↔ target < 0 ∨ (n : ℤ) ≤ target / 2 := by
  rw [InFile]
  omega

theorem classify_dep : classify options n at0 at1 = .ok (some dep) ↔ at0.target ≠ at1.target ∧
    at1.target - at0.target = kP1 - kP0 ∧ InFile n (signedTarget at0) ∧ signedTarget at0 = 2 * dep := by
  rw [classify]
  split_ifs with same apart outside leaves falls odd
  case pos => simp [same]
  case pos => simp [apart]
  case pos => simp [(not_inFile_iff _).mpr outside]
  case pos => simp [(not_inFile_iff _).mpr outside]
  case neg => simp [(not_inFile_iff _).mpr outside]
  case pos =>
    rw [← not_inFile_iff, not_not] at outside
    have nonneg := outside.1
    constructor
    · intro none
      cases none
    · intro even
      omega
  case neg =>
    rw [← not_inFile_iff, not_not] at outside
    have nonneg := outside.1
    rw [not_not] at apart
    constructor
    · intro found
      have value : (signedTarget at0).toNat / 2 = dep := Option.some.inj (Except.ok.inj found)
      exact ⟨same, apart, outside, by omega⟩
    · rintro ⟨-, -, -, target⟩
      exact congrArg (fun dep => Except.ok (some dep)) (by omega)

theorem own_of_classify (pair : Pair decode window i at0 at1) (bad : classify options n at0 at1 = .error defect) :
    Own decode options window n i defect := by
  rw [classify] at bad
  split_ifs at bad with same apart outside leaves falls odd
  case pos =>
    cases bad
    exact Own.notLinear pair same apart
  all_goals rw [not_not] at apart
  case pos =>
    cases bad
    exact Own.fallOffFile ⟨at1, pair, same, apart⟩ falls.1 falls.2 ((not_inFile_iff _).mpr outside)
  case neg =>
    cases bad
    apply Own.targetOutsideFile ⟨at1, pair, same, apart⟩ ((not_inFile_iff _).mpr outside)
    · intro sequential
      exact Int.not_le.mp fun forward => falls ⟨sequential, forward⟩
    · intro jump
      exact Bool.not_eq_true _ ▸ fun leave => leaves ⟨leave, jump⟩
  case pos =>
    cases bad
    rw [← not_inFile_iff, not_not] at outside
    have nonneg := outside.1
    exact Own.targetOdd ⟨at1, pair, same, apart⟩ outside (by omega)

theorem sound_of_classify {found : Option ℕ} (moves : at0.target ≠ at1.target)
    (fine : classify options n at0 at1 = .ok found) : at1.target - at0.target = kP1 - kP0 ∧
      (¬InFile n (signedTarget at0) → options.leaveFileIsBoundary = true ∧ ¬sequential at0) ∧
      (InFile n (signedTarget at0) → signedTarget at0 % 2 ≠ 1) := by
  rw [classify, if_neg moves] at fine
  by_cases apart : at1.target - at0.target ≠ kP1 - kP0
  · rw [if_pos apart] at fine
    cases fine
  · rw [if_neg apart] at fine
    refine ⟨not_not.mp apart, ?_, ?_⟩
    · intro outside
      rw [if_pos ((not_inFile_iff _).mp outside)] at fine
      split_ifs at fine with leaves
      exact leaves
    · intro inside odd
      have nonneg := inside.1
      rw [if_neg fun outside => (not_inFile_iff _).mpr outside inside, if_pos (by omega)] at fine
      cases fine

/-! ## The loop over the successors -/

theorem follow_bad (bad : (follow options n pairs deps).1 = some defect) :
    ∃ pair ∈ pairs, classify options n pair.1 pair.2 = .error defect := by
  induction pairs generalizing deps with
  | nil => cases bad
  | cons pair pairs ih =>
    rcases pair with ⟨at0, at1⟩
    rw [follow] at bad
    cases step : classify options n at0 at1 with
    | error other =>
      rw [step] at bad
      exact ⟨(at0, at1), List.mem_cons_self, step.trans (congrArg Except.error (Option.some.inj bad))⟩
    | ok found =>
      have later : ∃ deps, (follow options n pairs deps).1 = some defect := by
        rw [step] at bad
        cases found with
        | none => exact ⟨_, bad⟩
        | some dep => exact ⟨_, bad⟩
      rcases later with ⟨deps, rest⟩
      rcases ih rest with ⟨pair, member, error⟩
      exact ⟨pair, List.mem_cons_of_mem _ member, error⟩

theorem follow_sub (member : dep ∈ (follow options n pairs deps).2) :
    dep ∈ deps ∨ ∃ pair ∈ pairs, classify options n pair.1 pair.2 = .ok (some dep) := by
  induction pairs generalizing deps with
  | nil => exact Or.inl member
  | cons pair pairs ih =>
    rcases pair with ⟨at0, at1⟩
    have lift : (∃ pair ∈ pairs, classify options n pair.1 pair.2 = .ok (some dep)) →
        ∃ pair ∈ (at0, at1) :: pairs, classify options n pair.1 pair.2 = .ok (some dep) := by
      rintro ⟨pair, later, found⟩
      exact ⟨pair, List.mem_cons_of_mem _ later, found⟩
    rw [follow] at member
    cases step : classify options n at0 at1 with
    | error other =>
      rw [step] at member
      exact Or.inl member
    | ok found =>
      rw [step] at member
      cases found with
      | none => exact (ih member).imp_right lift
      | some other =>
        rcases ih member with known | later
        · split_ifs at known with room
          · rcases List.mem_append.mp known with old | new
            · exact Or.inl old
            · exact Or.inr ⟨(at0, at1), List.mem_cons_self, by rw [List.mem_singleton.mp new]; exact step⟩
          · exact Or.inl known
        · exact Or.inr (lift later)

/-- Without a defect, and with two slots for two successors, every dependency is kept. -/
theorem follow_all (fine : (follow options n pairs deps).1 = none) (room : deps.length + pairs.length ≤ 2) :
    (∀ dep ∈ deps, dep ∈ (follow options n pairs deps).2) ∧ ∀ pair ∈ pairs, ∃ found,
      classify options n pair.1 pair.2 = .ok found ∧ ∀ dep, found = some dep → dep ∈ (follow options n pairs deps).2 := by
  induction pairs generalizing deps with
  | nil => exact ⟨fun dep member => member, fun pair none => absurd none List.not_mem_nil⟩
  | cons pair pairs ih =>
    rcases pair with ⟨at0, at1⟩
    rw [List.length_cons] at room
    rw [follow] at fine ⊢
    cases step : classify options n at0 at1 with
    | error other =>
      rw [step] at fine
      cases fine
    | ok found =>
      rw [step] at fine
      cases found with
      | none =>
        rcases ih fine (by omega) with ⟨kept, later⟩
        constructor
        · exact kept
        · intro pair member
          rcases List.mem_cons.mp member with rfl | rest
          · exact ⟨none, step, fun dep none => by cases none⟩
          · exact later pair rest
      | some other =>
        have slot : deps.length < 2 := by omega
        dsimp only at fine ⊢
        rw [if_pos slot] at fine ⊢
        rcases ih fine (by rw [List.length_append, List.length_singleton]; omega) with ⟨kept, later⟩
        constructor
        · exact fun dep member => kept dep (List.mem_append_left _ member)
        · intro pair member
          rcases List.mem_cons.mp member with rfl | rest
          · refine ⟨some other, step, fun dep same => ?_⟩
            rw [← Option.some.inj same]
            exact kept other (List.mem_append_right _ (List.mem_singleton_self other))
          · exact later pair rest

/-! ## The first loop -/

theorem node_undecoded (none : ∀ s0 s1, ¬Decodes decode window i s0 s1) :
    node decode options window n i = { defect := some .notDecoded } := by
  rw [node]
  cases first : decodeAt decode window i kP0 with
  | none => rfl
  | some d0 =>
    cases second : decodeAt decode window i kP1 with
    | none => rfl
    | some d1 =>
      dsimp only
      by_cases legacy : d0.kind ≠ .moveq ∧ (liftM68kInstruction d0).kind = .writeMoveq
      · rw [if_pos legacy]
      · exact absurd ⟨d0, d1, first, second, legacy, rfl, rfl⟩ (none _ _)

theorem node_decoded (decodes : Decodes decode window i s0 s1) : node decode options window n i =
    if s0.alwaysRaisesException then
      if options.faultsAreTerminators then { decoded := true, decodable := 2 }
      else { defect := some .alwaysFaults, decoded := true, decodable := 1 }
    else if s0.dynamic = .unclassified ∨ s0.successors.length ≠ s1.successors.length then
      { defect := some .notUnderstood, decoded := true, decodable := 1 }
    else
      { defect := (follow options n (s0.successors.zip s1.successors) []).1, decoded := true, decodable := 1
        deps := (follow options n (s0.successors.zip s1.successors) []).2 } := by
  rcases decodes with ⟨d0, d1, first, second, legacy, rfl, rfl⟩
  rw [node, first, second]
  dsimp only
  rw [if_neg legacy]

/-- The instruction always raises an exception. -/
def Raises (decode : List Byte → Address → ℕ → Option M68kDecodedInstruction) (window : List Byte) (i : ℕ) : Prop :=
  ∃ s0 s1, Decodes decode window i s0 s1 ∧ s0.alwaysRaisesException = true

/-- What an entry of the first loop says. The count is one too high where a raising instruction ends a flow. -/
structure Entry (decode : List Byte → Address → ℕ → Option M68kDecodedInstruction) (options : StructuralOptions)
    (window : List Byte) (n i : ℕ) (entry : Node) : Prop where
  own : ∀ defect, entry.defect = some defect → Own decode options window n i defect
  sound : entry.defect = none → ∀ defect, ¬Own decode options window n i defect
  needed : ∀ dep ∈ entry.deps, Successor decode window n i dep
  needs : entry.defect = none → ∀ dep, Successor decode window n i dep → dep ∈ entry.deps
  decoded : entry.decoded = true ↔ ∃ s0 s1, Decodes decode window i s0 s1
  counted : entry.decoded.toNat ≤ entry.decodable
  once : entry.decodable = entry.decoded.toNat ↔ ¬(options.faultsAreTerminators = true ∧ Raises decode window i)

theorem Flow.pair_iff (flow : Flow decode window i s0 s1) :
    Pair decode window i at0 at1 ↔ (at0, at1) ∈ s0.successors.zip s1.successors := by
  constructor
  · rintro ⟨t0, t1, other, member⟩
    have same := flow.decodes.unique other.decodes
    rw [same.1, same.2] at member
    exact member
  · exact fun member => ⟨s0, s1, flow, member⟩

theorem not_pair_of_raises (decodes : Decodes decode window i s0 s1) (raises : s0.alwaysRaisesException = true) :
    ¬Pair decode window i at0 at1 := by
  rintro ⟨t0, t1, flow, -⟩
  have plain := flow.plain
  rw [(decodes.unique flow.decodes).1, raises] at plain
  cases plain

theorem not_raises (decodes : Decodes decode window i s0 s1) (plain : s0.alwaysRaisesException = false) :
    ¬Raises decode window i := by
  rintro ⟨t0, t1, other, raises⟩
  rw [(decodes.unique other).1, plain] at raises
  cases raises

/-- Own defects need a missing instruction, a raising one, one that is not understood, or a pair of successors. -/
theorem Own.cases_decoded (decodes : Decodes decode window i s0 s1) (own : Own decode options window n i defect) :
    (s0.alwaysRaisesException = true ∧ options.faultsAreTerminators = false) ∨
      (s0.alwaysRaisesException = false ∧ (s0.dynamic = .unclassified ∨ s0.successors.length ≠ s1.successors.length)) ∨
      ∃ at0 at1, Pair decode window i at0 at1 ∧ ∀ found, classify options n at0 at1 ≠ .ok found := by
  cases own with
  | notDecoded none => exact absurd decodes (none _ _)
  | alwaysFaults other raises strict =>
    rw [(decodes.unique other).1] at raises
    exact Or.inl ⟨raises, strict⟩
  | notUnderstood other plain unclear =>
    rw [(decodes.unique other).1] at plain unclear
    rw [(decodes.unique other).2] at unclear
    exact Or.inr (Or.inl ⟨plain, unclear⟩)
  | notLinear pair moves apart =>
    exact Or.inr (Or.inr ⟨_, _, pair, fun found fine => apart (sound_of_classify moves fine).1⟩)
  | fallOffFile relative falls forward outside =>
    rcases relative with ⟨at1, pair, moves, linear⟩
    exact Or.inr (Or.inr ⟨_, at1, pair, fun found fine => ((sound_of_classify moves fine).2.1 outside).2 falls⟩)
  | targetOutsideFile relative outside backward strict =>
    rcases relative with ⟨at1, pair, moves, linear⟩
    refine Or.inr (Or.inr ⟨_, at1, pair, fun found fine => ?_⟩)
    have leaves := (sound_of_classify moves fine).2.1 outside
    have stays := strict leaves.2
    rw [leaves.1] at stays
    cases stays
  | targetOdd relative inside odd =>
    rcases relative with ⟨at1, pair, moves, linear⟩
    exact Or.inr (Or.inr ⟨_, at1, pair, fun found fine => (sound_of_classify moves fine).2.2 inside odd⟩)

theorem not_successor_of_not_pair (none : ∀ at0 at1, ¬Pair decode window i at0 at1) : ¬Successor decode window n i dep := by
  rintro ⟨at0, ⟨at1, pair, -⟩, -⟩
  exact none at0 at1 pair

theorem entry_undecoded (none : ∀ s0 s1, ¬Decodes decode window i s0 s1) :
    Entry decode options window n i { defect := some .notDecoded } := by
  constructor
  case own =>
    rintro defect ⟨⟩
    exact Own.notDecoded none
  case sound =>
    intro fine
    cases fine
  case needed => exact fun dep member => absurd member List.not_mem_nil
  case needs =>
    intro fine
    cases fine
  case decoded =>
    constructor
    · intro marked
      cases marked
    · rintro ⟨s0, s1, decodes⟩
      exact absurd decodes (none s0 s1)
  case counted => exact le_rfl
  case once =>
    constructor
    · rintro - ⟨-, s0, s1, decodes, -⟩
      exact none s0 s1 decodes
    · exact fun _ => rfl

theorem entry_raises (decodes : Decodes decode window i s0 s1) (raises : s0.alwaysRaisesException = true) :
    Entry decode options window n i
      (if options.faultsAreTerminators then { decoded := true, decodable := 2 }
      else { defect := some .alwaysFaults, decoded := true, decodable := 1 }) := by
  have ends : ∀ dep, ¬Successor decode window n i dep :=
    fun dep => not_successor_of_not_pair fun at0 at1 => not_pair_of_raises decodes raises
  by_cases lax : options.faultsAreTerminators = true
  · rw [if_pos lax]
    constructor
    case own =>
      intro defect none
      cases none
    case sound =>
      intro _ defect own
      rcases own.cases_decoded decodes with ⟨-, strict⟩ | ⟨plain, -⟩ | ⟨at0, at1, pair, -⟩
      · rw [lax] at strict
        cases strict
      · rw [raises] at plain
        cases plain
      · exact not_pair_of_raises decodes raises pair
    case needed => exact fun dep member => absurd member List.not_mem_nil
    case needs => exact fun _ dep successor => absurd successor (ends dep)
    case decoded => exact ⟨fun _ => ⟨s0, s1, decodes⟩, fun _ => rfl⟩
    case counted => decide
    case once => exact ⟨fun two => absurd two (by decide), fun single => absurd ⟨lax, s0, s1, decodes, raises⟩ single⟩
  · rw [if_neg lax]
    constructor
    case own =>
      rintro defect ⟨⟩
      exact Own.alwaysFaults decodes raises (Bool.not_eq_true _ ▸ lax)
    case sound =>
      intro fine
      cases fine
    case needed => exact fun dep member => absurd member List.not_mem_nil
    case needs =>
      intro fine
      cases fine
    case decoded => exact ⟨fun _ => ⟨s0, s1, decodes⟩, fun _ => rfl⟩
    case counted => exact le_rfl
    case once => exact ⟨fun _ both => lax both.1, fun _ => rfl⟩

theorem entry_unclear (decodes : Decodes decode window i s0 s1) (plain : s0.alwaysRaisesException = false)
    (unclear : s0.dynamic = .unclassified ∨ s0.successors.length ≠ s1.successors.length) :
    Entry decode options window n i { defect := some .notUnderstood, decoded := true, decodable := 1 } := by
  constructor
  case own =>
    rintro defect ⟨⟩
    exact Own.notUnderstood decodes plain unclear
  case sound =>
    intro fine
    cases fine
  case needed => exact fun dep member => absurd member List.not_mem_nil
  case needs =>
    intro fine
    cases fine
  case decoded => exact ⟨fun _ => ⟨s0, s1, decodes⟩, fun _ => rfl⟩
  case counted => exact le_rfl
  case once => exact ⟨fun _ both => not_raises decodes plain both.2, fun _ => rfl⟩

theorem entry_flow (flow : Flow decode window i s0 s1) : Entry decode options window n i
    { defect := (follow options n (s0.successors.zip s1.successors) []).1, decoded := true, decodable := 1
      deps := (follow options n (s0.successors.zip s1.successors) []).2 } := by
  have room : (s0.successors.zip s1.successors).length ≤ 2 := by
    rcases flow.decodes with ⟨d0, d1, -, -, -, same, -⟩
    rw [List.length_zip, same]
    exact (min_le_left _ _).trans (length_successors _)
  have complete := fun fine : (follow options n (s0.successors.zip s1.successors) []).1 = none =>
    (follow_all fine (by rw [List.length_nil, Nat.zero_add]; exact room)).2
  constructor
  case own =>
    intro defect bad
    rcases follow_bad bad with ⟨pair, member, error⟩
    exact own_of_classify (flow.pair_iff.mpr member) error
  case sound =>
    intro fine defect own
    rcases own.cases_decoded flow.decodes with ⟨raises, -⟩ | ⟨-, unclear⟩ | ⟨at0, at1, pair, bad⟩
    · rw [flow.plain] at raises
      cases raises
    · exact unclear.elim flow.classified fun apart => apart flow.paired
    · rcases complete fine (at0, at1) (flow.pair_iff.mp pair) with ⟨found, ok, -⟩
      exact bad found ok
  case needed =>
    intro dep member
    rcases follow_sub member with none | ⟨pair, present, found⟩
    · exact absurd none List.not_mem_nil
    · rcases classify_dep.mp found with ⟨moves, linear, inside, target⟩
      exact ⟨pair.1, ⟨pair.2, flow.pair_iff.mpr present, moves, linear⟩, inside, target⟩
  case needs =>
    rintro fine dep ⟨at0, ⟨at1, pair, moves, linear⟩, inside, target⟩
    rcases complete fine (at0, at1) (flow.pair_iff.mp pair) with ⟨found, ok, kept⟩
    have dependency : classify options n at0 at1 = .ok (some dep) := classify_dep.mpr ⟨moves, linear, inside, target⟩
    exact kept dep (Except.ok.inj (ok.symm.trans dependency))
  case decoded => exact ⟨fun _ => ⟨s0, s1, flow.decodes⟩, fun _ => rfl⟩
  case counted => exact le_rfl
  case once => exact ⟨fun _ both => not_raises flow.decodes flow.plain both.2, fun _ => rfl⟩

theorem node_entry (decode : List Byte → Address → ℕ → Option M68kDecodedInstruction) (options : StructuralOptions)
    (window : List Byte) (n i : ℕ) : Entry decode options window n i (node decode options window n i) := by
  by_cases some : ∃ s0 s1, Decodes decode window i s0 s1
  · rcases some with ⟨s0, s1, decodes⟩
    rw [node_decoded decodes]
    by_cases raises : s0.alwaysRaisesException = true
    · rw [if_pos raises]
      exact entry_raises decodes raises
    · rw [if_neg raises]
      have plain : s0.alwaysRaisesException = false := Bool.not_eq_true _ ▸ raises
      by_cases unclear : s0.dynamic = .unclassified ∨ s0.successors.length ≠ s1.successors.length
      · rw [if_pos unclear]
        exact entry_unclear decodes plain unclear
      · rw [if_neg unclear]
        rw [not_or, not_not] at unclear
        exact entry_flow ⟨decodes, plain, unclear.1, unclear.2⟩
  · have none : ∀ s0 s1, ¬Decodes decode window i s0 s1 := fun s0 s1 decodes => some ⟨s0, s1, decodes⟩
    rw [node_undecoded none]
    exact entry_undecoded none

end Segarecomp.SegaCd.FileCandidates

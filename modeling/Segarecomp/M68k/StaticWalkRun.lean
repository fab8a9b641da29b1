import Mathlib
import Segarecomp.Lib.Stitching
import Segarecomp.M68k.StaticWalkStep

/-! The static walk as a whole: what a walk without an issue has decoded, emitted and stitched is
what its entry reaches across the edges its boundaries leave. -/

namespace Segarecomp.M68k.StaticDiscovery

open DirectFlow (Address Byte InstructionProvenance MappingClaim)
open M68kStaticGraphWalker
open Lib

inductive Successor where
  | control | next
  deriving DecidableEq, Repr

/-- The direct control flow of an image: what stands at `a` has `b` as a successor. -/
def successor (env : M68kStaticDiscoveryEnvironment) (decoder : Decoder) : Successor → Address → Address → Prop
  | .control, a, b => ∃ decoded, instructionAt env decoder a = some decoded ∧ (flow a decoded).control = some b
  | .next, a, b => ∃ decoded, instructionAt env decoder a = some decoded ∧ (flow a decoded).next = some b

/-- The boundary set of each kind of successor. -/
def boundaryOf (pass : Pass) : Successor → Address → Prop
  | .control, target => target ∈ pass.boundaries
  | .next, target => target ∈ pass.continuationBoundaries

abbrev passWalk (pass : Pass) : Address → Prop :=
  Stitching.Walk (successor pass.environment pass.decoder) (boundaryOf pass) pass.entry

abbrev passFollows (pass : Pass) : Address → Address → Prop :=
  Stitching.Follows (successor pass.environment pass.decoder) (boundaryOf pass) pass.entry

/-- The targets of an instruction are even and admitted, whatever the walk has decoded. -/
structure Admits (env : M68kStaticDiscoveryEnvironment) (address : Address) (decoded : M68kDecodedInstruction) :
    Prop where
  targets : ∀ target ∈ (flow address decoded).targets,
    target &&& 1 = 0 ∧ env.admitTarget target .directBranch = none
  callee : ∀ target, (flow address decoded).callee = some target → env.admitTarget target .directCall = none
  foldable : Jumps decoded → m68kIsStaticallyFoldableControlEa decoded.sourceEa

variable {pass : Pass} {w w' : M68kStaticGraphWalker} {address : Address} {decoded : M68kDecodedInstruction}
  {visited : Finset Address}

/-! ## The nearest entry -/

theorem entryUpTo_mem {entries : List (Address × M68kDecodedInstruction)} {target : Address}
    {entry : Address × M68kDecodedInstruction} (found : entryUpTo entries target = some entry) : entry ∈ entries := by
  have along (rest : List (Address × M68kDecodedInstruction)) (best : Option (Address × M68kDecodedInstruction))
      (known : ∀ entry, best = some entry → entry ∈ entries) (inside : rest ⊆ entries) (entry)
      (found : rest.foldl (fun best entry =>
        if entry.1 ≤ target ∧ best.all (fun old => old.1 < entry.1) then some entry else best) best = some entry) :
      entry ∈ entries := by
    induction rest generalizing best with
    | nil => exact known entry found
    | cons first rest ih =>
      rw [List.foldl_cons] at found
      refine ih _ (fun e is => ?_) (fun e mem => inside (List.mem_cons_of_mem _ mem)) found
      split at is
      · exact Option.some.inj is ▸ inside List.mem_cons_self
      · exact known e is
  exact along entries none (fun _ none => absurd none.symm (Option.some_ne_none _)) (List.Subset.refl _) entry found

theorem branchTargetIssue_none {entries : List (Address × M68kDecodedInstruction)} {target : Address}
    {source : InstructionProvenance} (even : target &&& 1 = 0)
    (admitted : pass.environment.admitTarget target .directBranch = none)
    (outside : ∀ entry ∈ entries, ¬InsideSpan target entry.1 entry.2.provenance.length) :
    branchTargetIssue pass entries target source = none := by
  rw [branchTargetIssue, if_neg (not_not.mpr even), admitted]
  dsimp only
  rw [if_neg]
  cases found : entryUpTo entries target with
  | none => exact Bool.false_ne_true
  | some entry => exact fun inside => outside entry (entryUpTo_mem found) (of_decide_eq_true inside)

theorem admitted_of_branchTargetIssue {entries : List (Address × M68kDecodedInstruction)} {target : Address}
    {source : InstructionProvenance} (passes : branchTargetIssue pass entries target source = none) :
    target &&& 1 = 0 ∧ pass.environment.admitTarget target .directBranch = none := by
  rw [branchTargetIssue] at passes
  split at passes
  · exact absurd passes (Option.some_ne_none _)
  · next even =>
    cases admitted : pass.environment.admitTarget target .directBranch with
    | none => exact ⟨not_not.mp even, rfl⟩
    | some issue =>
      rw [admitted] at passes
      exact absurd passes (Option.some_ne_none _)

theorem Passes.admits {entries : List (Address × M68kDecodedInstruction)}
    (passes : Passes pass entries address decoded) : Admits pass.environment address decoded :=
  ⟨fun target mem => admitted_of_branchTargetIssue (passes.targets target mem), passes.callee, passes.foldable⟩

theorem Admits.passes {entries : List (Address × M68kDecodedInstruction)}
    (admits : Admits pass.environment address decoded)
    (outside : ∀ target ∈ (flow address decoded).targets, ∀ entry ∈ entries,
      ¬InsideSpan target entry.1 entry.2.provenance.length) : Passes pass entries address decoded :=
  ⟨fun target mem => branchTargetIssue_none (admits.targets target mem).1 (admits.targets target mem).2
    (outside target mem), admits.callee, admits.foldable⟩

/-! ## One decode -/

def decodedInto (w : M68kStaticGraphWalker) (address : Address) (decoded : M68kDecodedInstruction) :
    M68kStaticGraphWalker :=
  { w with decodeCache := w.decodeCache ++ [(address, decoded)]
           decodeOrder := w.decodeOrder ++ [address]
           instructionsUsed := w.instructionsUsed + 1 }

theorem instructionAt_iff {env : M68kStaticDiscoveryEnvironment} {decoder : Decoder} :
    instructionAt env decoder address = some decoded ↔
      ∃ source, decodedAt env decoder address = .ok (source, decoded) ∧ spanIssue env address source decoded = none := by
  rw [instructionAt]
  cases decodedAt env decoder address with
  | error issue => simp
  | ok pair =>
    obtain ⟨source, standing⟩ := pair
    dsimp only
    constructor
    · intro found
      split at found
      · exact ⟨source, by rw [Option.some.inj found], Option.some.inj found ▸ ‹_›⟩
      · exact absurd found.symm (Option.some_ne_none _)
    · rintro ⟨_, stands, valid⟩
      cases stands
      rw [if_pos valid]

theorem decodeInstruction_ok (left : w.instructionsUsed ≠ pass.maxInstructions)
    (found : instructionAt pass.environment pass.decoder address = some decoded)
    (clear : acceptedInside w address decoded.provenance.length = none) :
    decodeInstruction pass w address =
      ({ w with decodeCache := w.decodeCache ++ [(address, decoded)]
                instructionsUsed := w.instructionsUsed + 1 }, .ok decoded) := by
  obtain ⟨source, stands, valid⟩ := instructionAt_iff.mp found
  rw [decodeInstruction, if_neg left, stands]
  dsimp only
  rw [valid]
  dsimp only
  rw [show acceptedInside { w with decodeCache := w.decodeCache ++ [(address, decoded)] } address
    decoded.provenance.length = none from clear]

theorem decodeInstruction_inv {v : M68kStaticGraphWalker} (done : decodeInstruction pass w address = (v, .ok decoded)) :
    w.instructionsUsed ≠ pass.maxInstructions ∧
      instructionAt pass.environment pass.decoder address = some decoded ∧
      acceptedInside w address decoded.provenance.length = none := by
  rw [decodeInstruction] at done
  split at done
  · exact absurd (congrArg Prod.snd done) nofun
  · next left =>
    cases stands : decodedAt pass.environment pass.decoder address with
    | error issue =>
      rw [stands] at done
      exact absurd (congrArg Prod.snd done) nofun
    | ok pair =>
      rw [stands] at done
      dsimp only at done
      cases valid : spanIssue pass.environment address pair.1 pair.2 with
      | some issue =>
        rw [valid] at done
        exact absurd (congrArg Prod.snd done) nofun
      | none =>
        rw [valid] at done
        dsimp only at done
        cases clear : acceptedInside w address pair.2.provenance.length with
        | some accepted =>
          rw [show acceptedInside { w with decodeCache := w.decodeCache ++ [(address, pair.2)] } address
            pair.2.provenance.length = some accepted from clear] at done
          exact absurd (congrArg Prod.snd done) nofun
        | none =>
          rw [show acceptedInside { w with decodeCache := w.decodeCache ++ [(address, pair.2)] } address
            pair.2.provenance.length = none from clear] at done
          cases (congrArg Prod.snd done : Except.ok pair.2 = Except.ok decoded)
          exact ⟨left, instructionAt_iff.mpr ⟨pair.1, stands, valid⟩, clear⟩

theorem processOne_decodes (uncached : w.cached address = none) (left : w.instructionsUsed ≠ pass.maxInstructions)
    (found : instructionAt pass.environment pass.decoder address = some decoded)
    (clear : acceptedInside w address decoded.provenance.length = none) :
    processOne pass w address = dispatch pass (decodedInto w address decoded) address decoded := by
  rw [processOne, uncached]
  dsimp only
  rw [decodeInstruction_ok left found clear]
  rfl

theorem decoded_of_processOne (uncached : w.cached address = none) (done : (processOne pass w address).2 = none) :
    ∃ decoded, instructionAt pass.environment pass.decoder address = some decoded ∧
      w.instructionsUsed ≠ pass.maxInstructions ∧
      acceptedInside w address decoded.provenance.length = none := by
  rw [processOne, uncached] at done
  dsimp only at done
  cases read : decodeInstruction pass w address with
  | mk v outcome =>
    rw [read] at done
    cases outcome with
    | error issue => exact absurd done (Option.some_ne_none _)
    | ok decoded =>
      obtain ⟨left, found, clear⟩ := decodeInstruction_inv read
      exact ⟨decoded, found, left, clear⟩

/-! ## The invariant of a walk without an issue -/

/-- What a walk has emitted for its decoded instructions. -/
def EmittedEdge (pass : Pass) (w : M68kStaticGraphWalker) (e : M68kStaticEdge) : Prop :=
  ∃ entry ∈ w.decodeCache, e ∈ (flow entry.1 entry.2).edges ∨
    ∃ x, (flow entry.1 entry.2).next = some x ∧ StitchesNext pass x ∧ e = continuationEdge entry.2.provenance x

structure Walked (pass : Pass) (visited : Finset Address) (w : M68kStaticGraphWalker) : Prop where
  stands : ∀ entry ∈ w.decodeCache, instructionAt pass.environment pass.decoder entry.1 = some entry.2
  admits : ∀ entry ∈ w.decodeCache, Admits pass.environment entry.1 entry.2
  visited_iff : ∀ x, x ∈ visited ↔ ∃ entry ∈ w.decodeCache, entry.1 = x
  order : ∀ x, x ∈ w.decodeOrder ↔ x ∈ visited
  used : w.instructionsUsed = visited.card
  within : w.instructionsUsed ≤ pass.maxInstructions
  root : pass.entry ∈ visited ∨ pass.entry ∈ w.worklist
  reached : ∀ x, x ∈ visited ∨ x ∈ w.worklist → passWalk pass x
  closed : ∀ x ∈ visited, ∀ y, passFollows pass x y → y ∈ visited ∨ y ∈ w.worklist
  edges : ∀ e, e ∈ w.edges ↔ EmittedEdge pass w e
  frames : ∀ f, f ∈ w.frames ↔ ∃ entry ∈ w.decodeCache, f ∈ (flow entry.1 entry.2).frames
  stitched : ∀ x, x ∈ w.stitchedBoundaryAddresses ↔
    ∃ entry ∈ w.decodeCache, (flow entry.1 entry.2).control = some x ∧ StitchesControl pass x
  accepted : ∀ target ∈ w.acceptedBranchTargets,
    ∃ entry ∈ w.decodeCache, target.1 ∈ (flow entry.1 entry.2).targets
  branch : w.branchEdgesEmitted ⊆ visited
  call : w.callsEmitted ⊆ visited
  continuation : w.continuationEdgesEmitted ⊆ visited
  deferred : w.deferredIndirectAn = []
  primary : w.primaryIssue = none
  secondary : w.secondaryIssues = []

theorem start_walked : Walked pass ∅ (start pass) where
  stands _ mem := absurd mem List.not_mem_nil
  admits _ mem := absurd mem List.not_mem_nil
  visited_iff x := by simp [start]
  order x := by simp [start]
  used := rfl
  within := Nat.zero_le _
  root := .inr (by simp [start])
  reached x mem := by
    have same : x = pass.entry := by simpa [start] using mem
    exact same ▸ .refl
  closed x mem := absurd mem (Finset.notMem_empty x)
  edges e := by simp [start, EmittedEdge]
  frames f := by simp [start]
  stitched x := by simp [start]
  accepted _ mem := absurd mem List.not_mem_nil
  branch := subset_rfl
  call := subset_rfl
  continuation := subset_rfl
  deferred := rfl
  primary := rfl
  secondary := rfl

theorem Walked.uncached (walked : Walked pass visited w) (new : address ∉ visited) : w.cached address = none := by
  rw [cached, Option.map_eq_none_iff, List.find?_eq_none]
  intro entry mem same
  exact new ((walked.visited_iff address).mpr ⟨entry, mem, of_decide_eq_true same⟩)

theorem pending_of_old {rest : List Address} {x : Address} (front : w.worklist = address :: rest)
    (old : address ∈ visited) (pending : x ∈ visited ∨ x ∈ w.worklist) : x ∈ visited ∨ x ∈ rest := by
  rcases pending with known | waiting
  · exact .inl known
  · rw [front] at waiting
    rcases List.mem_cons.mp waiting with same | later
    · exact .inl (same ▸ old)
    · exact .inr later

theorem Walked.skip {rest : List Address} (walked : Walked pass visited w) (front : w.worklist = address :: rest)
    (old : address ∈ visited) : Walked pass visited { w with worklist := rest } :=
  { walked with
    root := pending_of_old front old walked.root
    reached := fun x mem => walked.reached x (mem.imp_right fun mem => front ▸ List.mem_cons_of_mem _ mem)
    closed := fun x mem y follows => pending_of_old front old (walked.closed x mem y follows)
    edges := walked.edges }

theorem pending_of_new {rest : List Address} {x : Address} (front : w.worklist = address :: rest)
    (more : ∀ x ∈ rest, x ∈ w'.worklist) (pending : x ∈ visited ∨ x ∈ w.worklist) :
    x ∈ insert address visited ∨ x ∈ w'.worklist := by
  rcases pending with known | waiting
  · exact .inl (Finset.mem_insert_of_mem known)
  · rw [front] at waiting
    rcases List.mem_cons.mp waiting with same | later
    · exact .inl (same ▸ Finset.mem_insert_self _ _)
    · exact .inr (more x later)

theorem follows_iff (found : instructionAt pass.environment pass.decoder address = some decoded) (y : Address) :
    passFollows pass address y ↔
      ((flow address decoded).control = some y ∧ ¬StitchesControl pass y) ∨
        ((flow address decoded).next = some y ∧ ¬StitchesNext pass y) := by
  constructor
  · intro ⟨label, edge, uncut⟩
    cases label with
    | control =>
      obtain ⟨other, same, control⟩ := edge
      rw [found] at same
      exact .inl ⟨Option.some.inj same ▸ control, uncut⟩
    | next =>
      obtain ⟨other, same, next⟩ := edge
      rw [found] at same
      exact .inr ⟨Option.some.inj same ▸ next, uncut⟩
  · intro either
    rcases either with ⟨control, uncut⟩ | ⟨next, uncut⟩
    · exact ⟨.control, ⟨decoded, found, control⟩, uncut⟩
    · exact ⟨.next, ⟨decoded, found, next⟩, uncut⟩

theorem exists_grown {entries : List (Address × M68kDecodedInstruction)}
    {holds : Address × M68kDecodedInstruction → Prop} :
    (∃ entry ∈ entries ++ [(address, decoded)], holds entry) ↔
      (∃ entry ∈ entries, holds entry) ∨ holds (address, decoded) := by
  constructor
  · intro ⟨entry, mem, here⟩
    rcases List.mem_append.mp mem with old | last
    · exact .inl ⟨entry, old, here⟩
    · exact .inr (List.mem_singleton.mp last ▸ here)
  · intro either
    rcases either with ⟨entry, mem, here⟩ | here
    · exact ⟨entry, List.mem_append_left _ mem, here⟩
    · exact ⟨(address, decoded), List.mem_append_right _ List.mem_cons_self, here⟩

theorem Walked.step {rest : List Address} (walked : Walked pass visited w) (front : w.worklist = address :: rest)
    (new : address ∉ visited) (left : w.instructionsUsed ≠ pass.maxInstructions)
    (found : instructionAt pass.environment pass.decoder address = some decoded)
    (admits : Admits pass.environment address decoded)
    (keeps : Keeps (decodedInto { w with worklist := rest } address decoded) w')
    (advanced : Advanced pass (decodedInto { w with worklist := rest } address decoded) w' address decoded) :
    Walked pass (insert address visited) w' := by
  have cache : w'.decodeCache = w.decodeCache ++ [(address, decoded)] := keeps.decodeCache
  have used : w'.instructionsUsed = w.instructionsUsed + 1 := keeps.instructionsUsed
  have more (x : Address) (mem : x ∈ rest) : x ∈ w'.worklist := (advanced.worklist x).mpr (.inl mem)
  have walk : passWalk pass address := walked.reached address (.inr (front ▸ List.mem_cons_self))
  have count : (insert address visited).card = visited.card + 1 := Finset.card_insert_of_notMem new
  constructor
  case stands =>
    intro entry mem
    rw [cache] at mem
    rcases List.mem_append.mp mem with old | last
    · exact walked.stands entry old
    · exact List.mem_singleton.mp last ▸ found
  case admits =>
    intro entry mem
    rw [cache] at mem
    rcases List.mem_append.mp mem with old | last
    · exact walked.admits entry old
    · exact List.mem_singleton.mp last ▸ admits
  case visited_iff =>
    intro x
    rw [cache, exists_grown, ← walked.visited_iff, Finset.mem_insert, or_comm, eq_comm]
  case order =>
    intro x
    have order : w'.decodeOrder = w.decodeOrder ++ [address] := keeps.decodeOrder
    rw [order, List.mem_append, walked.order, List.mem_singleton, Finset.mem_insert, or_comm]
  case used => rw [used, walked.used, count]
  case within =>
    have := walked.within
    omega
  case root => exact pending_of_new front more walked.root
  case reached =>
    intro x pending
    rcases pending with known | waiting
    · rcases Finset.mem_insert.mp known with same | old
      · exact same ▸ walk
      · exact walked.reached x (.inl old)
    · rcases (advanced.worklist x).mp waiting with old | added
      · exact walked.reached x (.inr (front ▸ List.mem_cons_of_mem _ old))
      · exact walk.tail ((follows_iff found x).mpr added)
  case closed =>
    intro x mem y follows
    rcases Finset.mem_insert.mp mem with same | old
    · rw [same] at follows
      exact .inr ((advanced.worklist y).mpr (.inr ((follows_iff found y).mp follows)))
    · exact pending_of_new front more (walked.closed x old y follows)
  case edges =>
    intro e
    rw [EmittedEdge, cache, exists_grown, advanced.edges]
    exact or_congr_left (walked.edges e)
  case frames =>
    intro f
    rw [cache, exists_grown, advanced.frames]
    exact or_congr_left (walked.frames f)
  case stitched =>
    intro x
    rw [cache, exists_grown, advanced.stitched]
    exact or_congr_left (walked.stitched x)
  case accepted =>
    intro target mem
    rw [cache, exists_grown]
    rcases advanced.accepted target mem with old | added
    · exact .inl (walked.accepted target old)
    · exact .inr added
  case branch => exact advanced.branchEdgesEmitted.trans (Finset.insert_subset_insert _ walked.branch)
  case call => exact advanced.callsEmitted.trans (Finset.insert_subset_insert _ walked.call)
  case continuation => exact advanced.continuationEdgesEmitted.trans (Finset.insert_subset_insert _ walked.continuation)
  case deferred => exact advanced.deferredIndirectAn.trans walked.deferred
  case primary => exact keeps.primaryIssue.trans walked.primary
  case secondary => exact keeps.secondaryIssues.trans walked.secondary

theorem Walked.fresh (walked : Walked pass visited w) (new : address ∉ visited) : Fresh w address :=
  ⟨fun mem => new (walked.branch mem), fun mem => new (walked.call mem), fun mem => new (walked.continuation mem)⟩

/-! ## Draining the worklist -/

theorem drain_spec {P : Finset Address × M68kStaticGraphWalker → Prop}
    (step : ∀ s, P s → s.2.worklist ≠ [] → P (drainStep pass s)) (s : Finset Address × M68kStaticGraphWalker)
    (holds : P s) : P (drain pass s) ∧ (drain pass s).2.worklist = [] := by
  induction s using drain.induct pass with
  | case1 s done =>
    rw [drain, if_pos done]
    exact ⟨holds, done⟩
  | case2 s busy ih =>
    rw [drain, if_neg busy]
    exact ih (step s holds busy)

/-- An issue stays recorded, and what is decoded stays decoded. -/
structure Grows (w w' : M68kStaticGraphWalker) : Prop where
  primaryIssue : w'.primaryIssue = none → w.primaryIssue = none
  decodeCache : w.decodeCache ⊆ w'.decodeCache

theorem Grows.trans {w w' w'' : M68kStaticGraphWalker} (first : Grows w w') (second : Grows w' w'') : Grows w w'' :=
  ⟨fun none => first.primaryIssue (second.primaryIssue none),
    List.Subset.trans first.decodeCache second.decodeCache⟩

theorem Keeps.grows (keeps : Keeps w w') : Grows w w' :=
  ⟨fun none => keeps.primaryIssue ▸ none, fun _ mem => keeps.decodeCache ▸ mem⟩

theorem recordFailure_grows (outcome : Outcome) : Grows outcome.1 (recordFailure outcome) := by
  obtain ⟨v, failure⟩ := outcome
  cases failure with
  | none => exact (Keeps.refl v).grows
  | some issue =>
    rw [recordFailure]
    split
    · exact ⟨id, List.Subset.refl _⟩
    · exact ⟨fun none => absurd none (Option.some_ne_none _), List.Subset.refl _⟩

theorem budgetExhausted_keeps : Keeps w (budgetExhausted pass w address).1 := by
  rw [budgetExhausted]
  split
  · dsimp only
    split
    · exact ⟨rfl, rfl, rfl, rfl, rfl⟩
    · split
      · exact ⟨rfl, rfl, rfl, rfl, rfl⟩
      · exact .refl w
  · exact .refl w

theorem decodeInstruction_grows : Grows w (decodeInstruction pass w address).1 := by
  rw [decodeInstruction]
  split
  · exact budgetExhausted_keeps.grows
  · split
    · exact (Keeps.refl w).grows
    · dsimp only
      have added (entry : Address × M68kDecodedInstruction) : w.decodeCache ⊆ w.decodeCache ++ [entry] :=
        List.subset_append_left _ _
      split
      · exact ⟨id, added _⟩
      · split
        · exact ⟨id, added _⟩
        · exact ⟨id, added _⟩

theorem processOne_grows : Grows w (processOne pass w address).1 := by
  rw [processOne]
  split
  · exact dispatch_keeps.grows
  · have decodes : Grows w (decodeInstruction pass w address).1 := decodeInstruction_grows
    split
    · next read => simpa only [read] using decodes
    · next v decoded read =>
      rw [read] at decodes
      have ordered : Grows v { v with decodeOrder := v.decodeOrder ++ [address] } := ⟨id, List.Subset.refl _⟩
      exact (decodes.trans ordered).trans dispatch_keeps.grows

theorem drainStep_grows (s : Finset Address × M68kStaticGraphWalker) : Grows s.2 (drainStep pass s).2 := by
  obtain ⟨visited, w⟩ := s
  rw [drainStep]
  split
  · exact (Keeps.refl w).grows
  · next address rest front =>
    have shorter : Grows w { w with worklist := rest } := ⟨id, List.Subset.refl _⟩
    split
    · exact shorter
    · exact (shorter.trans processOne_grows).trans (recordFailure_grows _)

theorem drain_grows (s : Finset Address × M68kStaticGraphWalker) : Grows s.2 (drain pass s).2 :=
  (drain_spec (P := fun s' => Grows s.2 s'.2) (fun s' grows _ => grows.trans (drainStep_grows s')) s
    (Keeps.refl s.2).grows).1

theorem foldl_grows {visit : M68kStaticGraphWalker → Address → M68kStaticGraphWalker}
    (grows : ∀ v site, Grows v (visit v site)) (sites : List Address) (v : M68kStaticGraphWalker) :
    Grows v (sites.foldl visit v) := by
  induction sites generalizing v with
  | nil => exact (Keeps.refl v).grows
  | cons site rest ih =>
      rw [List.foldl_cons]
      exact (grows v site).trans (ih _)

theorem finalIndirectPass_grows : Grows w (finalIndirectPass pass w) := by
  refine @Grows.trans w { w with indirectAnFinalPass := true } _ ⟨id, List.Subset.refl _⟩ (foldl_grows ?_ _ _)
  intro v site
  cases v.cached site with
  | none => exact (Keeps.refl v).grows
  | some decoded => exact processIndirectControlAn_keeps.grows.trans (recordFailure_grows _)

/-! ## A walk that reports nothing -/

/-- A process without a failure or a computed transfer keeps the invariant. -/
theorem Walked.process {rest : List Address} (walked : Walked pass visited w) (front : w.worklist = address :: rest)
    (new : address ∉ visited) (done : (processOne pass { w with worklist := rest } address).2 = none)
    (direct : ∀ entry ∈ (processOne pass { w with worklist := rest } address).1.decodeCache, ¬Computed entry.2) :
    Walked pass (insert address visited) (processOne pass { w with worklist := rest } address).1 := by
  have uncached : M68kStaticGraphWalker.cached { w with worklist := rest } address = none := walked.uncached new
  obtain ⟨decoded, found, left, clear⟩ := decoded_of_processOne uncached done
  have decodes := processOne_decodes uncached left found clear
  rw [decodes] at done direct ⊢
  have keeps : Keeps (decodedInto { w with worklist := rest } address decoded) _ :=
    @dispatch_keeps pass _ address decoded
  have plain : ¬Computed decoded := by
    apply direct (address, decoded)
    rw [keeps.decodeCache]
    exact List.mem_append_right _ List.mem_cons_self
  have passes := passes_of_dispatch plain done
  have fresh : Fresh (decodedInto { w with worklist := rest } address decoded) address :=
    ⟨(walked.fresh new).branch, (walked.fresh new).call, (walked.fresh new).continuation⟩
  obtain ⟨-, advanced⟩ := dispatch_of_passes passes fresh (instructionAt_address found)
  exact walked.step front new left found passes.admits keeps advanced

/-- The walk of a pass whose final walker has no issue and no computed transfer. -/
theorem walked_of_clean (clean : (drain pass (∅, start pass)).2.primaryIssue = none)
    (direct : ∀ entry ∈ (drain pass (∅, start pass)).2.decodeCache, ¬Computed entry.2) :
    Walked pass (drain pass (∅, start pass)).1 (drain pass (∅, start pass)).2 ∧
      (drain pass (∅, start pass)).2.worklist = [] := by
  have along := @drain_spec pass
    (fun s => drain pass s = drain pass (∅, start pass) ∧ Walked pass s.1 s.2)
  refine (along (fun s reaches busy => ?_) (∅, start pass) ⟨rfl, start_walked⟩).imp_left And.right
  obtain ⟨same, walked⟩ := reaches
  have onward : drain pass (drainStep pass s) = drain pass (∅, start pass) := by
    rw [← same, drain.eq_def pass s, if_neg busy]
  refine ⟨onward, ?_⟩
  have grows : Grows (drainStep pass s).2 (drain pass (∅, start pass)).2 := onward ▸ drain_grows _
  have unfailed := grows.primaryIssue clean
  have plain (entry) (mem : entry ∈ (drainStep pass s).2.decodeCache) := direct entry (grows.decodeCache mem)
  obtain ⟨visited, w⟩ := s
  cases front : w.worklist with
  | nil => exact absurd front busy
  | cons address rest =>
    by_cases old : address ∈ visited
    · simp only [drainStep, front, if_pos old]
      exact walked.skip front old
    · simp only [drainStep, front, if_neg old] at unfailed plain ⊢
      cases done : processOne pass { w with worklist := rest } address with
      | mk v failure =>
        rw [done] at unfailed plain
        cases failure with
        | none =>
          have step := walked.process front old (by rw [done]) (by rw [done]; exact plain)
          rwa [done] at step
        | some issue =>
          exfalso
          rw [recordFailure] at unfailed
          split at unfailed
          · next recorded =>
            rw [unfailed] at recorded
            exact Bool.false_ne_true recorded
          · exact absurd unfailed (Option.some_ne_none _)

/-! ## A region that is apart -/

/-- A set of addresses closed under direct control flow, every one of them an instruction with
admitted targets, where no target of a branch lies strictly inside an instruction. -/
structure Region (env : M68kStaticDiscoveryEnvironment) (decoder : Decoder) (maxInstructions : ℕ)
    (region : Finset Address) : Prop where
  stands : ∀ a ∈ region, ∃ decoded, instructionAt env decoder a = some decoded ∧ Admits env a decoded
  closed : ∀ a ∈ region, ∀ b, Stitching.Joined (successor env decoder) a b → b ∈ region
  within : region.card ≤ maxInstructions
  apart : ∀ a ∈ region, ∀ b ∈ region, ∀ covering branch, instructionAt env decoder a = some covering →
    instructionAt env decoder b = some branch → ∀ target ∈ (flow b branch).targets,
      ¬InsideSpan target a covering.provenance.length

theorem Region.reaches {region : Finset Address} (holds : Region pass.environment pass.decoder pass.maxInstructions region)
    (root : pass.entry ∈ region) {x : Address} (walk : passWalk pass x) : x ∈ region := by
  induction walk with
  | refl => exact root
  | tail _ follows ih =>
    obtain ⟨label, edge, -⟩ := follows
    exact holds.closed _ ih _ ⟨label, edge⟩

theorem Walked.within_region {region : Finset Address}
    (holds : Region pass.environment pass.decoder pass.maxInstructions region) (root : pass.entry ∈ region)
    (walked : Walked pass visited w) {entry : Address × M68kDecodedInstruction} (mem : entry ∈ w.decodeCache) :
    entry.1 ∈ region :=
  holds.reaches root (walked.reached _ (.inl ((walked.visited_iff _).mpr ⟨entry, mem, rfl⟩)))

/-- In a region that is apart every address of a walk is processed without a failure. -/
theorem Walked.process_region {region : Finset Address} {rest : List Address}
    (holds : Region pass.environment pass.decoder pass.maxInstructions region) (root : pass.entry ∈ region)
    (walked : Walked pass visited w) (front : w.worklist = address :: rest) (new : address ∉ visited) :
    (processOne pass { w with worklist := rest } address).2 = none ∧
      Walked pass (insert address visited) (processOne pass { w with worklist := rest } address).1 := by
  have inside : address ∈ region := holds.reaches root (walked.reached address (.inr (front ▸ List.mem_cons_self)))
  obtain ⟨decoded, found, admits⟩ := holds.stands address inside
  have visitedInside : insert address visited ⊆ region := by
    intro x mem
    rcases Finset.mem_insert.mp mem with same | old
    · exact same ▸ inside
    · exact holds.reaches root (walked.reached x (.inl old))
  have left : w.instructionsUsed ≠ pass.maxInstructions := by
    have count := Finset.card_le_card visitedInside
    rw [Finset.card_insert_of_notMem new] at count
    have := walked.used
    have := holds.within
    omega
  have clear : acceptedInside w address decoded.provenance.length = none := by
    rw [acceptedInside, List.find?_eq_none]
    intro target mem covered
    obtain ⟨entry, known, targets⟩ := walked.accepted target mem
    exact holds.apart address inside entry.1 (walked.within_region holds root known) decoded entry.2 found
      (walked.stands entry known) target.1 targets (of_decide_eq_true covered)
  have uncached : M68kStaticGraphWalker.cached { w with worklist := rest } address = none := walked.uncached new
  rw [processOne_decodes uncached left found clear]
  have passes : Passes pass (decodedInto { w with worklist := rest } address decoded).decodeCache address decoded := by
    apply admits.passes
    intro target targets entry mem
    rcases List.mem_append.mp mem with old | last
    · exact holds.apart entry.1 (walked.within_region holds root old) address inside entry.2 decoded
        (walked.stands entry old) found target targets
    · rw [List.mem_singleton.mp last]
      exact holds.apart address inside address inside decoded decoded found found target targets
  have fresh : Fresh (decodedInto { w with worklist := rest } address decoded) address :=
    ⟨(walked.fresh new).branch, (walked.fresh new).call, (walked.fresh new).continuation⟩
  obtain ⟨done, advanced⟩ := dispatch_of_passes passes fresh (instructionAt_address found)
  exact ⟨done, walked.step front new left found admits dispatch_keeps advanced⟩

theorem walked_of_region {region : Finset Address}
    (holds : Region pass.environment pass.decoder pass.maxInstructions region) (root : pass.entry ∈ region) :
    Walked pass (drain pass (∅, start pass)).1 (drain pass (∅, start pass)).2 ∧
      (drain pass (∅, start pass)).2.worklist = [] := by
  apply drain_spec (P := fun s => Walked pass s.1 s.2) _ (∅, start pass) start_walked
  intro s walked busy
  obtain ⟨visited, w⟩ := s
  cases front : w.worklist with
  | nil => exact absurd front busy
  | cons address rest =>
    by_cases old : address ∈ visited
    · simp only [drainStep, front, if_pos old]
      exact walked.skip front old
    · simp only [drainStep, front, if_neg old]
      obtain ⟨done, step⟩ := walked.process_region holds root front old
      cases outcome : processOne pass { w with worklist := rest } address with
      | mk v failure =>
        rw [outcome] at done step
        cases (done : failure = none)
        exact step

theorem Walked.visited_walk (walked : Walked pass visited w) (finished : w.worklist = []) (x : Address) :
    x ∈ visited ↔ passWalk pass x := by
  constructor
  · exact fun mem => walked.reached x (.inl mem)
  · intro walk
    have unpending (y : Address) (pending : y ∈ visited ∨ y ∈ w.worklist) : y ∈ visited :=
      pending.resolve_right fun mem => absurd (finished ▸ mem) List.not_mem_nil
    induction walk with
    | refl => exact unpending _ walked.root
    | tail _ follows ih => exact unpending _ (walked.closed _ ih _ follows)

theorem discover_of_walked (walked : Walked pass (drain pass (∅, start pass)).1 (drain pass (∅, start pass)).2) :
    discoverM68kStaticGraph pass = result pass (drain pass (∅, start pass)).2 := by
  rw [discoverM68kStaticGraph]
  exact if_pos walked.deferred

end Segarecomp.M68k.StaticDiscovery

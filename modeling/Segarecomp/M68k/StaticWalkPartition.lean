import Mathlib
import Segarecomp.M68k.StaticWalkRun

/-! Partitioned discovery: one walk from the entry and one from every boundary address a walk
stitched to, against the one walk without boundaries. -/

namespace Segarecomp.M68k.StaticDiscovery

open DirectFlow (Address Byte InstructionProvenance MappingClaim)
open M68kStaticGraphWalker
open Lib

def wholePass (pass : Pass) : Pass := { pass with boundaries := ∅, continuationBoundaries := ∅ }

def unitPass (pass : Pass) (root : Address) : Pass := { pass with entry := root }

/-- The boundary addresses a result stitched to, of either set. -/
def StitchedTo (found : M68kStaticDiscoveryResult) (target : Address) : Prop :=
  target ∈ found.stitchedBoundaryAddresses ∨
    ∃ e ∈ found.edges, e.kind = .fallthroughContinuation ∧ e.target = target

/-- The entries of the partitioned walks. -/
inductive UnitRoot (pass : Pass) : Address → Prop
  | entry : UnitRoot pass pass.entry
  | stitched {root target : Address} (unit : UnitRoot pass root)
      (stitch : StitchedTo (discoverM68kStaticGraph (unitPass pass root)) target) : UnitRoot pass target

/-- The edges the comparison is about. -/
def Compared (e : M68kStaticEdge) : Prop := e.kind ≠ .fallthroughContinuation ∧ e.kind ≠ .returnToContinuation

/-- Taken together, the partitioned walks have what the walk without boundaries has. -/
structure LosesNothing (pass : Pass) : Prop where
  decoded : ∀ entry, entry ∈ (discoverM68kStaticGraph (wholePass pass)).decodeCache ↔
    ∃ root, UnitRoot pass root ∧ entry ∈ (discoverM68kStaticGraph (unitPass pass root)).decodeCache
  order : ∀ a, a ∈ (discoverM68kStaticGraph (wholePass pass)).decodeOrder ↔
    ∃ root, UnitRoot pass root ∧ a ∈ (discoverM68kStaticGraph (unitPass pass root)).decodeOrder
  edges : ∀ e, Compared e → (e ∈ (discoverM68kStaticGraph (wholePass pass)).edges ↔
    ∃ root, UnitRoot pass root ∧ e ∈ (discoverM68kStaticGraph (unitPass pass root)).edges)
  frames : ∀ f, f ∈ (discoverM68kStaticGraph (wholePass pass)).frames ↔
    ∃ root, UnitRoot pass root ∧ f ∈ (discoverM68kStaticGraph (unitPass pass root)).frames

structure ReportsNothing (found : M68kStaticDiscoveryResult) : Prop where
  primary : found.primaryIssue = none
  secondary : found.secondaryIssues = []

def MeetsNoComputed (found : M68kStaticDiscoveryResult) : Prop :=
  ∀ entry ∈ found.decodeCache, ¬Computed entry.2

/-- What direct control flow reaches from the entry of a pass. -/
abbrev passReaches (pass : Pass) : Address → Prop :=
  Stitching.Reaches (successor pass.environment pass.decoder) pass.entry

/-- No direct-branch target of a reachable instruction lies strictly inside a reachable one. -/
def BranchesApart (pass : Pass) : Prop :=
  ∀ a b covering branch target, passReaches pass a → passReaches pass b →
    instructionAt pass.environment pass.decoder a = some covering →
    instructionAt pass.environment pass.decoder b = some branch → target ∈ (flow b branch).targets →
    ¬InsideSpan target a covering.provenance.length

variable {pass : Pass} {w : M68kStaticGraphWalker} {visited : Finset Address} {root : Address}

/-! ## A finished walk -/

/-- The result of a finished walk, from what its entry reaches. -/
structure Finished (pass : Pass) (found : M68kStaticDiscoveryResult) : Prop where
  decoded : ∀ entry, entry ∈ found.decodeCache ↔
    passWalk pass entry.1 ∧ instructionAt pass.environment pass.decoder entry.1 = some entry.2
  order : ∀ a, a ∈ found.decodeOrder ↔ ∃ entry ∈ found.decodeCache, entry.1 = a
  edges : ∀ e, Compared e → (e ∈ found.edges ↔ ∃ entry ∈ found.decodeCache, e ∈ (flow entry.1 entry.2).edges)
  frames : ∀ f, f ∈ found.frames ↔ ∃ entry ∈ found.decodeCache, f ∈ (flow entry.1 entry.2).frames
  stitched : ∀ x, StitchedTo found x ↔ ∃ entry ∈ found.decodeCache,
    ((flow entry.1 entry.2).control = some x ∧ StitchesControl pass x) ∨
      ((flow entry.1 entry.2).next = some x ∧ StitchesNext pass x)

theorem flow_edge_compared {address : Address} {decoded : M68kDecodedInstruction} {e : M68kStaticEdge}
    (mem : e ∈ (flow address decoded).edges) : Compared e := by
  have twoWay (taken : Address) (mem : e ∈ (twoWayFlow address decoded taken).edges) : Compared e := by
    rcases List.mem_cons.mp mem with same | last
    · exact same ▸ ⟨nofun, nofun⟩
    · exact List.mem_singleton.mp last ▸ ⟨nofun, nofun⟩
  have one (target : Address) (mem : e ∈ [(⟨decoded.provenance, .directBranch, target, none⟩ : M68kStaticEdge)]) :
      Compared e := List.mem_singleton.mp mem ▸ ⟨nofun, nofun⟩
  have call (target : Address) (mem : e ∈ (callFlow address decoded target).edges) : Compared e :=
    List.mem_singleton.mp mem ▸ ⟨nofun, nofun⟩
  rw [flow] at mem
  split at mem
  · exact twoWay _ mem
  · exact one _ mem
  · dsimp only at mem
    split at mem
    · exact one _ mem
    · exact twoWay _ mem
  iterate 4 exact absurd mem List.not_mem_nil
  · exact one _ mem
  · exact call _ mem
  · exact call _ mem
  · exact twoWay _ mem
  · exact absurd mem List.not_mem_nil

theorem mem_result_edges {e : M68kStaticEdge} (kind : e.kind ≠ .returnToContinuation) :
    e ∈ (result pass w).edges ↔ e ∈ w.edges := by
  have returns : e ∉ synthesizeReturnEdges pass w := by
    intro mem
    obtain ⟨found, -, same⟩ := List.mem_map.mp mem
    exact kind (same ▸ rfl)
  rw [result, List.mem_append]
  exact or_iff_left returns

theorem Walked.finished (walked : Walked pass visited w) (done : w.worklist = []) : Finished pass (result pass w) where
  decoded entry := by
    rw [← walked.visited_walk done, walked.visited_iff]
    constructor
    · exact fun mem => ⟨⟨entry, mem, rfl⟩, walked.stands entry mem⟩
    · rintro ⟨⟨other, mem, same⟩, stands⟩
      have found := walked.stands other mem
      rw [same, stands] at found
      have equal : other = entry := Prod.ext same (Option.some.inj found).symm
      exact equal ▸ mem
  order a := (walked.order a).trans (walked.visited_iff a)
  edges e compared := by
    rw [mem_result_edges compared.2, walked.edges, EmittedEdge]
    apply exists_congr
    intro entry
    apply and_congr_right
    intro _
    apply or_iff_left
    rintro ⟨x, _, _, same⟩
    exact compared.1 (same ▸ rfl)
  frames f := walked.frames f
  stitched x := by
    rw [StitchedTo]
    have control : x ∈ (result pass w).stitchedBoundaryAddresses ↔ _ := walked.stitched x
    have next : (∃ e ∈ (result pass w).edges, e.kind = .fallthroughContinuation ∧ e.target = x) ↔
        ∃ entry ∈ w.decodeCache, (flow entry.1 entry.2).next = some x ∧ StitchesNext pass x := by
      constructor
      · rintro ⟨e, mem, kind, target⟩
        rw [mem_result_edges (by rw [kind]; decide), walked.edges] at mem
        obtain ⟨entry, known, either⟩ := mem
        rcases either with flows | ⟨y, next, cut, same⟩
        · exact absurd kind (flow_edge_compared flows).1
        · have is : y = x := by rw [← target, same]; rfl
          exact ⟨entry, known, is ▸ next, is ▸ cut⟩
      · rintro ⟨entry, known, next, cut⟩
        refine ⟨continuationEdge entry.2.provenance x, ?_, rfl, rfl⟩
        rw [mem_result_edges (show M68kStaticEdgeKind.fallthroughContinuation ≠ .returnToContinuation by decide),
          walked.edges]
        exact ⟨entry, known, .inr ⟨x, next, cut, rfl⟩⟩
    rw [control, next, ← exists_or]
    apply exists_congr
    intro entry
    exact and_or_left.symm

/-! ## The region of the walk without boundaries -/

theorem whole_uncut (pass : Pass) (label : Successor) (b : Address) : ¬boundaryOf (wholePass pass) label b := by
  cases label with
  | control => exact Finset.notMem_empty b
  | next => exact Finset.notMem_empty b

theorem passWalk_whole (pass : Pass) (x : Address) : passWalk (wholePass pass) x ↔ passReaches pass x :=
  ⟨Stitching.Walk.reaches, Stitching.walk_of_uncut (whole_uncut pass)⟩

theorem region_of_whole (walked : Walked (wholePass pass) visited w) (done : w.worklist = [])
    (apart : BranchesApart pass) : Region pass.environment pass.decoder pass.maxInstructions visited where
  stands a mem := by
    obtain ⟨entry, known, same⟩ := (walked.visited_iff a).mp mem
    exact ⟨entry.2, same ▸ walked.stands entry known, same ▸ walked.admits entry known⟩
  closed a mem b joined := by
    rw [walked.visited_walk done, passWalk_whole] at mem ⊢
    exact mem.tail joined
  within := walked.used ▸ walked.within
  apart a inA b inB covering branch standsA standsB target targets := by
    rw [walked.visited_walk done, passWalk_whole] at inA inB
    exact apart a b covering branch target inA inB standsA standsB targets

/-- The walk without boundaries, when it reports nothing and meets no computed transfer. -/
theorem whole_walked (clean : (discoverM68kStaticGraph (wholePass pass)).primaryIssue = none)
    (direct : MeetsNoComputed (discoverM68kStaticGraph (wholePass pass))) :
    Walked (wholePass pass) (drain (wholePass pass) (∅, start (wholePass pass))).1
        (drain (wholePass pass) (∅, start (wholePass pass))).2 ∧
      (drain (wholePass pass) (∅, start (wholePass pass))).2.worklist = [] := by
  rw [discoverM68kStaticGraph] at clean direct
  split at clean
  · next deferred =>
    rw [if_pos deferred] at direct
    exact walked_of_clean clean direct
  · next deferred =>
    rw [if_neg deferred] at direct
    have grows := (@finalIndirectPass_grows (wholePass pass) _).trans
      (@drain_grows (wholePass pass) ((drain (wholePass pass) (∅, start (wholePass pass))).1,
        finalIndirectPass (wholePass pass) (drain (wholePass pass) (∅, start (wholePass pass))).2))
    exact walked_of_clean (grows.primaryIssue clean) fun entry mem => direct entry (grows.decodeCache mem)

/-! ## The partitioned walks -/

variable {region : Finset Address}

theorem unit_finished (holds : Region pass.environment pass.decoder pass.maxInstructions region)
    (root_mem : root ∈ region) : Finished (unitPass pass root) (discoverM68kStaticGraph (unitPass pass root)) := by
  have inRegion : Region (unitPass pass root).environment (unitPass pass root).decoder
      (unitPass pass root).maxInstructions region := holds
  obtain ⟨walked, done⟩ := walked_of_region inRegion root_mem
  rw [discover_of_walked walked]
  exact walked.finished done

abbrev passOwned (pass : Pass) : Address → Prop :=
  Stitching.Owned (successor pass.environment pass.decoder) (boundaryOf pass) pass.entry

/-- What a finished walk stitched to is what its root's walk is cut at. -/
theorem Finished.stitches {found : M68kStaticDiscoveryResult} (finished : Finished pass found) (x : Address) :
    StitchedTo found x ↔
      Stitching.Stitches (successor pass.environment pass.decoder) (boundaryOf pass) pass.entry x := by
  rw [finished.stitched]
  constructor
  · intro ⟨entry, mem, either⟩
    obtain ⟨walk, stands⟩ := (finished.decoded entry).mp mem
    rcases either with ⟨control, cut⟩ | ⟨next, cut⟩
    · exact ⟨entry.1, .control, walk, ⟨entry.2, stands, control⟩, cut⟩
    · exact ⟨entry.1, .next, walk, ⟨entry.2, stands, next⟩, cut⟩
  · intro ⟨a, label, walk, edge, cut⟩
    cases label with
    | control =>
      obtain ⟨decoded, stands, control⟩ := edge
      exact ⟨(a, decoded), (finished.decoded _).mpr ⟨walk, stands⟩, .inl ⟨control, cut⟩⟩
    | next =>
      obtain ⟨decoded, stands, next⟩ := edge
      exact ⟨(a, decoded), (finished.decoded _).mpr ⟨walk, stands⟩, .inr ⟨next, cut⟩⟩

theorem owned_mem (holds : Region pass.environment pass.decoder pass.maxInstructions region)
    (entry_mem : pass.entry ∈ region) (owned : passOwned pass root) : root ∈ region := by
  have reaches : passReaches pass root := owned.reaches
  clear owned
  induction reaches with
  | refl => exact entry_mem
  | tail _ joined ih => exact holds.closed _ ih _ joined

theorem unitRoot_iff (holds : Region pass.environment pass.decoder pass.maxInstructions region)
    (entry_mem : pass.entry ∈ region) : UnitRoot pass root ↔ passOwned pass root := by
  constructor
  · intro unit
    induction unit with
    | entry => exact .entry
    | stitched _ stitch ih =>
      have finished := unit_finished holds (owned_mem holds entry_mem ih)
      exact ih.stitched ((finished.stitches _).mp stitch)
  · intro owned
    induction owned with
    | entry => exact .entry
    | stitched owner stitch ih =>
      have finished := unit_finished holds (owned_mem holds entry_mem owner)
      exact ih.stitched ((finished.stitches _).mpr stitch)

/-- What the walk without boundaries decodes, some partitioned walk decodes, and no other. -/
theorem decoded_union (holds : Region pass.environment pass.decoder pass.maxInstructions region)
    (entry_mem : pass.entry ∈ region) {whole : M68kStaticDiscoveryResult} (finished : Finished (wholePass pass) whole)
    (entry : Address × M68kDecodedInstruction) : entry ∈ whole.decodeCache ↔
      ∃ root, UnitRoot pass root ∧ entry ∈ (discoverM68kStaticGraph (unitPass pass root)).decodeCache := by
  calc
    entry ∈ whole.decodeCache
      ↔ passReaches pass entry.1 ∧ instructionAt pass.environment pass.decoder entry.1 = some entry.2 := by
        rw [finished.decoded, passWalk_whole]
        rfl
    _ ↔ (∃ root, passOwned pass root ∧ passWalk (unitPass pass root) entry.1) ∧
          instructionAt pass.environment pass.decoder entry.1 = some entry.2 :=
        and_congr_left' Stitching.reaches_iff_walked
    _ ↔ ∃ root, UnitRoot pass root ∧ entry ∈ (discoverM68kStaticGraph (unitPass pass root)).decodeCache := by
        rw [exists_and_right.symm]
        apply exists_congr
        intro root
        rw [unitRoot_iff holds entry_mem, and_assoc]
        apply and_congr_right
        intro owned
        exact ((unit_finished holds (owned_mem holds entry_mem owned)).decoded entry).symm

/-! ## Two images -/

theorem drain_of_iterate {n : ℕ} {s : Finset Address × M68kStaticGraphWalker}
    (done : ((drainStep pass)^[n] s).2.worklist = []) : drain pass s = (drainStep pass)^[n] s := by
  induction n generalizing s with
  | zero =>
    have idle : s.2.worklist = [] := done
    rw [drain, if_pos idle]
    rfl
  | succ n ih =>
    rw [Function.iterate_succ_apply] at done ⊢
    by_cases idle : s.2.worklist = []
    · have still : drainStep pass s = s := by
        obtain ⟨visited, w⟩ := s
        have empty : w.worklist = [] := idle
        simp only [drainStep, empty]
      rw [still] at done ⊢
      exact ih done
    · rw [drain, if_neg idle]
      exact ih done

/-- An image as rows of address, bytes and what the decoder makes of them. -/
abbrev Image := List (Address × List Byte × M68kDecodedInstruction)

def imageEnvironment (image : Image) : M68kStaticDiscoveryEnvironment where
  instructionSource pc :=
    match image.find? (·.1 = pc) with
    | none => .error {}
    | some row => .ok { bytes := row.2.1, address := pc, provenanceImageOffset := pc.toNat }
  admitTarget target _ :=
    if image.any (·.1 = target) then none else some { category := .unmappedDirectTarget }
  classifyMemoryAccess _ := none
  classifyDiscardedRead _ := none
  isCompletionRts _ := false
  source_address pc source done := by
    split at done
    · exact absurd done nofun
    · cases done
      rfl

def imageDecoder (image : Image) : Decoder where
  decodeM68kInstruction source :=
    match image.find? (·.1 = source.address) with
    | none => .error { outcome := .illegalInstruction }
    | some row => .ok { row.2.2 with provenance := { row.2.2.provenance with address := source.address } }
  decoded_address source decoded done := by
    split at done
    · exact absurd done nofun
    · cases done
      rfl

def noAnalyses : Analyses := ⟨fun _ _ _ => none, fun _ _ _ => none, fun _ _ => []⟩

def jsr (target : Address) : M68kDecodedInstruction :=
  { provenance := { bytes := (0x4E, 0xB9), length := 6 }, kind := .jsr, size := .longWord
    sourceEa := { mode := .absoluteLong, absoluteAddress := target, extensionWords := 2 } }

def bra (displacement : BitVec 8) : M68kDecodedInstruction :=
  { provenance := { bytes := (0x60, displacement) }, kind := .branch, size := .byte, condition := .always
    sourceEa := { mode := .immediate, immediateValue := displacement.setWidth 32 } }

def rts : M68kDecodedInstruction := { provenance := { bytes := (0x4E, 0x75) }, kind := .rts }

/-- `MOVE.W #$4E75,D0`, whose operand is an `RTS`. -/
def moveRts : M68kDecodedInstruction :=
  { provenance := { bytes := (0x30, 0x3C), length := 4 }, kind := .move, size := .word
    sourceEa := { mode := .immediate, immediateValue := 0x4E75, extensionWords := 1 }
    destinationEa := { mode := .dataRegister } }

def imagePass (image : Image) (boundaries continuationBoundaries : Finset Address) : Pass :=
  { environment := imageEnvironment image, decoder := imageDecoder image, analyses := noAnalyses
    maxInstructions := 16, entry := 0x200, boundaries, continuationBoundaries }

/-- A call, a loop back to it and the subroutine, cut at the subroutine and after the call. -/
def loopPass : Pass :=
  imagePass [(0x200, [0x4E, 0xB9, 0, 0, 0x02, 0x08], jsr 0x208), (0x206, [0x60, 0xF8], bra 0xF8),
    (0x208, [0x4E, 0x75], rts)] {0x208} {0x206}

/-- A call into the operand of the next instruction, and a branch to it after that instruction. -/
def overlapPass : Pass :=
  imagePass [(0x200, [0x4E, 0xB9, 0, 0, 0x02, 0x08], jsr 0x208), (0x206, [0x30, 0x3C, 0x4E, 0x75], moveRts),
    (0x208, [0x4E, 0x75], rts), (0x20A, [0x60, 0xFC], bra 0xFC)] ∅ {0x206}

theorem discover_of_iterate {n : ℕ} (done : ((drainStep pass)^[n] (∅, start pass)).2.worklist = [])
    (deferred : ((drainStep pass)^[n] (∅, start pass)).2.deferredIndirectAn = []) :
    discoverM68kStaticGraph pass = result pass ((drainStep pass)^[n] (∅, start pass)).2 := by
  rw [discoverM68kStaticGraph, drain_of_iterate done]
  exact if_pos deferred

instance (decoded : M68kDecodedInstruction) : Decidable (Jumps decoded) := inferInstanceAs (Decidable (_ ∨ _))

instance (decoded : M68kDecodedInstruction) : Decidable (Computed decoded) := inferInstanceAs (Decidable (_ ∧ _))

theorem mem_of_instructionAt {image : Image} {a : Address} {decoded : M68kDecodedInstruction}
    (stands : instructionAt (imageEnvironment image) (imageDecoder image) a = some decoded) :
    a ∈ image.map Prod.fst := by
  obtain ⟨source, read, -⟩ := instructionAt_iff.mp stands
  rw [decodedAt] at read
  cases found : image.find? (·.1 = a) with
  | none =>
    simp [imageEnvironment, found] at read
  | some row =>
    have same : row.1 = a := by simpa using List.find?_some found
    exact List.mem_map.mpr ⟨row, List.mem_of_find?_eq_some found, same⟩

/-- The instructions of an image. -/
def standing (image : Image) : List (Address × M68kDecodedInstruction) :=
  (image.map Prod.fst).filterMap fun a =>
    (instructionAt (imageEnvironment image) (imageDecoder image) a).map fun decoded => (a, decoded)

theorem mem_standing {image : Image} {a : Address} {decoded : M68kDecodedInstruction}
    (stands : instructionAt (imageEnvironment image) (imageDecoder image) a = some decoded) :
    (a, decoded) ∈ standing image :=
  List.mem_filterMap.mpr ⟨a, mem_of_instructionAt stands, by rw [stands]; rfl⟩

/-- In an image it is enough to look at its rows. -/
def rowsApart (image : Image) : Bool :=
  (standing image).all fun p => (standing image).all fun q => (flow q.1 q.2).targets.all fun target =>
    !decide (InsideSpan target p.1 p.2.provenance.length)

theorem branchesApart_image {image : Image} {boundaries continuationBoundaries : Finset Address}
    (rows : rowsApart image) : BranchesApart (imagePass image boundaries continuationBoundaries) := by
  intro a b covering branch target _ _ standsA standsB targets inside
  have ofA := List.all_eq_true.mp rows (a, covering) (mem_standing standsA)
  have ofB := List.all_eq_true.mp ofA (b, branch) (mem_standing standsB)
  have outside := List.all_eq_true.mp ofB target targets
  rw [Bool.not_eq_true', decide_eq_false_iff_not] at outside
  exact outside inside

/-- **Partitioned discovery.** Where no direct-branch target of the reachable code lies strictly
inside a reachable instruction, stitching at any two boundary sets loses nothing. -/
theorem partition_loses_nothing (pass : Pass)
    (clean : ReportsNothing (discoverM68kStaticGraph (wholePass pass)))
    (direct : MeetsNoComputed (discoverM68kStaticGraph (wholePass pass))) (apart : BranchesApart pass) :
    LosesNothing pass := by
  obtain ⟨walked, done⟩ := whole_walked clean.primary direct
  have finished : Finished (wholePass pass) (discoverM68kStaticGraph (wholePass pass)) := by
    rw [discover_of_walked walked]
    exact walked.finished done
  have holds := region_of_whole walked done apart
  have entry_mem := (walked.visited_walk done _).mpr .refl
  have union := decoded_union holds entry_mem finished
  have unit {root : Address} (owner : UnitRoot pass root) :
      Finished (unitPass pass root) (discoverM68kStaticGraph (unitPass pass root)) :=
    unit_finished holds (owned_mem holds entry_mem ((unitRoot_iff holds entry_mem).mp owner))
  -- whatever is a matter of decoded entries follows their union
  have spread (holds : Address × M68kDecodedInstruction → Prop) :
      (∃ entry ∈ (discoverM68kStaticGraph (wholePass pass)).decodeCache, holds entry) ↔
        ∃ root, UnitRoot pass root ∧
          ∃ entry ∈ (discoverM68kStaticGraph (unitPass pass root)).decodeCache, holds entry := by
    constructor
    · intro ⟨entry, mem, here⟩
      obtain ⟨root, owner, found⟩ := (union entry).mp mem
      exact ⟨root, owner, entry, found, here⟩
    · intro ⟨root, owner, entry, found, here⟩
      exact ⟨entry, (union entry).mpr ⟨root, owner, found⟩, here⟩
  refine ⟨union, ?_, ?_, ?_⟩
  · intro a
    rw [finished.order, spread]
    exact exists_congr fun root => and_congr_right fun owner => ((unit owner).order a).symm
  · intro e compared
    rw [finished.edges e compared, spread]
    exact exists_congr fun root => and_congr_right fun owner => ((unit owner).edges e compared).symm
  · intro f
    rw [finished.frames, spread]
    exact exists_congr fun root => and_congr_right fun owner => ((unit owner).frames f).symm

/-- The result of a walk after `n` addresses. -/
def resultAfter (pass : Pass) (n : ℕ) : M68kStaticDiscoveryResult :=
  result pass ((drainStep pass)^[n] (∅, start pass)).2

/-- Nothing is left to walk after `n` addresses. -/
def DoneAfter (pass : Pass) (n : ℕ) : Prop :=
  ((drainStep pass)^[n] (∅, start pass)).2.worklist = [] ∧
    ((drainStep pass)^[n] (∅, start pass)).2.deferredIndirectAn = []

instance (pass : Pass) (n : ℕ) : Decidable (DoneAfter pass n) := inferInstanceAs (Decidable (_ ∧ _))

theorem DoneAfter.discovered {n : ℕ} (done : DoneAfter pass n) :
    discoverM68kStaticGraph pass = resultAfter pass n := discover_of_iterate done.1 done.2

theorem loop_runs : DoneAfter (wholePass loopPass) 4 ∧
    (resultAfter (wholePass loopPass) 4).primaryIssue = none ∧
    (resultAfter (wholePass loopPass) 4).secondaryIssues = [] ∧
    (∀ entry ∈ (resultAfter (wholePass loopPass) 4).decodeCache, ¬Computed entry.2) := by
  decide

theorem loop_reports_nothing : ReportsNothing (discoverM68kStaticGraph (wholePass loopPass)) := by
  rw [loop_runs.1.discovered]
  exact ⟨loop_runs.2.1, loop_runs.2.2.1⟩

theorem loop_meets_no_computed : MeetsNoComputed (discoverM68kStaticGraph (wholePass loopPass)) := by
  rw [loop_runs.1.discovered]
  exact loop_runs.2.2.2

/-- The loop is walked from its entry, from the subroutine and from the return point. -/
theorem partition_loses_nothing_loop : ReportsNothing (discoverM68kStaticGraph (wholePass loopPass)) ∧
    MeetsNoComputed (discoverM68kStaticGraph (wholePass loopPass)) ∧ BranchesApart loopPass ∧
    LosesNothing loopPass := by
  have apart : BranchesApart loopPass := branchesApart_image (by decide)
  exact ⟨loop_reports_nothing, loop_meets_no_computed, apart,
    partition_loses_nothing loopPass loop_reports_nothing loop_meets_no_computed apart⟩

/-! ## An overlap the partition exposes -/

/-- The branch at `$20A` to the `RTS` inside the `MOVE` at `$206`. -/
def overlapBranch : M68kStaticEdge :=
  { sourceInstruction := { address := 0x20A, imageOffset := 0x20A, bytes := (0x60, 0xFC), length := 2 }
    kind := .directBranch, target := 0x208 }

theorem overlap_runs_whole : DoneAfter (wholePass overlapPass) 6 ∧
    (resultAfter (wholePass overlapPass) 6).primaryIssue = none ∧
    (resultAfter (wholePass overlapPass) 6).secondaryIssues = [] ∧
    (∀ entry ∈ (resultAfter (wholePass overlapPass) 6).decodeCache, ¬Computed entry.2) ∧
    overlapBranch ∈ (resultAfter (wholePass overlapPass) 6).edges := by
  decide

theorem overlap_runs_units : (DoneAfter (unitPass overlapPass 0x200) 3 ∧ DoneAfter (unitPass overlapPass 0x206) 3) ∧
    ((resultAfter (unitPass overlapPass 0x200) 3).stitchedBoundaryAddresses = ∅ ∧
      (∀ e ∈ (resultAfter (unitPass overlapPass 0x200) 3).edges,
        e.kind = .fallthroughContinuation → e.target = 0x206) ∧
      (resultAfter (unitPass overlapPass 0x206) 3).stitchedBoundaryAddresses = ∅ ∧
      (∀ e ∈ (resultAfter (unitPass overlapPass 0x206) 3).edges, e.kind ≠ .fallthroughContinuation)) ∧
    (overlapBranch ∉ (resultAfter (unitPass overlapPass 0x200) 3).edges ∧
      overlapBranch ∉ (resultAfter (unitPass overlapPass 0x206) 3).edges) ∧
    (resultAfter (unitPass overlapPass 0x200) 3).decodeOrder.length < overlapPass.maxInstructions ∧
      (resultAfter (unitPass overlapPass 0x206) 3).decodeOrder.length < overlapPass.maxInstructions := by
  decide

theorem overlap_stitches :
    (discoverM68kStaticGraph (unitPass overlapPass 0x200)).stitchedBoundaryAddresses = ∅ ∧
      (∀ e ∈ (discoverM68kStaticGraph (unitPass overlapPass 0x200)).edges,
        e.kind = .fallthroughContinuation → e.target = 0x206) ∧
      (discoverM68kStaticGraph (unitPass overlapPass 0x206)).stitchedBoundaryAddresses = ∅ ∧
      (∀ e ∈ (discoverM68kStaticGraph (unitPass overlapPass 0x206)).edges, e.kind ≠ .fallthroughContinuation) := by
  rw [overlap_runs_units.1.1.discovered, overlap_runs_units.1.2.discovered]
  exact overlap_runs_units.2.1

theorem overlap_units {root : Address} (unit : UnitRoot overlapPass root) : root = 0x200 ∨ root = 0x206 := by
  obtain ⟨entryControl, entryNext, nextControl, nextNext⟩ := overlap_stitches
  induction unit with
  | entry => exact .inl rfl
  | stitched _ stitch ih =>
    rcases ih with same | same
    · rw [same] at stitch
      rcases stitch with control | ⟨e, mem, kind, target⟩
      · rw [entryControl] at control
        exact absurd control (Finset.notMem_empty _)
      · exact .inr (target ▸ entryNext e mem kind)
    · rw [same] at stitch
      rcases stitch with control | ⟨e, mem, kind, _⟩
      · rw [nextControl] at control
        exact absurd control (Finset.notMem_empty _)
      · exact absurd kind (nextNext e mem)

theorem overlap_whole_clean : ReportsNothing (discoverM68kStaticGraph (wholePass overlapPass)) := by
  rw [overlap_runs_whole.1.discovered]
  exact ⟨overlap_runs_whole.2.1, overlap_runs_whole.2.2.1⟩

theorem overlap_whole_direct : MeetsNoComputed (discoverM68kStaticGraph (wholePass overlapPass)) := by
  rw [overlap_runs_whole.1.discovered]
  exact overlap_runs_whole.2.2.2.1

theorem overlapBranch_found : overlapBranch ∈ (discoverM68kStaticGraph (wholePass overlapPass)).edges := by
  rw [overlap_runs_whole.1.discovered]
  exact overlap_runs_whole.2.2.2.2

theorem overlapBranch_lost : overlapBranch ∉ (discoverM68kStaticGraph (unitPass overlapPass 0x200)).edges ∧
    overlapBranch ∉ (discoverM68kStaticGraph (unitPass overlapPass 0x206)).edges := by
  rw [overlap_runs_units.1.1.discovered, overlap_runs_units.1.2.discovered]
  exact overlap_runs_units.2.2.1

/-- The walk without boundaries meets the overlap after the target was decoded and reports nothing;
cut after the call, it is met before, and the branch is in no walk. -/
theorem overlap_loses_branch : ReportsNothing (discoverM68kStaticGraph (wholePass overlapPass)) ∧
    MeetsNoComputed (discoverM68kStaticGraph (wholePass overlapPass)) ∧
    (∀ root, UnitRoot overlapPass root →
      (discoverM68kStaticGraph (unitPass overlapPass root)).decodeOrder.length < overlapPass.maxInstructions) ∧
    ¬LosesNothing overlapPass := by
  have used : (discoverM68kStaticGraph (unitPass overlapPass 0x200)).decodeOrder.length < overlapPass.maxInstructions ∧
      (discoverM68kStaticGraph (unitPass overlapPass 0x206)).decodeOrder.length < overlapPass.maxInstructions := by
    rw [overlap_runs_units.1.1.discovered, overlap_runs_units.1.2.discovered]
    exact overlap_runs_units.2.2.2
  refine ⟨overlap_whole_clean, overlap_whole_direct, fun root unit => ?_, fun lossless => ?_⟩
  · rcases overlap_units unit with same | same
    · exact same ▸ used.1
    · exact same ▸ used.2
  · obtain ⟨root, unit, mem⟩ := (lossless.edges overlapBranch ⟨nofun, nofun⟩).mp overlapBranch_found
    rcases overlap_units unit with same | same
    · exact overlapBranch_lost.1 (same ▸ mem)
    · exact overlapBranch_lost.2 (same ▸ mem)

end Segarecomp.M68k.StaticDiscovery

import Segarecomp.SegaCd.SourceRuns

/-! What the resolver returns: the even part of the one run that is longer than all others. -/

namespace Segarecomp.SegaCd.SourceResolve

open Lib.CommonRuns Lib.Spans Media.Disc

variable {env : Environment} {disc : DiscImage} {track : DiscTrack} {e : SourceEvidence} {segments : List Segment}
  {run : SourceRun} {source : ResolvedSource} {candidates : ℕ}

/-- One when the run begins at an odd address. -/
def SourceEvidence.odd (e : SourceEvidence) (run : SourceRun) : ℕ := (e.regionBase + run.windowBegin) % 2

/-- The run without an odd address at its beginning and an odd byte at its end. -/
def SourceEvidence.extent (e : SourceEvidence) (run : SourceRun) (candidates : ℕ) : ResolvedSource where
  discOffset := run.segment.offset + run.segmentBegin + e.odd run
  base := e.regionBase + run.windowBegin + e.odd run
  length := (run.length - e.odd run) / 2 * 2
  candidates := candidates

/-- A window in the address space, and an even program counter in it. -/
structure SourceEvidence.Window (e : SourceEvidence) : Prop where
  above : e.regionBase ≤ e.pc
  inside : e.pc < e.regionBase + e.region.length
  small : e.region.length + kResolveAnchorBytes ≤ 2 ^ 32
  narrow : e.pc < 2 ^ 32
  even : e.pc % 2 = 0

theorem SourceEvidence.Window.usable (window : e.Window) (enough : kResolveAnchorBytes ≤ e.region.length) : e.Usable :=
  ⟨window.above, window.inside, enough, window.small⟩

/-! ## The extent of a run -/

/-- What is left of the run after trimming lies around the program counter. -/
theorem SourceEvidence.IsRun.around (isRun : e.IsRun segments run) (usable : e.Usable) :
    e.regionBase + run.windowBegin ≤ e.pc ∧ run.windowBegin + run.length ≤ e.region.length ∧
      (e.pc + kResolveAnchorBytes ≤ e.regionBase + run.windowBegin + run.length ∨
        run.windowBegin + run.length = e.region.length) := by
  have before := isRun.before
  have after := isRun.after
  have left := isRun.maximal.agrees.left
  have above := usable.above
  have enough := usable.enough
  rw [usable.anchorAt_eq, SourceEvidence.pcIndex] at before after
  have near : run.windowBegin ≤ e.pc - e.regionBase := before.trans (min_le_left _ _)
  constructor
  · omega
  constructor
  · exact left
  · rcases min_choice (e.pc - e.regionBase) (e.region.length - kResolveAnchorBytes) with here | last
    · rw [here] at after
      exact Or.inl (by omega)
    · rw [last] at after
      exact Or.inr (by omega)

theorem odd_lt_two (e : SourceEvidence) (run : SourceRun) : e.odd run < 2 := Nat.mod_lt _ (by decide)

theorem trim_ok (isRun : e.IsRun segments run) (window : e.Window) (usable : e.Usable)
    (narrow : run.segment.offset + run.segment.bytes.length < 2 ^ 32) :
    e.trim run.candidate candidates = .ok source ↔
      kResolveMinRun ≤ (e.extent run candidates).length ∧ source = e.extent run candidates := by
  have around := isRun.around usable
  have right := isRun.maximal.agrees.right
  have low := window.narrow
  have even := window.even
  have long : kResolveAnchorBytes ≤ run.length := by
    have before := isRun.before
    have after := isRun.after
    omega
  have small := odd_lt_two e run
  have length : (if (run.length - e.odd run) % 2 = 1 then run.length - e.odd run - 1 else run.length - e.odd run) =
      (e.extent run candidates).length := by
    change _ = (run.length - e.odd run) / 2 * 2
    generalize run.length - e.odd run = rest
    split_ifs with last
    · omega
    · omega
  have offset : u32 (run.candidate.discOffset + e.odd run) = (e.extent run candidates).discOffset := by
    apply Nat.mod_eq_of_lt
    change run.segment.offset + run.segmentBegin + e.odd run < 2 ^ 32
    rw [kResolveAnchorBytes] at long
    omega
  have base : u32 (e.regionBase + (run.candidate.regionBegin + e.odd run)) = (e.extent run candidates).base := by
    rw [← Nat.add_assoc]
    apply Nat.mod_eq_of_lt
    change e.regionBase + run.windowBegin + (e.regionBase + run.windowBegin) % 2 < 2 ^ 32
    omega
  have trimmed : e.trim run.candidate candidates =
      if (if (run.length - e.odd run) % 2 = 1 then run.length - e.odd run - 1 else run.length - e.odd run) <
          kResolveMinRun then .error .tooShort
      else .ok ⟨u32 (run.candidate.discOffset + e.odd run), u32 (e.regionBase + (run.candidate.regionBegin + e.odd run)),
        if (run.length - e.odd run) % 2 = 1 then run.length - e.odd run - 1 else run.length - e.odd run,
        candidates⟩ := rfl
  rw [trimmed, length, offset, base]
  by_cases short : (e.extent run candidates).length < kResolveMinRun
  · rw [if_pos short]
    constructor
    · intro none
      cases none
    · exact fun found => absurd short (Nat.not_lt.mpr found.1)
  · rw [if_neg short]
    constructor
    · rintro ⟨⟩
      exact ⟨Nat.not_lt.mp short, rfl⟩
    · rintro ⟨-, rfl⟩
      rfl

/-! ## The choice -/

/-- The run is longer than every other. -/
def SourceEvidence.Best (e : SourceEvidence) (segments : List Segment) (run : SourceRun) : Prop :=
  e.IsRun segments run ∧ ∀ other, e.IsRun segments other → other ≠ run → other.length < run.length

theorem SourceEvidence.Usable.best_iff (usable : e.Usable) :
    Longest SourceRun.length (e.runs segments) run ↔ e.Best segments run := by
  rw [Longest, SourceEvidence.Best]
  simp only [usable.mem_runs]

theorem SourceEvidence.Usable.choose_ok (usable : e.Usable) (nodup : segments.Nodup) :
    e.choose ((e.places segments).map e.candidate) = .ok source ↔
      ∃ run, e.Best segments run ∧ e.trim run.candidate (e.places segments).length = .ok source := by
  have sizes : (((e.runs segments).map SourceRun.candidate).foldl (fun best c => max best c.length) 0) =
      ((e.runs segments).map SourceRun.length).foldl max 0 := by
    rw [List.foldl_map, List.foldl_map]
    rfl
  have top : (((e.runs segments).map SourceRun.candidate).filter fun c =>
      c.length = ((e.runs segments).map SourceRun.length).foldl max 0) = ((e.runs segments).filter fun run =>
        run.length = ((e.runs segments).map SourceRun.length).foldl max 0).map SourceRun.candidate :=
    List.filter_map
  have single : ∀ run, (e.runs segments).filter (fun run =>
      run.length = ((e.runs segments).map SourceRun.length).foldl max 0) = [run] ↔
      Longest SourceRun.length (e.runs segments) run := fun run => filter_eq_singleton_iff (usable.runs_nodup nodup)
  have count : ((e.runs segments).map SourceRun.candidate).length = (e.places segments).length := by
    rw [List.length_map, SourceEvidence.runs, List.length_map]
  rw [candidates_eq]
  change e.choose ((e.runs segments).map SourceRun.candidate) = _ ↔ _
  rw [SourceEvidence.choose]
  dsimp only
  rw [sizes, top, count]
  generalize (e.runs segments).filter (fun run =>
    run.length = ((e.runs segments).map SourceRun.length).foldl max 0) = kept at single
  constructor
  · intro chosen
    split_ifs at chosen
    cases kept with
    | nil => cases chosen
    | cons run others =>
      cases others with
      | nil => exact ⟨run, usable.best_iff.mp ((single run).mp rfl), chosen⟩
      | cons other others => cases chosen
  · rintro ⟨run, best, trimmed⟩
    have only := (single run).mpr (usable.best_iff.mpr best)
    have some_run : (e.runs segments).map SourceRun.candidate ≠ [] :=
      List.ne_nil_of_mem (List.mem_map_of_mem (usable.mem_runs.mpr best.1))
    rw [if_neg some_run, only]
    exact trimmed

/-! ## The source -/

/-- None of the refusals that do not look at the runs applies, and the occurrences stay under their cap. -/
structure Searchable (env : Environment) (disc : DiscImage) (e : SourceEvidence) (track : DiscTrack) : Prop where
  enough : kResolveAnchorBytes ≤ e.region.length
  complete : e.deliveredOverflow = false
  first : disc.tracks.head? = some track
  data : track.type ≠ .audio
  bounded : deliveredBytes (mergeDelivered track e.delivered) ≤ kResolveMaxDeliveredBytes
  few : {run | e.IsRun (deliveredSegments env disc track e.delivered) run}.ncard ≤ kResolveMaxCandidates

/-- An even extent of the window, copied from one merged range of the track. Only the last byte of the window may
be left out of an extent that should hold it. -/
structure Copied (env : Environment) (disc : DiscImage) (e : SourceEvidence) (track : DiscTrack)
    (source : ResolvedSource) : Prop where
  even_base : source.base % 2 = 0
  even_length : source.length % 2 = 0
  before_pc : source.base ≤ e.pc
  holds_pc : e.pc < source.base + source.length ↔ e.pc + 1 < e.regionBase + e.region.length
  begins : e.regionBase ≤ source.base
  ends : source.base + source.length ≤ e.regionBase + e.region.length
  delivered : ∃ r ∈ mergeDelivered track e.delivered,
    (r.firstLba - track.firstLba) * kDiscUserBytes ≤ source.discOffset ∧
      source.discOffset + source.length ≤ (r.firstLba - track.firstLba) * kDiscUserBytes + r.count * kDiscUserBytes
  same : ∀ k < source.length,
    e.region[source.base - e.regionBase + k]? = userByte env disc track (source.discOffset + k)

theorem DataTrack.copied (t : DataTrack env disc track) (window : e.Window) (usable : e.Usable)
    (isRun : e.IsRun (deliveredSegments env disc track e.delivered) run)
    (long : kResolveMinRun ≤ (e.extent run candidates).length) : Copied env disc e track (e.extent run candidates) := by
  rcases List.mem_map.mp isRun.member with ⟨r, member, segment⟩
  have around := isRun.around usable
  have above := window.above
  have inside := window.inside
  have even := window.even
  have right := isRun.maximal.agrees.right
  rw [← segment, segmentOf] at right
  dsimp only at right
  rw [length_userBytes] at right
  have odd : e.odd run = (e.regionBase + run.windowBegin) % 2 := rfl
  have base : (e.extent run candidates).base = e.regionBase + run.windowBegin + e.odd run := rfl
  have length : (e.extent run candidates).length = (run.length - e.odd run) / 2 * 2 := rfl
  have offset : (e.extent run candidates).discOffset =
      (r.firstLba - track.firstLba) * kDiscUserBytes + run.segmentBegin + e.odd run := by
    rw [SourceEvidence.extent, ← segment, segmentOf]
  rw [kResolveMinRun] at long
  rw [kResolveAnchorBytes] at around
  constructor
  case even_base => omega
  case even_length => omega
  case before_pc => omega
  case holds_pc => omega
  case begins => omega
  case ends => omega
  case delivered =>
    refine ⟨r, member, ?_, ?_⟩
    · omega
    · omega
  case same =>
    intro k early
    have here := isRun.maximal.agrees.same (e.odd run + k) (by omega)
    have byte := t.segment_byte member (k := run.segmentBegin + (e.odd run + k)) (by omega)
    rw [← segment, byte] at here
    rw [base, offset, show e.regionBase + run.windowBegin + e.odd run - e.regionBase + k =
      run.windowBegin + (e.odd run + k) by omega, here, segmentOf]
    exact congrArg (userByte env disc track) (by dsimp only; omega)

theorem deliveredBytes_pos (isRun : e.IsRun (deliveredSegments env disc track e.delivered) run) :
    deliveredBytes (mergeDelivered track e.delivered) ≠ 0 := by
  intro none
  rcases List.mem_map.mp isRun.member with ⟨r, member, segment⟩
  have right := isRun.maximal.agrees.right
  have before := isRun.before
  have after := isRun.after
  rw [← segment, segmentOf] at right
  dsimp only at right
  rw [length_userBytes] at right
  have empty : r.count * kDiscUserBytes = 0 :=
    List.sum_eq_zero_iff.mp none _ (List.mem_map_of_mem member)
  rw [kResolveAnchorBytes] at after
  omega

/-- A source is returned for the one longest run, when enough of it is left after trimming. -/
theorem resolveSource_ok (loaded : Loaded env disc) (window : e.Window) : resolveSource env disc e = .ok source ↔
    ∃ track run, Searchable env disc e track ∧ e.Best (deliveredSegments env disc track e.delivered) run ∧
      kResolveMinRun ≤ source.length ∧
      source = e.extent run {run | e.IsRun (deliveredSegments env disc track e.delivered) run}.ncard := by
  have above := window.above
  have inside := window.inside
  have index : e.pc - e.regionBase < e.region.length := by omega
  have read : ∀ {track : DiscTrack} (t : DataTrack env disc track), readSegments env disc track
      (mergeDelivered track e.delivered) = .ok (deliveredSegments env disc track e.delivered) :=
    fun t => t.readSegments_eq (t.covers_merged e.delivered)
  have trimmed : ∀ {track : DiscTrack} {run : SourceRun} (_ : DataTrack env disc track) (usable : e.Usable)
      (_ : e.IsRun (deliveredSegments env disc track e.delivered) run),
      e.trim run.candidate (e.places (deliveredSegments env disc track e.delivered)).length = .ok source ↔
        kResolveMinRun ≤ source.length ∧
          source = e.extent run {run | e.IsRun (deliveredSegments env disc track e.delivered) run}.ncard := by
    intro track run t usable isRun
    rcases List.mem_map.mp isRun.member with ⟨r, member, segment⟩
    rw [usable.length_places (t.segments_nodup e.delivered), trim_ok isRun window usable (segment ▸ t.segment_narrow member)]
    constructor
    · rintro ⟨long, rfl⟩
      exact ⟨long, rfl⟩
    · rintro ⟨long, rfl⟩
      exact ⟨long, rfl⟩
  constructor
  · intro found
    rw [resolveSource] at found
    split_ifs at found with refused overflow
    have enough : kResolveAnchorBytes ≤ e.region.length := by omega
    have usable := window.usable enough
    cases first : disc.tracks.head? with
    | none =>
      rw [first] at found
      cases found
    | some track =>
      rw [first] at found
      dsimp only at found
      split_ifs at found with audio empty large
      have t : DataTrack env disc track := ⟨loaded, List.mem_of_head? first, audio⟩
      rw [read t] at found
      dsimp only at found
      split_ifs at found with many
      rcases (usable.choose_ok (t.segments_nodup e.delivered)).mp found with ⟨run, best, cut⟩
      have few := Nat.not_lt.mp many
      rw [usable.length_places (t.segments_nodup e.delivered)] at few
      have complete : e.deliveredOverflow = false := Bool.not_eq_true _ ▸ overflow
      exact ⟨track, run, ⟨enough, complete, first, audio, Nat.not_lt.mp large, few⟩, best, (trimmed t usable best.1).mp cut⟩
  · rintro ⟨track, run, search, best, long⟩
    have enough := search.enough
    have usable := window.usable enough
    have t : DataTrack env disc track := ⟨loaded, List.mem_of_head? search.first, search.data⟩
    have few := search.few
    rw [← usable.length_places (t.segments_nodup e.delivered)] at few
    have complete : ¬e.deliveredOverflow = true := Bool.not_eq_true _ ▸ search.complete
    rw [resolveSource, if_neg (by omega), if_neg complete, search.first]
    dsimp only
    rw [if_neg search.data, if_neg (deliveredBytes_pos best.1), if_neg (Nat.not_lt.mpr search.bounded), read t]
    dsimp only
    rw [if_neg (Nat.not_lt.mpr few)]
    exact (usable.choose_ok (t.segments_nodup e.delivered)).mpr ⟨run, best, (trimmed t usable best.1).mpr long⟩

theorem resolveSource_copied (loaded : Loaded env disc) (window : e.Window) (found : resolveSource env disc e = .ok source) :
    ∃ track, disc.tracks.head? = some track ∧ Copied env disc e track source := by
  rcases (resolveSource_ok loaded window).mp found with ⟨track, run, search, best, long, rfl⟩
  have t : DataTrack env disc track := ⟨loaded, List.mem_of_head? search.first, search.data⟩
  exact ⟨track, search.first, t.copied window (window.usable search.enough) best.1 long⟩

theorem resolveSource_perm (loaded : Loaded env disc) (e : SourceEvidence) {delivered : List LedgerRange}
    (same : delivered.Perm e.delivered) :
    resolveSource env disc { e with delivered := delivered } = resolveSource env disc e := by
  rw [resolveSource, resolveSource]
  dsimp only
  cases first : disc.tracks.head? with
  | none => rfl
  | some track =>
    have narrow := (endLba_le loaded (List.mem_of_head? first)).trans_lt (by decide : kDiscMaxSectors < 2 ^ 32)
    dsimp only
    rw [mergeDelivered_perm narrow same]
    rfl

theorem source_resolved {cue : Cue} {expected : Option String} (loads : loadCueDisc env cue expected = .ok disc)
    (window : e.Window) :
    (∀ track, disc.tracks.head? = some track →
      Apart ((mergeDelivered track e.delivered).map LedgerRange.span) ∧
        ∀ lba, Covers ((mergeDelivered track e.delivered).map LedgerRange.span) lba ↔
          (∃ r ∈ e.delivered, r.span.Holds lba) ∧ track.Covers lba) ∧
      (∀ source, resolveSource env disc e = .ok source ↔
        ∃ track run, Searchable env disc e track ∧ e.Best (deliveredSegments env disc track e.delivered) run ∧
          kResolveMinRun ≤ source.length ∧
          source = e.extent run {run | e.IsRun (deliveredSegments env disc track e.delivered) run}.ncard) ∧
      (∀ source, resolveSource env disc e = .ok source →
        ∃ track, disc.tracks.head? = some track ∧ Copied env disc e track source) ∧
      ∀ delivered, delivered.Perm e.delivered →
        resolveSource env disc { e with delivered := delivered } = resolveSource env disc e := by
  have loaded := loadCueDisc_loaded loads
  constructor
  · intro track first
    have narrow := (endLba_le loaded (List.mem_of_head? first)).trans_lt (by decide : kDiscMaxSectors < 2 ^ 32)
    exact mergeDelivered_spec narrow e.delivered
  constructor
  · exact fun source => resolveSource_ok loaded window
  constructor
  · exact fun source => resolveSource_copied loaded window
  · exact fun delivered => resolveSource_perm loaded e

/-! A disc of one sector, and a window that holds the 65 bytes at its beginning. -/

def counted : List Byte := (List.range 65).map fun k => BitVec.ofNat 8 (k + 1)

def oneSector : Environment where
  isSymlink _ := false
  isRegular _ := true
  canonical name := some name
  fileSize _ := some 2048
  contents _ := some (counted ++ zeros 1983)
  sha256 _ := ""
  sha256Text _ := ""

def oneSectorText : List Char :=
  [["FILE", "\"a.bin\"", "BINARY"], ["TRACK", "01", "MODE1/2048"], ["INDEX", "01", "00:00:00"]].flatMap
    fun line => [' '].intercalate (line.map String.toList) ++ ['\n']

def oneSectorCue : Cue where
  regular := true
  symlink := false
  size := some 80
  text := some oneSectorText
  directory := true

def oneSectorFile : DiscFile where
  name := "a.bin".toList
  path := "a.bin".toList
  size := 2048

def oneSectorDisc : DiscImage where
  files := [oneSectorFile]
  tracks := [firstTrack]
  totalSectors := 1
  table := normalizedTable [oneSectorFile] [firstTrack] 1

def sixtyFive (index : ℕ) : SourceEvidence where
  pc := 65536 + index
  regionBase := 65536
  region := counted
  delivered := [⟨0, 1⟩]
  deliveredOverflow := false

def oneSectorSheet : List CueFile :=
  [{
    name := "a.bin".toList
    tracks := [{ number := 1, type := .mode1_2048, index01 := some 0, line := 2 }] }]

theorem oneSector_computed : parseCue oneSectorText = .ok oneSectorSheet ∧
    checkTracks oneSector [oneSectorFile] [firstTrack] = .ok () ∧
    ∀ index ∈ [0, 64], resolveSource oneSector oneSectorDisc (sixtyFive index) = .ok ⟨0, 65536, 64, 1⟩ := by
  decide +kernel

theorem oneSector_laid : layoutFiles oneSector 0 oneSectorSheet {} =
    .ok { expectedNumber := 2, lba := 1, tracks := [firstTrack], files := [oneSectorFile] } := by
  rfl

theorem oneSector_hashed : hashFiles oneSector [oneSectorFile] = .ok [oneSectorFile] := by
  have length : (counted ++ zeros 1983).length = 2048 := by
    rw [List.length_append, counted, List.length_map, List.length_range, zeros, List.length_replicate]
  have whole : readAt (counted ++ zeros 1983) 0 2048 = some (counted ++ zeros 1983) := by
    rw [readAt, length, if_pos (by decide), List.drop_zero, List.take_of_length_le length.le]
  simp only [hashFiles, hashFile, oneSector, oneSectorFile, whole]

theorem oneSector_loads : loadCueDisc oneSector oneSectorCue none = .ok oneSectorDisc := by
  have read : readCue oneSectorCue = .ok oneSectorText := by rfl
  rw [loadCueDisc, read]
  dsimp only
  rw [oneSector_computed.1]
  dsimp only
  rw [oneSector_laid]
  dsimp only
  rw [buildDisc]
  dsimp only
  rw [oneSector_hashed]
  dsimp only
  rw [oneSector_computed.2.1]
  rfl

theorem sixtyFive_window (index : ℕ) (inside : index < 65) (even : index % 2 = 0) : (sixtyFive index).Window := by
  constructor
  · exact Nat.le_add_right _ _
  · exact Nat.add_lt_add_left inside _
  · simp [sixtyFive, counted, kResolveAnchorBytes]
  · change 65536 + index < 2 ^ 32
    omega
  · change (65536 + index) % 2 = 0
    omega

theorem sixtyFive_found : ∀ index ∈ [0, 64],
    resolveSource oneSector oneSectorDisc (sixtyFive index) = .ok ⟨0, 65536, 64, 1⟩ := oneSector_computed.2.2

def overflowed : SourceEvidence := { sixtyFive 0 with deliveredOverflow := true }

theorem overflowed_isRun : overflowed.IsRun segments run ↔ (sixtyFive 0).IsRun segments run :=
  ⟨fun is => ⟨is.member, is.maximal, is.before, is.after⟩, fun is => ⟨is.member, is.maximal, is.before, is.after⟩⟩

theorem overflowed_best :
    ∃ run, overflowed.Best (deliveredSegments oneSector oneSectorDisc firstTrack overflowed.delivered) run ∧
      kResolveMinRun ≤ (overflowed.extent run 1).length := by
  have found := sixtyFive_found 0 List.mem_cons_self
  have window := sixtyFive_window 0 (by decide) (by decide)
  rcases (resolveSource_ok (loadCueDisc_loaded oneSector_loads) window).mp found with
    ⟨track, run, search, best, long, extent⟩
  have first : firstTrack = track := Option.some.inj search.first
  subst first
  have length : 64 = (overflowed.extent run 1).length := congrArg ResolvedSource.length extent
  refine ⟨run, ⟨overflowed_isRun.mpr best.1, ?_⟩, length ▸ long⟩
  exact fun other is different => best.2 other (overflowed_isRun.mp is) different

theorem source_resolved_sixtyFive :
    Covers ((mergeDelivered firstTrack [⟨0, 1⟩]).map LedgerRange.span) 0 ∧
      ∃ track, oneSectorDisc.tracks.head? = some track ∧
        Copied oneSector oneSectorDisc (sixtyFive 0) track ⟨0, 65536, 64, 1⟩ := by
  rcases source_resolved oneSector_loads (sixtyFive_window 0 (by decide) (by decide)) with
    ⟨merged, -, copied, -⟩
  constructor
  · exact ((merged firstTrack rfl).2 0).mpr ⟨⟨⟨0, 1⟩, List.mem_cons_self, by decide⟩, by decide⟩
  · exact copied _ (sixtyFive_found 0 List.mem_cons_self)

/-- The program counter at the last byte is left out, and a ledger that overflowed is refused whatever it holds. -/
theorem lastByte_left_out :
    loadCueDisc oneSector oneSectorCue none = .ok oneSectorDisc ∧ overflowed.Window ∧ (sixtyFive 64).Window ∧
      (∃ source, resolveSource oneSector oneSectorDisc (sixtyFive 64) = .ok source ∧
        source.base + source.length ≤ (sixtyFive 64).pc) ∧
      (∃ run, overflowed.Best (deliveredSegments oneSector oneSectorDisc firstTrack overflowed.delivered) run ∧
        kResolveMinRun ≤ (overflowed.extent run 1).length) ∧
      resolveSource oneSector oneSectorDisc overflowed = .error .ledgerOverflow := by
  constructor
  · exact oneSector_loads
  constructor
  · have zero := sixtyFive_window 0 (by decide) (by decide)
    exact ⟨zero.above, zero.inside, zero.small, zero.narrow, zero.even⟩
  constructor
  · exact sixtyFive_window 64 (by decide) (by decide)
  constructor
  · exact ⟨_, sixtyFive_found 64 (by decide), by decide⟩
  constructor
  · exact overflowed_best
  · decide

end Segarecomp.SegaCd.SourceResolve

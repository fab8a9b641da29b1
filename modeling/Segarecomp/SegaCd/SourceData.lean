import Segarecomp.SegaCd.SourceRanges

/-! The delivered segments: what the resolver reads is the user data of the track, in the merged ranges. -/

namespace Segarecomp.SegaCd.SourceResolve

open Lib.Spans Media.Disc

variable {env : Environment} {disc : DiscImage} {track : DiscTrack}

/-- A byte of the user data of the track. -/
def userByte (env : Environment) (disc : DiscImage) (track : DiscTrack) (offset : ℕ) : Option Byte :=
  match readUserData env disc (track.firstLba + offset / kDiscUserBytes) with
  | .error _ => none
  | .ok data => data[offset % kDiscUserBytes]?

/-- `count` bytes from an offset. -/
def userBytes (env : Environment) (disc : DiscImage) (track : DiscTrack) (offset count : ℕ) : List Byte :=
  (List.range count).map fun k => (userByte env disc track (offset + k)).getD 0

def segmentOf (env : Environment) (disc : DiscImage) (track : DiscTrack) (r : LedgerRange) : Segment :=
  ⟨(r.firstLba - track.firstLba) * kDiscUserBytes,
    userBytes env disc track ((r.firstLba - track.firstLba) * kDiscUserBytes) (r.count * kDiscUserBytes)⟩

/-- The delivered parts of the track, each as long as it can be. -/
def deliveredSegments (env : Environment) (disc : DiscImage) (track : DiscTrack) (delivered : List LedgerRange) :
    List Segment :=
  (mergeDelivered track delivered).map (segmentOf env disc track)

theorem length_userBytes (offset count : ℕ) : (userBytes env disc track offset count).length = count := by
  rw [userBytes, List.length_map, List.length_range]

/-- The disc is one the loader accepts, and the track is a data track of it. -/
structure DataTrack (env : Environment) (disc : DiscImage) (track : DiscTrack) : Prop where
  loaded : Loaded env disc
  member : track ∈ disc.tracks
  data : track.type ≠ .audio

theorem endLba_le (loaded : Loaded env disc) (member : track ∈ disc.tracks) : track.endLba ≤ kDiscMaxSectors := by
  rcases loaded.laid with ⟨layout, laid, -, total⟩
  have ends := (loaded.track member).2
  rw [total] at ends
  exact ends.trans laid.small

theorem DataTrack.narrow (t : DataTrack env disc track) : track.endLba ≤ kDiscMaxSectors := endLba_le t.loaded t.member

theorem DataTrack.block (t : DataTrack env disc track) {lba : ℕ} (covers : track.Covers lba) :
    ∃ block, readUserData env disc lba = .ok block ∧ block.length = kDiscUserBytes := by
  rcases t.loaded.readUserData t.member t.data covers with ⟨file, bytes, -, -, inside, read⟩
  refine ⟨_, read, ?_⟩
  rw [List.length_take, List.length_drop]
  omega

theorem DataTrack.userByte_some (t : DataTrack env disc track) {offset : ℕ}
    (covers : track.Covers (track.firstLba + offset / kDiscUserBytes)) : ∃ b, userByte env disc track offset = some b := by
  rcases t.block covers with ⟨block, read, length⟩
  have inside : offset % kDiscUserBytes < block.length := by
    rw [length]
    exact Nat.mod_lt _ (by decide)
  refine ⟨block[offset % kDiscUserBytes], ?_⟩
  rw [userByte, read]
  exact List.getElem?_eq_getElem inside

theorem DataTrack.readBlocks_eq (t : DataTrack env disc track) {lba count : ℕ}
    (covers : ∀ k < count, track.Covers (lba + k)) : readBlocks env disc lba count =
      .ok (userBytes env disc track ((lba - track.firstLba) * kDiscUserBytes) (count * kDiscUserBytes)) := by
  induction count generalizing lba with
  | zero =>
    rw [Nat.zero_mul]
    rfl
  | succ count ih =>
    have here : track.Covers lba := covers 0 (Nat.succ_pos _)
    rcases t.block here with ⟨block, read, length⟩
    have next : ∀ k < count, track.Covers (lba + 1 + k) := by
      intro k inside
      rw [Nat.add_assoc, Nat.add_comm 1 k]
      exact covers (k + 1) (Nat.succ_lt_succ inside)
    have rest := ih next
    have first : track.firstLba ≤ lba := here.1
    have block_eq : block = (List.range kDiscUserBytes).map fun k =>
        (userByte env disc track ((lba - track.firstLba) * kDiscUserBytes + k)).getD 0 := by
      apply List.ext_getElem?
      intro k
      rcases Nat.lt_or_ge k kDiscUserBytes with inside | beyond
      · have sector : ((lba - track.firstLba) * kDiscUserBytes + k) / kDiscUserBytes = lba - track.firstLba := by
          rw [kDiscUserBytes] at inside ⊢
          omega
        have byte : ((lba - track.firstLba) * kDiscUserBytes + k) % kDiscUserBytes = k := by
          rw [kDiscUserBytes] at inside ⊢
          omega
        have byte_of : userByte env disc track ((lba - track.firstLba) * kDiscUserBytes + k) = block[k]? := by
          rw [userByte, sector, Nat.add_sub_cancel' first, read, byte]
        rw [List.getElem?_map, List.getElem?_range inside, Option.map_some, byte_of,
          List.getElem?_eq_getElem (length ▸ inside)]
        rfl
      · rw [List.getElem?_eq_none (length ▸ beyond), List.getElem?_eq_none (by
          rw [List.length_map, List.length_range]; exact beyond)]
    have joined : userBytes env disc track ((lba - track.firstLba) * kDiscUserBytes) ((count + 1) * kDiscUserBytes) =
        block ++ userBytes env disc track ((lba + 1 - track.firstLba) * kDiscUserBytes) (count * kDiscUserBytes) := by
      have shift : (lba + 1 - track.firstLba) * kDiscUserBytes =
          (lba - track.firstLba) * kDiscUserBytes + kDiscUserBytes := by
        rw [Nat.sub_add_comm first, Nat.succ_mul]
      have later : ((List.range (count * kDiscUserBytes)).map (kDiscUserBytes + ·)).map (fun k =>
            (userByte env disc track ((lba - track.firstLba) * kDiscUserBytes + k)).getD 0) =
          userBytes env disc track ((lba + 1 - track.firstLba) * kDiscUserBytes) (count * kDiscUserBytes) := by
        rw [userBytes, List.map_map, shift]
        apply List.map_congr_left
        intro k _
        rw [Function.comp, Nat.add_assoc]
      rw [block_eq, ← later, userBytes, Nat.succ_mul, Nat.add_comm (count * kDiscUserBytes), List.range_add,
        List.map_append]
    rw [readBlocks, read, rest, joined]
    rfl

theorem DataTrack.readSegments_eq (t : DataTrack env disc track) {merged : List LedgerRange}
    (covers : ∀ r ∈ merged, ∀ k < r.count, track.Covers (r.firstLba + k)) :
    readSegments env disc track merged = .ok (merged.map (segmentOf env disc track)) := by
  induction merged with
  | nil => rfl
  | cons r merged ih =>
    have rest := ih fun other member => covers other (List.mem_cons_of_mem _ member)
    rw [readSegments, t.readBlocks_eq (covers r List.mem_cons_self), rest]
    rfl

theorem DataTrack.covers_merged (t : DataTrack env disc track) (delivered : List LedgerRange) :
    ∀ r ∈ mergeDelivered track delivered, ∀ k < r.count, track.Covers (r.firstLba + k) := by
  intro r member k inside
  have spec := mergeDelivered_spec (t.narrow.trans_lt (by decide)) delivered
  have holds : r.span.Holds (r.firstLba + k) := ⟨Nat.le_add_right _ _, Nat.add_lt_add_left inside _⟩
  exact ((spec.2 _).mp ⟨r.span, List.mem_map_of_mem member, holds⟩).2

theorem DataTrack.segments_nodup (t : DataTrack env disc track) (delivered : List LedgerRange) :
    (deliveredSegments env disc track delivered).Nodup := by
  have gaps := (mergeDelivered_spec (t.narrow.trans_lt (by decide)) delivered).1.gaps
  rw [List.pairwise_map] at gaps
  rw [deliveredSegments, List.Nodup, List.pairwise_map]
  apply gaps.imp_of_mem
  intro r r' member member' gap same
  have offset := congrArg Segment.offset same
  have first : track.firstLba ≤ r.firstLba := by
    have nonempty := (mergeDelivered_spec (t.narrow.trans_lt (by decide)) delivered).1.nonempty r.span
      (List.mem_map_of_mem member)
    exact (t.covers_merged delivered r member 0 nonempty).1
  change r.firstLba + r.count < r'.firstLba at gap
  change (r.firstLba - track.firstLba) * kDiscUserBytes = (r'.firstLba - track.firstLba) * kDiscUserBytes at offset
  have equal := Nat.eq_of_mul_eq_mul_right (by decide) offset
  omega

section Merged

variable {delivered : List LedgerRange} {r : LedgerRange}

theorem DataTrack.merged_inside (t : DataTrack env disc track) (member : r ∈ mergeDelivered track delivered) :
    track.firstLba ≤ r.firstLba ∧ r.firstLba + r.count ≤ track.endLba := by
  have nonempty : 0 < r.count := (mergeDelivered_spec (t.narrow.trans_lt (by decide)) delivered).1.nonempty r.span
    (List.mem_map_of_mem member)
  have first := (covers_iff track _).mp (t.covers_merged delivered r member 0 nonempty)
  have last := (covers_iff track _).mp (t.covers_merged delivered r member (r.count - 1) (Nat.sub_lt nonempty one_pos))
  constructor
  · exact first.1
  · omega

theorem DataTrack.segment_narrow (t : DataTrack env disc track) (member : r ∈ mergeDelivered track delivered) :
    (segmentOf env disc track r).offset + (segmentOf env disc track r).bytes.length < 2 ^ 32 := by
  have inside := (t.merged_inside member).2
  have ends := t.narrow
  rw [segmentOf]
  dsimp only
  rw [length_userBytes, ← Nat.add_mul]
  rw [kDiscMaxSectors] at ends
  rw [kDiscUserBytes]
  omega

theorem DataTrack.segment_byte (t : DataTrack env disc track) (member : r ∈ mergeDelivered track delivered) {k : ℕ}
    (inside : k < r.count * kDiscUserBytes) : (segmentOf env disc track r).bytes[k]? =
      userByte env disc track ((segmentOf env disc track r).offset + k) := by
  have sector : ((r.firstLba - track.firstLba) * kDiscUserBytes + k) / kDiscUserBytes =
      r.firstLba - track.firstLba + k / kDiscUserBytes := by
    rw [Nat.mul_comm, Nat.mul_add_div (by decide)]
  have covers : track.Covers (track.firstLba + ((r.firstLba - track.firstLba) * kDiscUserBytes + k) / kDiscUserBytes) := by
    rw [sector, ← Nat.add_assoc, Nat.add_sub_cancel' (t.merged_inside member).1]
    exact t.covers_merged delivered r member _ (Nat.div_lt_of_lt_mul (Nat.mul_comm _ _ ▸ inside))
  rcases t.userByte_some covers with ⟨b, here⟩
  rw [segmentOf]
  dsimp only
  rw [userBytes, List.getElem?_map, List.getElem?_range inside, Option.map_some, here]
  rfl

end Merged

end Segarecomp.SegaCd.SourceResolve

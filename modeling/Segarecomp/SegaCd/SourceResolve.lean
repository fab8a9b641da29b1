import Mathlib.Data.List.Sort
import Segarecomp.Lib.CommonRuns
import Segarecomp.Lib.Spans
import Segarecomp.Media.DiscLayout
import Segarecomp.SegaCd.Machine

/-! Where the bytes of a RAM window come from: the span of delivered disc data they are a copy of. The processor
of the evidence is left out, which the resolver does not look at. -/

namespace Segarecomp.SegaCd.SourceResolve

open Lib.CommonRuns Lib.Spans Media.Disc

def kResolveAnchorBytes : ℕ := 32

def kResolveMinRun : ℕ := 64

def kResolveMaxDeliveredBytes : ℕ := 256 * 2 ^ 20

def kResolveMaxCandidates : ℕ := 64

/-- The sum of two `uint32_t`. -/
def u32 (x : ℕ) : ℕ := x % 2 ^ 32

structure LedgerRange where
  firstLba : ℕ
  count : ℕ
  deriving DecidableEq, Repr

structure SourceEvidence where
  pc : ℕ
  regionBase : ℕ
  region : List Byte
  delivered : List LedgerRange
  deliveredOverflow : Bool

inductive ResolveError
  | badEvidence | ledgerOverflow | noDeliveryEvidence | firstTrackNotData | deliveredTooLarge | discUnreadable
  | noSource | tooShort | ambiguousSource
  deriving DecidableEq, Repr

structure ResolvedSource where
  discOffset : ℕ
  base : ℕ
  length : ℕ
  candidates : ℕ
  deriving DecidableEq, Repr

/-! ## The delivered ranges -/

/-- A range without what lies outside the track. -/
def clip (track : DiscTrack) (r : LedgerRange) : Option LedgerRange :=
  let lo := max r.firstLba track.firstLba
  let hi := min (r.firstLba + r.count) (track.firstLba + track.sectorCount)
  if lo < hi then some ⟨u32 lo, u32 (hi - lo)⟩ else none

/-- The ranges so far, the newest first, with one that begins no earlier. -/
def mergeRange : List LedgerRange → LedgerRange → List LedgerRange
  | [], r => [r]
  | back :: merged, r =>
    if r.firstLba ≤ u32 (back.firstLba + back.count) then
      let finish := max (u32 (back.firstLba + back.count)) (u32 (r.firstLba + r.count))
      { back with count := u32 (finish + 2 ^ 32 - back.firstLba) } :: merged
    else r :: back :: merged

def mergeDelivered (track : DiscTrack) (delivered : List LedgerRange) : List LedgerRange :=
  (((delivered.filterMap (clip track)).insertionSort fun a b => a.firstLba ≤ b.firstLba).foldl mergeRange []).reverse

/-! ## The segments -/

/-- A run of delivered sectors; `offset` is where its bytes begin in the user data of track 1. -/
structure Segment where
  offset : ℕ
  bytes : List Byte
  deriving DecidableEq

/-- The user data of `count` sectors. -/
def readBlocks (env : Environment) (disc : DiscImage) (lba : ℕ) : ℕ → Except ResolveError (List Byte)
  | 0 => .ok []
  | count + 1 =>
    match readUserData env disc lba with
    | .error _ => .error .discUnreadable
    | .ok block => do
      let rest ← readBlocks env disc (lba + 1) count
      return block ++ rest

def readSegments (env : Environment) (disc : DiscImage) (track : DiscTrack) :
    List LedgerRange → Except ResolveError (List Segment)
  | [] => .ok []
  | r :: ranges => do
    let bytes ← readBlocks env disc r.firstLba r.count
    let segments ← readSegments env disc track ranges
    return ⟨(r.firstLba - track.firstLba) * kDiscUserBytes, bytes⟩ :: segments

/-! ## The candidates -/

/-- The places of the anchor, from `place` on. `memchr` passes over bytes that begin no anchor. -/
def occurrencesFrom (anchor : List Byte) : ℕ → List Byte → List ℕ
  | _, [] => []
  | place, b :: bytes =>
    if anchor <+: b :: bytes then place :: occurrencesFrom anchor (place + 1) bytes
    else occurrencesFrom anchor (place + 1) bytes

structure Candidate where
  discOffset : ℕ
  regionBegin : ℕ
  length : ℕ
  deriving DecidableEq

def SourceEvidence.pcIndex (e : SourceEvidence) : ℕ := e.pc - e.regionBase

def SourceEvidence.anchorAt (e : SourceEvidence) : ℕ :=
  if u32 (e.pcIndex + kResolveAnchorBytes) ≤ e.region.length then e.pcIndex
  else u32 (e.region.length - kResolveAnchorBytes)

def SourceEvidence.anchor (e : SourceEvidence) : List Byte := (e.region.drop e.anchorAt).take kResolveAnchorBytes

/-- The places of the anchor in the segments, in order. -/
def SourceEvidence.places (e : SourceEvidence) (segments : List Segment) : List (Segment × ℕ) :=
  segments.flatMap fun s => (occurrencesFrom e.anchor 0 s.bytes).map (s, ·)

/-- Both ways for as long as the window equals the segment. -/
def SourceEvidence.candidate (e : SourceEvidence) (place : Segment × ℕ) : Candidate :=
  let low := backward e.region place.1.bytes e.anchorAt place.2
  let high := forward (e.region.drop (e.anchorAt + kResolveAnchorBytes))
    (place.1.bytes.drop (place.2 + kResolveAnchorBytes))
  { discOffset := place.1.offset + (place.2 - low), regionBegin := e.anchorAt - low
    length := low + kResolveAnchorBytes + high }

/-- The extent: an even base and an even length. -/
def SourceEvidence.trim (e : SourceEvidence) (c : Candidate) (occurrences : ℕ) : Except ResolveError ResolvedSource :=
  let odd := (e.regionBase + c.regionBegin) % 2
  let length := c.length - odd
  let length := if length % 2 = 1 then length - 1 else length
  if length < kResolveMinRun then .error .tooShort
  else
    .ok
      { discOffset := u32 (c.discOffset + odd), base := u32 (e.regionBase + (c.regionBegin + odd)), length := length
        candidates := occurrences }

/-- The longest of the candidates, when it is one. -/
def SourceEvidence.choose (e : SourceEvidence) (candidates : List Candidate) : Except ResolveError ResolvedSource :=
  if candidates = [] then .error .noSource
  else
    let best := candidates.foldl (fun best c => max best c.length) 0
    match candidates.filter fun c => c.length = best with
    | [c] => e.trim c candidates.length
    | _ => .error .ambiguousSource

def deliveredBytes (merged : List LedgerRange) : ℕ := (merged.map fun r => r.count * kDiscUserBytes).sum

def resolveSource (env : Environment) (disc : DiscImage) (e : SourceEvidence) : Except ResolveError ResolvedSource :=
  if e.pc < e.regionBase ∨ e.region.length ≤ e.pc - e.regionBase ∨ e.region.length < kResolveAnchorBytes then
    .error .badEvidence
  else if e.deliveredOverflow then .error .ledgerOverflow
  else
    match disc.tracks.head? with
    | none => .error .firstTrackNotData
    | some track =>
      if track.type = .audio then .error .firstTrackNotData
      else
        let merged := mergeDelivered track e.delivered
        if deliveredBytes merged = 0 then .error .noDeliveryEvidence
        else if kResolveMaxDeliveredBytes < deliveredBytes merged then .error .deliveredTooLarge
        else
          match readSegments env disc track merged with
          | .error error => .error error
          | .ok segments =>
            let places := e.places segments
            if kResolveMaxCandidates < places.length then .error .ambiguousSource
            else e.choose (places.map e.candidate)

end Segarecomp.SegaCd.SourceResolve

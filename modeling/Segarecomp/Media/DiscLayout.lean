import Segarecomp.Media.Disc

/-! Where the tracks of an accepted sheet lie, on the disc and in their files, and what is read
from them. -/

namespace Segarecomp.Media.Disc

/-! ## The sheet -/

def Ordered (track : CueTrack) : Prop :=
  ∀ start ∈ track.index00, ∀ data ∈ track.index01, start ≤ data

/-- What the parser keeps of every sheet it has read so far. -/
structure Sheet (files : List CueFile) : Prop where
  ordered : ∀ file ∈ files, ∀ track ∈ file.tracks, Ordered track
  distinct : (files.map CueFile.name).Nodup

section Sheets

variable {files files' : List CueFile} {place : String} {arguments : List (List Char)}

theorem dropLast_last {file : CueFile} (last : files.getLast? = some file) :
    files.dropLast ++ [file] = files :=
  List.dropLast_append_getLast? file last

theorem Sheet.setTracks (sheet : Sheet files) {file : CueFile} (last : files.getLast? = some file)
    {tracks : List CueTrack} (ordered : ∀ track ∈ tracks, Ordered track) :
    Sheet (setTracks files file tracks) := by
  constructor
  · intro other mem
    rcases List.mem_append.mp mem with earlier | now
    · exact sheet.ordered other (List.mem_of_mem_dropLast earlier)
    · rw [List.mem_singleton.mp now]
      exact ordered
  · have same : (Disc.setTracks files file tracks).map CueFile.name = files.map CueFile.name := by
      rw [Disc.setTracks, List.map_append, ← dropLast_last last, List.map_append,
        List.dropLast_concat]
      rfl
    rw [same]
    exact sheet.distinct

theorem lastTrack_mem {file : CueFile} {track : CueTrack} (h : lastTrack files = some (file, track)) :
    files.getLast? = some file ∧ track ∈ file.tracks := by
  unfold lastTrack at h
  split at h
  · cases h
  · next last =>
      obtain ⟨found, mem, same⟩ := Option.map_eq_some_iff.mp h
      cases same
      exact ⟨last, List.mem_of_getLast? mem⟩

theorem Sheet.setLast (sheet : Sheet files) {file : CueFile} {track track' : CueTrack}
    (last : lastTrack files = some (file, track)) (ordered : Ordered track') :
    Sheet (Disc.setTracks files file (file.tracks.dropLast ++ [track'])) := by
  obtain ⟨present, _⟩ := lastTrack_mem last
  apply sheet.setTracks present
  intro other mem
  rcases List.mem_append.mp mem with earlier | now
  · exact sheet.ordered file (List.mem_of_getLast? present) other (List.mem_of_mem_dropLast earlier)
  · rw [List.mem_singleton.mp now]
    exact ordered

theorem cueFile_sheet (sheet : Sheet files) (h : cueFile files place arguments = .ok files') :
    Sheet files' := by
  unfold cueFile at h
  split at h
  · split at h
    · cases h
    · split at h
      · cases h
      · split at h
        · cases h
        · next name _ _ _ fresh =>
            split at h
            · cases h
            · cases h
              constructor
              · intro file mem
                rcases List.mem_append.mp mem with earlier | now
                · exact sheet.ordered file earlier
                · rw [List.mem_singleton.mp now]
                  simp
              · rw [List.map_append, List.map_singleton]
                rw [← List.concat_eq_append]
                apply List.Nodup.concat _ sheet.distinct
                intro mem
                obtain ⟨existing, present, same⟩ := List.mem_map.mp mem
                exact fresh ⟨existing, present, same⟩
  · cases h

theorem cueTrack_sheet {line : ℕ} (sheet : Sheet files)
    (h : cueTrack files line place arguments = .ok files') : Sheet files' := by
  unfold cueTrack at h
  split at h
  · split at h
    · cases h
    · next file last =>
        split at h
        · cases h
        · split at h
          · cases h
          · cases h
            apply sheet.setTracks last
            intro other mem
            rcases List.mem_append.mp mem with earlier | now
            · exact sheet.ordered file (List.mem_of_getLast? last) other earlier
            · rw [List.mem_singleton.mp now]
              simp [Ordered]
  · cases h

theorem setIndex_ordered {track track' : CueTrack} {index time : ℕ}
    (h : setIndex track index time place = .ok track') : Ordered track' := by
  unfold setIndex at h
  split at h
  · split at h
    · cases h
    · next unset =>
        split at h
        · cases h
        · split at h
          · cases h
          · cases h
            simp only [not_or, Option.not_isSome_iff_eq_none] at unset
            simp [Ordered, unset.2]
  · split at h
    · cases h
    · split at h
      · cases h
      · next late =>
          cases h
          intro start mem data same
          cases same
          exact Nat.not_lt.mp fun after => late ⟨start, mem, after⟩

theorem cueIndex_sheet (sheet : Sheet files) (h : cueIndex files place arguments = .ok files') :
    Sheet files' := by
  unfold cueIndex at h
  split at h
  · split at h
    · cases h
    · next file track last =>
        split at h
        · split at h
          · cases h
          · split at h
            · cases h
            · next track' set =>
                cases h
                exact sheet.setLast last (setIndex_ordered set)
        · cases h
  · cases h

theorem cuePregap_sheet (sheet : Sheet files) (h : cuePregap files place arguments = .ok files') :
    Sheet files' := by
  unfold cuePregap at h
  split at h
  · split at h
    · cases h
    · next file track last =>
        split at h
        · cases h
        · split at h
          · cases h
          · split at h
            · cases h
            · cases h
              obtain ⟨present, mem⟩ := lastTrack_mem last
              exact sheet.setLast last (sheet.ordered file (List.mem_of_getLast? present) track mem)
  · cases h

theorem cueDirective_sheet {number : ℕ} {line : List Char} (sheet : Sheet files)
    (h : cueDirective files number line = .ok files') : Sheet files' := by
  unfold cueDirective at h
  dsimp only at h
  split at h
  · cases h
  · cases h
    exact sheet
  · split at h
    · cases h
      exact sheet
    · split at h
      · exact cueFile_sheet sheet h
      · split at h
        · exact cueTrack_sheet sheet h
        · split at h
          · exact cueIndex_sheet sheet h
          · split at h
            · exact cuePregap_sheet sheet h
            · cases h

theorem parseCueFrom_sheet {rest : List (List Char)} {number : ℕ} (sheet : Sheet files)
    (h : parseCueFrom number rest files = .ok files') : Sheet files' := by
  induction rest generalizing number files with
  | nil =>
      cases h
      exact sheet
  | cons line rest ih =>
      rw [parseCueFrom] at h
      split at h
      · cases h
      · next read => exact ih (cueDirective_sheet sheet read) h

theorem parseCue_sheet {text : List Char} (h : parseCue text = .ok files') : Sheet files' := by
  unfold parseCue at h
  split at h
  · cases h
  · next read =>
      split at h
      · cases h
      · cases h
        exact parseCueFrom_sheet ⟨by simp, by simp⟩ read

end Sheets

/-! ## Placing the tracks -/

def DiscTrack.dataSector (t : DiscTrack) : ℕ := t.fileOffset / t.sectorSize

/-- A track occupies the file sectors from its INDEX 00, if any, to the end of its data. -/
def DiscTrack.firstSector (t : DiscTrack) : ℕ := t.dataSector - t.index0Sectors
def DiscTrack.endSector (t : DiscTrack) : ℕ := t.dataSector + t.sectorCount

def DiscTrack.endLba (t : DiscTrack) : ℕ := t.firstLba + t.sectorCount

/-- The sectors of a track are sectors of its file. -/
def Inside (files : List DiscFile) (t : DiscTrack) : Prop :=
  ∃ file, files[t.fileIndex]? = some file ∧ file.size % t.sectorSize = 0 ∧
    t.endSector ≤ file.size / t.sectorSize

structure Track (t : DiscTrack) : Prop where
  size : t.sectorSize = sectorSizeOf t.type
  offset : t.fileOffset = t.dataSector * t.sectorSize
  pregap : t.index0Sectors ≤ t.dataSector
  nonempty : 0 < t.sectorCount

/-- What every layout keeps while tracks are placed. -/
structure Laid (layout : Layout) : Prop where
  numbers : layout.tracks.map DiscTrack.number = List.range' 1 layout.tracks.length
  expected : layout.expectedNumber = layout.tracks.length + 1
  small : layout.lba ≤ kDiscMaxSectors
  tracks : ∀ t ∈ layout.tracks, Track t ∧ t.endLba ≤ layout.lba
  lbas : layout.tracks.Pairwise (·.endLba ≤ ·.firstLba)
  sectors : layout.tracks.Pairwise fun a b =>
    a.fileIndex = b.fileIndex → a.endSector ≤ b.firstSector

/-- Every track lies inside its file; those of the file being read end at `position` at most. -/
def Filled (sectorSize position : ℕ) (layout : Layout) : Prop :=
  ∀ t ∈ layout.tracks, Inside layout.files t ∨
    t.fileIndex = layout.files.length ∧ t.sectorSize = sectorSize ∧ t.endSector ≤ position

theorem sectorSizeOf_pos (type : DiscTrackType) : 0 < sectorSizeOf type := by
  cases type <;> decide

section Placing

variable {layout layout' : Layout} {sectorSize position fileSectors : ℕ}

theorem Inside.fileIndex_lt {files : List DiscFile} {t : DiscTrack} (inside : Inside files t) :
    t.fileIndex < files.length := by
  obtain ⟨file, present, _⟩ := inside
  exact (List.getElem?_eq_some_iff.mp present).1

theorem placeTrack_ok {f start index01 finish : ℕ} {track : CueTrack}
    (h : placeTrack f sectorSize track start index01 finish layout = .ok layout') :
    layout.lba + track.pregap.getD 0 + (index01 - start) + (finish - index01) ≤ kDiscMaxSectors ∧
      layout' = { layout with
        expectedNumber := layout.expectedNumber + 1
        lba := layout.lba + track.pregap.getD 0 + (index01 - start) + (finish - index01)
        tracks := layout.tracks ++
          [{ number := track.number
             type := track.type
             fileIndex := f
             sectorSize
             fileOffset := index01 * sectorSize
             pregap := track.pregap.getD 0
             index0Sectors := index01 - start
             firstLba := layout.lba + track.pregap.getD 0 + (index01 - start)
             sectorCount := finish - index01 }] } := by
  unfold placeTrack at h
  dsimp only at h
  split at h
  · cases h
  · next fits =>
      have small := Nat.not_lt.mp fits
      cases h
      refine ⟨small, ?_⟩
      rw [Nat.min_eq_left (by omega), Nat.min_eq_left (by omega)]

theorem Laid.placeTrack {start index01 finish : ℕ} {track : CueTrack} (laid : Laid layout)
    (filled : Filled sectorSize position layout) (number : track.number = layout.expectedNumber)
    (size : sectorSize = sectorSizeOf track.type) (free : position ≤ start) (pregap : start ≤ index01)
    (data : index01 < finish)
    (h : placeTrack layout.files.length sectorSize track start index01 finish layout = .ok layout') :
    Laid layout' ∧ Filled sectorSize finish layout' ∧ layout'.files = layout.files := by
  obtain ⟨fits, rfl⟩ := placeTrack_ok h
  have positive : 0 < sectorSize := size ▸ sectorSizeOf_pos track.type
  have sector : index01 * sectorSize / sectorSize = index01 := Nat.mul_div_cancel _ positive
  constructor
  · constructor
    · rw [List.map_append, laid.numbers, List.length_append, List.map_singleton, number,
        laid.expected, List.length_singleton, List.range'_concat, Nat.one_mul, Nat.add_comm 1]
    · rw [List.length_append, List.length_singleton, laid.expected]
    · exact fits
    · intro t mem
      rcases List.mem_append.mp mem with earlier | now
      · obtain ⟨track, ends⟩ := laid.tracks t earlier
        exact ⟨track, by dsimp only; omega⟩
      · rw [List.mem_singleton.mp now]
        refine ⟨⟨size, ?_, ?_, Nat.sub_pos_of_lt data⟩, le_rfl⟩
        · simp only [DiscTrack.dataSector, sector]
        · simp only [DiscTrack.dataSector, sector, Nat.sub_le]
    · rw [List.pairwise_append]
      refine ⟨laid.lbas, List.pairwise_singleton _ _, ?_⟩
      intro t earlier new now
      have ends := (laid.tracks t earlier).2
      rw [List.mem_singleton.mp now]
      dsimp only
      omega
    · rw [List.pairwise_append]
      refine ⟨laid.sectors, List.pairwise_singleton _ _, ?_⟩
      intro t earlier new now same
      rw [List.mem_singleton.mp now] at same ⊢
      rcases filled t earlier with inside | ⟨_, _, ends⟩
      · exact absurd same inside.fileIndex_lt.ne
      · simp only [DiscTrack.firstSector, DiscTrack.dataSector, sector]
        omega
  · refine ⟨?_, rfl⟩
    intro t mem
    rcases List.mem_append.mp mem with earlier | now
    · exact (filled t earlier).imp_right fun ⟨index, size, ends⟩ =>
        ⟨index, size, ends.trans (by omega)⟩
    · rw [List.mem_singleton.mp now]
      refine .inr ⟨rfl, rfl, ?_⟩
      simp only [DiscTrack.endSector, DiscTrack.dataSector, sector]
      omega

/-- A track ends after its data begins, at its file's end or where the next track starts. -/
theorem trackEnd_ok {track : CueTrack} {index01 finish : ℕ} {rest : List CueTrack}
    (data : index01 < fileSectors) (h : trackEnd track index01 fileSectors rest = .ok finish) :
    index01 < finish ∧ finish ≤ fileSectors ∧
      ∀ next ∈ rest.head?, ∀ nextIndex01 ∈ next.index01, next.start nextIndex01 = finish := by
  unfold trackEnd at h
  split at h
  · cases h
    exact ⟨data, le_rfl, by simp⟩
  · next next _ =>
      split at h
      · cases h
      · next nextIndex01 present =>
          dsimp only at h
          split at h
          · cases h
          · next after =>
              split at h
              · cases h
              · next fits =>
                  cases h
                  refine ⟨Nat.not_le.mp after, Nat.not_lt.mp fun far => fits (.inl far), ?_⟩
                  intro other head index found
                  cases head
                  rw [present] at found
                  cases found
                  rfl

theorem Ordered.start_le {track : CueTrack} (ordered : Ordered track) {index01 : ℕ}
    (data : track.index01 = some index01) : track.start index01 ≤ index01 := by
  unfold CueTrack.start
  cases pregap : track.index00 with
  | none => exact le_rfl
  | some start => exact ordered start pregap index01 data

theorem Laid.layoutTrack {first : Bool} {track : CueTrack} {rest : List CueTrack}
    (laid : Laid layout) (filled : Filled sectorSize position layout) (ordered : Ordered track)
    (size : sectorSize = sectorSizeOf track.type)
    (free : ∀ index01 ∈ track.index01, position ≤ track.start index01)
    (h : layoutTrack layout.files.length sectorSize fileSectors first track rest layout =
      .ok layout') :
    ∃ finish ≤ fileSectors, Laid layout' ∧ Filled sectorSize finish layout' ∧
      layout'.files = layout.files ∧
      ∀ next ∈ rest.head?, ∀ nextIndex01 ∈ next.index01, next.start nextIndex01 = finish := by
  unfold Disc.layoutTrack at h
  split at h
  · cases h
  · next number =>
      split at h
      · cases h
      · next index01 data =>
          dsimp only at h
          split at h
          · cases h
          · split at h
            · cases h
            · next inside =>
                split at h
                · cases h
                · next finish found =>
                    obtain ⟨after, within, follows⟩ := trackEnd_ok (Nat.not_le.mp inside) found
                    obtain ⟨laid, filled, files⟩ := laid.placeTrack filled (not_not.mp number) size
                      (free index01 data) (ordered.start_le data) after h
                    exact ⟨finish, within, laid, filled, files, follows⟩

theorem Laid.layoutTracks {tracks : List CueTrack} {first : Bool} (laid : Laid layout)
    (filled : Filled sectorSize position layout) (inside : position ≤ fileSectors)
    (ordered : ∀ track ∈ tracks, Ordered track)
    (size : ∀ track ∈ tracks, sectorSize = sectorSizeOf track.type)
    (free : ∀ track ∈ tracks.head?, ∀ index01 ∈ track.index01, position ≤ track.start index01)
    (h : layoutTracks layout.files.length sectorSize fileSectors first tracks layout = .ok layout') :
    Laid layout' ∧ Filled sectorSize fileSectors layout' ∧ layout'.files = layout.files := by
  induction tracks generalizing first layout position with
  | nil =>
      cases h
      refine ⟨laid, ?_, rfl⟩
      intro t mem
      exact (filled t mem).imp_right fun ⟨index, size, ends⟩ => ⟨index, size, ends.trans inside⟩
  | cons track rest ih =>
      rw [Disc.layoutTracks] at h
      split at h
      · cases h
      · next placed =>
          obtain ⟨finish, within, laid, filled, files, follows⟩ := laid.layoutTrack filled
            (ordered track List.mem_cons_self) (size track List.mem_cons_self)
            (free track rfl) placed
          rw [← files] at h ⊢
          exact ih laid filled within (fun other mem => ordered other (List.mem_cons_of_mem _ mem))
            (fun other mem => size other (List.mem_cons_of_mem _ mem))
            (fun next head index01 data => (follows next head index01 data).ge) h

end Placing

/-- Between two files every track is inside its file. -/
def Settled (layout : Layout) : Prop := Laid layout ∧ ∀ t ∈ layout.tracks, Inside layout.files t

theorem Inside.append {files : List DiscFile} {t : DiscTrack} (inside : Inside files t)
    (more : List DiscFile) : Inside (files ++ more) t := by
  have index := inside.fileIndex_lt
  obtain ⟨file, present, rest⟩ := inside
  exact ⟨file, by rw [List.getElem?_append_left index, present], rest⟩

theorem Settled.layoutFile {env : Environment} {layout layout' : Layout} {file : CueFile}
    (settled : Settled layout) (ordered : ∀ track ∈ file.tracks, Ordered track)
    (h : layoutFile env layout.files.length file layout = .ok layout') :
    Settled layout' ∧ layout'.files.length = layout.files.length + 1 ∧
      layout'.files.map DiscFile.name = layout.files.map DiscFile.name ++ [file.name] := by
  obtain ⟨laid, inside⟩ := settled
  unfold Disc.layoutFile at h
  dsimp only at h
  split at h
  · cases h
  · next path size _ =>
      generalize (file.tracks.head?.map fun track => sectorSizeOf track.type).getD kDiscRawBytes =
        sectorSize at h
      split at h
      · cases h
      · next uniform =>
          split at h
          · cases h
          · next whole =>
              split at h
              · cases h
              · next placed =>
                  cases h
                  simp only [not_exists, not_and, not_not] at uniform
                  have start : Filled sectorSize 0 layout := fun t mem => .inl (inside t mem)
                  obtain ⟨laid', filled, files⟩ := laid.layoutTracks start (Nat.zero_le _) ordered
                    (fun track mem => (uniform track mem).symm) (fun _ _ _ _ => Nat.zero_le _) placed
                  simp only [not_or, not_not] at whole
                  constructor
                  · refine ⟨⟨laid'.numbers, laid'.expected, laid'.small, laid'.tracks, laid'.lbas,
                      laid'.sectors⟩, ?_⟩
                    intro t mem
                    rcases filled t mem with earlier | ⟨index, same, ends⟩
                    · exact earlier.append _
                    · refine ⟨{ name := file.name, path, size }, ?_, ?_, ?_⟩
                      · rw [index]
                        exact List.getElem?_concat_length
                      · rw [same]
                        exact whole.2
                      · rw [same]
                        exact ends
                  · rw [files]
                    simp

theorem Settled.layoutFiles {env : Environment} {files : List CueFile} {layout layout' : Layout}
    (settled : Settled layout) (ordered : ∀ file ∈ files, ∀ track ∈ file.tracks, Ordered track)
    (h : layoutFiles env layout.files.length files layout = .ok layout') :
    Settled layout' ∧
      layout'.files.map DiscFile.name =
        layout.files.map DiscFile.name ++ files.map CueFile.name := by
  induction files generalizing layout with
  | nil =>
      cases h
      exact ⟨settled, by simp⟩
  | cons file rest ih =>
      rw [Disc.layoutFiles] at h
      split at h
      · cases h
      · next laid =>
          obtain ⟨settled, length, names⟩ := settled.layoutFile (ordered file List.mem_cons_self) laid
          rw [← length] at h
          obtain ⟨settled', names'⟩ := ih settled
            (fun other mem => ordered other (List.mem_cons_of_mem _ mem)) h
          refine ⟨settled', ?_⟩
          rw [names', names, List.append_assoc, List.map_cons, List.singleton_append]

theorem settled_nil : Settled {} := by
  constructor
  · constructor
    · rfl
    · rfl
    · exact Nat.zero_le _
    · simp
    · exact List.Pairwise.nil
    · exact List.Pairwise.nil
  · simp

/-! ## The loaded disc -/

/-- Hashing keeps a file and has read all of it. -/
structure Hashed (env : Environment) (file file' : DiscFile) : Prop where
  name : file'.name = file.name
  size : file'.size = file.size
  readable : ∃ bytes, env.contents file'.path = some bytes ∧ file.size ≤ bytes.length

theorem hashFile_hashed {env : Environment} {file file' : DiscFile}
    (h : hashFile env file = .ok file') : Hashed env file file' := by
  unfold hashFile at h
  split at h
  · cases h
  · next bytes found =>
      split at h
      · cases h
      · next whole read =>
          cases h
          unfold readAt at read
          split at read
          · next enough => exact ⟨rfl, rfl, bytes, found, by omega⟩
          · cases read

theorem hashFiles_hashed {env : Environment} {files files' : List DiscFile}
    (h : hashFiles env files = .ok files') : List.Forall₂ (Hashed env) files files' := by
  induction files generalizing files' with
  | nil =>
      cases h
      exact .nil
  | cons file rest ih =>
      rw [hashFiles] at h
      split at h
      · cases h
      · next first =>
          split at h
          · cases h
          · next others =>
              cases h
              exact .cons (hashFile_hashed first) (ih others)

theorem forall₂_at {α β : Type} {R : α → β → Prop} {l : List α} {l' : List β}
    (related : List.Forall₂ R l l') {i : ℕ} {a : α} (present : l[i]? = some a) :
    ∃ b, l'[i]? = some b ∧ R a b := by
  induction related generalizing i with
  | nil => cases present
  | cons head _ ih =>
      cases i with
      | zero =>
          cases present
          exact ⟨_, rfl, head⟩
      | succ i => exact ih present

section HashedFiles

variable {env : Environment} {files files' : List DiscFile}

theorem hashed_names (related : List.Forall₂ (Hashed env) files files') :
    files'.map DiscFile.name = files.map DiscFile.name := by
  induction related with
  | nil => rfl
  | cons head _ ih => rw [List.map_cons, List.map_cons, head.name, ih]

theorem hashed_readable (related : List.Forall₂ (Hashed env) files files') :
    ∀ file ∈ files', ∃ bytes, env.contents file.path = some bytes ∧ file.size ≤ bytes.length := by
  induction related with
  | nil => simp
  | cons head _ ih =>
      intro file mem
      rcases List.mem_cons.mp mem with rfl | later
      · rw [head.size]
        exact head.readable
      · exact ih file later

end HashedFiles

/-- An accepted disc: a layout of a sheet whose files have been read. -/
structure Loaded (env : Environment) (disc : DiscImage) : Prop where
  laid : ∃ layout, Laid layout ∧ disc.tracks = layout.tracks ∧ disc.totalSectors = layout.lba
  inside : ∀ t ∈ disc.tracks, Inside disc.files t
  names : (disc.files.map DiscFile.name).Nodup
  readable : ∀ file ∈ disc.files, ∃ bytes, env.contents file.path = some bytes ∧
    file.size ≤ bytes.length

theorem loadCueDisc_loaded {env : Environment} {cue : Cue} {expected : Option String}
    {disc : DiscImage} (h : loadCueDisc env cue expected = .ok disc) : Loaded env disc := by
  unfold loadCueDisc at h
  split at h
  · cases h
  · split at h
    · cases h
    · next sheet parsed =>
        split at h
        · cases h
        · next layout placed =>
            have read := parseCue_sheet parsed
            obtain ⟨⟨laid, inside⟩, names⟩ := settled_nil.layoutFiles read.ordered placed
            unfold buildDisc at h
            split at h
            · cases h
            · next files hashed =>
                have related := hashFiles_hashed hashed
                split at h
                · cases h
                · dsimp only at h
                  split at h
                  · cases h
                  · cases h
                    constructor
                    · exact ⟨layout, laid, rfl, rfl⟩
                    · intro t mem
                      obtain ⟨file, present, whole, ends⟩ := inside t mem
                      obtain ⟨file', present', same⟩ := forall₂_at related present
                      exact ⟨file', present', same.size ▸ whole, same.size ▸ ends⟩
                    · rw [hashed_names related, names]
                      exact read.distinct
                    · exact hashed_readable related

section Reads

variable {env : Environment} {disc : DiscImage} {lba : ℕ}

theorem Loaded.lbas (loaded : Loaded env disc) :
    disc.tracks.Pairwise (·.endLba ≤ ·.firstLba) := by
  obtain ⟨layout, laid, tracks, _⟩ := loaded.laid
  rw [tracks]
  exact laid.lbas

theorem Loaded.track (loaded : Loaded env disc) {t : DiscTrack} (mem : t ∈ disc.tracks) :
    Track t ∧ t.endLba ≤ disc.totalSectors := by
  obtain ⟨layout, laid, tracks, total⟩ := loaded.laid
  rw [total]
  exact laid.tracks t (tracks ▸ mem)

theorem covers_iff (t : DiscTrack) (lba : ℕ) :
    t.Covers lba ↔ t.firstLba ≤ lba ∧ lba < t.endLba := by
  unfold DiscTrack.Covers DiscTrack.endLba
  omega

theorem Loaded.unique (loaded : Loaded env disc) {t u : DiscTrack} (ht : t ∈ disc.tracks)
    (hu : u ∈ disc.tracks) (coverT : t.Covers lba) (coverU : u.Covers lba) : t = u := by
  by_contra different
  have apart : t.endLba ≤ u.firstLba ∨ u.endLba ≤ t.firstLba := by
    have pairs : disc.tracks.Pairwise fun a b => a.endLba ≤ b.firstLba ∨ b.endLba ≤ a.firstLba :=
      loaded.lbas.imp .inl
    have symmetric : Std.Symm fun a b : DiscTrack => a.endLba ≤ b.firstLba ∨ b.endLba ≤ a.firstLba :=
      ⟨fun _ _ => Or.symm⟩
    exact pairs.forall ht hu different
  rw [covers_iff] at coverT coverU
  omega

theorem Loaded.trackOf_iff (loaded : Loaded env disc) (lba : ℕ) (t : DiscTrack) :
    trackOf disc lba = some t ↔ t ∈ disc.tracks ∧ t.Covers lba := by
  constructor
  · intro found
    exact ⟨List.mem_of_find?_eq_some found, by simpa using List.find?_some found⟩
  · intro h
    obtain ⟨mem, cover⟩ := h
    cases found : trackOf disc lba with
    | none =>
        have uncovered := List.find?_eq_none.mp found t mem
        exact absurd cover (by simpa using uncovered)
    | some u =>
        have present := List.mem_of_find?_eq_some found
        have covered : u.Covers lba := by simpa using List.find?_some found
        rw [loaded.unique present mem covered cover]

/-- The user bytes of a covered data sector lie inside its file. -/
theorem userOffset_inside {t : DiscTrack} {size : ℕ} (track : Track t) (data : t.type ≠ .audio)
    (cover : t.Covers lba) (inside : t.endSector ≤ size / t.sectorSize) :
    userOffset t lba + kDiscUserBytes ≤ size := by
  have sector : (if t.type = .mode1_2352 then 16 else 0) + kDiscUserBytes ≤ t.sectorSize := by
    rw [track.size]
    cases type : t.type with
    | mode1_2048 => decide
    | mode1_2352 => decide
    | audio => exact absurd type data
  have ends : (t.dataSector + (lba - t.firstLba) + 1) * t.sectorSize ≤ size := by
    have covered := cover.2
    unfold DiscTrack.endSector at inside
    calc
      (t.dataSector + (lba - t.firstLba) + 1) * t.sectorSize ≤ size / t.sectorSize * t.sectorSize :=
        Nat.mul_le_mul_right _ (by omega)
      _ ≤ size := Nat.div_mul_le_self size t.sectorSize
  rw [Nat.add_mul, Nat.add_mul, Nat.one_mul] at ends
  unfold userOffset
  rw [track.offset]
  omega

/-- A data sector reads back the user bytes its file holds there. -/
theorem Loaded.readUserData (loaded : Loaded env disc) {t : DiscTrack} (mem : t ∈ disc.tracks)
    (data : t.type ≠ .audio) (cover : t.Covers lba) :
    ∃ file bytes, disc.files[t.fileIndex]? = some file ∧ env.contents file.path = some bytes ∧
      userOffset t lba + kDiscUserBytes ≤ bytes.length ∧
      readUserData env disc lba = .ok ((bytes.drop (userOffset t lba)).take kDiscUserBytes) := by
  obtain ⟨file, present, _, ends⟩ := loaded.inside t mem
  obtain ⟨bytes, contents, enough⟩ := loaded.readable file (List.mem_of_getElem? present)
  have inside := (userOffset_inside (loaded.track mem).1 data cover ends).trans enough
  refine ⟨file, bytes, present, contents, inside, ?_⟩
  rw [Disc.readUserData, (loaded.trackOf_iff lba t).mpr ⟨mem, cover⟩]
  dsimp only
  rw [if_neg data, present, Option.bind_some, contents]
  dsimp only
  rw [readAt, if_pos inside]

theorem readUserData_data {bytes : List Byte} (read : readUserData env disc lba = .ok bytes) :
    ∃ t, trackOf disc lba = some t ∧ t.type ≠ .audio := by
  unfold readUserData at read
  split at read
  · cases read
  · next t found =>
      split at read
      · cases read
      · next data => exact ⟨t, found, data⟩

end Reads

/-- The layout of every accepted disc, and the sectors that can be read from it. -/
theorem disc_layout {env : Environment} {cue : Cue} {expected : Option String} {disc : DiscImage}
    (accepted : loadCueDisc env cue expected = .ok disc) :
    disc.tracks.map DiscTrack.number = List.range' 1 disc.tracks.length ∧
      (∀ t ∈ disc.tracks, 0 < t.sectorCount ∧ t.endLba ≤ disc.totalSectors) ∧
      disc.tracks.Pairwise (·.endLba ≤ ·.firstLba) ∧
      (disc.tracks.Pairwise fun a b => a.fileIndex = b.fileIndex → a.endSector ≤ b.firstSector) ∧
      (disc.files.map DiscFile.name).Nodup ∧
      (∀ t ∈ disc.tracks, t.fileOffset = (t.firstSector + t.index0Sectors) * t.sectorSize ∧
        Inside disc.files t) ∧
      (∀ lba t, trackOf disc lba = some t ↔
        t ∈ disc.tracks ∧ t.firstLba ≤ lba ∧ lba < t.endLba) ∧
      (∀ lba, (∃ data, readUserData env disc lba = .ok data) ↔
        ∃ t, trackOf disc lba = some t ∧ t.type ≠ .audio) ∧
      ∀ lba t, trackOf disc lba = some t → t.type ≠ .audio →
        ∃ file bytes, disc.files[t.fileIndex]? = some file ∧
          env.contents file.path = some bytes ∧
          userOffset t lba + kDiscUserBytes ≤ bytes.length ∧
          readUserData env disc lba =
            .ok ((bytes.drop (userOffset t lba)).take kDiscUserBytes) := by
  have loaded := loadCueDisc_loaded accepted
  have reads : ∀ lba t, trackOf disc lba = some t → t.type ≠ .audio →
      ∃ file bytes, disc.files[t.fileIndex]? = some file ∧ env.contents file.path = some bytes ∧
        userOffset t lba + kDiscUserBytes ≤ bytes.length ∧
        readUserData env disc lba = .ok ((bytes.drop (userOffset t lba)).take kDiscUserBytes) := by
    intro lba t found data
    obtain ⟨mem, cover⟩ := (loaded.trackOf_iff lba t).mp found
    exact loaded.readUserData mem data cover
  obtain ⟨layout, laid, tracks, total⟩ := loaded.laid
  constructor
  · rw [tracks]
    exact laid.numbers
  constructor
  · intro t mem
    obtain ⟨track, ends⟩ := loaded.track mem
    exact ⟨track.nonempty, ends⟩
  constructor
  · exact loaded.lbas
  constructor
  · rw [tracks]
    exact laid.sectors
  constructor
  · exact loaded.names
  constructor
  · intro t mem
    obtain ⟨track, _⟩ := loaded.track mem
    refine ⟨?_, loaded.inside t mem⟩
    rw [DiscTrack.firstSector, Nat.sub_add_cancel track.pregap]
    exact track.offset
  constructor
  · intro lba t
    rw [loaded.trackOf_iff, covers_iff]
  constructor
  · intro lba
    constructor
    · intro h
      obtain ⟨data, read⟩ := h
      exact readUserData_data read
    · intro h
      obtain ⟨t, found, data⟩ := h
      obtain ⟨_, bytes, _, _, _, read⟩ := reads lba t found data
      exact ⟨_, read⟩
  · exact reads

def zeros (count : ℕ) : List Byte := List.replicate count 0

theorem readAt_zeros {length offset count : ℕ} (h : offset + count ≤ length) :
    readAt (zeros length) offset count = some (zeros count) := by
  simp only [readAt, zeros, List.length_replicate, if_pos h, List.drop_replicate,
    List.take_replicate]
  rw [Nat.min_eq_left (by omega)]

theorem checkSector_zeros {track : DiscTrack} (type : track.type = .mode1_2048) (s : ℕ)
    {count : ℕ} (h : 12 ≤ count) : checkSector track s (zeros count) = .ok () := by
  have unsynced : (zeros count).take 12 ≠ kSync := by
    rw [zeros, List.take_replicate, Nat.min_eq_left h]
    decide
  simp [checkSector, type, unsynced]

/-- One file of three sectors: a data track of one, then one with a pregap in the file. -/
def twoTracks : Environment where
  isSymlink _ := false
  isRegular _ := true
  canonical name := some name
  fileSize _ := some 6144
  contents _ := some (zeros 6144)
  sha256 _ := ""
  sha256Text _ := ""

def twoTracksText : List Char :=
  [["FILE", "\"a.bin\"", "BINARY"], ["TRACK", "01", "MODE1/2048"], ["INDEX", "01", "00:00:00"],
    ["TRACK", "02", "MODE1/2048"], ["INDEX", "00", "00:00:01"], ["INDEX", "01", "00:00:02"]].flatMap
      fun line => [' '].intercalate (line.map String.toList) ++ ['\n']

def twoTracksCue : Cue where
  regular := true
  symlink := false
  size := some 150
  text := some twoTracksText
  directory := true

def firstTrack : DiscTrack where
  number := 1
  type := .mode1_2048
  fileIndex := 0
  sectorSize := 2048
  fileOffset := 0
  pregap := 0
  index0Sectors := 0
  firstLba := 0
  sectorCount := 1

def secondTrack : DiscTrack :=
  { firstTrack with number := 2, fileOffset := 4096, index0Sectors := 1, firstLba := 2 }

def twoTracksSheet : List CueFile :=
  [{
    name := "a.bin".toList
    tracks := [
      { number := 1, type := .mode1_2048, index01 := some 0, line := 2 },
      { number := 2, type := .mode1_2048, index00 := some 1, index01 := some 2, line := 4 }] }]

def twoTracksFile : DiscFile where
  name := "a.bin".toList
  path := "a.bin".toList
  size := 6144

def twoTracksLayout : Layout where
  expectedNumber := 3
  lba := 3
  tracks := [firstTrack, secondTrack]
  files := [twoTracksFile]

theorem twoTracks_parsed : parseCue twoTracksText = .ok twoTracksSheet := by
  decide +kernel

theorem twoTracks_laid : layoutFiles twoTracks 0 twoTracksSheet {} = .ok twoTracksLayout := by
  rfl

theorem twoTracks_hashed : hashFiles twoTracks [twoTracksFile] = .ok [twoTracksFile] := by
  have whole : readAt (zeros 6144) 0 twoTracksFile.size = some (zeros 6144) :=
    readAt_zeros (by decide)
  simp only [hashFiles, hashFile, twoTracks, whole]
  rfl

theorem twoTracks_checked :
    checkTracks twoTracks [twoTracksFile] [firstTrack, secondTrack] = .ok () := by
  have first : readAt (zeros 6144) 0 2048 = some (zeros 2048) := readAt_zeros (by decide)
  have second : readAt (zeros 6144) 4096 2048 = some (zeros 2048) := readAt_zeros (by decide)
  have check : ∀ t : DiscTrack, t.type = .mode1_2048 → checkSector t 0 (zeros 2048) = .ok () :=
    fun t type => checkSector_zeros type 0 (by decide)
  simp [checkTracks, checkTrack, checkSectors, twoTracks, firstTrack, secondTrack, first, second,
    check]

def twoTracksDisc : DiscImage where
  files := [twoTracksFile]
  tracks := [firstTrack, secondTrack]
  totalSectors := 3
  table := normalizedTable [twoTracksFile] [firstTrack, secondTrack] 3

theorem twoTracks_loads : loadCueDisc twoTracks twoTracksCue none = .ok twoTracksDisc := by
  have read : readCue twoTracksCue = .ok twoTracksText := by rfl
  rw [loadCueDisc, read]
  dsimp only
  rw [twoTracks_parsed]
  dsimp only
  rw [twoTracks_laid]
  dsimp only
  rw [buildDisc, twoTracksLayout]
  dsimp only
  rw [twoTracks_hashed]
  dsimp only
  rw [twoTracks_checked]
  simp [twoTracks, twoTracksDisc]

theorem disc_layout_two_tracks :
    twoTracksDisc.tracks.Pairwise (·.endLba ≤ ·.firstLba) ∧
      (∀ t ∈ twoTracksDisc.tracks, Inside twoTracksDisc.files t) ∧
      ∃ data, readUserData twoTracks twoTracksDisc 2 = .ok data := by
  obtain ⟨_, _, lbas, _, _, inside, _, reads, _⟩ := disc_layout twoTracks_loads
  constructor
  · exact lbas
  constructor
  · exact fun t mem => (inside t mem).2
  · exact (reads 2).mpr ⟨secondTrack, rfl, by decide⟩

end Segarecomp.Media.Disc

import Segarecomp.Media.DiscLayout

/-! Where track 1 of an accepted disc starts, and which sheets start it at LBA 0. -/

namespace Segarecomp.Media.Disc

/-- The keyword and the arguments of a line. -/
def directive (number : ℕ) (line : List Char) : List Char × List (List Char) :=
  match tokenize (cleanLine number line) with
  | some (first :: arguments) => (first.map Char.toUpper, arguments)
  | _ => ([], [])

/-- The times of the PREGAP directives before the second TRACK directive. -/
def firstPregaps : ℕ → Bool → List (List Char) → List ℕ
  | _, _, [] => []
  | number, started, line :: rest =>
    if (directive number line).1 = "TRACK".toList then
      if started then [] else firstPregaps (number + 1) true rest
    else if (directive number line).1 = "PREGAP".toList then
      ((directive number line).2.head?.bind parseTime).toList ++ firstPregaps (number + 1) started rest
    else firstPregaps (number + 1) started rest

/-- Track 1 starts the disc: LBA 0 is its first sector, so a volume descriptor in a data track, at
block 16, is read at LBA 16. -/
def StartsDisc (env : Environment) (disc : DiscImage) : Prop :=
  ∃ track, disc.tracks.head? = some track ∧ track.number = 1 ∧ track.firstLba = 0 ∧
    (track.type ≠ .audio → 16 < track.sectorCount →
      ∃ file bytes, disc.files[track.fileIndex]? = some file ∧ env.contents file.path = some bytes ∧
        readUserData env disc 16 =
          .ok ((bytes.drop (16 * track.sectorSize + if track.type = .mode1_2352 then 16 else 0)).take
            kDiscUserBytes))

/-! ## The tracks of a sheet -/

def allTracks (files : List CueFile) : List CueTrack := files.flatMap CueFile.tracks

/-- No pregap of its own delays the track. -/
def CueTrack.Prompt (track : CueTrack) : Prop := track.pregap.getD 0 = 0

/-- An in-file pregap is refused on track 1. -/
def Addressable (track : CueTrack) : Prop := track.number = 1 → track.index00 = none

/-- What a directive does to the tracks read so far. -/
inductive Edits (number : ℕ) (line : List Char) : List CueTrack → List CueTrack → Prop
  | keep {tracks : List CueTrack} (track : (directive number line).1 ≠ "TRACK".toList)
      (pregap : (directive number line).1 ≠ "PREGAP".toList) : Edits number line tracks tracks
  | add {tracks : List CueTrack} {new : CueTrack} (track : (directive number line).1 = "TRACK".toList)
      (fresh : new.pregap = none) (plain : new.index00 = none) :
      Edits number line tracks (tracks ++ [new])
  | index {tracks : List CueTrack} {old new : CueTrack}
      (track : (directive number line).1 ≠ "TRACK".toList)
      (pregap : (directive number line).1 ≠ "PREGAP".toList) (same : new.pregap = old.pregap)
      (numbered : new.number = old.number) (plain : Addressable old → Addressable new) :
      Edits number line (tracks ++ [old]) (tracks ++ [new])
  | pregap {tracks : List CueTrack} {old : CueTrack} {time : ℕ}
      (pregap : (directive number line).1 = "PREGAP".toList)
      (unset : old.pregap = none)
      (read : (directive number line).2.head?.bind parseTime = some time) :
      Edits number line (tracks ++ [old]) (tracks ++ [{ old with pregap := some time }])

section Directives

variable {files files' : List CueFile} {place : String} {arguments : List (List Char)} {number : ℕ}
  {line : List Char}

theorem allTracks_setTracks {file : CueFile} (tracks : List CueTrack) :
    allTracks (setTracks files file tracks) = allTracks files.dropLast ++ tracks := by
  simp [allTracks, setTracks]

theorem allTracks_last {file : CueFile} (last : files.getLast? = some file) :
    allTracks files = allTracks files.dropLast ++ file.tracks := by
  conv_lhs => rw [← dropLast_last last]
  simp [allTracks]

theorem allTracks_lastTrack {file : CueFile} {track : CueTrack}
    (last : lastTrack files = some (file, track)) :
    allTracks files = (allTracks files.dropLast ++ file.tracks.dropLast) ++ [track] := by
  have present := (lastTrack_mem last).1
  have final : file.tracks.getLast? = some track := by
    rw [lastTrack, present] at last
    simpa using last
  rw [allTracks_last present, List.append_assoc, List.dropLast_append_getLast? track final]

theorem allTracks_setLast {file : CueFile} {track : CueTrack} :
    allTracks (setTracks files file (file.tracks.dropLast ++ [track])) =
      (allTracks files.dropLast ++ file.tracks.dropLast) ++ [track] := by
  rw [allTracks_setTracks, List.append_assoc]

theorem cueFile_tracks (h : cueFile files place arguments = .ok files') :
    allTracks files' = allTracks files := by
  unfold cueFile at h
  split at h
  · split at h
    · cases h
    · split at h
      · cases h
      · split at h
        · cases h
        · split at h
          · cases h
          · cases h
            simp [allTracks]
  · cases h

theorem cueTrack_tracks (h : cueTrack files number place arguments = .ok files') :
    ∃ new, allTracks files' = allTracks files ++ [new] ∧ new.pregap = none ∧ new.index00 = none := by
  unfold cueTrack at h
  split at h
  · split at h
    · cases h
    · next file last =>
        split at h
        · cases h
        · next _ found _ =>
            split at h
            · cases h
            · next _ type _ =>
                cases h
                refine ⟨{ number := found, type, line := number }, ?_, rfl, rfl⟩
                rw [allTracks_setTracks, allTracks_last last, List.append_assoc]
  · cases h

theorem setIndex_keeps {track track' : CueTrack} {index time : ℕ}
    (h : setIndex track index time place = .ok track') :
    track'.pregap = track.pregap ∧ track'.number = track.number ∧
      (Addressable track → Addressable track') := by
  unfold setIndex at h
  split at h
  · split at h
    · cases h
    · split at h
      · cases h
      · split at h
        · cases h
        · next other =>
            cases h
            exact ⟨rfl, rfl, fun _ first => absurd first other⟩
  · split at h
    · cases h
    · split at h
      · cases h
      · cases h
        exact ⟨rfl, rfl, id⟩

theorem cueIndex_tracks (h : cueIndex files place arguments = .ok files') :
    ∃ tracks old new, allTracks files = tracks ++ [old] ∧ allTracks files' = tracks ++ [new] ∧
      new.pregap = old.pregap ∧ new.number = old.number ∧ (Addressable old → Addressable new) := by
  unfold cueIndex at h
  split at h
  · split at h
    · cases h
    · next file track last =>
        split at h
        · split at h
          · cases h
          · split at h
            · cases h
            · next new set =>
                cases h
                have kept := setIndex_keeps set
                exact ⟨_, track, new, allTracks_lastTrack last, allTracks_setLast, kept⟩
        · cases h
  · cases h

theorem cuePregap_tracks (h : cuePregap files place arguments = .ok files') :
    ∃ tracks old time, allTracks files = tracks ++ [old] ∧
      allTracks files' = tracks ++ [{ old with pregap := some time }] ∧ old.pregap = none ∧
      arguments.head?.bind parseTime = some time := by
  unfold cuePregap at h
  split at h
  · split at h
    · cases h
    · next file track last =>
        split at h
        · cases h
        · next time read =>
            split at h
            · cases h
            · next unset =>
                split at h
                · cases h
                · cases h
                  have fresh : track.pregap = none := by
                    simp only [not_or, Option.not_isSome_iff_eq_none] at unset
                    exact unset.2
                  exact ⟨_, track, time, allTracks_lastTrack last, allTracks_setLast, fresh, read⟩
  · cases h

theorem cueDirective_edits (h : cueDirective files number (cleanLine number line) = .ok files') :
    Edits number line (allTracks files) (allTracks files') := by
  have other : ∀ keyword ∈ ignoredKeywords, keyword ≠ "TRACK".toList ∧ keyword ≠ "PREGAP".toList := by
    decide
  have blankLine : ([] : List Char) ≠ "TRACK".toList ∧ ([] : List Char) ≠ "PREGAP".toList := by
    decide
  have fileWord : "FILE".toList ≠ "TRACK".toList ∧ "FILE".toList ≠ "PREGAP".toList := by decide
  have indexWord : "INDEX".toList ≠ "TRACK".toList ∧ "INDEX".toList ≠ "PREGAP".toList := by decide
  unfold cueDirective at h
  dsimp only at h
  split at h
  · cases h
  · next empty =>
      cases h
      have none : directive number line = ([], []) := by rw [directive, empty]
      exact .keep (by rw [none]; exact blankLine.1) (by rw [none]; exact blankLine.2)
  · next first arguments read =>
      have word : directive number line = (first.map Char.toUpper, arguments) := by
        rw [directive, read]
      split at h
      · next ignored =>
          cases h
          exact .keep (by rw [word]; exact (other _ ignored).1) (by rw [word]; exact (other _ ignored).2)
      · split at h
        · next isFile =>
            rw [cueFile_tracks h]
            refine .keep ?_ ?_
            · rw [word, isFile]
              exact fileWord.1
            · rw [word, isFile]
              exact fileWord.2
        · split at h
          · next isTrack =>
              obtain ⟨new, same, fresh, plain⟩ := cueTrack_tracks h
              rw [same]
              exact .add (by rw [word, isTrack]) fresh plain
          · split at h
            · next isIndex =>
                obtain ⟨tracks, old, new, before, after, same, numbered, plain⟩ := cueIndex_tracks h
                rw [before, after]
                refine .index ?_ ?_ same numbered plain
                · rw [word, isIndex]
                  exact indexWord.1
                · rw [word, isIndex]
                  exact indexWord.2
            · split at h
              · next isPregap =>
                  obtain ⟨tracks, old, time, before, after, unset, read⟩ := cuePregap_tracks h
                  rw [before, after]
                  exact .pregap (by rw [word, isPregap]) unset (by rw [word]; exact read)
              · cases h

end Directives

section Parsing

variable {files files' : List CueFile} {rest : List (List Char)} {number : ℕ} {line : List Char}
  {tracks tracks' : List CueTrack} {t u : CueTrack} {more : List CueTrack}

theorem Edits.addressable (edits : Edits number line tracks tracks')
    (before : ∀ track ∈ tracks, Addressable track) : ∀ track ∈ tracks', Addressable track := by
  cases edits with
  | keep => exact before
  | add _ _ plain =>
      intro track mem
      rcases List.mem_append.mp mem with earlier | now
      · exact before track earlier
      · rw [List.mem_singleton.mp now]
        exact fun _ => plain
  | @index tracks old new _ _ _ _ plain =>
      intro track mem
      rcases List.mem_append.mp mem with earlier | now
      · exact before track (List.mem_append_left _ earlier)
      · rw [List.mem_singleton.mp now]
        exact plain (before old (List.mem_append_right _ (List.mem_singleton_self old)))
  | @pregap tracks old time =>
      intro track mem
      rcases List.mem_append.mp mem with earlier | now
      · exact before track (List.mem_append_left _ earlier)
      · rw [List.mem_singleton.mp now]
        exact before old (List.mem_append_right _ (List.mem_singleton_self old))

theorem Edits.second (edits : Edits number line (t :: u :: more) tracks') :
    ∃ v more', tracks' = t :: v :: more' := by
  generalize before : t :: u :: more = tracks at edits
  have split : ∀ init old, t :: u :: more = init ++ [old] → ∃ v tail, init ++ [old] = t :: v :: tail ∧
      init ≠ [] := by
    intro init old same
    refine ⟨u, more, same.symm, ?_⟩
    intro empty
    simp [empty] at same
  have replaced : ∀ (init : List CueTrack) (old new : CueTrack), t :: u :: more = init ++ [old] →
      ∃ v more', init ++ [new] = t :: v :: more' := by
    intro init old new same
    obtain ⟨v, tail, found, nonempty⟩ := split init old same
    cases init with
    | nil => exact absurd rfl nonempty
    | cons first init =>
        rw [List.cons_append, List.cons.injEq] at found
        rw [found.1, List.cons_append]
        cases init with
        | nil => exact ⟨new, [], rfl⟩
        | cons v' init => exact ⟨v', init ++ [new], rfl⟩
  cases edits with
  | keep => exact ⟨u, more, before.symm⟩
  | @add _ new =>
      rw [← before]
      exact ⟨u, more ++ [new], rfl⟩
  | @index init old new => exact replaced init old new before
  | @pregap init old time => exact replaced init old _ before

theorem parseCueFrom_cons (h : parseCueFrom number (line :: rest) files = .ok files') :
    ∃ between, Edits number line (allTracks files) (allTracks between) ∧
      parseCueFrom (number + 1) rest between = .ok files' := by
  rw [parseCueFrom] at h
  split at h
  · cases h
  · next between read => exact ⟨between, cueDirective_edits read, h⟩

theorem parseCueFrom_addressable (h : parseCueFrom number rest files = .ok files')
    (before : ∀ track ∈ allTracks files, Addressable track) :
    ∀ track ∈ allTracks files', Addressable track := by
  induction rest generalizing number files with
  | nil =>
      cases h
      exact before
  | cons line rest ih =>
      obtain ⟨between, edits, h⟩ := parseCueFrom_cons h
      exact ih h (edits.addressable before)

theorem parseCueFrom_second (h : parseCueFrom number rest files = .ok files')
    (read : allTracks files = t :: u :: more) : (allTracks files').head? = some t := by
  induction rest generalizing number files u more with
  | nil =>
      cases h
      rw [read, List.head?_cons]
  | cons line rest ih =>
      obtain ⟨between, edits, h⟩ := parseCueFrom_cons h
      rw [read] at edits
      obtain ⟨v, more', same⟩ := edits.second
      exact ih h same

theorem prompt_none (fresh : t.pregap = none) : t.Prompt := by
  rw [CueTrack.Prompt, fresh, Option.getD_none]

theorem singleton_append {init : List CueTrack} {old : CueTrack} (h : [t] = init ++ [old]) :
    init = [] ∧ old = t := by
  cases init with
  | nil =>
      rw [List.nil_append, List.singleton_inj] at h
      exact ⟨rfl, h.symm⟩
  | cons first init => simp at h

theorem parseCueFrom_started (h : parseCueFrom number rest files = .ok files')
    (read : allTracks files = [t]) :
    ∃ t', (allTracks files').head? = some t' ∧
      (t'.Prompt ↔ t.Prompt ∧ ∀ time ∈ firstPregaps number true rest, time = 0) := by
  induction rest generalizing number files t with
  | nil =>
      cases h
      refine ⟨t, by rw [read, List.head?_cons], ?_⟩
      simp [firstPregaps]
  | cons line rest ih =>
      obtain ⟨between, edits, h⟩ := parseCueFrom_cons h
      generalize after : allTracks between = tracks' at edits
      rw [read] at edits
      generalize before : [t] = tracks at edits
      cases edits with
      | keep track pregap =>
          rw [firstPregaps, if_neg track, if_neg pregap]
          exact ih h (after.trans before.symm)
      | @add _ new track =>
          rw [← before] at after
          refine ⟨t, parseCueFrom_second h after, ?_⟩
          rw [firstPregaps, if_pos track, if_pos rfl]
          simp
      | @index init old new track pregap same =>
          obtain ⟨rfl, rfl⟩ := singleton_append before
          obtain ⟨t', head, iff⟩ := ih h after
          refine ⟨t', head, ?_⟩
          rw [iff, firstPregaps, if_neg track, if_neg pregap, CueTrack.Prompt, CueTrack.Prompt, same]
      | @pregap init old time pregap unset found =>
          obtain ⟨rfl, rfl⟩ := singleton_append before
          obtain ⟨t', head, iff⟩ := ih h after
          refine ⟨t', head, ?_⟩
          have other : (directive number line).1 ≠ "TRACK".toList := by
            rw [pregap]
            decide
          rw [iff, firstPregaps, if_neg other, if_pos pregap, found]
          simp [CueTrack.Prompt, unset]

theorem parseCueFrom_first (h : parseCueFrom number rest files = .ok files')
    (read : allTracks files = []) :
    ∀ t' ∈ (allTracks files').head?,
      (t'.Prompt ↔ ∀ time ∈ firstPregaps number false rest, time = 0) := by
  induction rest generalizing number files with
  | nil =>
      cases h
      rw [read]
      simp
  | cons line rest ih =>
      obtain ⟨between, edits, h⟩ := parseCueFrom_cons h
      generalize after : allTracks between = tracks' at edits
      rw [read] at edits
      generalize before : ([] : List CueTrack) = tracks at edits
      cases edits with
      | keep track pregap =>
          rw [firstPregaps, if_neg track, if_neg pregap]
          exact ih h (after.trans before.symm)
      | @add _ new track fresh =>
          rw [← before] at after
          obtain ⟨t', head, iff⟩ := parseCueFrom_started h after
          rw [firstPregaps, if_pos track, if_neg Bool.false_ne_true, head]
          intro other same
          rw [← Option.some.inj same, iff]
          exact and_iff_right (prompt_none fresh)
      | index => simp at before
      | pregap => simp at before

/-- The pregap of track 1 is what its PREGAP directives say. -/
theorem parseCue_first {text : List Char} (h : parseCue text = .ok files) :
    ∃ track, (allTracks files).head? = some track ∧ Addressable track ∧
      (track.Prompt ↔ ∀ time ∈ firstPregaps 1 false (Lib.Lines.lines text), time = 0) := by
  unfold parseCue at h
  split at h
  · cases h
  · next read =>
      split at h
      · cases h
      · next nonempty =>
          cases h
          have some : allTracks files ≠ [] := by
            intro none
            apply nonempty
            cases last : files.getLast? with
            | none => rfl
            | some file =>
                rw [allTracks_last last, List.append_eq_nil_iff] at none
                exact none.2
          obtain ⟨track, tail, same⟩ := List.exists_cons_of_ne_nil some
          have head : (allTracks files).head? = Option.some track := by rw [same, List.head?_cons]
          refine ⟨track, head, ?_, ?_⟩
          · exact parseCueFrom_addressable read (by simp [allTracks]) track (List.mem_of_mem_head? head)
          · exact parseCueFrom_first read rfl track head

end Parsing

/-! ## The first track placed -/

/-- Track 1 of the sheet on the disc. -/
structure Placed (track : CueTrack) (out : DiscTrack) : Prop where
  first : track.number = 1
  number : out.number = 1
  place : ∃ index01 ∈ track.index01, track.start index01 = 0 ∧
    out.firstLba = track.pregap.getD 0 + index01 ∧ out.fileOffset = index01 * out.sectorSize

/-- Nothing is on the disc yet. -/
structure Layout.Blank (layout : Layout) : Prop where
  tracks : layout.tracks = []
  lba : layout.lba = 0
  expected : layout.expectedNumber = 1

section Placement

variable {f sectorSize fileSectors : ℕ} {first : Bool} {track : CueTrack} {rest : List CueTrack}
  {layout layout' : Layout} {env : Environment} {file : CueFile} {files : List CueFile}

theorem layoutTrack_ok (h : layoutTrack f sectorSize fileSectors first track rest layout = .ok layout') :
    ∃ index01 finish, track.number = layout.expectedNumber ∧ track.index01 = some index01 ∧
      (first = true → track.start index01 = 0) ∧
      placeTrack f sectorSize track (track.start index01) index01 finish layout = .ok layout' := by
  unfold layoutTrack at h
  split at h
  · cases h
  · next number =>
      split at h
      · cases h
      · next index01 data =>
          dsimp only at h
          split at h
          · cases h
          · next start =>
              split at h
              · cases h
              · split at h
                · cases h
                · next finish _ =>
                    refine ⟨index01, finish, not_not.mp number, data, ?_, h⟩
                    intro isFirst
                    by_contra later
                    exact start ⟨isFirst, later⟩

theorem layoutTrack_grows (h : layoutTrack f sectorSize fileSectors first track rest layout = .ok layout') :
    layout.tracks <+: layout'.tracks := by
  obtain ⟨index01, finish, -, -, -, placed⟩ := layoutTrack_ok h
  rw [(placeTrack_ok placed).2]
  exact List.prefix_append _ _

theorem layoutTracks_grows {tracks : List CueTrack}
    (h : layoutTracks f sectorSize fileSectors first tracks layout = .ok layout') :
    layout.tracks <+: layout'.tracks := by
  induction tracks generalizing first layout with
  | nil =>
      cases h
      exact List.prefix_refl _
  | cons track rest ih =>
      rw [layoutTracks] at h
      split at h
      · cases h
      · next placed => exact (layoutTrack_grows placed).trans (ih h)

/-- The first track of the first file that has one. -/
theorem layoutTracks_first {tracks : List CueTrack} (blank : layout.Blank)
    (h : layoutTracks f sectorSize fileSectors true tracks layout = .ok layout') :
    (tracks = [] ∧ layout' = layout) ∨
      ∃ track out more, tracks.head? = some track ∧ layout'.tracks = out :: more ∧ Placed track out := by
  cases tracks with
  | nil =>
      cases h
      exact .inl ⟨rfl, rfl⟩
  | cons track rest =>
      rw [layoutTracks] at h
      split at h
      · cases h
      · next between placed =>
          obtain ⟨index01, finish, number, data, start, placed⟩ := layoutTrack_ok placed
          obtain ⟨-, after⟩ := placeTrack_ok placed
          obtain ⟨more, grown⟩ := layoutTracks_grows h
          rw [after, blank.tracks, List.nil_append, List.singleton_append] at grown
          refine .inr ⟨track, _, more, rfl, grown.symm, ?_⟩
          rw [blank.expected] at number
          refine ⟨number, number, index01, data, start rfl, ?_, rfl⟩
          dsimp only
          rw [blank.lba, start rfl]
          omega

theorem layoutFile_ok (h : layoutFile env f file layout = .ok layout') :
    ∃ sectorSize fileSectors between, layoutTracks f sectorSize fileSectors true file.tracks layout = .ok between ∧
      layout'.tracks = between.tracks ∧ layout'.lba = between.lba ∧
      layout'.expectedNumber = between.expectedNumber := by
  unfold layoutFile at h
  dsimp only at h
  split at h
  · cases h
  · split at h
    · cases h
    · split at h
      · cases h
      · split at h
        · cases h
        · next between placed =>
            cases h
            exact ⟨_, _, between, placed, rfl, rfl, rfl⟩

theorem layoutFiles_grows (h : layoutFiles env f files layout = .ok layout') :
    layout.tracks <+: layout'.tracks := by
  induction files generalizing f layout with
  | nil =>
      cases h
      exact List.prefix_refl _
  | cons file rest ih =>
      rw [layoutFiles] at h
      split at h
      · cases h
      · next laid =>
          obtain ⟨_, _, between, placed, same, -, -⟩ := layoutFile_ok laid
          have grown := layoutTracks_grows placed
          rw [← same] at grown
          exact grown.trans (ih h)

theorem layoutFiles_first (blank : layout.Blank) (h : layoutFiles env f files layout = .ok layout')
    (head : (allTracks files).head? = some track) :
    ∃ out more, layout'.tracks = out :: more ∧ Placed track out := by
  induction files generalizing f layout with
  | nil => simp [allTracks] at head
  | cons file rest ih =>
      rw [layoutFiles] at h
      split at h
      · cases h
      · next after laid =>
          obtain ⟨_, _, between, placed, tracks, lba, expected⟩ := layoutFile_ok laid
          have split : allTracks (file :: rest) = file.tracks ++ allTracks rest := by simp [allTracks]
          rw [split] at head
          rcases layoutTracks_first blank placed with ⟨none, same⟩ | ⟨track', out, more, first, found, place⟩
          · rw [none, List.nil_append] at head
            subst same
            have still : after.Blank :=
              ⟨tracks.trans blank.tracks, lba.trans blank.lba, expected.trans blank.expected⟩
            exact ih still h head
          · have same : track' = track := by
              rw [List.head?_append, first, Option.some_or] at head
              exact Option.some.inj head
            obtain ⟨later, grown⟩ := layoutFiles_grows h
            rw [tracks, found, List.cons_append] at grown
            exact ⟨out, more ++ later, grown.symm, same ▸ place⟩

end Placement

/-! ## Main result -/

theorem loadCueDisc_layout {env : Environment} {cue : Cue} {expected : Option String} {disc : DiscImage}
    (h : loadCueDisc env cue expected = .ok disc) :
    ∃ text files layout, readCue cue = .ok text ∧ parseCue text = .ok files ∧
      layoutFiles env 0 files {} = .ok layout ∧ disc.tracks = layout.tracks := by
  unfold loadCueDisc at h
  split at h
  · cases h
  · next text read =>
      split at h
      · cases h
      · next files parsed =>
          split at h
          · cases h
          · next layout placed =>
              refine ⟨text, files, layout, read, parsed, placed, ?_⟩
              unfold buildDisc at h
              split at h
              · cases h
              · split at h
                · cases h
                · dsimp only at h
                  split at h
                  · cases h
                  · cases h
                    rfl

/-- Where track 1 of an accepted disc lies: its own pregap moves it, and nothing else does. -/
theorem loadCueDisc_first {env : Environment} {cue : Cue} {expected : Option String} {disc : DiscImage}
    {text : List Char} (h : loadCueDisc env cue expected = .ok disc) (read : readCue cue = .ok text) :
    ∃ out, disc.tracks.head? = some out ∧ out.number = 1 ∧ out.fileOffset = 0 ∧
      (out.firstLba = 0 ↔ ∀ time ∈ firstPregaps 1 false (Lib.Lines.lines text), time = 0) := by
  obtain ⟨text', files, layout, read', parsed, placed, tracks⟩ := loadCueDisc_layout h
  cases read'.symm.trans read
  obtain ⟨track, head, plain, prompt⟩ := parseCue_first parsed
  obtain ⟨out, more, first, place⟩ := layoutFiles_first ⟨rfl, rfl, rfl⟩ placed head
  obtain ⟨index01, data, start, lba, offset⟩ := place.place
  have zero : index01 = 0 := by
    rw [CueTrack.start, plain place.first, Option.getD_none] at start
    exact start
  refine ⟨out, by rw [tracks, first, List.head?_cons], place.number, ?_, ?_⟩
  · rw [offset, zero, Nat.zero_mul]
  · rw [← prompt, lba, zero, Nat.add_zero]
    rfl

/-- An accepted sheet starts the disc with track 1 exactly when no PREGAP of track 1 has a length. -/
theorem starts_disc_iff {env : Environment} {cue : Cue} {expected : Option String} {disc : DiscImage}
    {text : List Char} (accepted : loadCueDisc env cue expected = .ok disc) (read : readCue cue = .ok text) :
    StartsDisc env disc ↔ ∀ time ∈ firstPregaps 1 false (Lib.Lines.lines text), time = 0 := by
  obtain ⟨out, head, number, offset, start⟩ := loadCueDisc_first accepted read
  rw [← start]
  constructor
  · intro starts
    obtain ⟨track, found, -, zero, -⟩ := starts
    cases head.symm.trans found
    exact zero
  · intro zero
    refine ⟨out, head, number, zero, fun data long => ?_⟩
    have cover : out.Covers 16 := by
      rw [covers_iff, DiscTrack.endLba]
      omega
    obtain ⟨file, bytes, present, contents, -, user⟩ :=
      (loadCueDisc_loaded accepted).readUserData (List.mem_of_mem_head? head) data cover
    refine ⟨file, bytes, present, contents, ?_⟩
    rw [user, userOffset, offset, zero, Nat.zero_add, Nat.sub_zero]

/-- The two data tracks, whose first has no PREGAP. -/
theorem starts_disc_two_tracks : StartsDisc twoTracks twoTracksDisc :=
  (starts_disc_iff twoTracks_loads rfl).mpr (by decide)

/-- One cooked track of three sectors after a pregap of two seconds. -/
def delayedText : List Char :=
  [["FILE", "\"a.bin\"", "BINARY"], ["TRACK", "01", "MODE1/2048"], ["PREGAP", "00:02:00"],
    ["INDEX", "01", "00:00:00"]].flatMap
      fun line => [' '].intercalate (line.map String.toList) ++ ['\n']

def delayedCue : Cue := { twoTracksCue with text := some delayedText }

def delayedSheet : List CueFile :=
  [{
    name := "a.bin".toList
    tracks := [
      { number := 1, type := .mode1_2048, index01 := some 0, pregap := some 150, line := 2 }] }]

def delayedTrack : DiscTrack :=
  { firstTrack with pregap := 150, firstLba := 150, sectorCount := 3 }

def delayedLayout : Layout where
  expectedNumber := 2
  lba := 153
  tracks := [delayedTrack]
  files := [twoTracksFile]

def delayedDisc : DiscImage where
  files := [twoTracksFile]
  tracks := [delayedTrack]
  totalSectors := 153
  table := normalizedTable [twoTracksFile] [delayedTrack] 153

theorem delayed_checked : checkTracks twoTracks [twoTracksFile] [delayedTrack] = .ok () := by
  have first : readAt (zeros 6144) 0 2048 = some (zeros 2048) := readAt_zeros (by decide)
  have second : readAt (zeros 6144) 2048 2048 = some (zeros 2048) := readAt_zeros (by decide)
  have third : readAt (zeros 6144) 4096 2048 = some (zeros 2048) := readAt_zeros (by decide)
  have sectors : List.range delayedTrack.sectorCount = [0, 1, 2] := rfl
  have check : ∀ s, checkSector delayedTrack s (zeros 2048) = .ok () :=
    fun s => checkSector_zeros rfl s (by decide)
  simp only [delayedTrack, firstTrack] at check
  rw [checkTracks, checkTrack, sectors]
  simp [checkSectors, checkTracks, twoTracks, delayedTrack, firstTrack, first, second, third, check]

theorem delayed_loads : loadCueDisc twoTracks delayedCue none = .ok delayedDisc := by
  have read : readCue delayedCue = .ok delayedText := by rfl
  have parsed : parseCue delayedText = .ok delayedSheet := by decide
  have laid : layoutFiles twoTracks 0 delayedSheet {} = .ok delayedLayout := by rfl
  rw [loadCueDisc, read]
  dsimp only
  rw [parsed]
  dsimp only
  rw [laid]
  dsimp only
  rw [buildDisc, delayedLayout]
  dsimp only
  rw [twoTracks_hashed]
  dsimp only
  rw [delayed_checked]
  simp [twoTracks, delayedDisc]

/-- The pregap puts INDEX 01 of track 1 at LBA 150. -/
theorem not_starts_disc : ¬ ∀ env cue expected disc,
    loadCueDisc env cue expected = .ok disc → StartsDisc env disc := by
  intro always
  obtain ⟨track, head, -, zero, -⟩ := always _ _ _ _ delayed_loads
  cases head
  exact absurd zero (by decide)

end Segarecomp.Media.Disc

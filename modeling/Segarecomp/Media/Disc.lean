import Segarecomp.Lib.Lines

/-! CUE/BIN ingestion and reads of user data. The file system and SHA-256 are parameters: what a
name is, how large, and which bytes reading it gives. A byte of the sheet is a character. -/

namespace Segarecomp.Media.Disc

open Segarecomp.Lib.Lines

abbrev Byte := BitVec 8

def kDiscUserBytes : ℕ := 2048
def kDiscRawBytes : ℕ := 2352
def kDiscMsfLeadIn : ℕ := 150
def kDiscMaxSectors : ℕ := 360000
def kCueMaxBytes : ℕ := 64 * 1024

inductive DiscTrackType
  | mode1_2048 | mode1_2352 | audio
  deriving DecidableEq, Repr

inductive DiscError
  | cueUnreadable | cueSyntax | cueUnsupported | fileMissing | fileAmbiguous | pathUnsafe
  | fileUnreadable | fileSizeNotMultiple | fileTruncated | mixedSectorSizes | trackNumbering
  | trackLayout | indexOrder | pregapConflict | discTooLarge | rawSync | rawHeader
  | headerConflict | identityMismatch | lbaOutOfRange | lbaAudio | ioError
  deriving DecidableEq, Repr

/-- An error and its short detail. -/
abbrev Result (α : Type) := Except (DiscError × String) α

structure Cue where
  regular : Bool
  symlink : Bool
  size : Option ℕ
  text : Option (List Char)
  directory : Bool

/-- Names are those in the sheet's directory; `canonical` gives the name a file resolves to there. -/
structure Environment where
  isSymlink : List Char → Bool
  isRegular : List Char → Bool
  canonical : List Char → Option (List Char)
  fileSize : List Char → Option ℕ
  contents : List Char → Option (List Byte)
  sha256 : List Byte → String
  sha256Text : String → String

/-! ## The sheet -/

structure CueTrack where
  number : ℕ
  type : DiscTrackType
  index00 : Option ℕ := none
  index01 : Option ℕ := none
  pregap : Option ℕ := none
  line : ℕ := 0
  deriving DecidableEq, Repr

structure CueFile where
  name : List Char
  tracks : List CueTrack := []
  deriving DecidableEq, Repr

def blank (c : Char) : Bool := c = ' ' ∨ c = '\t'

/-- Where the scan of a line stands. -/
inductive Scan
  | between
  | word (read : List Char)
  | quoted (read : List Char)
  | closed

def tokenizeFrom : Scan → List Char → Option (List (List Char))
  | .between, [] => some []
  | .between, c :: line =>
    if blank c then tokenizeFrom .between line
    else if c = '"' then tokenizeFrom (.quoted []) line
    else tokenizeFrom (.word [c]) line
  | .word read, [] => some [read.reverse]
  | .word read, c :: line =>
    if blank c then (read.reverse :: ·) <$> tokenizeFrom .between line
    else if c = '"' then none
    else tokenizeFrom (.word (c :: read)) line
  | .quoted _, [] => none
  | .quoted read, c :: line =>
    if c = '"' then (read.reverse :: ·) <$> tokenizeFrom .closed line
    else tokenizeFrom (.quoted (c :: read)) line
  | .closed, [] => some []
  | .closed, c :: line => if blank c then tokenizeFrom .between line else none

def tokenize (line : List Char) : Option (List (List Char)) := tokenizeFrom .between line

def digitsFrom : ℕ → List Char → Option ℕ
  | value, [] => some value
  | value, c :: text =>
    if c < '0' ∨ c > '9' then none else digitsFrom (value * 10 + (c.toNat - '0'.toNat)) text

def parseDigits (text : List Char) (maxDigits : ℕ) : Option ℕ :=
  if text = [] ∨ text.length > maxDigits then none else digitsFrom 0 text

/-- "MM:SS:FF" as frames. -/
def parseTime (text : List Char) : Option ℕ :=
  match text with
  | [m1, m0, c1, s1, s0, c0, f1, f0] =>
    if c1 ≠ ':' ∨ c0 ≠ ':' then none
    else
      match parseDigits [m1, m0] 2, parseDigits [s1, s0] 2, parseDigits [f1, f0] 2 with
      | some m, some s, some f => if s ≥ 60 ∨ f ≥ 75 then none else some ((m * 60 + s) * 75 + f)
      | _, _, _ => none
  | _ => none

def plainFileName (name : List Char) : Bool :=
  name ≠ [] ∧ name ≠ ['.'] ∧ name ≠ ['.', '.'] ∧ name.length ≤ 255 ∧
    name.all fun c => c ≠ '/' ∧ c ≠ '\\' ∧ c ≠ ':' ∧ 0x20 ≤ c.toNat ∧ c.toNat ≠ 0x7F

/-- FILE "name" BINARY -/
def cueFile (files : List CueFile) (place : String) : List (List Char) → Result (List CueFile)
  | [name, format] =>
    if format ≠ "BINARY".toList then .error (.cueUnsupported, place)
    else if plainFileName name = false then .error (.pathUnsafe, place)
    else if ∃ existing ∈ files, existing.name = name then .error (.fileAmbiguous, place)
    else if files ≠ [] ∧ (files.getLast?.map CueFile.tracks).getD [] = [] then
      .error (.fileMissing, place)
    else .ok (files ++ [{ name }])
  | _ => .error (.cueSyntax, place)

/-- The last file with its tracks replaced. -/
def setTracks (files : List CueFile) (file : CueFile) (tracks : List CueTrack) : List CueFile :=
  files.dropLast ++ [{ file with tracks }]

def trackType (text : List Char) : Option DiscTrackType :=
  if text = "MODE1/2048".toList then some .mode1_2048
  else if text = "MODE1/2352".toList then some .mode1_2352
  else if text = "AUDIO".toList then some .audio
  else none

/-- TRACK nn type -/
def cueTrack (files : List CueFile) (line : ℕ) (place : String) :
    List (List Char) → Result (List CueFile)
  | [digits, mode] =>
    match files.getLast? with
    | none => .error (.fileMissing, place)
    | some file =>
      match parseDigits digits 2 with
      | none => .error (.cueSyntax, place)
      | some number =>
        match trackType mode with
        | none => .error (.cueUnsupported, place)
        | some type => .ok (setTracks files file (file.tracks ++ [{ number, type, line }]))
  | _ => .error (.cueSyntax, place)

def lastTrack (files : List CueFile) : Option (CueFile × CueTrack) :=
  match files.getLast? with
  | none => none
  | some file => file.tracks.getLast?.map fun track => (file, track)

/-- INDEX 00 starts a pregap in the file: once, before INDEX 01, without PREGAP, not on track 1. -/
def setIndex (track : CueTrack) (index time : ℕ) (place : String) : Result CueTrack :=
  if index = 0 then
    if track.index00.isSome ∨ track.index01.isSome then .error (.indexOrder, place)
    else if track.pregap.isSome then .error (.pregapConflict, place)
    else if track.number = 1 then .error (.cueUnsupported, place)
    else .ok { track with index00 := some time }
  else if track.index01.isSome then .error (.indexOrder, place)
  else if ∃ start ∈ track.index00, start > time then .error (.indexOrder, place)
  else .ok { track with index01 := some time }

/-- INDEX nn MM:SS:FF -/
def cueIndex (files : List CueFile) (place : String) : List (List Char) → Result (List CueFile)
  | [digits, text] =>
    match lastTrack files with
    | none => .error (.cueSyntax, place)
    | some (file, track) =>
      match parseDigits digits 2, parseTime text with
      | some index, some time =>
        if index > 1 then .error (.cueUnsupported, place)
        else
          match setIndex track index time place with
          | .error error => .error error
          | .ok track => .ok (setTracks files file (file.tracks.dropLast ++ [track]))
      | _, _ => .error (.cueSyntax, place)
  | _ => .error (.cueSyntax, place)

/-- PREGAP MM:SS:FF -/
def cuePregap (files : List CueFile) (place : String) : List (List Char) → Result (List CueFile)
  | [text] =>
    match lastTrack files with
    | none => .error (.cueSyntax, place)
    | some (file, track) =>
      match parseTime text with
      | none => .error (.cueSyntax, place)
      | some time =>
        if track.index01.isSome ∨ track.pregap.isSome then .error (.cueSyntax, place)
        else if track.index00.isSome then .error (.pregapConflict, place)
        else
          .ok (setTracks files file (file.tracks.dropLast ++ [{ track with pregap := some time }]))
  | _ => .error (.cueSyntax, place)

def ignoredKeywords : List (List Char) :=
  ["REM".toList, "TITLE".toList, "PERFORMER".toList, "CATALOG".toList, "FLAGS".toList]

def cueDirective (files : List CueFile) (number : ℕ) (line : List Char) : Result (List CueFile) :=
  let place := "line " ++ toString number
  match tokenize line with
  | none => .error (.cueSyntax, place)
  | some [] => .ok files
  | some (first :: arguments) =>
    let keyword := first.map Char.toUpper
    if keyword ∈ ignoredKeywords then .ok files
    else if keyword = "FILE".toList then cueFile files place arguments
    else if keyword = "TRACK".toList then cueTrack files number place arguments
    else if keyword = "INDEX".toList then cueIndex files place arguments
    else if keyword = "PREGAP".toList then cuePregap files place arguments
    else .error (.cueUnsupported, place)

def byteOrderMark : List Char := ['\xEF', '\xBB', '\xBF']

/-- A line without its carriage return and, on the first line, without a byte order mark. -/
def cleanLine (number : ℕ) (line : List Char) : List Char :=
  let line := if line.getLast? = some '\r' then line.dropLast else line
  if number = 1 ∧ line.take 3 = byteOrderMark then line.drop 3 else line

def parseCueFrom : ℕ → List (List Char) → List CueFile → Result (List CueFile)
  | _, [], files => .ok files
  | number, line :: rest, files =>
    match cueDirective files number (cleanLine number line) with
    | .error error => .error error
    | .ok files => parseCueFrom (number + 1) rest files

def parseCue (text : List Char) : Result (List CueFile) :=
  match parseCueFrom 1 (lines text) [] with
  | .error error => .error error
  | .ok files =>
    if (files.getLast?.map CueFile.tracks).getD [] = [] then .error (.fileMissing, "no track")
    else .ok files

/-! ## The layout -/

structure DiscFile where
  name : List Char
  path : List Char
  size : ℕ
  sha256 : String := ""
  deriving DecidableEq, Repr

structure DiscTrack where
  number : ℕ
  type : DiscTrackType
  fileIndex : ℕ
  sectorSize : ℕ
  fileOffset : ℕ
  pregap : ℕ
  index0Sectors : ℕ
  firstLba : ℕ
  sectorCount : ℕ
  deriving DecidableEq, Repr

structure DiscImage where
  files : List DiscFile
  tracks : List DiscTrack
  totalSectors : ℕ
  table : String := ""
  identity : String := ""

structure Layout where
  expectedNumber : ℕ := 1
  lba : ℕ := 0
  tracks : List DiscTrack := []
  files : List DiscFile := []

def sectorSizeOf (type : DiscTrackType) : ℕ :=
  if type = .mode1_2048 then kDiscUserBytes else kDiscRawBytes

/-- The first file sector of a track whose INDEX 01 is `index01`. -/
def CueTrack.start (track : CueTrack) (index01 : ℕ) : ℕ := track.index00.getD index01

def trackAt (track : CueTrack) : String := "track " ++ toString track.number

/-- The end of a track: the next track's start in the same file, or the end of the file. -/
def trackEnd (track : CueTrack) (index01 fileSectors : ℕ) : List CueTrack → Result ℕ
  | [] => .ok fileSectors
  | next :: _ =>
    match next.index01 with
    | none => .error (.trackNumbering, trackAt next)
    | some nextIndex01 =>
      let nextStart := next.start nextIndex01
      if nextStart ≤ index01 then .error (.trackLayout, trackAt track)
      else if nextStart > fileSectors ∨ nextIndex01 > fileSectors then
        .error (.fileTruncated, trackAt track)
      else .ok nextStart

/-- The track of file `f` from `start` with data from `index01` to `finish`, placed after the disc
so far. -/
def placeTrack (f sectorSize : ℕ) (track : CueTrack) (start index01 finish : ℕ) (layout : Layout) :
    Result Layout :=
  let pregap := track.pregap.getD 0
  let index0Sectors := index01 - start
  let first := layout.lba + pregap + index0Sectors
  let lba := first + (finish - index01)
  if lba > kDiscMaxSectors then .error (.discTooLarge, trackAt track)
  else
    .ok { layout with
      expectedNumber := layout.expectedNumber + 1
      lba
      tracks := layout.tracks ++
        [{ number := track.number
           type := track.type
           fileIndex := f
           sectorSize
           fileOffset := index01 * sectorSize
           pregap
           index0Sectors
           firstLba := min first (kDiscMaxSectors + 1)
           sectorCount := min (finish - index01) (kDiscMaxSectors + 1) }] }

def layoutTrack (f sectorSize fileSectors : ℕ) (first : Bool) (track : CueTrack)
    (rest : List CueTrack) (layout : Layout) : Result Layout :=
  if track.number ≠ layout.expectedNumber then .error (.trackNumbering, trackAt track)
  else
    match track.index01 with
    | none => .error (.trackNumbering, trackAt track)
    | some index01 =>
      let start := track.start index01
      if first = true ∧ start ≠ 0 then .error (.trackLayout, trackAt track)
      else if index01 ≥ fileSectors then .error (.fileTruncated, trackAt track)
      else
        match trackEnd track index01 fileSectors rest with
        | .error error => .error error
        | .ok finish => placeTrack f sectorSize track start index01 finish layout

def layoutTracks (f sectorSize fileSectors : ℕ) :
    Bool → List CueTrack → Layout → Result Layout
  | _, [], layout => .ok layout
  | first, track :: rest, layout =>
    match layoutTrack f sectorSize fileSectors first track rest layout with
    | .error error => .error error
    | .ok layout => layoutTracks f sectorSize fileSectors false rest layout

/-- A file inside the sheet's directory, with its size. -/
def resolveFile (env : Environment) (f : ℕ) (name : List Char) : Result (List Char × ℕ) :=
  let place := "file " ++ toString f
  if env.isSymlink name then .error (.pathUnsafe, place)
  else if env.isRegular name = false then .error (.fileUnreadable, place)
  else
    match env.canonical name with
    | none => .error (.pathUnsafe, place)
    | some path =>
      match env.fileSize path with
      | none => .error (.fileUnreadable, place)
      | some size => .ok (path, size)

def layoutFile (env : Environment) (f : ℕ) (file : CueFile) (layout : Layout) : Result Layout :=
  let place := "file " ++ toString f
  match resolveFile env f file.name with
  | .error error => .error error
  | .ok (path, size) =>
    let sectorSize := (file.tracks.head?.map fun track => sectorSizeOf track.type).getD kDiscRawBytes
    if ∃ track ∈ file.tracks, sectorSizeOf track.type ≠ sectorSize then
      .error (.mixedSectorSizes, place)
    else if size = 0 ∨ size % sectorSize ≠ 0 then .error (.fileSizeNotMultiple, place)
    else
      match layoutTracks f sectorSize (size / sectorSize) true file.tracks layout with
      | .error error => .error error
      | .ok layout =>
        .ok { layout with files := layout.files ++ [{ name := file.name, path, size }] }

def layoutFiles (env : Environment) : ℕ → List CueFile → Layout → Result Layout
  | _, [], layout => .ok layout
  | f, file :: rest, layout =>
    match layoutFile env f file layout with
    | .error error => .error error
    | .ok layout => layoutFiles env (f + 1) rest layout

/-! ## Hashes and raw sectors -/

/-- `count` bytes from `offset`, when there are as many. -/
def readAt (bytes : List Byte) (offset count : ℕ) : Option (List Byte) :=
  if offset + count ≤ bytes.length then some ((bytes.drop offset).take count) else none

def hashFile (env : Environment) (file : DiscFile) : Result DiscFile :=
  match env.contents file.path with
  | none => .error (.fileUnreadable, "file open")
  | some bytes =>
    match readAt bytes 0 file.size with
    | none => .error (.ioError, "file read")
    | some whole => .ok { file with sha256 := env.sha256 whole }

def hashFiles (env : Environment) : List DiscFile → Result (List DiscFile)
  | [] => .ok []
  | file :: rest =>
    match hashFile env file with
    | .error error => .error error
    | .ok file =>
      match hashFiles env rest with
      | .error error => .error error
      | .ok rest => .ok (file :: rest)

def kSync : List Byte := [0x00, 0xFF, 0xFF, 0xFF, 0xFF, 0xFF, 0xFF, 0xFF, 0xFF, 0xFF, 0xFF, 0x00]

def bcd (value : ℕ) : Byte := BitVec.ofNat 8 (value / 10 * 16 + value % 10)

def checkSector (track : DiscTrack) (s : ℕ) (sector : List Byte) : Result Unit :=
  let place := "track " ++ toString track.number ++ " sector " ++ toString s
  let synced := sector.take 12 = kSync
  if track.type = .mode1_2048 then
    if s = 0 ∧ synced then .error (.headerConflict, place) else .ok ()
  else if ¬synced then .error (.rawSync, place)
  else
    let msf := track.firstLba + s + kDiscMsfLeadIn
    if (sector.drop 12).take 4 ≠ [bcd (msf / 75 / 60), bcd (msf / 75 % 60), bcd (msf % 75), 1] then
      .error (.rawHeader, place)
    else .ok ()

def checkSectors (track : DiscTrack) (bytes : List Byte) : List ℕ → Result Unit
  | [] => .ok ()
  | s :: rest =>
    match readAt bytes (track.fileOffset + s * track.sectorSize) track.sectorSize with
    | none => .error (.ioError, "sector read")
    | some sector =>
      match checkSector track s sector with
      | .error error => .error error
      | .ok () => checkSectors track bytes rest

/-- A file that does not open fails at the first read. -/
def checkTrack (env : Environment) (files : List DiscFile) (track : DiscTrack) : Result Unit :=
  if track.type = .audio then .ok ()
  else
    let bytes := (files[track.fileIndex]?.bind fun file => env.contents file.path).getD []
    checkSectors track bytes (List.range track.sectorCount)

def checkTracks (env : Environment) (files : List DiscFile) : List DiscTrack → Result Unit
  | [] => .ok ()
  | track :: rest =>
    match checkTrack env files track with
    | .error error => .error error
    | .ok () => checkTracks env files rest

/-! ## The normalized table -/

def discTrackTypeName : DiscTrackType → String
  | .mode1_2048 => "mode1_2048"
  | .mode1_2352 => "mode1_2352"
  | .audio => "audio"

def fileRow (file : DiscFile × ℕ) : String :=
  "file " ++ toString file.2 ++ " size " ++ toString file.1.size ++ " sha256 " ++ file.1.sha256 ++
    " name " ++ String.ofList file.1.name ++ "\n"

def trackRow (track : DiscTrack) : String :=
  "track " ++ toString track.number ++ " " ++ discTrackTypeName track.type ++ " file " ++
    toString track.fileIndex ++ " offset " ++ toString track.fileOffset ++ " sector " ++
    toString track.sectorSize ++ " pregap " ++ toString track.pregap ++ " lba " ++
    toString track.firstLba ++ " count " ++ toString track.sectorCount ++
    (if track.index0Sectors ≠ 0 then " index0 " ++ toString track.index0Sectors else "") ++ "\n"

def normalizedTable (files : List DiscFile) (tracks : List DiscTrack) (total : ℕ) : String :=
  "segarecomp.disc.v1\n" ++ String.join (files.zipIdx.map fileRow) ++
    String.join (tracks.map trackRow) ++ "total " ++ toString total ++ "\n"

/-! ## Loading -/

def buildDisc (env : Environment) (layout : Layout) (expected : Option String) : Result DiscImage :=
  match hashFiles env layout.files with
  | .error error => .error error
  | .ok files =>
    match checkTracks env files layout.tracks with
    | .error error => .error error
    | .ok () =>
      let table := normalizedTable files layout.tracks layout.lba
      let identity := env.sha256Text table
      if ∃ id ∈ expected, id ≠ identity then .error (.identityMismatch, "identity")
      else .ok { files, tracks := layout.tracks, totalSectors := layout.lba, table, identity }

def readCue (cue : Cue) : Result (List Char) :=
  if cue.regular = false ∨ cue.symlink = true then .error (.cueUnreadable, "cue")
  else if cue.size.all (· > kCueMaxBytes) then .error (.cueUnreadable, "cue size")
  else
    match cue.text with
    | none => .error (.cueUnreadable, "cue open")
    | some text => if cue.directory then .ok text else .error (.cueUnreadable, "cue directory")

def loadCueDisc (env : Environment) (cue : Cue) (expected : Option String) : Result DiscImage :=
  match readCue cue with
  | .error error => .error error
  | .ok text =>
    match parseCue text with
    | .error error => .error error
    | .ok files =>
      match layoutFiles env 0 files {} with
      | .error error => .error error
      | .ok layout => buildDisc env layout expected

/-! ## Reading -/

def DiscTrack.Covers (track : DiscTrack) (lba : ℕ) : Prop :=
  lba ≥ track.firstLba ∧ lba - track.firstLba < track.sectorCount

instance (track : DiscTrack) (lba : ℕ) : Decidable (track.Covers lba) :=
  inferInstanceAs (Decidable (lba ≥ track.firstLba ∧ lba - track.firstLba < track.sectorCount))

def trackOf (disc : DiscImage) (lba : ℕ) : Option DiscTrack :=
  disc.tracks.find? fun track => track.Covers lba

def userOffset (track : DiscTrack) (lba : ℕ) : ℕ :=
  track.fileOffset + (lba - track.firstLba) * track.sectorSize +
    if track.type = .mode1_2352 then 16 else 0

def readUserData (env : Environment) (disc : DiscImage) (lba : ℕ) : Except DiscError (List Byte) :=
  match trackOf disc lba with
  | none => .error .lbaOutOfRange
  | some track =>
    if track.type = .audio then .error .lbaAudio
    else
      match disc.files[track.fileIndex]?.bind fun file => env.contents file.path with
      | none => .error .ioError
      | some bytes =>
        match readAt bytes (userOffset track lba) kDiscUserBytes with
        | none => .error .ioError
        | some data => .ok data

end Segarecomp.Media.Disc

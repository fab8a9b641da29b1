import Segarecomp.Media.Iso9660Directory

/-! A lookup succeeds exactly on the paths that name a file of the image, and asks only for sectors
of the directories on the path. -/

namespace Segarecomp.Media.Iso9660

section walk
variable {read : Iso9660BlockReader} {volume : Iso9660Volume}

/-- From a valid directory, the component loop goes on from the uniquely named entry. -/
theorem walkComponents_valid {directory : Iso9660Extent} {entries : List Iso9660Entry}
    {name : List Byte} {names : List (List Byte)} {e : Iso9660Entry}
    (valid : ValidDirectory read volume.volumeSpace directory entries)
    (unique : UniquelyNamed entries name e) :
    (walkComponents read volume directory (name :: names)).1 =
      if names = [] ∧ e.directory then { error := .not_a_file }
      else if names ≠ [] ∧ !e.directory then { error := .not_a_directory }
      else if names = [] then { extent := some e.extent }
      else (walkComponents read volume e.extent names).1 := by
  have listed := valid.listed volume
  have found := (findEntry_ok_iff name entries e).mpr unique
  rw [walkComponents]
  simp only [listed, found, ne_eq, not_true_eq_false, if_false]
  split
  · rfl
  · split
    · rfl
    · split
      · rfl
      · rfl

/-- A component that is not uniquely named in a valid directory ends the walk with an error. -/
theorem walkComponents_failed {directory : Iso9660Extent} {name : List Byte} (names : List (List Byte))
    (none_ : ¬ ∃ entries e, ValidDirectory read volume.volumeSpace directory entries ∧
      UniquelyNamed entries name e) :
    ∃ error, error ≠ .none ∧
      (walkComponents read volume directory (name :: names)).1 = { error := error } := by
  rw [walkComponents]
  by_cases listed : (listIso9660Directory read volume directory).1.error = .none
  · have valid := listIso9660Directory_result read volume directory listed
    cases found : findEntry name (listIso9660Directory read volume directory).1.entries none with
    | error e =>
        exact ⟨e, findEntry_typed _ _ _ e found, by simp [listed, found]⟩
    | ok e =>
        exact absurd ⟨_, e, valid, (findEntry_ok_iff _ _ _).mp found⟩ none_
  · exact ⟨_, listed, by simp [listed]⟩

theorem ValidDirectory.entries_eq {volumeSpace : BitVec 32} {directory : Iso9660Extent}
    {entries entries' : List Iso9660Entry} (first : ValidDirectory read volumeSpace directory entries)
    (second : ValidDirectory read volumeSpace directory entries') : entries = entries' := by
  have one := ValidDirectory.listed ⟨[], volumeSpace, directory⟩ first
  have two := ValidDirectory.listed ⟨[], volumeSpace, directory⟩ second
  rw [one, Iso9660ListResult.mk.injEq] at two
  exact two.1

theorem UniquelyNamed.entry_eq {entries : List Iso9660Entry} {name : List Byte} {e e' : Iso9660Entry}
    (first : UniquelyNamed entries name e) (second : UniquelyNamed entries name e') : e = e' := by
  have := first.symm.trans second
  simpa using this

/-- The walk yields an extent exactly when the names reach a file with that extent. -/
theorem walkComponents_extent_iff (directory : Iso9660Extent) (names : List (List Byte))
    (x : Iso9660Extent) :
    (walkComponents read volume directory names).1.extent = some x ↔
      ∃ e, Reaches read volume.volumeSpace directory names e ∧ e.directory = false ∧ e.extent = x := by
  induction names generalizing directory with
  | nil =>
      constructor
      · intro h
        simp [walkComponents] at h
      · rintro ⟨e, reaches, _⟩
        cases reaches
  | cons name names ih =>
      by_cases one : ∃ entries e, ValidDirectory read volume.volumeSpace directory entries ∧
          UniquelyNamed entries name e
      · rcases one with ⟨entries, e, valid, unique⟩
        rw [walkComponents_valid valid unique]
        have reaches_iff : ∀ target, Reaches read volume.volumeSpace directory (name :: names) target ↔
            (names = [] ∧ target = e) ∨
              (e.directory = true ∧ Reaches read volume.volumeSpace e.extent names target) := by
          intro target
          constructor
          · intro reaches
            cases reaches with
            | last valid' unique' =>
                obtain rfl := valid'.entries_eq valid
                exact .inl ⟨rfl, unique'.entry_eq unique⟩
            | step valid' unique' descends rest =>
                obtain rfl := valid'.entries_eq valid
                obtain rfl := unique'.entry_eq unique
                exact .inr ⟨descends, rest⟩
          · rintro (⟨rfl, rfl⟩ | ⟨descends, rest⟩)
            · exact .last valid unique
            · exact .step valid unique descends rest
        simp only [reaches_iff]
        by_cases last : names = []
        · subst last
          have noReach : ∀ target, ¬ Reaches read volume.volumeSpace e.extent [] target := by
            rintro target ⟨⟩
          cases kind : e.directory with
          | true => simp [noReach, kind]
          | false => simp [noReach, kind]
        · cases kind : e.directory with
          | true => simp [last, ih]
          | false => simp [last]
      · rcases walkComponents_failed names one with ⟨error, _, failed⟩
        rw [failed]
        simp only [reduceCtorEq, false_iff]
        rintro ⟨e, reaches, _⟩
        cases reaches with
        | last valid unique => exact one ⟨_, _, valid, unique⟩
        | step valid unique _ _ => exact one ⟨_, _, valid, unique⟩

/-- Without an extent there is a typed error, and never both. -/
theorem walkComponents_error_iff (directory : Iso9660Extent) {names : List (List Byte)} (some_ : names ≠ []) :
    (walkComponents read volume directory names).1.error ≠ .none ↔
      (walkComponents read volume directory names).1.extent = none := by
  induction names generalizing directory with
  | nil => contradiction
  | cons name names ih =>
      by_cases one : ∃ entries e, ValidDirectory read volume.volumeSpace directory entries ∧
          UniquelyNamed entries name e
      · rcases one with ⟨entries, e, valid, unique⟩
        rw [walkComponents_valid valid unique]
        by_cases last : names = []
        · cases kind : e.directory with
          | true => simp [last]
          | false => simp [last]
        · cases kind : e.directory with
          | true => simpa [last] using ih e.extent last
          | false => simp [last]
      · rcases walkComponents_failed names one with ⟨error, typed, failed⟩
        simp [failed, typed]

end walk

/-! Which blocks are read. -/

theorem scanDirectory_reads {read : Iso9660BlockReader} {volumeSpace : BitVec 32}
    {directory : Iso9660Extent} (left b : ℕ) (s : ListState) {asked : BitVec 32}
    (h : asked ∈ (scanDirectory read volumeSpace directory left b s).2) :
    ∃ i, b ≤ i ∧ i < b + left ∧ asked = directory.block + BitVec.ofNat 32 i := by
  induction left generalizing b s with
  | zero => simp [scanDirectory] at h
  | succ left ih =>
      rw [scanDirectory] at h
      have first : asked = directory.block + BitVec.ofNat 32 b →
          ∃ i, b ≤ i ∧ i < b + (left + 1) ∧ asked = directory.block + BitVec.ofNat 32 i :=
        fun same => ⟨b, le_rfl, by omega, same⟩
      cases found : read (directory.block + BitVec.ofNat 32 b) with
      | none => exact first (by simpa [found] using h)
      | some block =>
          cases scanned : scanSector volumeSpace directory block kIso9660BlockBytes 0 s with
          | error e => exact first (by simpa [found, scanned] using h)
          | ok mid =>
              simp only [found, scanned, List.mem_cons] at h
              rcases h with same | later
              · exact first same
              · rcases ih (b + 1) mid later with ⟨i, low, high, same⟩
                exact ⟨i, by omega, by omega, same⟩

/-- A directory walk reads only sectors of the directory's declared extent, inside the volume. -/
theorem listIso9660Directory_reads {read : Iso9660BlockReader} {volume : Iso9660Volume}
    {directory : Iso9660Extent} {asked : BitVec 32}
    (h : asked ∈ (listIso9660Directory read volume directory).2) :
    DirectoryExtent directory volume.volumeSpace ∧ SectorOf directory asked := by
  by_cases extent : checkDirectoryExtent directory volume.volumeSpace = .none
  · have fits := (checkDirectoryExtent_none _ _).mp extent
    refine ⟨fits, ?_⟩
    have inScan : asked ∈ (scanDirectory read volume.volumeSpace directory
        (directory.size.toNat / kIso9660BlockBytes) 0 {}).2 := by
      rw [listIso9660Directory, if_neg (by simp [extent])] at h
      split at h
      next result log scanned =>
        rw [scanned]
        split at h
        · exact h
        · split at h
          · exact h
          · exact h
    rcases scanDirectory_reads _ _ _ inScan with ⟨i, _, high, rfl⟩
    have last := fits.inside.last
    have small := volume.volumeSpace.isLt
    have blocks : directory.size.toNat / kIso9660BlockBytes ≤ blocksOf directory.size := by
      unfold blocksOf kIso9660BlockBytes
      omega
    have value : (directory.block + BitVec.ofNat 32 i).toNat = directory.block.toNat + i := by
      rw [BitVec.toNat_add, BitVec.toNat_ofNat, Nat.mod_eq_of_lt (show i < 2 ^ 32 by omega),
        Nat.mod_eq_of_lt (by omega)]
    unfold SectorOf
    omega
  · rw [listIso9660Directory, if_pos extent] at h
    simp at h

theorem OnPath.descend {read : Iso9660BlockReader} {volumeSpace : BitVec 32}
    {directory inner : Iso9660Extent} {entries : List Iso9660Entry} {name : List Byte}
    {names : List (List Byte)} {e : Iso9660Entry}
    (valid : ValidDirectory read volumeSpace directory entries) (unique : UniquelyNamed entries name e)
    (descends : e.directory = true) (h : OnPath read volumeSpace e.extent names inner) :
    OnPath read volumeSpace directory (name :: names) inner := by
  rcases h with rfl | ⟨before, entry, pre, reaches, isDirectory, same⟩
  · exact .inr ⟨[name], e, by simp, .last valid unique, descends, rfl⟩
  · exact .inr ⟨name :: before, entry, List.cons_prefix_cons.mpr ⟨rfl, pre⟩,
      .step valid unique descends reaches, isDirectory, same⟩

theorem walkComponents_reads {read : Iso9660BlockReader} {volume : Iso9660Volume}
    {directory : Iso9660Extent} {names : List (List Byte)} {asked : BitVec 32}
    (h : asked ∈ (walkComponents read volume directory names).2) :
    ∃ inner, OnPath read volume.volumeSpace directory names inner ∧
      DirectoryExtent inner volume.volumeSpace ∧ SectorOf inner asked := by
  induction names generalizing directory with
  | nil => simp [walkComponents] at h
  | cons name names ih =>
      have here : asked ∈ (listIso9660Directory read volume directory).2 →
          ∃ inner, OnPath read volume.volumeSpace directory (name :: names) inner ∧
            DirectoryExtent inner volume.volumeSpace ∧ SectorOf inner asked :=
        fun inside => ⟨directory, .inl rfl, listIso9660Directory_reads inside⟩
      rw [walkComponents] at h
      by_cases listed : (listIso9660Directory read volume directory).1.error = .none
      · have valid := listIso9660Directory_result read volume directory listed
        cases found : findEntry name (listIso9660Directory read volume directory).1.entries none with
        | error e => exact here (by simpa [listed, found] using h)
        | ok e =>
            have unique := (findEntry_ok_iff _ _ _).mp found
            simp only [listed, found, ne_eq, not_true_eq_false, if_false] at h
            split at h
            · exact here h
            · split at h
              · exact here h
              · next notLast descends =>
                  split at h
                  · exact here h
                  · next more =>
                      rcases List.mem_append.mp h with first | later
                      · exact here first
                      · rcases ih later with ⟨inner, onPath, rest⟩
                        have isDirectory : e.directory = true := by
                          simpa [more] using descends
                        exact ⟨inner, onPath.descend valid unique isDirectory, rest⟩
      · exact here (by simpa [listed] using h)

/-! Path components. -/

theorem intercalate_cons (name : List Byte) {names : List (List Byte)} (more : names ≠ []) :
    [slash].intercalate (name :: names) = name ++ slash :: [slash].intercalate names := by
  obtain ⟨next, names, rfl⟩ := List.exists_cons_of_ne_nil more
  simp [List.intercalate]

theorem takeWhile_component {name : List Byte} (rest : List Byte) (clean : slash ∉ name) :
    (name ++ slash :: rest).takeWhile (fun c => c ≠ slash) = name ∧
      (name ++ slash :: rest).dropWhile (fun c => c ≠ slash) = slash :: rest := by
  have all : ∀ c ∈ name, decide (c ≠ slash) = true := by
    intro c member
    simpa using fun (h : c = slash) => clean (h ▸ member)
  constructor
  · rw [List.takeWhile_append_of_pos all]
    simp
  · rw [List.dropWhile_append_of_pos all]
    simp

theorem splitComponents_iff {room : ℕ} {rest : List Byte} (enough : rest.length < room)
    (names : List (List Byte)) :
    splitComponents room rest = some names ↔ rest = [slash].intercalate names ∧ names ≠ [] ∧
      ∀ name ∈ names, name ≠ [] ∧ slash ∉ name := by
  induction room generalizing rest names with
  | zero => omega
  | succ room ih =>
      rw [splitComponents]
      constructor
      · intro h
        have joined := List.takeWhile_append_dropWhile (p := fun c : Byte => decide (c ≠ slash)) (l := rest)
        have cleanTaken : slash ∉ rest.takeWhile (fun c => c ≠ slash) := by
          intro member
          have := List.mem_takeWhile_imp member
          simp at this
        generalize taken : rest.takeWhile (fun c => c ≠ slash) = component at h joined cleanTaken
        split at h
        · contradiction
        · next full =>
            split at h
            · next last =>
                simp only [Option.some.injEq] at h
                subst h
                rw [last, List.append_nil] at joined
                exact ⟨by simp [List.intercalate, joined], by simp,
                  List.forall_mem_singleton.mpr ⟨full, cleanTaken⟩⟩
            · next c after more =>
                rcases Option.map_eq_some_iff.mp h with ⟨later, split_, rfl⟩
                have head : c = slash := by
                  have := List.head_dropWhile_not (fun c : Byte => decide (c ≠ slash)) (l := rest)
                    (by rw [more]; simp)
                  simp only [more, List.head_cons] at this
                  simpa using this
                subst head
                rw [more] at joined
                have shorter : after.length < room := by
                  have := congrArg List.length joined
                  simp only [List.length_append, List.length_cons] at this
                  omega
                rcases (ih shorter later).mp split_ with ⟨spelled, nonempty, components⟩
                refine ⟨?_, by simp, List.forall_mem_cons.mpr ⟨⟨full, cleanTaken⟩, components⟩⟩
                rw [intercalate_cons _ nonempty, ← spelled, joined]
      · rintro ⟨spelled, nonempty, component⟩
        obtain ⟨name, names, rfl⟩ := List.exists_cons_of_ne_nil nonempty
        rcases List.forall_mem_cons.mp component with ⟨⟨full, clean⟩, later⟩
        by_cases last : names = []
        · subst last
          have whole : rest = name := by simpa [List.intercalate] using spelled
          subst whole
          have all : ∀ c ∈ rest, decide (c ≠ slash) = true := by
            intro c member
            simpa using fun (h : c = slash) => clean (h ▸ member)
          have taken : rest.takeWhile (fun c => c ≠ slash) = rest := List.takeWhile_eq_self_iff.mpr all
          have dropped : rest.dropWhile (fun c => c ≠ slash) = [] := List.dropWhile_eq_nil_iff.mpr all
          rw [taken, dropped, if_neg full]
        · rw [intercalate_cons _ last] at spelled
          subst spelled
          rcases takeWhile_component ([slash].intercalate names) clean with ⟨taken, dropped⟩
          rw [taken, dropped, if_neg full]
          have shorter : ([slash].intercalate names).length < room := by
            simp only [List.length_append, List.length_cons] at enough
            omega
          simp [(ih shorter names).mpr ⟨rfl, last, later⟩]

theorem pathComponents_iff (path : List Byte) (names : List (List Byte)) :
    pathComponents path = some names ↔ PathNames path names := by
  cases path with
  | nil =>
      simp only [pathComponents, reduceCtorEq, false_iff]
      intro h
      exact absurd h.spelled (by simp)
  | cons first rest =>
      by_cases absolute : first = slash
      · subst absolute
        rw [pathComponents, if_pos rfl, splitComponents_iff (by simp)]
        constructor
        · rintro ⟨spelled, nonempty, component⟩
          exact ⟨by rw [spelled], nonempty, component⟩
        · intro h
          exact ⟨by simpa using h.spelled, h.nonempty, h.component⟩
      · rw [pathComponents, if_neg absolute]
        simp only [reduceCtorEq, false_iff]
        intro h
        have := h.spelled
        simp only [List.cons.injEq] at this
        exact absolute this.1

/-! Only the bytes of the sectors matter. -/

/-- Two readers give the same sectors, whatever follows each sector in memory. -/
def SameSectors (read read' : Iso9660BlockReader) : Prop :=
  ∀ b, Option.Rel (fun p q : Memory => ∀ i < kIso9660BlockBytes, p i = q i) (read b) (read' b)

theorem both32_congr {p q : Memory} (same : ∀ i < 8, p i = q i) : both32 p = both32 q := by
  have low : le32 p = le32 q := by
    simp only [le32, same 0 (by decide), same 1 (by decide), same 2 (by decide), same 3 (by decide)]
  have high : be32 (p.from 4) = be32 (q.from 4) := by
    simp only [be32, Memory.from, same (4 + 0) (by decide), same (4 + 1) (by decide),
      same (4 + 2) (by decide), same (4 + 3) (by decide)]
  rw [both32, both32, low, high]

theorem both16_congr {p q : Memory} (same : ∀ i < 4, p i = q i) : both16 p = both16 q := by
  have low : le16 p = le16 q := by
    simp only [le16, same 0 (by decide), same 1 (by decide)]
  have high : be16 (p.from 2) = be16 (q.from 2) := by
    simp only [be16, Memory.from, same (2 + 0) (by decide), same (2 + 1) (by decide)]
  rw [both16, both16, low, high]

theorem parseRecord_congr {p q : Memory} {available : ℕ} (some_ : 0 < available)
    (same : ∀ i < available, p i = q i) : parseRecord p available = parseRecord q available := by
  unfold parseRecord
  rw [← same 0 some_]
  by_cases short : (p 0).toNat < 34
  · simp only [if_pos short]
  by_cases long : (p 0).toNat > available
  · simp only [if_neg short, if_pos long]
  have inside : ∀ i < 34, p i = q i := fun i hi => same i (by omega)
  simp only [if_neg short, if_neg long, ← inside 32 (by decide), ← inside 1 (by decide),
    ← inside 25 (by decide), ← inside 26 (by decide), ← inside 27 (by decide), ← inside 33 (by decide)]
  by_cases name : (p 32).toNat = 0 ∨ 33 + (p 32).toNat > (p 0).toNat
  · simp only [if_pos name]
  have identifier : (List.range (p 32).toNat).map (fun i => p (33 + i)) =
      (List.range (p 32).toNat).map (fun i => q (33 + i)) := by
    apply List.map_congr_left
    intro i member
    have := List.mem_range.mp member
    exact same (33 + i) (by omega)
  have block : both32 (p.from 2) = both32 (q.from 2) :=
    both32_congr (fun i hi => inside (2 + i) (by omega))
  have size : both32 (p.from 10) = both32 (q.from 10) :=
    both32_congr (fun i hi => inside (10 + i) (by omega))
  have sequence : both16 (p.from 28) = both16 (q.from 28) :=
    both16_congr (fun i hi => inside (28 + i) (by omega))
  rw [block, size, sequence, identifier]

theorem scanSector_congr (volumeSpace : BitVec 32) (directory : Iso9660Extent) {block block' : Memory}
    (same : ∀ i < kIso9660BlockBytes, block i = block' i) (room pos : ℕ) (s : ListState) :
    scanSector volumeSpace directory block room pos s =
      scanSector volumeSpace directory block' room pos s := by
  induction room generalizing pos s with
  | zero => rfl
  | succ room ih =>
      rw [scanSector, scanSector]
      by_cases inside : pos < kIso9660BlockBytes
      · have record : parseRecord (block.from pos) (kIso9660BlockBytes - pos) =
            parseRecord (block'.from pos) (kIso9660BlockBytes - pos) :=
          parseRecord_congr (by omega) (fun i hi => same (pos + i) (by omega))
        simp only [same pos inside, record, ih]
      · simp only [if_neg inside]

theorem scanDirectory_congr (volumeSpace : BitVec 32) (directory : Iso9660Extent)
    {read read' : Iso9660BlockReader} (same : SameSectors read read') (left b : ℕ) (s : ListState) :
    scanDirectory read volumeSpace directory left b s =
      scanDirectory read' volumeSpace directory left b s := by
  induction left generalizing b s with
  | zero => rfl
  | succ left ih =>
      rw [scanDirectory, scanDirectory]
      have sector := same (directory.block + BitVec.ofNat 32 b)
      generalize read (directory.block + BitVec.ofNat 32 b) = found at sector
      generalize read' (directory.block + BitVec.ofNat 32 b) = found' at sector
      cases sector with
      | none => rfl
      | some bytes => simp only [scanSector_congr volumeSpace directory bytes, ih]

theorem walkComponents_congr (volume : Iso9660Volume) {read read' : Iso9660BlockReader}
    (same : SameSectors read read') (directory : Iso9660Extent) (names : List (List Byte)) :
    walkComponents read volume directory names = walkComponents read' volume directory names := by
  induction names generalizing directory with
  | nil => rfl
  | cons name names ih =>
      have listing : listIso9660Directory read volume directory =
          listIso9660Directory read' volume directory := by
        rw [listIso9660Directory, listIso9660Directory, scanDirectory_congr _ _ same]
      rw [walkComponents, walkComponents, listing]
      simp only [ih]

/-! The volume descriptors. -/

theorem parsePrimary_typed (block : Memory) : Typed (parsePrimary block) := by
  unfold parsePrimary
  refine typed_guard (by simp) ?_
  split
  · refine typed_guard (by simp) (typed_guard (by simp) ?_)
    cases parsed : parseRecord (block.from 156) 34 with
    | error e => exact typed_error (parseRecord_typed _ _ e parsed)
    | ok root => exact typed_guard (by simp) (typed_ok _)
  · exact typed_error (by simp)

theorem scanDescriptors_typed (read : Iso9660BlockReader) (left index : ℕ) (primary : Option Iso9660Volume) :
    Typed (scanDescriptors read left index primary) := by
  induction left generalizing index primary with
  | zero => exact typed_error (by simp)
  | succ left ih =>
      rw [scanDescriptors]
      split
      · exact typed_error (by simp)
      · next block _ =>
          refine typed_guard (by simp) ?_
          simp only
          split
          · exact typed_ok _
          · split
            · exact ih _ _
            · refine typed_guard (by simp) (typed_guard (by simp) ?_)
              cases parsed : parsePrimary block with
              | error e => exact typed_error (parsePrimary_typed _ e parsed)
              | ok volume => exact ih _ _

/-- A volume is read, with a valid root directory extent inside the track, or there is a typed error. -/
theorem readIso9660Volume_spec (read : Iso9660BlockReader) (trackBlocks : BitVec 32) :
    (∃ error, error ≠ .none ∧ readIso9660Volume read trackBlocks = { error := error }) ∨
      ∃ volume, readIso9660Volume read trackBlocks = { volume := some volume } ∧
        DirectoryExtent volume.root volume.volumeSpace ∧ volume.volumeSpace ≤ trackBlocks := by
  unfold readIso9660Volume
  cases scanned : scanDescriptors read kIso9660MaxDescriptors 0 none with
  | error e => exact .inl ⟨e, scanDescriptors_typed _ _ _ _ e scanned, rfl⟩
  | ok found =>
      rcases found with ⟨index, _ | primary⟩
      · exact .inl ⟨_, by simp, rfl⟩
      · simp only
        split
        · exact .inl ⟨_, by simp, rfl⟩
        · next space =>
            split
            · next bad => exact .inl ⟨_, bad, rfl⟩
            · next good =>
                rw [not_or] at space
                simp only [ne_eq, not_not] at good
                exact .inr ⟨primary, rfl, (checkDirectoryExtent_none _ _).mp good, BitVec.not_lt.mp space.1⟩

/-- The lookup finds exactly the files that a path of at most `kIso9660MaxDepth` components names;
otherwise it returns a typed error, as does an image without a valid volume. It reads only sectors of the declared extents of directories on
the path, and of each sector only its own bytes. -/
theorem lookupIso9660File_exact (read : Iso9660BlockReader) (volume : Iso9660Volume) (path : List Byte) :
    (∀ extent, (lookupIso9660File read volume path).1.extent = some extent ↔
      ∃ names e, PathDenotes read volume path names e ∧ names.length ≤ kIso9660MaxDepth ∧
        e.directory = false ∧ e.extent = extent) ∧
    ((lookupIso9660File read volume path).1.error ≠ .none ↔
      (lookupIso9660File read volume path).1.extent = none) ∧
    (∀ asked ∈ (lookupIso9660File read volume path).2, ∃ names directory, PathNames path names ∧
      OnPath read volume.volumeSpace volume.root names directory ∧
        DirectoryExtent directory volume.volumeSpace ∧ SectorOf directory asked) ∧
    (∀ read', SameSectors read read' →
      lookupIso9660File read' volume path = lookupIso9660File read volume path) ∧
    ∀ trackBlocks, (readIso9660Volume read trackBlocks).error ≠ .none ↔
      (readIso9660Volume read trackBlocks).volume = none := by
  have volumes : ∀ trackBlocks, (readIso9660Volume read trackBlocks).error ≠ .none ↔
      (readIso9660Volume read trackBlocks).volume = none := by
    intro trackBlocks
    rcases readIso9660Volume_spec read trackBlocks with ⟨error, typed, h⟩ | ⟨found, h, _⟩
    · simp [h, typed]
    · simp [h]
  have names_iff := pathComponents_iff path
  cases split_ : pathComponents path with
  | none =>
      have noNames : ∀ names, ¬ PathNames path names := by
        intro names h
        have := (names_iff names).mpr h
        simp [split_] at this
      have result : ∀ read, lookupIso9660File read volume path = ({ error := .path_invalid }, []) := by
        intro read
        rw [lookupIso9660File, split_]
      refine ⟨?_, by simp [result], by simp [result], by simp [result], volumes⟩
      simp [result, PathDenotes, noNames]
  | some names =>
      have spelled := (names_iff names).mp split_
      have only : ∀ names', PathNames path names' → names' = names := by
        intro names' h
        have := (names_iff names').mpr h
        rw [split_, Option.some.injEq] at this
        exact this.symm
      by_cases deep : names.length > kIso9660MaxDepth
      · have result : ∀ read, lookupIso9660File read volume path = ({ error := .path_invalid }, []) := by
          intro read
          rw [lookupIso9660File, split_]
          simp [deep]
        refine ⟨?_, by simp [result], by simp [result], by simp [result], volumes⟩
        intro extent
        simp only [result, reduceCtorEq, false_iff]
        rintro ⟨names', e, ⟨h, _, _⟩, short, _⟩
        rw [only names' h] at short
        omega
      · have result : ∀ read, lookupIso9660File read volume path =
            walkComponents read volume volume.root names := by
          intro read
          rw [lookupIso9660File, split_]
          simp only [spelled.nonempty, deep, or_self, if_false]
        rw [result]
        refine ⟨?_, walkComponents_error_iff volume.root spelled.nonempty, ?_, ?_, volumes⟩
        · intro extent
          rw [walkComponents_extent_iff]
          constructor
          · rintro ⟨e, reaches, isFile, rfl⟩
            exact ⟨names, e, ⟨spelled, reaches, reaches.inside⟩, by omega, isFile, rfl⟩
          · rintro ⟨names', e, ⟨h, reaches, _⟩, _, isFile, rfl⟩
            rw [only names' h] at reaches
            exact ⟨e, reaches, isFile, rfl⟩
        · intro asked member
          rcases walkComponents_reads member with ⟨inner, onPath, fits, sector⟩
          exact ⟨names, inner, spelled, onPath, fits, sector⟩
        · intro read' same
          rw [result, walkComponents_congr volume same]

/-! A directory that contains itself makes valid paths of any depth; one of nine components is
refused. -/

def sampleRecord (block size0 size1 flags name : Byte) : List Byte :=
  [34, 0, block, 0, 0, 0, 0, 0, 0, block, size0, size1, 0, 0, 0, 0, size1, size0, 0, 0, 0, 0, 0, 0, 0,
    flags, 0, 0, 1, 0, 0, 1, 1, name]

def sampleSector : List Byte :=
  sampleRecord 0 0 8 2 0 ++ sampleRecord 0 0 8 2 1 ++ sampleRecord 0 0 8 2 0x44 ++ sampleRecord 1 5 0 0 0x46

def sampleRead : Iso9660BlockReader :=
  fun b => if b = 0 then some (fun i => sampleSector.getD i 0) else none

def sampleVolume : Iso9660Volume := { volumeId := [], volumeSpace := 32, root := ⟨0, 2048⟩ }

def sampleNames : List (List Byte) := List.replicate 8 [0x44] ++ [[0x46]]

def samplePath : List Byte := (sampleNames.map (slash :: ·)).flatten

theorem lookupIso9660File_depth_refused :
    ¬ ∀ (read : Iso9660BlockReader) (volume : Iso9660Volume) (path : List Byte) (extent : Iso9660Extent),
      (lookupIso9660File read volume path).1.extent = some extent ↔
        ∃ names e, PathDenotes read volume path names e ∧ e.extent = extent := by
  intro claim
  have listed : (listIso9660Directory sampleRead sampleVolume sampleVolume.root).1 =
      { entries := [⟨[0x44], true, ⟨0, 2048⟩⟩, ⟨[0x46], false, ⟨1, 5⟩⟩] } := by decide
  have valid := (listIso9660Directory_ok_iff _ _ _ _).mp listed
  have file : Reaches sampleRead sampleVolume.volumeSpace sampleVolume.root [[0x46]]
      ⟨[0x46], false, ⟨1, 5⟩⟩ := .last valid rfl
  have inner : UniquelyNamed [⟨[0x44], true, ⟨0, 2048⟩⟩, ⟨[0x46], false, ⟨1, 5⟩⟩] [0x44]
      ⟨[0x44], true, ⟨0, 2048⟩⟩ := rfl
  have deeper : ∀ n, Reaches sampleRead sampleVolume.volumeSpace sampleVolume.root
      (List.replicate n [0x44] ++ [[0x46]]) ⟨[0x46], false, ⟨1, 5⟩⟩ := by
    intro n
    induction n with
    | zero => exact file
    | succ n ih => exact .step valid inner rfl ih
  have denotes : PathDenotes sampleRead sampleVolume samplePath sampleNames ⟨[0x46], false, ⟨1, 5⟩⟩ :=
    ⟨⟨by decide, by decide, by decide⟩, deeper 8, (deeper 8).inside⟩
  have found := (claim sampleRead sampleVolume samplePath ⟨1, 5⟩).mpr ⟨_, _, denotes, rfl⟩
  have refused : (lookupIso9660File sampleRead sampleVolume samplePath).1.extent = none := by decide
  rw [refused] at found
  contradiction

end Segarecomp.Media.Iso9660

import Segarecomp.Genesis.Z80Images

/-! The runtime's selection of a compiled image at an epoch, against the ordinals the registry gave
out when it was filled. -/

namespace Segarecomp.Genesis.Z80Images

/-! ## The runtime -/

/-- The inner loop of `genesis_z80_activation_signature`: the end of a run of written bytes. -/
def runEnd (written : ℕ → Byte) : ℕ → ℕ → ℕ
  | 0, stop => stop
  | fuel + 1, stop =>
    if stop < kRamBytes ∧ writtenBit written stop = true then runEnd written fuel (stop + 1)
    else stop

def signatureLoop (ram written : ℕ → Byte) : ℕ → ℕ → ℕ × List Byte → ℕ × List Byte
  | 0, _, acc => acc
  | fuel + 1, offset, (runs, message) =>
    if offset < kRamBytes then
      if writtenBit written offset then
        let stop := runEnd written kRamBytes offset
        let header := u16 offset ++ u16 (stop - offset)
        signatureLoop ram written fuel stop
          (runs + 1, message ++ header ++ slice ram offset (stop - offset))
      else signatureLoop ram written fuel (offset + 1) (runs, message)
    else (runs, message)

structure Machine where
  boundOrdinal : ℕ := 0
  lastBound : ℕ := 0
  soundFaulted : Bool := false
  quiesceUnknownImage : Bool := false

/-- What `activate_image` leaves, whether it reported the epoch as unknown, and whether it stopped. -/
structure Activation where
  machine : Machine
  unknown : Bool := false
  stopped : Bool := false

section Runtime

variable {Digest : Type} [DecidableEq Digest] (sha256 : List Byte → Digest)

def activationSignature (epoch : Epoch) : ℕ × Digest :=
  let (runs, message) :=
    signatureLoop epoch.ram epoch.written (kRamBytes + 1) 0 (0, kSignatureTag)
  (runs, sha256 message)

def activateImage (table : List Digest) (machine : Machine) (epoch : Epoch) : Activation :=
  if machine.soundFaulted then { machine }
  else
    let (extents, signature) := activationSignature sha256 epoch
    if extents = 0 ∧ machine.lastBound ≠ 0 then
      { machine := { machine with boundOrdinal := machine.lastBound } }
    else
      let ordinal := imageForSignature table signature
      if ordinal = 0 then
        { machine := { machine with boundOrdinal := 0 }
          unknown := true
          stopped := !machine.quiesceUnknownImage }
      else { machine := { machine with boundOrdinal := ordinal, lastBound := ordinal } }

end Runtime

/-! ## Both walks find the same runs -/

/-- The runs of written bytes from `offset` on, `remaining` bytes; `start` is the run in progress. -/
def runsFrom (written : ℕ → Byte) : Option ℕ → ℕ → ℕ → List Extent
  | none, 0, _ => []
  | some start, 0, offset => [⟨start, offset - start⟩]
  | none, remaining + 1, offset =>
    if writtenBit written offset then runsFrom written (some offset) remaining (offset + 1)
    else runsFrom written none remaining (offset + 1)
  | some start, remaining + 1, offset =>
    if writtenBit written offset then runsFrom written (some start) remaining (offset + 1)
    else ⟨start, offset - start⟩ :: runsFrom written none remaining (offset + 1)

section Runs

variable {written ram : ℕ → Byte}

def finish (stop : ℕ) (walk : ExtentWalk) : List Extent :=
  if walk.isOpen then walk.runs ++ [⟨walk.start, stop - walk.start⟩] else walk.runs

def startOf (walk : ExtentWalk) : Option ℕ := if walk.isOpen then some walk.start else none

variable (written) in
theorem finish_foldl (remaining offset : ℕ) (walk : ExtentWalk) :
    finish (offset + remaining) ((List.range' offset remaining).foldl (extentStep written) walk) =
      walk.runs ++ runsFrom written (startOf walk) remaining offset := by
  induction remaining generalizing offset walk with
  | zero => cases opened : walk.isOpen <;> simp [finish, startOf, opened, runsFrom]
  | succ remaining ih =>
      rw [List.range'_succ, List.foldl_cons, show offset + (remaining + 1) = offset + 1 + remaining by
        omega, ih]
      cases opened : walk.isOpen <;> cases bit : writtenBit written offset <;>
        simp [extentStep, startOf, opened, bit, runsFrom]

theorem extents_eq (written : ℕ → Byte) : extents written = runsFrom written none kRamBytes 0 := by
  have walk := finish_foldl written kRamBytes 0 {}
  rw [Nat.zero_add, ← List.range_eq_range'] at walk
  exact walk

theorem runEnd_ge (fuel offset : ℕ) : offset ≤ runEnd written fuel offset := by
  induction fuel generalizing offset with
  | zero => exact Nat.le_refl _
  | succ fuel ih =>
      rw [runEnd]
      split_ifs
      · exact (Nat.le_succ _).trans (ih _)
      · exact Nat.le_refl _

theorem runEnd_le {fuel offset : ℕ} (h : offset ≤ kRamBytes) :
    runEnd written fuel offset ≤ kRamBytes := by
  induction fuel generalizing offset with
  | zero => exact h
  | succ fuel ih =>
      rw [runEnd]
      split_ifs with more
      · exact ih more.1
      · exact h

theorem runsFrom_some (start : ℕ) {remaining offset : ℕ} (fuel : ℕ)
    (total : offset + remaining = kRamBytes) (enough : remaining ≤ fuel) :
    runsFrom written (some start) remaining offset =
      ⟨start, runEnd written fuel offset - start⟩ ::
        runsFrom written none (kRamBytes - runEnd written fuel offset)
          (runEnd written fuel offset) := by
  induction remaining generalizing offset fuel with
  | zero =>
      have stop : runEnd written fuel offset = offset := by
        cases fuel with
        | zero => rfl
        | succ fuel => rw [runEnd, if_neg (by omega)]
      have none_left : kRamBytes - offset = 0 := by omega
      rw [stop, none_left]
      rfl
  | succ remaining ih =>
      obtain ⟨fuel, rfl⟩ : ∃ f, fuel = f + 1 := ⟨fuel - 1, by omega⟩
      cases bit : writtenBit written offset with
      | true =>
          rw [runEnd, if_pos ⟨by omega, bit⟩]
          have next := ih fuel (by omega : offset + 1 + remaining = kRamBytes) (by omega)
          simpa [runsFrom, bit] using next
      | false =>
          have left : kRamBytes - offset = remaining + 1 := by omega
          rw [runEnd, if_neg (by simp [bit]), left]
          simp [runsFrom, bit]

def runBytes (ram : ℕ → Byte) (run : Extent) : List Byte :=
  u16 run.offset ++ u16 run.length ++ slice ram run.offset run.length

theorem signatureLoop_eq {fuel offset runs : ℕ} {message : List Byte} (inside : offset ≤ kRamBytes)
    (enough : kRamBytes - offset < fuel) :
    signatureLoop ram written fuel offset (runs, message) =
      (runs + (runsFrom written none (kRamBytes - offset) offset).length,
        message ++ (runsFrom written none (kRamBytes - offset) offset).flatMap (runBytes ram)) := by
  induction fuel generalizing offset runs message with
  | zero => omega
  | succ fuel ih =>
      rw [signatureLoop]
      by_cases more : offset < kRamBytes
      · rw [if_pos more]
        obtain ⟨remaining, left⟩ : ∃ r, kRamBytes - offset = r + 1 :=
          ⟨kRamBytes - offset - 1, by omega⟩
        rw [left]
        cases bit : writtenBit written offset with
        | true =>
            have first_stop : runEnd written kRamBytes offset = runEnd written 8191 (offset + 1) := by
              change runEnd written (8191 + 1) offset = _
              rw [runEnd, if_pos ⟨more, bit⟩]
            have stop_gt : offset + 1 ≤ runEnd written kRamBytes offset := by
              rw [first_stop]
              exact runEnd_ge _ _
            have stop_le : runEnd written kRamBytes offset ≤ kRamBytes := runEnd_le more.le
            have total : offset + 1 + remaining = kRamBytes := by omega
            have run : runsFrom written (some offset) remaining (offset + 1) =
                ⟨offset, runEnd written kRamBytes offset - offset⟩ ::
                  runsFrom written none (kRamBytes - runEnd written kRamBytes offset)
                    (runEnd written kRamBytes offset) := by
              rw [first_stop]
              exact runsFrom_some offset 8191 total (by simp only [kRamBytes] at total; omega)
            simp only [if_true]
            rw [ih stop_le (by omega)]
            simp only [runsFrom, bit, if_true, run]
            simp [runBytes, Nat.add_assoc, Nat.add_comm 1]
        | false =>
            have rest : kRamBytes - (offset + 1) = remaining := by omega
            simp only [Bool.false_eq_true, if_false]
            rw [ih more (by omega), rest]
            simp [runsFrom, bit]
      · rw [if_neg more]
        have none_left : kRamBytes - offset = 0 := by omega
        rw [none_left]
        simp [runsFrom]

end Runs

section Agreement

variable {Digest : Type} (sha256 : List Byte → Digest)

/-- The runtime computes the registry's signature, and counts its extents. -/
theorem activationSignature_eq (epoch : Epoch) :
    activationSignature sha256 epoch =
      ((extents epoch.written).length, signatureDigest sha256 epoch) := by
  have walk : signatureLoop epoch.ram epoch.written (kRamBytes + 1) 0 (0, kSignatureTag) =
      (0 + (extents epoch.written).length,
        kSignatureTag ++ (extents epoch.written).flatMap (runBytes epoch.ram)) := by
    rw [extents_eq]
    exact signatureLoop_eq (Nat.zero_le kRamBytes) (Nat.lt_succ_self _)
  rw [activationSignature, walk, Nat.zero_add]
  rfl

variable [DecidableEq Digest]

/-! ## Filling a registry and replaying its epochs -/

/-- Adds the epochs in order; each answer with the ordinal it bound. -/
def addAll (registry : Registry Digest) : List Epoch → List (AddOutcome × ℕ) × Registry Digest
  | [] => ([], registry)
  | epoch :: epochs =>
    let (outcome, bound, next) := registry.add sha256 epoch .runnableEpochSnapshot "" 0
    let (answers, last) := addAll next epochs
    ((outcome, bound) :: answers, last)

def replay (table : List Digest) (machine : Machine) : List Epoch → List Activation
  | [] => []
  | epoch :: epochs =>
    let activation := activateImage sha256 table machine epoch
    activation :: replay table activation.machine epochs

/-- Ordinals are the places in the registry, counted from 1. -/
def Ordered (images : List (Image Digest)) : Prop :=
  ∀ i, ∀ h : i < images.length, (images[i]).ordinal = i + 1

/-- An empty hold window of a program in which an image has been bound. -/
def Restarts (lastBound : ℕ) (epoch : Epoch) : Prop := extents epoch.written = [] ∧ lastBound ≠ 0

section Steps

variable {registry next : Registry Digest} {epoch : Epoch} {derivation : Derivation}
  {proof : String} {bound answer : ℕ} {outcome : AddOutcome}

theorem add_cases (h : registry.add sha256 epoch derivation proof bound = (outcome, answer, next)) :
    (Restarts registry.lastBound epoch ∧
      outcome = .restart ∧ answer = registry.lastBound ∧ next = registry) ∨
    (¬ Restarts registry.lastBound epoch ∧
      ((∃ image,
          registry.images.find? (fun image => image.signature = signatureDigest sha256 epoch) =
            some image ∧
          outcome = .existing ∧ answer = image.ordinal ∧
          next = { registry with lastBound := image.ordinal }) ∨
        (registry.images.find? (fun image => image.signature = signatureDigest sha256 epoch) = none ∧
          kMaxImages ≤ registry.images.length ∧ outcome = .boundExceeded ∧ next = registry) ∨
        (registry.images.find? (fun image => image.signature = signatureDigest sha256 epoch) = none ∧
          registry.images.length < kMaxImages ∧ outcome = .added ∧
          answer = registry.images.length + 1 ∧
          ∃ image : Image Digest, image.signature = signatureDigest sha256 epoch ∧
            image.ordinal = registry.images.length + 1 ∧
            next = ⟨registry.images ++ [image], registry.images.length + 1⟩))) := by
  rw [Registry.add] at h
  dsimp only at h
  split_ifs at h with restart full
  · obtain ⟨rfl, rfl, rfl⟩ : _ ∧ _ ∧ _ := by simpa using h
    left
    refine ⟨?_, rfl, rfl, rfl⟩
    simpa [Restarts] using restart
  all_goals
    have goes_on : ¬ Restarts registry.lastBound epoch := by simpa [Restarts] using restart
    right
    refine ⟨goes_on, ?_⟩
    cases found : registry.images.find?
      (fun image => image.signature = signatureDigest sha256 epoch) with
    | some image =>
        rw [found] at h
        obtain ⟨rfl, rfl, rfl⟩ : _ ∧ _ ∧ _ := by simpa using h
        exact .inl ⟨image, rfl, rfl, rfl, rfl⟩
    | none =>
        rw [found] at h
        right
        dsimp only at h
        obtain ⟨rfl, rfl, rfl⟩ : _ ∧ _ ∧ _ := by simpa using h
        first
          | exact .inl ⟨rfl, full, rfl, rfl⟩
          | exact .inr ⟨rfl, Nat.lt_of_not_le full, rfl, rfl, _, rfl, rfl, rfl⟩

theorem imageForSignature_known {images : List (Image Digest)} {image : Image Digest}
    {signature : Digest} (later : List Digest) (ordered : Ordered images)
    (found : images.find? (fun image => image.signature = signature) = some image) :
    imageForSignature (images.map Image.signature ++ later) signature = image.ordinal := by
  obtain ⟨same, i, hi, rfl, before⟩ := List.find?_eq_some_iff_getElem.mp found
  have index : images.findIdx? ((fun entry => decide (entry = signature)) ∘ Image.signature) =
      some i := by
    rw [List.findIdx?_eq_some_iff_getElem]
    exact ⟨hi, same, fun j hj => by simpa using before j hj⟩
  rw [imageForSignature, List.findIdx?_append, List.findIdx?_map, index, ordered i hi]
  rfl

theorem imageForSignature_new {images : List (Image Digest)} {signature : Digest}
    (later : List Digest)
    (absent : images.find? (fun image => image.signature = signature) = none) :
    imageForSignature (images.map Image.signature ++ signature :: later) signature =
      images.length + 1 := by
  have index : images.findIdx? ((fun entry => decide (entry = signature)) ∘ Image.signature) =
      none := by
    rw [List.findIdx?_eq_none_iff]
    intro image member
    simpa using List.find?_eq_none.mp absent image member
  rw [imageForSignature, List.findIdx?_append, List.findIdx?_map, index]
  simp [List.findIdx?_cons]

theorem imageForSignature_absent {images : List (Image Digest)} {signature : Digest}
    (unknown : imageForSignature (images.map Image.signature) signature = 0) :
    images.find? (fun image => image.signature = signature) = none := by
  cases found : images.find? (fun image => image.signature = signature) with
  | none => rfl
  | some image =>
      obtain ⟨same, i, hi, rfl, before⟩ := List.find?_eq_some_iff_getElem.mp found
      have index : images.findIdx? ((fun entry => decide (entry = signature)) ∘ Image.signature) =
          some i := by
        rw [List.findIdx?_eq_some_iff_getElem]
        exact ⟨hi, same, fun j hj => by simpa using before j hj⟩
      rw [imageForSignature, List.findIdx?_map, index] at unknown
      exact absurd unknown (Nat.succ_ne_zero i)

/-- A registry only grows, and its ordinals stay its places. -/
theorem add_grows (h : registry.add sha256 epoch derivation proof bound = (outcome, answer, next))
    (ordered : Ordered registry.images) :
    Ordered next.images ∧ ∃ later, next.signatures = registry.signatures ++ later := by
  rcases add_cases sha256 h with ⟨-, -, -, rfl⟩ | ⟨-, ⟨image, -, -, -, rfl⟩ | ⟨-, -, -, rfl⟩ |
    ⟨-, -, -, -, image, -, ordinal, rfl⟩⟩
  · exact ⟨ordered, [], (List.append_nil _).symm⟩
  · exact ⟨ordered, [], (List.append_nil _).symm⟩
  · exact ⟨ordered, [], (List.append_nil _).symm⟩
  · refine ⟨?_, [image.signature], by simp [Registry.signatures]⟩
    intro i hi
    rcases Nat.lt_or_ge i registry.images.length with old | new
    · simpa [List.getElem_append_left old] using ordered i old
    · have last : i = registry.images.length := by
        simp only [List.length_append, List.length_singleton] at hi
        omega
      subst last
      simpa using ordinal

/-- The machine remembers the binding the registry does. -/
structure Agrees (registry : Registry Digest) (machine : Machine) : Prop where
  lastBound : machine.lastBound = registry.lastBound
  running : machine.soundFaulted = false
  ordered : Ordered registry.images

theorem activateImage_restart {table : List Digest} {machine : Machine}
    (running : machine.soundFaulted = false) (restarts : Restarts machine.lastBound epoch) :
    activateImage sha256 table machine epoch =
      { machine := { machine with boundOrdinal := machine.lastBound } } := by
  rw [activateImage, running, activationSignature_eq, if_neg Bool.false_ne_true]
  exact if_pos ⟨by rw [restarts.1]; rfl, restarts.2⟩

theorem activateImage_lookup {table : List Digest} {machine : Machine}
    (running : machine.soundFaulted = false) (fresh : ¬ Restarts machine.lastBound epoch) :
    activateImage sha256 table machine epoch =
      let ordinal := imageForSignature table (signatureDigest sha256 epoch)
      if ordinal = 0 then
        { machine := { machine with boundOrdinal := 0 }
          unknown := true
          stopped := !machine.quiesceUnknownImage }
      else { machine := { machine with boundOrdinal := ordinal, lastBound := ordinal } } := by
  rw [activateImage, running, activationSignature_eq, if_neg Bool.false_ne_true]
  have no_restart : ¬ ((extents epoch.written).length = 0 ∧ machine.lastBound ≠ 0) := by
    intro restart
    exact fresh ⟨List.eq_nil_of_length_eq_zero restart.1, restart.2⟩
  exact if_neg no_restart

/-- One epoch: with a table that holds at least the registry after it, the runtime binds what
`Registry::add` answered. -/
theorem activate_follows_add {machine : Machine} (agrees : Agrees registry machine)
    (h : registry.add sha256 epoch derivation proof bound = (outcome, answer, next))
    (room : outcome ≠ .boundExceeded) (later : List Digest) :
    let activation := activateImage sha256 (next.signatures ++ later) machine epoch
    activation.machine.boundOrdinal = answer ∧ activation.unknown = false ∧
      activation.stopped = false ∧ Agrees next activation.machine := by
  obtain ⟨ordered, -⟩ := add_grows sha256 h agrees.ordered
  rcases add_cases sha256 h with ⟨restarts, -, rfl, rfl⟩ |
    ⟨fresh, ⟨image, found, -, rfl, rfl⟩ | ⟨-, -, full, -⟩ |
      ⟨absent, -, -, rfl, image, signature, ordinal, rfl⟩⟩
  · rw [← agrees.lastBound] at restarts
    rw [activateImage_restart sha256 agrees.running restarts]
    exact ⟨agrees.lastBound, rfl, rfl, agrees.lastBound, agrees.running, ordered⟩
  · rw [← agrees.lastBound] at fresh
    rw [activateImage_lookup sha256 agrees.running fresh]
    have known := imageForSignature_known later agrees.ordered found
    have nonzero : image.ordinal ≠ 0 := by
      obtain ⟨-, i, hi, rfl, -⟩ := List.find?_eq_some_iff_getElem.mp found
      rw [agrees.ordered i hi]
      exact Nat.succ_ne_zero i
    simp only [Registry.signatures, known, if_neg nonzero]
    exact ⟨trivial, trivial, trivial, rfl, agrees.running, ordered⟩
  · exact absurd full room
  · rw [← agrees.lastBound] at fresh
    rw [activateImage_lookup sha256 agrees.running fresh]
    have new := imageForSignature_new later absent
    have table : (Registry.signatures
          ⟨registry.images ++ [image], registry.images.length + 1⟩) ++ later =
        registry.images.map Image.signature ++ signatureDigest sha256 epoch :: later := by
      simp [Registry.signatures, signature]
    simp only [table, new, if_neg (Nat.succ_ne_zero _)]
    exact ⟨trivial, trivial, trivial, rfl, agrees.running, ordered⟩

theorem addAll_cons (registry : Registry Digest) (epoch : Epoch) (epochs : List Epoch)
    (h : registry.add sha256 epoch .runnableEpochSnapshot "" 0 = (outcome, answer, next)) :
    addAll sha256 registry (epoch :: epochs) =
      ((outcome, answer) :: (addAll sha256 next epochs).1, (addAll sha256 next epochs).2) := by
  rw [addAll, h]

theorem addAll_grows (ordered : Ordered registry.images) (epochs : List Epoch) :
    ∃ later, (addAll sha256 registry epochs).2.signatures = registry.signatures ++ later := by
  induction epochs generalizing registry with
  | nil => exact ⟨[], (List.append_nil _).symm⟩
  | cons epoch epochs ih =>
      rcases h : registry.add sha256 epoch .runnableEpochSnapshot "" 0 with ⟨outcome, answer, next⟩
      obtain ⟨ordered', first, grown⟩ := add_grows sha256 h ordered
      obtain ⟨rest, total⟩ := ih ordered'
      rw [addAll_cons sha256 registry epoch epochs h]
      exact ⟨first ++ rest, by rw [total, grown, List.append_assoc]⟩

/-- A whole run of epochs, against the tables of the registry after the last of them. -/
theorem replay_follows {machine : Machine} (agrees : Agrees registry machine) (epochs : List Epoch)
    (room : ∀ a ∈ (addAll sha256 registry epochs).1, a.1 ≠ .boundExceeded) (later : List Digest) :
    (replay sha256 ((addAll sha256 registry epochs).2.signatures ++ later) machine epochs).map
        (fun activation => (activation.machine.boundOrdinal, activation.unknown, activation.stopped)) =
      (addAll sha256 registry epochs).1.map (fun a => (a.2, false, false)) := by
  induction epochs generalizing registry machine with
  | nil => rfl
  | cons epoch epochs ih =>
      rcases h : registry.add sha256 epoch .runnableEpochSnapshot "" 0 with ⟨outcome, answer, next⟩
      have unfolded := addAll_cons sha256 registry epoch epochs h
      rw [unfolded] at room ⊢
      have ordered' := (add_grows sha256 h agrees.ordered).1
      obtain ⟨more, grown⟩ := addAll_grows sha256 ordered' epochs
      have table : (addAll sha256 next epochs).2.signatures ++ later =
          next.signatures ++ (more ++ later) := by rw [grown, List.append_assoc]
      obtain ⟨bound, known, going, agrees'⟩ :=
        activate_follows_add sha256 agrees h (room _ List.mem_cons_self) (more ++ later)
      rw [← table] at bound known going agrees'
      have rest := ih agrees' (fun a ha => room a (List.mem_cons_of_mem _ ha))
      rw [replay, List.map_cons, List.map_cons, bound, known, going, rest]

/-- What discovery needs of an epoch the runtime reported as unknown. -/
def Progresses (registry : Registry Digest) (epoch : Epoch) : Prop :=
  (registry.add sha256 epoch .runnableEpochSnapshot "" 0).1 = .added ∨
    kMaxImages ≤ registry.images.length

theorem unknown_absent {machine : Machine}
    (unknown : (activateImage sha256 registry.signatures machine epoch).unknown = true) :
    ¬ Restarts machine.lastBound epoch ∧
      registry.images.find? (fun image => image.signature = signatureDigest sha256 epoch) = none := by
  have running : machine.soundFaulted = false := by
    by_contra faulted
    rw [Bool.not_eq_false] at faulted
    simp [activateImage, faulted] at unknown
  have fresh : ¬ Restarts machine.lastBound epoch := by
    intro restarts
    simp [activateImage_restart sha256 running restarts] at unknown
  refine ⟨fresh, imageForSignature_absent ?_⟩
  rw [activateImage_lookup sha256 running fresh] at unknown
  by_contra known
  simp only [Registry.signatures] at unknown
  simp [known] at unknown

/-- The registry takes an unknown epoch for a restart exactly when its hold window is empty and
something has been put into the registry before. -/
theorem progresses_iff {machine : Machine}
    (unknown : (activateImage sha256 registry.signatures machine epoch).unknown = true) :
    Progresses sha256 registry epoch ↔
      ¬ Restarts registry.lastBound epoch ∨ kMaxImages ≤ registry.images.length := by
  obtain ⟨-, absent⟩ := unknown_absent sha256 unknown
  rcases h : registry.add sha256 epoch .runnableEpochSnapshot "" 0 with ⟨outcome, answer, next⟩
  rw [Progresses, h]
  rcases add_cases sha256 h with ⟨restarts, rfl, -⟩ |
    ⟨fresh, ⟨image, found, -⟩ | ⟨-, full, -⟩ | ⟨-, -, rfl, -⟩⟩
  · simp [restarts]
  · rw [absent] at found
    cases found
  · simp [full]
  · simp [fresh]

end Steps

/-- From an empty registry the runtime binds what the build did. An epoch it does not know is
answered `added` unless the registry is full, or takes an empty hold window for a restart of what
was put into it before. -/
theorem selection_agrees :
    (∀ epochs quiesceUnknownImage,
      (∀ a ∈ (addAll sha256 {} epochs).1, a.1 ≠ .boundExceeded) →
      (replay sha256 (addAll sha256 {} epochs).2.signatures { quiesceUnknownImage } epochs).map
          (fun activation =>
            (activation.machine.boundOrdinal, activation.unknown, activation.stopped)) =
        (addAll sha256 {} epochs).1.map (fun a => (a.2, false, false))) ∧
    ∀ (registry : Registry Digest) (machine : Machine) (epoch : Epoch),
      (activateImage sha256 registry.signatures machine epoch).unknown = true →
      (Progresses sha256 registry epoch ↔
        ¬ Restarts registry.lastBound epoch ∨ kMaxImages ≤ registry.images.length) := by
  constructor
  · intro epochs quiesceUnknownImage room
    have empty : Ordered ([] : List (Image Digest)) := fun i h => absurd h (Nat.not_lt_zero i)
    have agrees : Agrees ({} : Registry Digest) { quiesceUnknownImage } := ⟨rfl, rfl, empty⟩
    have follows := replay_follows sha256 agrees epochs room []
    rw [List.append_nil] at follows
    exact follows
  · intro registry machine epoch unknown
    exact progresses_iff sha256 unknown

end Agreement

/-! ## A registry filled before the run -/

def silentEpoch : Epoch := ⟨fun _ => 0, fun _ => 0⟩

/-- The 68K has uploaded one byte, a `RET` at 0. -/
def uploadedEpoch : Epoch := ⟨fun i => if i = 0 then 0xC9 else 0, fun i => if i = 0 then 1 else 0⟩

theorem extents_silent : extents silentEpoch.written = [] := by
  have none_written : ∀ remaining offset,
      runsFrom silentEpoch.written none remaining offset = [] := by
    intro remaining
    induction remaining with
    | zero => exact fun _ => rfl
    | succ remaining ih =>
        intro offset
        have unwritten : writtenBit silentEpoch.written offset = false := by
          simp [writtenBit, silentEpoch]
        rw [runsFrom, unwritten]
        exact ih _
  rw [extents_eq]
  exact none_written _ _

theorem runsFrom_some_ne_nil (written : ℕ → Byte) (start remaining offset : ℕ) :
    runsFrom written (some start) remaining offset ≠ [] := by
  induction remaining generalizing offset with
  | zero => simp [runsFrom]
  | succ remaining ih =>
      rw [runsFrom]
      split_ifs
      · exact ih _
      · simp

theorem runsFrom_ne_nil {written : ℕ → Byte} {remaining offset : ℕ} (more : remaining ≠ 0)
    (first : writtenBit written offset = true) : runsFrom written none remaining offset ≠ [] := by
  cases remaining with
  | zero => exact absurd rfl more
  | succ remaining =>
      rw [runsFrom, if_pos first]
      exact runsFrom_some_ne_nil _ _ _ _

theorem extents_uploaded : extents uploadedEpoch.written ≠ [] := by
  have first : writtenBit uploadedEpoch.written 0 = true := by decide
  rw [extents_eq]
  exact runsFrom_ne_nil (by decide) first

theorem signature_ne : signatureDigest id uploadedEpoch ≠ signatureDigest id silentEpoch := by
  intro same
  have empty : (extents uploadedEpoch.written).flatMap (runBytes uploadedEpoch.ram) = [] := by
    have cancelled := List.append_cancel_left same
    rw [extents_silent] at cancelled
    exact cancelled
  obtain ⟨run, runs, nonempty⟩ := List.exists_cons_of_ne_nil extents_uploaded
  rw [nonempty] at empty
  simp [runBytes, u16] at empty

theorem add_uploaded : ∃ image : Image (List Byte),
    image.signature = signatureDigest id uploadedEpoch ∧
      Registry.add id {} uploadedEpoch .runnableEpochSnapshot "" 0 = (.added, 1, ⟨[image], 1⟩) := by
  rcases h : Registry.add id {} uploadedEpoch .runnableEpochSnapshot "" 0 with
    ⟨outcome, answer, next⟩
  rcases add_cases id h with ⟨restarts, -⟩ | ⟨-, ⟨image, found, -⟩ | ⟨-, full, -⟩ |
    ⟨-, -, rfl, rfl, image, signature, -, rfl⟩⟩
  · exact absurd rfl restarts.2
  · cases found
  · exact absurd full (by decide)
  · exact ⟨image, signature, rfl⟩

theorem addAll_uploaded (epochs : List Epoch) : ∃ image : Image (List Byte),
    image.signature = signatureDigest id uploadedEpoch ∧
      addAll id {} (uploadedEpoch :: epochs) =
        ((.added, 1) :: (addAll id ⟨[image], 1⟩ epochs).1, (addAll id ⟨[image], 1⟩ epochs).2) := by
  obtain ⟨image, signature, added⟩ := add_uploaded
  exact ⟨image, signature, addAll_cons id _ _ _ added⟩

theorem preloaded_unknown :
    (activateImage id (addAll id {} [uploadedEpoch]).2.signatures {} silentEpoch).unknown = true := by
  obtain ⟨image, signature, filled⟩ := addAll_uploaded []
  have fresh : ¬ Restarts 0 silentEpoch := fun restarts => restarts.2 rfl
  have other : ¬ image.signature = signatureDigest id silentEpoch := by
    rw [signature]
    exact signature_ne
  have absent : imageForSignature [image.signature] (signatureDigest id silentEpoch) = 0 := by
    rw [imageForSignature, List.findIdx?_cons, decide_eq_false other]
    rfl
  rw [activateImage_lookup id rfl fresh, filled]
  change (if imageForSignature [image.signature] (signatureDigest id silentEpoch) = 0 then
    _ else _ : Activation).unknown = true
  rw [if_pos absent]

theorem preloaded_restarts :
    Restarts (addAll id {} [uploadedEpoch]).2.lastBound silentEpoch := by
  obtain ⟨image, -, filled⟩ := addAll_uploaded []
  rw [filled]
  exact ⟨extents_silent, Nat.one_ne_zero⟩

theorem preloaded_room : ¬ kMaxImages ≤ (addAll id {} [uploadedEpoch]).2.images.length := by
  obtain ⟨image, -, filled⟩ := addAll_uploaded []
  rw [filled]
  exact Nat.not_le.mpr (by decide : 1 < kMaxImages)

theorem addAll_upload_restart :
    (addAll id {} [uploadedEpoch, silentEpoch]).1 = [(.added, 1), (.restart, 1)] := by
  obtain ⟨image, -, filled⟩ := addAll_uploaded [silentEpoch]
  have restart : Registry.add id ⟨[image], 1⟩ silentEpoch .runnableEpochSnapshot "" 0 =
      (.restart, 1, ⟨[image], 1⟩) := by
    rw [Registry.add, extents_silent]
    rfl
  rw [filled, addAll_cons id _ _ _ restart]
  rfl

/-- An upload and a restart; and, with the upload registered before the run, a program whose first
epoch has an empty hold window. -/
theorem selection_agrees_upload :
    (replay id (addAll id {} [uploadedEpoch, silentEpoch]).2.signatures {}
        [uploadedEpoch, silentEpoch]).map
          (fun activation =>
            (activation.machine.boundOrdinal, activation.unknown, activation.stopped)) =
      [(1, false, false), (1, false, false)] ∧
    ¬ Progresses id (addAll id {} [uploadedEpoch]).2 silentEpoch := by
  constructor
  · have room : ∀ a ∈ (addAll id {} [uploadedEpoch, silentEpoch]).1, a.1 ≠ .boundExceeded := by
      rw [addAll_upload_restart]
      decide
    rw [(selection_agrees id).1 [uploadedEpoch, silentEpoch] false room, addAll_upload_restart]
    rfl
  · rw [(selection_agrees id).2 _ {} silentEpoch preloaded_unknown, not_or, not_not]
    exact ⟨preloaded_restarts, preloaded_room⟩

/-- A registry filled before the run answers the program's first, empty epoch with a restart that
has not happened, so discovery does not get on. -/
theorem preloaded_epoch_not_added :
    ¬ ∀ sha256 : List Byte → List Byte, Function.Injective sha256 →
      ∀ (filled : List Epoch) (machine : Machine) (epoch : Epoch),
        (activateImage sha256 (addAll sha256 {} filled).2.signatures machine epoch).unknown = true →
        Progresses sha256 (addAll sha256 {} filled).2 epoch := by
  intro progress
  have added := progress id Function.injective_id [uploadedEpoch] {} silentEpoch preloaded_unknown
  rw [progresses_iff id preloaded_unknown] at added
  rcases added with fresh | full
  · exact fresh preloaded_restarts
  · exact preloaded_room full

end Segarecomp.Genesis.Z80Images

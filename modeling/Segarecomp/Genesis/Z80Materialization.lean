import Segarecomp.Genesis.M68kCopyAlias
import Segarecomp.Genesis.Z80Activation

/-! The build's fixed point over the Z80 images: passes of the program until one meets no image the
registry lacks, and a confirming run. How a program is built and run is a parameter. -/

namespace Segarecomp.Genesis.Z80Images

def kMaxDiscoveryRuns : ℕ := kMaxImages + 1

inductive PassOutcome
  | windowComplete | guestStop | guestComplete | unknownImage | budgetExhausted | wallTimeout
  | z80CodeMismatch | z80Stop | failed
  deriving DecidableEq, Repr

inductive Failure
  | none | z80ImageBoundExceeded | materializationBudgetExhausted | materializationNondeterministic
  | z80ImageCompileFailed | materializationNoConvergence | z80CodeMismatch | z80ExecutionUnsupported
  | materializationPassFailed
  deriving DecidableEq, Repr

structure PassEpoch (Digest : Type) where
  signature : Digest
  extents : ℕ
  deriving DecidableEq, Repr

/-- The Z80 was isolated during the run, which went on. -/
structure SoundFault where
  epochs : ℕ := 0
  masterTicks : ℕ := 0
  deriving DecidableEq, Repr

structure PassObservation (Digest : Type) where
  outcome : PassOutcome := .failed
  frames : ℕ := 0
  epochs : List (PassEpoch Digest) := []
  unknown : Option Epoch := none
  soundFault : Option SoundFault := none
  guestStop : Option M68kAlias.GuestStopRecord := none

structure PrepareFailure where
  stage : String := ""
  detail : String := ""
  deriving DecidableEq, Repr

/-- `PassRunner` over the states of its object. -/
structure PassRunner (Digest σ : Type) where
  prepare : Registry Digest → σ → Bool × σ
  prepareFailure : σ → PrepareFailure
  run : σ → PassObservation Digest × σ

structure MaterializationSummary (Digest : Type) where
  failure : Failure := .none
  prepareFailure : PrepareFailure := {}
  images : ℕ := 0
  discoveryRuns : ℕ := 0
  totalRuns : ℕ := 0
  epochs : ℕ := 0
  frames : ℕ := 0
  ending : PassOutcome := .failed
  soundFault : Option SoundFault := none
  guestStop : Option M68kAlias.GuestStopRecord := none
  activationOrder : List Digest := []
  activationEpoch : List ℕ := []

/-- What `materialize` works on: the caller's registry and runner, and the summary so far. -/
structure Materialization (Digest σ : Type) where
  registry : Registry Digest
  runner : σ
  summary : MaterializationSummary Digest := {}

inductive Iteration (Digest : Type)
  | failed (failure : Failure)
  | candidate (observed : PassObservation Digest)
  | registered (previous : List (PassEpoch Digest))

def isCandidate (outcome : PassOutcome) : Bool :=
  outcome = .windowComplete || outcome = .guestStop || outcome = .guestComplete

def terminalFailure : PassOutcome → Failure
  | .budgetExhausted | .wallTimeout => .materializationBudgetExhausted
  | .z80CodeMismatch => .z80CodeMismatch
  | .z80Stop => .z80ExecutionUnsupported
  | _ => .materializationPassFailed

section Materialize

variable {Digest σ : Type} [DecidableEq Digest]

def startsWith (longer earlier : List (PassEpoch Digest)) : Bool := earlier.isPrefixOf longer

structure Activations (Digest : Type) where
  order : List Digest := []
  epoch : List ℕ := []

/-- One epoch, counted from 1, of the confirming run: an empty hold window after the first epoch
re-binds nothing. -/
def recordActivation (activations : Activations Digest) (entry : PassEpoch Digest × ℕ) :
    Activations Digest :=
  if entry.1.extents = 0 ∧ activations.order ≠ [] then activations
  else if entry.1.signature ∈ activations.order then activations
  else
    { order := activations.order ++ [entry.1.signature]
      epoch := activations.epoch ++ [entry.2] }

def activationsOf (epochs : List (PassEpoch Digest)) : Activations Digest :=
  (epochs.zipIdx 1).foldl recordActivation {}

variable (sha256 : List Byte → Digest) (runner : PassRunner Digest σ)

def Materialization.fail (materialization : Materialization Digest σ) (failure : Failure) :
    Materialization Digest σ :=
  { materialization with
    summary := { materialization.summary with
      failure, images := materialization.registry.images.length } }

/-- `registry.add(*observed.unknown, bound)` and the checks after it. -/
def registerUnknown (materialization : Materialization Digest σ)
    (observed : PassObservation Digest) : Iteration Digest × Materialization Digest σ :=
  match observed.unknown, observed.epochs.getLast? with
  | some unknown, some last =>
    let (outcome, _, registry) :=
      materialization.registry.add sha256 unknown .runnableEpochSnapshot "" 0
    let materialization := { materialization with registry }
    if outcome = .boundExceeded then (.failed .z80ImageBoundExceeded, materialization)
    else if outcome ≠ .added ∨
        registry.images.getLast?.map Image.signature ≠ some last.signature then
      (.failed .materializationPassFailed, materialization)
    else (.registered observed.epochs, materialization)
  | _, _ => (.failed .materializationPassFailed, materialization)

/-- The body of the discovery loop. -/
def discoveryRun (materialization : Materialization Digest σ) (previous : List (PassEpoch Digest)) :
    Iteration Digest × Materialization Digest σ :=
  let (built, state) := runner.prepare materialization.registry materialization.runner
  if built = false then
    (.failed .z80ImageCompileFailed,
      { materialization with
        runner := state
        summary := { materialization.summary with prepareFailure := runner.prepareFailure state } })
  else
    let (observed, state) := runner.run state
    let summary := { materialization.summary with
      discoveryRuns := materialization.summary.discoveryRuns + 1
      totalRuns := materialization.summary.totalRuns + 1 }
    let materialization := { materialization with runner := state, summary }
    if startsWith observed.epochs previous = false then
      (.failed .materializationNondeterministic, materialization)
    else if isCandidate observed.outcome then (.candidate observed, materialization)
    else if observed.outcome ≠ .unknownImage then
      (.failed (terminalFailure observed.outcome), materialization)
    else registerUnknown sha256 materialization observed

def discover : ℕ → Materialization Digest σ → List (PassEpoch Digest) →
    Except Failure (PassObservation Digest) × Materialization Digest σ
  | 0, materialization, _ => (.error .materializationNoConvergence, materialization)
  | runs + 1, materialization, previous =>
    match discoveryRun sha256 runner materialization previous with
    | (.failed failure, materialization) => (.error failure, materialization)
    | (.candidate observed, materialization) => (.ok observed, materialization)
    | (.registered epochs, materialization) => discover runs materialization epochs

def differs (confirmed candidate : PassObservation Digest) : Bool :=
  confirmed.outcome ≠ candidate.outcome || confirmed.epochs ≠ candidate.epochs ||
    confirmed.frames ≠ candidate.frames || confirmed.soundFault ≠ candidate.soundFault ||
    confirmed.guestStop.map (fun record => (record.pc, record.stopClass)) ≠
      candidate.guestStop.map (fun record => (record.pc, record.stopClass))

/-- The same program, run again. -/
def confirm (materialization : Materialization Digest σ) (candidate : PassObservation Digest) :
    Materialization Digest σ :=
  let (confirmed, state) := runner.run materialization.runner
  let summary := { materialization.summary with
    totalRuns := materialization.summary.totalRuns + 1 }
  let materialization := { materialization with runner := state, summary }
  if isCandidate confirmed.outcome = false then
    if confirmed.outcome = .unknownImage ∨ confirmed.outcome = .budgetExhausted ∨
        confirmed.outcome = .wallTimeout then
      materialization.fail .materializationNondeterministic
    else materialization.fail (terminalFailure confirmed.outcome)
  else if differs confirmed candidate then
    materialization.fail .materializationNondeterministic
  else
    let activations := activationsOf confirmed.epochs
    { materialization with
      summary := { materialization.summary with
        images := materialization.registry.images.length
        epochs := confirmed.epochs.length
        activationOrder := activations.order
        activationEpoch := activations.epoch
        frames := confirmed.frames
        ending := confirmed.outcome
        soundFault := confirmed.soundFault
        guestStop := confirmed.guestStop } }

def materialize (registry : Registry Digest) (state : σ) : Materialization Digest σ :=
  match discover sha256 runner kMaxDiscoveryRuns { registry, runner := state } [] with
  | (.error failure, materialization) => materialization.fail failure
  | (.ok candidate, materialization) => confirm runner materialization candidate

end Materialize

/-! ## First activations -/

section Activations

variable {Digest : Type} {epochs : List (PassEpoch Digest)} {activations : Activations Digest}

/-- A start of code already in the RAM: a later epoch with an empty hold window. -/
def PlainRestart (index : ℕ) (epoch : PassEpoch Digest) : Prop := epoch.extents = 0 ∧ index ≠ 0

/-- The `ordinal`-th epoch is the first that activates the signature. -/
def FirstAt (epochs : List (PassEpoch Digest)) (signature : Digest) (ordinal : ℕ) : Prop :=
  ∃ i epoch, ordinal = i + 1 ∧ epochs[i]? = some epoch ∧ epoch.signature = signature ∧
    ¬ PlainRestart i epoch ∧
    ∀ j < i, ∀ earlier, epochs[j]? = some earlier → earlier.signature = signature →
      PlainRestart j earlier

/-- The distinct signatures in the order of their first activations. -/
structure FirstActivations (epochs : List (PassEpoch Digest)) (activations : Activations Digest) :
    Prop where
  nodup : activations.order.Nodup
  length : activations.epoch.length = activations.order.length
  increasing : activations.epoch.Pairwise (· < ·)
  first : ∀ entry ∈ activations.order.zip activations.epoch, FirstAt epochs entry.1 entry.2
  listed : ∀ i epoch, epochs[i]? = some epoch → ¬ PlainRestart i epoch →
    epoch.signature ∈ activations.order

theorem getElem?_append_cases {epoch found : PassEpoch Digest} {i : ℕ}
    (h : (epochs ++ [epoch])[i]? = some found) :
    epochs[i]? = some found ∨ (i = epochs.length ∧ found = epoch) := by
  rcases Nat.lt_trichotomy i epochs.length with before | rfl | after
  · rw [List.getElem?_append_left before] at h
    exact .inl h
  · simp at h
    exact .inr ⟨rfl, h.symm⟩
  · rw [List.getElem?_eq_none (by simp; omega)] at h
    cases h

theorem FirstAt.append {signature : Digest} {ordinal : ℕ} (first : FirstAt epochs signature ordinal)
    (epoch : PassEpoch Digest) : FirstAt (epochs ++ [epoch]) signature ordinal := by
  rcases first with ⟨i, found, at_i, here, same, active, before⟩
  have inside : i < epochs.length := (List.getElem?_eq_some_iff.mp here).1
  refine ⟨i, found, at_i, ?_, same, active, ?_⟩
  · rw [List.getElem?_append_left inside]
    exact here
  · intro j earlier_index earlier h
    rw [List.getElem?_append_left (earlier_index.trans inside)] at h
    exact before j earlier_index earlier h

theorem FirstAt.le {signature : Digest} {ordinal : ℕ} (first : FirstAt epochs signature ordinal) :
    ordinal ≤ epochs.length := by
  rcases first with ⟨i, found, rfl, here, -⟩
  exact (List.getElem?_eq_some_iff.mp here).1

theorem FirstActivations.epoch_le (first : FirstActivations epochs activations) {ordinal : ℕ}
    (member : ordinal ∈ activations.epoch) : ordinal ≤ epochs.length := by
  rcases List.getElem_of_mem member with ⟨j, inside, rfl⟩
  have ordered : j < activations.order.length := first.length ▸ inside
  have paired : (activations.order[j], activations.epoch[j]) ∈
      activations.order.zip activations.epoch := by
    rw [List.mem_iff_getElem]
    exact ⟨j, by simpa [first.length] using inside, List.getElem_zip⟩
  exact (first.first _ paired).le

theorem FirstActivations.keep (first : FirstActivations epochs activations)
    {epoch : PassEpoch Digest}
    (known : ¬ PlainRestart epochs.length epoch → epoch.signature ∈ activations.order) :
    FirstActivations (epochs ++ [epoch]) activations where
  nodup := first.nodup
  length := first.length
  increasing := first.increasing
  first := fun entry member => (first.first entry member).append epoch
  listed := by
    intro i found here active
    rcases getElem?_append_cases here with old | ⟨rfl, rfl⟩
    · exact first.listed i found old active
    · exact known active

theorem FirstActivations.push (first : FirstActivations epochs activations)
    {epoch : PassEpoch Digest} (active : ¬ PlainRestart epochs.length epoch)
    (new : epoch.signature ∉ activations.order) :
    FirstActivations (epochs ++ [epoch])
      ⟨activations.order ++ [epoch.signature], activations.epoch ++ [epochs.length + 1]⟩ where
  nodup := by
    rw [List.nodup_append]
    refine ⟨first.nodup, List.nodup_singleton _, ?_⟩
    intro signature old other member
    rw [List.mem_singleton.mp member]
    exact fun same => new (same ▸ old)
  length := by simp [first.length]
  increasing := by
    rw [List.pairwise_append]
    refine ⟨first.increasing, List.pairwise_singleton _ _, ?_⟩
    intro ordinal old other member
    rw [List.mem_singleton.mp member]
    exact Nat.lt_succ_of_le (first.epoch_le old)
  first := by
    intro entry member
    rw [List.zip_append first.length.symm, List.mem_append] at member
    rcases member with old | last
    · exact (first.first entry old).append epoch
    · rw [List.zip_cons_cons, List.zip_nil_left, List.mem_singleton] at last
      subst last
      refine ⟨epochs.length, epoch, rfl, by simp, rfl, active, ?_⟩
      intro j before earlier here same
      rw [List.getElem?_append_left before] at here
      by_contra activated
      have listed := first.listed j earlier here activated
      rw [same] at listed
      exact new listed
  listed := by
    intro i found here found_active
    rcases getElem?_append_cases here with old | ⟨rfl, rfl⟩
    · exact List.mem_append_left _ (first.listed i found old found_active)
    · exact List.mem_append_right _ (List.mem_singleton_self _)

variable [DecidableEq Digest]

theorem activationsOf_append (epochs : List (PassEpoch Digest)) (epoch : PassEpoch Digest) :
    activationsOf (epochs ++ [epoch]) =
      recordActivation (activationsOf epochs) (epoch, epochs.length + 1) := by
  simp [activationsOf, List.zipIdx_append, Nat.add_comm]

theorem order_ne_nil (epochs : List (PassEpoch Digest)) :
    (activationsOf epochs).order ≠ [] ↔ epochs ≠ [] := by
  induction epochs using List.reverseRecOn with
  | nil => simp [activationsOf]
  | append_singleton epochs epoch ih =>
      have filled :
          (recordActivation (activationsOf epochs) (epoch, epochs.length + 1)).order ≠ [] := by
        rw [recordActivation]
        split_ifs with skipped old
        · exact skipped.2
        · exact List.ne_nil_of_mem old
        · simp
      rw [activationsOf_append]
      exact iff_of_true filled (by simp)

theorem firstActivations (epochs : List (PassEpoch Digest)) :
    FirstActivations epochs (activationsOf epochs) := by
  induction epochs using List.reverseRecOn with
  | nil => exact ⟨List.nodup_nil, rfl, List.Pairwise.nil, by simp [activationsOf], by simp⟩
  | append_singleton epochs epoch ih =>
      have started : (activationsOf epochs).order ≠ [] ↔ epochs.length ≠ 0 := by
        rw [order_ne_nil, ne_eq, ne_eq, List.length_eq_zero_iff]
      rw [activationsOf_append, recordActivation]
      split_ifs with skipped old
      · exact ih.keep fun active => absurd ⟨skipped.1, started.mp skipped.2⟩ active
      · exact ih.keep fun _ => old
      · have active : ¬ PlainRestart epochs.length epoch :=
          fun restart => skipped ⟨restart.1, started.mpr restart.2⟩
        exact ih.push active old

end Activations

/-! ## What the runtime selects at the epochs of a pass -/

section Selection

variable {Digest : Type} [DecidableEq Digest]

/-- The ordinal bound at an epoch; 0 reports it. -/
def bindOrdinal (table : List Digest) (lastBound : ℕ) (epoch : PassEpoch Digest) : ℕ :=
  if epoch.extents = 0 ∧ lastBound ≠ 0 then lastBound else imageForSignature table epoch.signature

/-- The binding an epoch leaves, which a reported one does not touch. -/
def boundAfter (table : List Digest) (lastBound : ℕ) (epoch : PassEpoch Digest) : ℕ :=
  if bindOrdinal table lastBound epoch = 0 then lastBound else bindOrdinal table lastBound epoch

def boundOrdinals (table : List Digest) : ℕ → List (PassEpoch Digest) → List ℕ
  | _, [] => []
  | lastBound, epoch :: epochs =>
    bindOrdinal table lastBound epoch :: boundOrdinals table (boundAfter table lastBound epoch) epochs

theorem boundOrdinals_nil (table : List Digest) (lastBound : ℕ) : boundOrdinals table lastBound [] = [] := rfl

theorem boundOrdinals_cons (table : List Digest) (lastBound : ℕ) (epoch : PassEpoch Digest)
    (epochs : List (PassEpoch Digest)) :
    boundOrdinals table lastBound (epoch :: epochs) =
      bindOrdinal table lastBound epoch :: boundOrdinals table (boundAfter table lastBound epoch) epochs := rfl

/-- The epochs up to the first image unknown to the table, that one included. -/
def upToUnknown (table : List Digest) : ℕ → List (PassEpoch Digest) → List (PassEpoch Digest)
  | _, [] => []
  | lastBound, epoch :: epochs =>
    if bindOrdinal table lastBound epoch = 0 then [epoch]
    else epoch :: upToUnknown table (boundAfter table lastBound epoch) epochs

theorem upToUnknown_cons (table : List Digest) (lastBound : ℕ) (epoch : PassEpoch Digest)
    (epochs : List (PassEpoch Digest)) :
    upToUnknown table lastBound (epoch :: epochs) =
      if bindOrdinal table lastBound epoch = 0 then [epoch]
      else epoch :: upToUnknown table (boundAfter table lastBound epoch) epochs := rfl

/-- An epoch as a pass reports it. -/
def passEpoch (sha256 : List Byte → Digest) (epoch : Epoch) : PassEpoch Digest :=
  ⟨(activationSignature sha256 epoch).2, (activationSignature sha256 epoch).1⟩

section Replay

variable (sha256 : List Byte → Digest) {table : List Digest} {machine : Machine}

omit [DecidableEq Digest] in
theorem passEpoch_eq (epoch : Epoch) :
    passEpoch sha256 epoch = ⟨signatureDigest sha256 epoch, (extents epoch.written).length⟩ := by
  rw [passEpoch, activationSignature_eq]

end Replay

variable {table : List Digest} {lastBound : ℕ} {epoch : PassEpoch Digest}
  {epochs : List (PassEpoch Digest)}

theorem imageForSignature_eq_zero {signature : Digest} :
    imageForSignature table signature = 0 ↔ signature ∉ table := by
  rw [imageForSignature]
  cases found : table.findIdx? (fun entry => entry = signature) with
  | none =>
      have absent := List.findIdx?_eq_none_iff.mp found
      exact iff_of_true rfl fun member => by simpa using absent signature member
  | some index =>
      rcases List.findIdx?_eq_some_iff_getElem.mp found with ⟨inside, here, -⟩
      have member : signature ∈ table := by
        have same : table[index] = signature := by simpa using here
        exact same ▸ List.getElem_mem inside
      exact iff_of_false (Nat.succ_ne_zero index) (not_not.mpr member)

theorem imageForSignature_getElem (distinct : table.Nodup) {index : ℕ}
    (inside : index < table.length) : imageForSignature table table[index] = index + 1 := by
  have found : table.findIdx? (fun entry => entry = table[index]) = some index := by
    rw [List.findIdx?_eq_some_iff_getElem]
    refine ⟨inside, by simp, ?_⟩
    intro j before
    have apart : table[j] ≠ table[index] := by
      intro same
      have equal := (List.Nodup.getElem_inj_iff distinct).mp same
      omega
    simpa using apart
  rw [imageForSignature, found]

theorem imageForSignature_le (table : List Digest) (signature : Digest) :
    imageForSignature table signature ≤ table.length := by
  rw [imageForSignature]
  cases found : table.findIdx? (fun entry => entry = signature) with
  | none => exact Nat.zero_le _
  | some index => exact (List.findIdx?_eq_some_iff_getElem.mp found).1

theorem bindOrdinal_eq_zero (unknown : bindOrdinal table lastBound epoch = 0) :
    epoch.signature ∉ table ∧ (epoch.extents = 0 → lastBound = 0) := by
  rw [bindOrdinal] at unknown
  split_ifs at unknown with restart
  · exact absurd unknown restart.2
  · refine ⟨imageForSignature_eq_zero.mp unknown, fun silent => ?_⟩
    by_contra bound
    exact restart ⟨silent, bound⟩

theorem bindOrdinal_le (bound : lastBound ≤ table.length) (epoch : PassEpoch Digest) :
    bindOrdinal table lastBound epoch ≤ table.length := by
  rw [bindOrdinal]
  split_ifs
  · exact bound
  · exact imageForSignature_le table epoch.signature

theorem boundAfter_of_ne_zero (known : bindOrdinal table lastBound epoch ≠ 0) :
    boundAfter table lastBound epoch = bindOrdinal table lastBound epoch := if_neg known

theorem boundOrdinals_append (earlier later : List (PassEpoch Digest)) :
    boundOrdinals table lastBound (earlier ++ later) =
      boundOrdinals table lastBound earlier ++
        boundOrdinals table (earlier.foldl (boundAfter table) lastBound) later := by
  induction earlier generalizing lastBound with
  | nil => rfl
  | cons epoch earlier ih => rw [List.cons_append, boundOrdinals_cons, ih]; rfl

theorem boundOrdinals_le (bound : lastBound ≤ table.length) :
    ∀ ordinal ∈ boundOrdinals table lastBound epochs, ordinal ≤ table.length := by
  induction epochs generalizing lastBound with
  | nil => simp [boundOrdinals_nil]
  | cons epoch epochs ih =>
      intro ordinal member
      have here := bindOrdinal_le bound epoch
      have after : boundAfter table lastBound epoch ≤ table.length := by
        rw [boundAfter]
        split_ifs
        · exact bound
        · exact here
      rcases List.mem_cons.mp member with rfl | later
      · exact here
      · exact ih after ordinal later

theorem foldl_boundAfter_ne_zero (known : 0 ∉ boundOrdinals table lastBound epochs)
    (started : epochs ≠ []) : epochs.foldl (boundAfter table) lastBound ≠ 0 := by
  induction epochs using List.reverseRecOn with
  | nil => exact absurd rfl started
  | append_singleton epochs epoch ih =>
      rw [boundOrdinals_append, List.mem_append, not_or] at known
      have here : bindOrdinal table (epochs.foldl (boundAfter table) lastBound) epoch ≠ 0 :=
        fun unknown => known.2 (by rw [boundOrdinals_cons, unknown]; exact List.mem_cons_self)
      rw [List.foldl_append, List.foldl_cons, List.foldl_nil, boundAfter_of_ne_zero here]
      exact here

theorem upToUnknown_prefix (epochs : List (PassEpoch Digest)) :
    upToUnknown table lastBound epochs <+: epochs := by
  induction epochs generalizing lastBound with
  | nil => exact List.prefix_rfl
  | cons epoch epochs ih =>
      rw [upToUnknown_cons]
      split_ifs
      · exact List.prefix_cons_inj epoch |>.mpr (List.nil_prefix)
      · exact List.prefix_cons_inj epoch |>.mpr ih

theorem upToUnknown_append (known : 0 ∉ boundOrdinals table lastBound epochs)
    (epoch : PassEpoch Digest) :
    upToUnknown table lastBound (epochs ++ [epoch]) = epochs ++ [epoch] := by
  induction epochs generalizing lastBound with
  | nil =>
      rw [List.nil_append, upToUnknown_cons]
      split_ifs <;> rfl
  | cons first epochs ih =>
      rw [boundOrdinals_cons, List.mem_cons, not_or] at known
      rw [List.cons_append, upToUnknown_cons, if_neg (Ne.symm known.1), ih known.2]

/-- Known epochs activate nothing that was not activated before. -/
theorem foldl_known {activations : Activations Digest} (order : activations.order = table)
    (filled : table ≠ []) (index : ℕ) (known : 0 ∉ boundOrdinals table lastBound epochs) :
    (epochs.zipIdx index).foldl recordActivation activations = activations := by
  induction epochs generalizing lastBound index with
  | nil => rfl
  | cons epoch epochs ih =>
      rw [boundOrdinals_cons, List.mem_cons, not_or] at known
      have same : recordActivation activations (epoch, index) = activations := by
        rw [recordActivation]
        split_ifs with restart old
        · rfl
        · rfl
        · rw [order] at restart old
          have fresh : ¬ (epoch.extents = 0 ∧ lastBound ≠ 0) :=
            fun silent => restart ⟨silent.1, filled⟩
          rw [bindOrdinal, if_neg fresh] at known
          exact absurd (imageForSignature_eq_zero.mpr old).symm known.1
      rw [List.zipIdx_cons, List.foldl_cons, same]
      exact ih (index + 1) known.2

/-- With no image in the table the first epoch is unknown. -/
theorem eq_nil_of_known (known : 0 ∉ boundOrdinals ([] : List Digest) 0 epochs) : epochs = [] := by
  cases epochs with
  | nil => rfl
  | cons epoch epochs =>
      have unknown : bindOrdinal ([] : List Digest) 0 epoch = 0 := by
        rw [bindOrdinal, if_neg fun restart => restart.2 rfl]
        rfl
      rw [boundOrdinals_cons, unknown] at known
      exact absurd List.mem_cons_self known

/-- A run that knows all its epochs activates what its earlier epochs did. -/
theorem order_known {earlier : List (PassEpoch Digest)} (recurs : earlier <+: epochs)
    (order : (activationsOf earlier).order = table) (known : 0 ∉ boundOrdinals table 0 epochs) :
    (activationsOf epochs).order = table := by
  rcases recurs with ⟨later, rfl⟩
  rcases List.eq_nil_or_concat table with rfl | ⟨_, _, nonempty⟩
  · rw [eq_nil_of_known known]
    rfl
  · have filled : table ≠ [] := by simp [nonempty]
    rw [boundOrdinals_append, List.mem_append, not_or] at known
    rw [activationsOf, List.zipIdx_append, List.foldl_append]
    change ((later.zipIdx _).foldl recordActivation (activationsOf earlier)).order = table
    rw [foldl_known order filled _ known.2]
    exact order

theorem order_prefix {earlier : List (PassEpoch Digest)} (recurs : earlier <+: epochs) :
    (activationsOf earlier).order <+: (activationsOf epochs).order := by
  rcases recurs with ⟨later, rfl⟩
  induction later using List.reverseRecOn with
  | nil => rw [List.append_nil]
  | append_singleton later epoch ih =>
      rw [← List.append_assoc, activationsOf_append, recordActivation]
      split_ifs
      · exact ih
      · exact ih
      · exact ih.trans (List.prefix_append _ _)

/-- Every image is bound where its signature is first activated. -/
theorem mem_boundOrdinals (order : (activationsOf epochs).order = table)
    (known : 0 ∉ boundOrdinals table 0 epochs) (ordinal : ℕ) :
    ordinal ∈ boundOrdinals table 0 epochs ↔ 1 ≤ ordinal ∧ ordinal ≤ table.length := by
  constructor
  · intro member
    refine ⟨Nat.one_le_iff_ne_zero.mpr ?_, boundOrdinals_le (Nat.zero_le _) ordinal member⟩
    exact fun zero => known (zero ▸ member)
  · rintro ⟨positive, inside⟩
    have first := firstActivations epochs
    have index : ordinal - 1 < table.length := by omega
    have paired : ordinal - 1 <
        ((activationsOf epochs).order.zip (activationsOf epochs).epoch).length := by
      rw [List.length_zip, first.length, order, Nat.min_self]
      exact index
    rcases first.first _ (List.getElem_mem paired) with ⟨i, epoch, -, here, same, active, -⟩
    rw [List.getElem_zip] at same
    have signature : epoch.signature = table[ordinal - 1] := by
      rw [same]
      simp only [order]
    rcases List.getElem?_eq_some_iff.mp here with ⟨within, at_i⟩
    have split : epochs = epochs.take i ++ epoch :: epochs.drop (i + 1) := by
      rw [← at_i, List.cons_getElem_drop_succ, List.take_append_drop]
    have fresh : ¬ (epoch.extents = 0 ∧ (epochs.take i).foldl (boundAfter table) 0 ≠ 0) := by
      rintro ⟨silent, bound⟩
      have at_start : i = 0 := by
        by_contra later
        exact active ⟨silent, later⟩
      rw [at_start] at bound
      exact bound rfl
    have distinct : table.Nodup := order ▸ first.nodup
    have bound : bindOrdinal table ((epochs.take i).foldl (boundAfter table) 0) epoch = ordinal := by
      rw [bindOrdinal, if_neg fresh, signature, imageForSignature_getElem distinct index]
      omega
    rw [split, boundOrdinals_append, boundOrdinals_cons, bound]
    exact List.mem_append_right _ List.mem_cons_self

end Selection

/-! ## Convergence -/

section Convergence

variable {Digest σ : Type} [DecidableEq Digest]

/-- What a pass observes depends on the images the program was last prepared with. -/
structure Observes (runner : PassRunner Digest σ)
    (observe : List (Image Digest) → PassObservation Digest)
    (prepared : σ → List (Image Digest) → Prop) : Prop where
  prepare : ∀ registry state, (runner.prepare registry state).1 = true →
    prepared (runner.prepare registry state).2 registry.images
  run : ∀ state images, prepared state images →
    (runner.run state).1 = observe images ∧ prepared (runner.run state).2 images

/-- The epochs agree up to the first image unknown to the smaller registry; a pass reports the first
epoch it does not know, and ends there, or knows all of them. -/
structure PassContract (observe : List (Image Digest) → PassObservation Digest) : Prop where
  agree : ∀ smaller larger, smaller <+: larger →
    upToUnknown (smaller.map Image.signature) 0 (observe smaller).epochs =
      upToUnknown (smaller.map Image.signature) 0 (observe larger).epochs
  unknown : ∀ images, (observe images).outcome = .unknownImage →
    ∃ known, boundOrdinals (images.map Image.signature) 0 (observe images).epochs = known ++ [0] ∧
      0 ∉ known
  candidate : ∀ images, isCandidate (observe images).outcome = true →
    (observe images).soundFault = none →
    0 ∉ boundOrdinals (images.map Image.signature) 0 (observe images).epochs

variable {sha256 : List Byte → Digest} {runner : PassRunner Digest σ}
  {observe : List (Image Digest) → PassObservation Digest}
  {prepared : σ → List (Image Digest) → Prop}

/-! ### One run -/

theorem registerUnknown_cases {m next : Materialization Digest σ}
    {observed : PassObservation Digest} {iteration : Iteration Digest}
    (h : registerUnknown sha256 m observed = (iteration, next)) :
    next.runner = m.runner ∧ next.summary = m.summary ∧
      (iteration = .failed .materializationPassFailed ∨
        iteration = .failed .z80ImageBoundExceeded ∨
        (iteration = .registered observed.epochs ∧ m.registry.images.length < kMaxImages ∧
          ∃ last image bound, observed.epochs.getLast? = some last ∧
            image.signature = last.signature ∧
            next.registry = ⟨m.registry.images ++ [image], bound⟩)) := by
  rw [registerUnknown] at h
  split at h
  · rename_i unknown last snapshot ends
    rcases added : m.registry.add sha256 unknown .runnableEpochSnapshot "" 0 with
      ⟨outcome, answer, registry⟩
    rw [added] at h
    dsimp only at h
    split_ifs at h with full wrong
    · obtain ⟨rfl, rfl⟩ := Prod.mk.inj h
      exact ⟨rfl, rfl, .inr (.inl rfl)⟩
    · obtain ⟨rfl, rfl⟩ := Prod.mk.inj h
      exact ⟨rfl, rfl, .inl rfl⟩
    · obtain ⟨rfl, rfl⟩ := Prod.mk.inj h
      rw [not_or, not_not, not_not] at wrong
      rcases wrong with ⟨rfl, signed⟩
      rcases add_cases sha256 added with ⟨-, same, -⟩ | ⟨-, ⟨-, -, same, -⟩ | ⟨-, -, same, -⟩ |
        ⟨-, room, -, -, image, -, -, rfl⟩⟩
      · cases same
      · cases same
      · cases same
      · have signature : image.signature = last.signature := by simpa using signed
        exact ⟨rfl, rfl, .inr (.inr ⟨rfl, room, last, image, _, ends, signature, rfl⟩)⟩
  · obtain ⟨rfl, rfl⟩ := Prod.mk.inj h
    exact ⟨rfl, rfl, .inl rfl⟩

/-- A failure that a pass that keeps its contract can lead to. -/
def Terminal (failure : Failure) : Prop :=
  failure ≠ .none ∧ failure ≠ .materializationNondeterministic ∧
    failure ≠ .materializationNoConvergence

theorem terminalFailure_terminal (outcome : PassOutcome) : Terminal (terminalFailure outcome) := by
  cases outcome <;> exact ⟨by decide, by decide, by decide⟩

theorem discoveryRun_cases {m next : Materialization Digest σ} {previous : List (PassEpoch Digest)}
    {iteration : Iteration Digest} (observes : Observes runner observe prepared)
    (recurs : previous <+: (observe m.registry.images).epochs)
    (h : discoveryRun sha256 runner m previous = (iteration, next)) :
    next.summary.failure = m.summary.failure ∧
      next.summary.totalRuns ≤ m.summary.totalRuns + 1 ∧
      ((∃ failure, iteration = .failed failure ∧ Terminal failure) ∨
        (next.summary.totalRuns = m.summary.totalRuns + 1 ∧
          prepared next.runner m.registry.images ∧
          ((iteration = .candidate (observe m.registry.images) ∧
              isCandidate (observe m.registry.images).outcome = true ∧
              next.registry = m.registry) ∨
            (iteration = .registered (observe m.registry.images).epochs ∧
              (observe m.registry.images).outcome = .unknownImage ∧
              m.registry.images.length < kMaxImages ∧
              ∃ last image bound, (observe m.registry.images).epochs.getLast? = some last ∧
                image.signature = last.signature ∧
                next.registry = ⟨m.registry.images ++ [image], bound⟩)))) := by
  rcases built : runner.prepare m.registry m.runner with ⟨success, state⟩
  rw [discoveryRun, built] at h
  cases success with
  | false =>
      simp only [if_true] at h
      obtain ⟨rfl, rfl⟩ := Prod.mk.inj h
      exact ⟨rfl, Nat.le_succ _, .inl ⟨_, rfl, by decide, by decide, by decide⟩⟩
  | true =>
      have ready := observes.prepare m.registry m.runner (by rw [built])
      rw [built] at ready
      rcases observes.run state _ ready with ⟨observed, still⟩
      have same : startsWith (observe m.registry.images).epochs previous = true :=
        List.isPrefixOf_iff_prefix.mpr recurs
      simp only [observed, same, Bool.true_eq_false, if_false] at h
      split_ifs at h with candidate other
      · obtain ⟨rfl, rfl⟩ := Prod.mk.inj h
        exact ⟨rfl, Nat.le_refl _, .inr ⟨rfl, still, .inl ⟨rfl, candidate, rfl⟩⟩⟩
      · obtain ⟨rfl, rfl⟩ := Prod.mk.inj h
        exact ⟨rfl, Nat.le_refl _, .inl ⟨_, rfl, terminalFailure_terminal _⟩⟩
      · rcases registerUnknown_cases h with ⟨runner_same, summary_same, cases⟩
        rw [runner_same, summary_same]
        refine ⟨rfl, Nat.le_refl _, ?_⟩
        rcases cases with rfl | rfl | registered
        · exact .inl ⟨_, rfl, by decide, by decide, by decide⟩
        · exact .inl ⟨_, rfl, by decide, by decide, by decide⟩
        · exact .inr ⟨rfl, still, .inr ⟨registered.1, not_not.mp other, registered.2⟩⟩

/-! ### The loop -/

/-- The last unknown run's epochs activate exactly the images registered so far, and recur in every
pass of a registry that extends this one. -/
structure Discovering (observe : List (Image Digest) → PassObservation Digest)
    (images : List (Image Digest)) (previous : List (PassEpoch Digest)) : Prop where
  order : (activationsOf previous).order = images.map Image.signature
  room : images.length ≤ kMaxImages
  recurs : ∀ larger, images <+: larger → previous <+: (observe larger).epochs
  last : ∀ epoch, previous.getLast? = some epoch → epoch.signature ∈ images.map Image.signature

theorem Discovering.start : Discovering observe [] [] where
  order := rfl
  room := Nat.zero_le _
  recurs := fun _ _ => List.nil_prefix
  last := by simp

/-- A run that stops at an unknown image puts that image, and no other, into the registry. -/
theorem Discovering.register {images : List (Image Digest)} {previous : List (PassEpoch Digest)}
    (found : Discovering observe images previous) (contract : PassContract observe)
    (outcome : (observe images).outcome = .unknownImage) (room : images.length < kMaxImages)
    {last : PassEpoch Digest} (ends : (observe images).epochs.getLast? = some last)
    {image : Image Digest} (signature : image.signature = last.signature) :
    Discovering observe (images ++ [image]) (observe images).epochs := by
  rcases List.getLast?_eq_some_iff.mp ends with ⟨before, split⟩
  rcases contract.unknown images outcome with ⟨ordinals, bound, known⟩
  rw [split, boundOrdinals_append, boundOrdinals_cons, boundOrdinals_nil] at bound
  rcases List.append_inj' bound rfl with ⟨rfl, reported⟩
  rcases bindOrdinal_eq_zero (List.cons.inj reported).1 with ⟨absent, silent⟩
  have order : (activationsOf before).order = images.map Image.signature := by
    have recurs := found.recurs images List.prefix_rfl
    rw [split] at recurs
    rcases List.prefix_concat_iff.mp recurs with same | shorter
    · rw [same] at found
      have registered := found.last last (List.getLast?_concat ..)
      exact absurd registered absent
    · exact order_known shorter found.order known
  have next : (activationsOf (before ++ [last])).order =
      images.map Image.signature ++ [last.signature] := by
    have active : ¬ (last.extents = 0 ∧ (activationsOf before).order ≠ []) := by
      rintro ⟨empty, started⟩
      exact foldl_boundAfter_ne_zero known ((order_ne_nil before).mp started) (silent empty)
    rw [activationsOf_append, recordActivation, if_neg active, order, if_neg absent]
  refine ⟨?_, ?_, ?_, ?_⟩
  · rw [split, next, List.map_append, List.map_singleton, signature]
  · rw [List.length_append]
    exact room
  · intro larger extends_it
    have smaller : images <+: larger := (List.prefix_append _ _).trans extends_it
    have agrees := contract.agree images larger smaller
    rw [split, upToUnknown_append known] at agrees
    rw [split, agrees]
    exact upToUnknown_prefix _
  · intro epoch is_last
    rw [ends, Option.some_inj] at is_last
    rw [← is_last, ← signature, List.map_append]
    exact List.mem_append_right _ (List.mem_singleton_self _)

/-- What the loop leaves: a failure a pass led to, or a candidate over the registry it was run with. -/
def Discovered (observe : List (Image Digest) → PassObservation Digest)
    (prepared : σ → List (Image Digest) → Prop)
    (result : Except Failure (PassObservation Digest)) (m : Materialization Digest σ) : Prop :=
  m.summary.totalRuns ≤ kMaxDiscoveryRuns ∧ m.summary.failure = .none ∧
    ((∃ failure, result = .error failure ∧ Terminal failure) ∨
      (result = .ok (observe m.registry.images) ∧
        isCandidate (observe m.registry.images).outcome = true ∧
        prepared m.runner m.registry.images ∧
        ∃ previous, Discovering observe m.registry.images previous))

variable (sha256) in
theorem discover_spec (observes : Observes runner observe prepared)
    (contract : PassContract observe) {runs : ℕ} {m : Materialization Digest σ}
    {previous : List (PassEpoch Digest)} (found : Discovering observe m.registry.images previous)
    (left : runs + m.registry.images.length = kMaxDiscoveryRuns)
    (counted : m.summary.totalRuns = m.registry.images.length)
    (going : m.summary.failure = .none) :
    Discovered observe prepared (discover sha256 runner runs m previous).1
      (discover sha256 runner runs m previous).2 := by
  induction runs generalizing m previous with
  | zero =>
      have room := found.room
      rw [Nat.zero_add] at left
      rw [left] at room
      exact absurd room (by decide)
  | succ runs ih =>
      have recurs := found.recurs _ List.prefix_rfl
      rcases ran : discoveryRun sha256 runner m previous with ⟨iteration, next⟩
      have more : m.summary.totalRuns + 1 ≤ kMaxDiscoveryRuns := by omega
      rcases discoveryRun_cases observes recurs ran with ⟨failure, total, cases⟩
      rw [discover, ran]
      rcases cases with ⟨why, rfl, terminal⟩ | ⟨exact_total, ready,
        ⟨rfl, candidate, same⟩ | ⟨rfl, outcome, room, last, image, bound, ends, signature, grown⟩⟩
      · exact ⟨total.trans more, failure.trans going, .inl ⟨why, rfl, terminal⟩⟩
      · refine ⟨total.trans more, failure.trans going, .inr ?_⟩
        rw [same]
        exact ⟨rfl, candidate, ready, previous, found⟩
      · have registered := found.register contract outcome room ends signature
        have images : next.registry.images = m.registry.images ++ [image] := by rw [grown]
        rw [← images] at registered
        have longer : next.registry.images.length = m.registry.images.length + 1 := by
          rw [images, List.length_append, List.length_singleton]
        exact ih registered (by omega) (by omega) (failure.trans going)

/-! ### The confirming run -/

theorem differs_self (observed : PassObservation Digest) : differs observed observed = false := by
  simp [differs]

theorem confirm_spec (observes : Observes runner observe prepared) {m : Materialization Digest σ}
    {candidate : PassObservation Digest} (same : candidate = observe m.registry.images)
    (ready : prepared m.runner m.registry.images) (ends : isCandidate candidate.outcome = true)
    (going : m.summary.failure = .none) :
    (confirm runner m candidate).registry = m.registry ∧
      (confirm runner m candidate).summary.totalRuns = m.summary.totalRuns + 1 ∧
      (confirm runner m candidate).summary.failure = .none ∧
      (confirm runner m candidate).summary.soundFault = candidate.soundFault ∧
      (confirm runner m candidate).summary.activationOrder = (activationsOf candidate.epochs).order ∧
      (confirm runner m candidate).summary.activationEpoch =
        (activationsOf candidate.epochs).epoch := by
  have again : (runner.run m.runner).1 = candidate := (observes.run m.runner _ ready).1.trans same.symm
  simp only [confirm, again, ends, Bool.true_eq_false, if_false, differs_self,
    Bool.false_eq_true]
  exact ⟨trivial, trivial, going, trivial, trivial, trivial⟩

/-- A count of the runs the runner has made. -/
structure Counts (runner : PassRunner Digest σ) (count : σ → ℕ) : Prop where
  prepare : ∀ registry state, count (runner.prepare registry state).2 = count state
  run : ∀ state, count (runner.run state).2 = count state + 1

theorem discoveryRun_counts {count : σ → ℕ} (counts : Counts runner count)
    {m next : Materialization Digest σ} {previous : List (PassEpoch Digest)}
    {iteration : Iteration Digest}
    (h : discoveryRun sha256 runner m previous = (iteration, next)) :
    count next.runner + m.summary.totalRuns = count m.runner + next.summary.totalRuns := by
  have prepared := counts.prepare m.registry m.runner
  rcases built : runner.prepare m.registry m.runner with ⟨success, state⟩
  rw [built] at prepared
  have ran := counts.run state
  rw [discoveryRun, built] at h
  dsimp only at h prepared
  split_ifs at h
  case pos =>
    obtain ⟨rfl, rfl⟩ := Prod.mk.inj h
    exact congrArg (· + m.summary.totalRuns) prepared
  case neg =>
    rcases registerUnknown_cases h with ⟨same_runner, same_summary, -⟩
    rw [same_runner, same_summary]
    change count (runner.run state).2 + _ = _ + (m.summary.totalRuns + 1)
    omega
  all_goals
    obtain ⟨rfl, rfl⟩ := Prod.mk.inj h
    change count (runner.run state).2 + _ = _ + (m.summary.totalRuns + 1)
    omega

variable (sha256) in
theorem discover_counts {count : σ → ℕ} (counts : Counts runner count) (runs : ℕ)
    (m : Materialization Digest σ) (previous : List (PassEpoch Digest)) :
    count (discover sha256 runner runs m previous).2.runner + m.summary.totalRuns =
      count m.runner + (discover sha256 runner runs m previous).2.summary.totalRuns := by
  induction runs generalizing m previous with
  | zero => rfl
  | succ runs ih =>
      rcases ran : discoveryRun sha256 runner m previous with ⟨iteration, next⟩
      have here := discoveryRun_counts counts ran
      rw [discover, ran]
      cases iteration with
      | failed failure => exact here
      | candidate observed => exact here
      | registered epochs =>
          have rest := ih next epochs
          change count (discover sha256 runner runs next epochs).2.runner + _ =
            _ + (discover sha256 runner runs next epochs).2.summary.totalRuns
          omega

theorem confirm_counts {count : σ → ℕ} (counts : Counts runner count)
    (m : Materialization Digest σ) (candidate : PassObservation Digest) :
    count (confirm runner m candidate).runner + m.summary.totalRuns =
      count m.runner + (confirm runner m candidate).summary.totalRuns := by
  have ran := counts.run m.runner
  rw [confirm]
  dsimp only
  split_ifs <;>
  · change count (runner.run m.runner).2 + _ = _ + (m.summary.totalRuns + 1)
    omega

theorem materialize_counts {count : σ → ℕ} (counts : Counts runner count)
    (registry : Registry Digest) (state : σ) :
    count (materialize sha256 runner registry state).runner =
      count state + (materialize sha256 runner registry state).summary.totalRuns := by
  have found := discover_counts sha256 counts kMaxDiscoveryRuns { registry, runner := state } []
  rcases ran : discover sha256 runner kMaxDiscoveryRuns { registry, runner := state } [] with
    ⟨failure | candidate, m⟩
  all_goals rw [ran] at found
  all_goals rw [materialize, ran]
  · exact found
  · have confirmed := confirm_counts counts m candidate
    change count m.runner + 0 = count state + m.summary.totalRuns at found
    change count (confirm runner m candidate).runner =
      count state + (confirm runner m candidate).summary.totalRuns
    omega

variable (sha256) in
theorem materialize_spec (observes : Observes runner observe prepared)
    (contract : PassContract observe) (state : σ) :
    (materialize sha256 runner {} state).summary.totalRuns ≤ kMaxDiscoveryRuns + 1 ∧
      (Terminal (materialize sha256 runner {} state).summary.failure ∨
        ((materialize sha256 runner {} state).summary.failure = .none ∧
          ∃ m : Materialization Digest σ, ∃ previous,
            materialize sha256 runner {} state = confirm runner m (observe m.registry.images) ∧
            m.summary.failure = .none ∧ prepared m.runner m.registry.images ∧
            isCandidate (observe m.registry.images).outcome = true ∧
            Discovering observe m.registry.images previous)) := by
  have start : Discovering observe ({ registry := {}, runner := state } :
      Materialization Digest σ).registry.images [] := Discovering.start
  have spec := discover_spec sha256 observes contract start (Nat.add_zero kMaxDiscoveryRuns) rfl rfl
  rcases ran : discover sha256 runner kMaxDiscoveryRuns { registry := {}, runner := state } [] with
    ⟨result, m⟩
  rw [ran] at spec
  change Discovered observe prepared result m at spec
  rw [materialize, ran]
  rcases spec with ⟨total, going, ⟨failure, rfl, terminal⟩ |
    ⟨rfl, candidate, ready, previous, found⟩⟩
  · exact ⟨total.trans (Nat.le_succ _), .inl terminal⟩
  · have confirmed := confirm_spec observes rfl ready candidate going
    refine ⟨?_, .inr ⟨confirmed.2.2.1, m, previous, rfl, going, ready, candidate, found⟩⟩
    exact confirmed.2.1.le.trans (Nat.succ_le_succ total)

variable (sha256) in
/-- Materialisation on an empty registry makes at most one run for each image, the completing and the
confirming run, and no sound run of it is called nondeterministic. On success the activation order is
that of first activation, begins with the registry's images, and is equal to them, which are then
what the confirming run bound, if the Z80 was not isolated. -/
theorem materialize_converges (observes : Observes runner observe prepared)
    (contract : PassContract observe) (state : σ) :
    let result := materialize sha256 runner {} state
    let confirming := observe result.registry.images
    result.summary.totalRuns ≤ kMaxDiscoveryRuns + 1 ∧
      (∀ count, Counts runner count → count result.runner = count state + result.summary.totalRuns) ∧
      result.summary.failure ≠ .materializationNondeterministic ∧
      result.summary.failure ≠ .materializationNoConvergence ∧
      (result.summary.failure = .none →
        FirstActivations confirming.epochs
            ⟨result.summary.activationOrder, result.summary.activationEpoch⟩ ∧
          result.registry.signatures <+: result.summary.activationOrder ∧
          (result.summary.soundFault = none →
            result.summary.activationOrder = result.registry.signatures ∧
            ∀ ordinal, ordinal ∈ boundOrdinals result.registry.signatures 0 confirming.epochs ↔
              1 ≤ ordinal ∧ ordinal ≤ result.registry.images.length)) := by
  intro result confirming
  rcases materialize_spec sha256 observes contract state with ⟨total, cases⟩
  have counts : ∀ count, Counts runner count →
      count result.runner = count state + result.summary.totalRuns :=
    fun count counts => materialize_counts counts {} state
  rcases cases with terminal | ⟨success, m, previous, ended, going, ready, candidate, found⟩
  · refine ⟨total, counts, terminal.2.1, terminal.2.2, ?_⟩
    exact fun success => absurd success terminal.1
  · have nondeterministic : result.summary.failure ≠ .materializationNondeterministic := by
      rw [show result.summary.failure = .none from success]
      decide
    have convergence : result.summary.failure ≠ .materializationNoConvergence := by
      rw [show result.summary.failure = .none from success]
      decide
    rcases confirm_spec observes rfl ready candidate going with
      ⟨registry, -, -, fault, order, epoch⟩
    rw [← ended] at registry fault order epoch
    have images : result.registry.images = m.registry.images := congrArg Registry.images registry
    have signatures : result.registry.signatures = m.registry.images.map Image.signature :=
      congrArg Registry.signatures registry
    have recurs := found.recurs _ List.prefix_rfl
    refine ⟨total, counts, nondeterministic, convergence, fun _ => ⟨?_, ?_, ?_⟩⟩
    · change FirstActivations (observe result.registry.images).epochs
        ⟨result.summary.activationOrder, result.summary.activationEpoch⟩
      rw [images, order, epoch]
      exact firstActivations _
    · rw [signatures, order, ← found.order]
      exact order_prefix recurs
    · intro isolated
      rw [fault] at isolated
      have known := contract.candidate _ candidate isolated
      have same := order_known recurs found.order known
      refine ⟨by rw [order, same, signatures], ?_⟩
      change ∀ ordinal, ordinal ∈
        boundOrdinals result.registry.signatures 0 (observe result.registry.images).epochs ↔ _
      rw [signatures, images]
      simpa using mem_boundOrdinals same known

end Convergence

/-! ### Two programs -/

/-- A program whose only state is the images it was built for. -/
def passRunner {Digest : Type} (observe : List (Image Digest) → PassObservation Digest) :
    PassRunner Digest (List (Image Digest)) where
  prepare := fun registry _ => (true, registry.images)
  prepareFailure := fun _ => {}
  run := fun images => (observe images, images)

theorem passRunner_observes {Digest : Type}
    (observe : List (Image Digest) → PassObservation Digest) :
    Observes (passRunner observe) observe (· = ·) where
  prepare := fun _ _ _ => rfl
  run := fun _ _ same => ⟨congrArg observe same, same⟩

def uploadedPass : PassEpoch (List Byte) := passEpoch id uploadedEpoch

/-- A program that uploads one byte, and in the rest of the window has the epochs `later`. -/
def uploadPass (later : List (PassEpoch (List Byte))) (fault : Option SoundFault)
    (images : List (Image (List Byte))) : PassObservation (List Byte) :=
  if uploadedPass.signature ∈ images.map Image.signature then
    { outcome := .windowComplete, frames := 600, epochs := uploadedPass :: later
      soundFault := fault }
  else { outcome := .unknownImage, epochs := [uploadedPass], unknown := some uploadedEpoch }

theorem bindOrdinal_uploaded (table : List (List Byte)) :
    bindOrdinal table 0 uploadedPass = imageForSignature table uploadedPass.signature := by
  rw [bindOrdinal, if_neg fun restart => restart.2 rfl]

theorem uploadPass_contract (later : List (PassEpoch (List Byte))) (fault : Option SoundFault)
    (known : fault = none → ∀ table, uploadedPass.signature ∈ table →
      0 ∉ boundOrdinals table 0 (uploadedPass :: later)) :
    PassContract (uploadPass later fault) where
  agree := by
    rintro smaller larger ⟨more, rfl⟩
    by_cases old : uploadedPass.signature ∈ smaller.map Image.signature
    · have grown : uploadedPass.signature ∈ (smaller ++ more).map Image.signature := by
        rw [List.map_append]
        exact List.mem_append_left _ old
      rw [uploadPass, uploadPass, if_pos old, if_pos grown]
    · have unknown : bindOrdinal (smaller.map Image.signature) 0 uploadedPass = 0 := by
        rw [bindOrdinal_uploaded]
        exact imageForSignature_eq_zero.mpr old
      have stops : ∀ rest, upToUnknown (smaller.map Image.signature) 0 (uploadedPass :: rest) =
          [uploadedPass] := fun rest => by rw [upToUnknown, if_pos unknown]
      rw [uploadPass, uploadPass, if_neg old, stops]
      split_ifs
      · exact (stops later).symm
      · exact (stops []).symm
  unknown := by
    intro images outcome
    by_cases old : uploadedPass.signature ∈ images.map Image.signature
    · rw [uploadPass, if_pos old] at outcome
      cases outcome
    · have unknown : bindOrdinal (images.map Image.signature) 0 uploadedPass = 0 := by
        rw [bindOrdinal_uploaded]
        exact imageForSignature_eq_zero.mpr old
      refine ⟨[], ?_, List.not_mem_nil⟩
      rw [uploadPass, if_neg old, boundOrdinals_cons, unknown]
      rfl
  candidate := by
    intro images outcome isolated
    by_cases old : uploadedPass.signature ∈ images.map Image.signature
    · rw [uploadPass, if_pos old] at isolated ⊢
      exact known isolated _ old
    · rw [uploadPass, if_neg old] at outcome
      cases outcome

theorem uploadPass_known {later : List (PassEpoch (List Byte))} {fault : Option SoundFault}
    {image : Image (List Byte)} (signed : image.signature = uploadedPass.signature) :
    uploadPass later fault [image] =
      { outcome := .windowComplete, frames := 600, epochs := uploadedPass :: later
        soundFault := fault } := by
  have old : uploadedPass.signature ∈ [image].map Image.signature := by
    rw [List.map_singleton, signed]
    exact List.mem_singleton_self _
  rw [uploadPass, if_pos old]

theorem registerUnknown_added {Digest σ : Type} [DecidableEq Digest] {sha256 : List Byte → Digest}
    {m : Materialization Digest σ} {observed : PassObservation Digest} {unknown : Epoch}
    {last : PassEpoch Digest} {image : Image Digest} {answer bound : ℕ}
    (snapshot : observed.unknown = some unknown) (ends : observed.epochs.getLast? = some last)
    (added : m.registry.add sha256 unknown .runnableEpochSnapshot "" 0 =
      (.added, answer, ⟨m.registry.images ++ [image], bound⟩))
    (signed : image.signature = last.signature) :
    registerUnknown sha256 m observed =
      (.registered observed.epochs, { m with registry := ⟨m.registry.images ++ [image], bound⟩ }) := by
  rw [registerUnknown]
  split
  · rename_i unknown' last' snapshot' ends'
    obtain rfl : unknown = unknown' := Option.some_inj.mp (snapshot.symm.trans snapshot')
    obtain rfl : last = last' := Option.some_inj.mp (ends.symm.trans ends')
    rw [added]
    simp [signed]
  · rename_i neither
    exact absurd ends (neither _ _ snapshot)

theorem discoveryRun_upload {later : List (PassEpoch (List Byte))} {fault : Option SoundFault}
    {image : Image (List Byte)} (signed : image.signature = uploadedPass.signature)
    (added : Registry.add id {} uploadedEpoch .runnableEpochSnapshot "" 0 = (.added, 1, ⟨[image], 1⟩)) :
    discoveryRun id (passRunner (uploadPass later fault)) { registry := {}, runner := [] } [] =
      (.registered [uploadedPass],
        { registry := ⟨[image], 1⟩, runner := []
          summary := { discoveryRuns := 1, totalRuns := 1 } }) := by
  have unknown : uploadPass later fault [] =
      { outcome := .unknownImage, epochs := [uploadedPass], unknown := some uploadedEpoch } := by
    rw [uploadPass, List.map_nil, if_neg List.not_mem_nil]
  have registered : registerUnknown id
      ({ registry := {}, runner := [], summary := { discoveryRuns := 1, totalRuns := 1 } } :
        Materialization (List Byte) (List (Image (List Byte)))) (uploadPass later fault []) =
      (.registered (uploadPass later fault []).epochs,
        { registry := ⟨[image], 1⟩, runner := []
          summary := { discoveryRuns := 1, totalRuns := 1 } }) :=
    registerUnknown_added (by rw [unknown]) (by rw [unknown]; rfl) added signed
  rw [unknown] at registered
  simp only [discoveryRun, passRunner, unknown, startsWith, isCandidate]
  simpa using registered

theorem discoveryRun_candidate {later : List (PassEpoch (List Byte))} {fault : Option SoundFault}
    {image : Image (List Byte)} (signed : image.signature = uploadedPass.signature)
    (summary : MaterializationSummary (List Byte)) (state : List (Image (List Byte))) :
    discoveryRun id (passRunner (uploadPass later fault))
        { registry := ⟨[image], 1⟩, runner := state, summary := summary } [uploadedPass] =
      (.candidate (uploadPass later fault [image]),
        { registry := ⟨[image], 1⟩, runner := [image]
          summary := { summary with
            discoveryRuns := summary.discoveryRuns + 1
            totalRuns := summary.totalRuns + 1 } }) := by
  have starts : startsWith (uploadedPass :: later) [uploadedPass] = true := by
    rw [startsWith, List.isPrefixOf_iff_prefix]
    exact ⟨later, rfl⟩
  simp only [discoveryRun, passRunner, uploadPass_known signed, starts]
  simp [isCandidate]

theorem materialize_upload (later : List (PassEpoch (List Byte))) (fault : Option SoundFault) :
    ∃ result, materialize id (passRunner (uploadPass later fault)) {} [] = result ∧
      result.summary.failure = .none ∧ result.registry.signatures = [uploadedPass.signature] ∧
      result.summary.activationOrder = (activationsOf (uploadedPass :: later)).order ∧
      result.summary.soundFault = fault := by
  rcases add_uploaded with ⟨image, signature, added⟩
  have signed : image.signature = uploadedPass.signature := by
    rw [signature, uploadedPass, passEpoch_eq]
  have found : discover id (passRunner (uploadPass later fault)) kMaxDiscoveryRuns
      { registry := {}, runner := [] } [] =
        (.ok (uploadPass later fault [image]),
          { registry := ⟨[image], 1⟩, runner := [image]
            summary := { discoveryRuns := 2, totalRuns := 2 } }) := by
    rw [show kMaxDiscoveryRuns = 7 + 1 + 1 from rfl, discover, discoveryRun_upload signed added]
    dsimp only
    rw [discover, discoveryRun_candidate signed]
  have ended : materialize id (passRunner (uploadPass later fault)) {} [] =
      confirm (passRunner (uploadPass later fault))
        { registry := ⟨[image], 1⟩, runner := [image]
          summary := { discoveryRuns := 2, totalRuns := 2 } } (uploadPass later fault [image]) := by
    rw [materialize, found]
  have completed : isCandidate (uploadPass later fault [image]).outcome = true := by
    rw [uploadPass_known signed]
    rfl
  have same : uploadPass later fault [image] = uploadPass later fault [image] := rfl
  rcases confirm_spec (passRunner_observes (uploadPass later fault))
    (m := { registry := ⟨[image], 1⟩, runner := [image]
            summary := { discoveryRuns := 2, totalRuns := 2 } }) same rfl completed rfl with
    ⟨registry, -, success, isolated, order, -⟩
  have epochs : (uploadPass later fault [image]).epochs = uploadedPass :: later := by
    rw [uploadPass_known signed]
  have faulted : (uploadPass later fault [image]).soundFault = fault := by
    rw [uploadPass_known signed]
  rw [epochs] at order
  refine ⟨_, ended, success, ?_, order, isolated.trans faulted⟩
  rw [registry, Registry.signatures, List.map_singleton, signed]

def restartPass : PassEpoch (List Byte) := passEpoch id silentEpoch

theorem restartPass_known (table : List (List Byte)) (known : uploadedPass.signature ∈ table) :
    0 ∉ boundOrdinals table 0 [uploadedPass, restartPass] := by
  have bound : bindOrdinal table 0 uploadedPass ≠ 0 := by
    rw [bindOrdinal_uploaded]
    exact fun unknown => imageForSignature_eq_zero.mp unknown known
  have silent : restartPass.extents = 0 := by
    rw [restartPass, passEpoch_eq, extents_silent, List.length_nil]
  have restarts : bindOrdinal table (bindOrdinal table 0 uploadedPass) restartPass =
      bindOrdinal table 0 uploadedPass := by
    rw [bindOrdinal, if_pos ⟨silent, bound⟩]
  rw [boundOrdinals_cons, boundOrdinals_cons, boundOrdinals_nil, boundAfter_of_ne_zero bound, restarts]
  simp [bound.symm]

/-- A program that uploads one byte and later restarts it. -/
theorem materialize_converges_upload :
    ∃ result, materialize id (passRunner (uploadPass [restartPass] none)) {} [] = result ∧
      result.summary.totalRuns ≤ kMaxDiscoveryRuns + 1 ∧
      result.summary.failure ≠ .materializationNondeterministic ∧
      result.summary.activationOrder = result.registry.signatures := by
  have contract := uploadPass_contract [restartPass] none fun _ => restartPass_known
  have converges := materialize_converges id
    (passRunner_observes (uploadPass [restartPass] none)) contract []
  rcases materialize_upload [restartPass] none with ⟨result, ended, success, -, -, isolated⟩
  dsimp only at converges
  rw [ended] at converges
  rcases converges with ⟨total, -, deterministic, -, activations⟩
  exact ⟨result, ended, total, deterministic, ((activations success).2.2 isolated).1⟩

/-- Another byte uploaded to the same place: a `HALT`. -/
def secondEpoch : Epoch := ⟨fun i => if i = 0 then 0x76 else 0, uploadedEpoch.written⟩

theorem extents_uploaded_cons :
    ∃ length rest, extents uploadedEpoch.written = ⟨0, length + 1⟩ :: rest := by
  have first : writtenBit uploadedEpoch.written 0 = true := by decide
  have run : runsFrom uploadedEpoch.written (some 0) 8191 1 = _ :=
    runsFrom_some 0 8191 (show 1 + 8191 = kRamBytes from rfl) (Nat.le_refl _)
  have nonempty : 1 ≤ runEnd uploadedEpoch.written 8191 1 := runEnd_ge 8191 1
  rw [extents_eq]
  change ∃ length rest, runsFrom uploadedEpoch.written none (8191 + 1) 0 = _
  rw [runsFrom, first, if_pos rfl, run]
  refine ⟨runEnd uploadedEpoch.written 8191 1 - 1, runsFrom uploadedEpoch.written none
    (kRamBytes - runEnd uploadedEpoch.written 8191 1) (runEnd uploadedEpoch.written 8191 1), ?_⟩
  rw [Nat.sub_zero, Nat.sub_add_cancel nonempty]

theorem signature_second_ne : signatureDigest id secondEpoch ≠ signatureDigest id uploadedEpoch := by
  intro same
  have cancelled : (extents uploadedEpoch.written).flatMap (runBytes secondEpoch.ram) =
      (extents uploadedEpoch.written).flatMap (runBytes uploadedEpoch.ram) :=
    List.append_cancel_left same
  rcases extents_uploaded_cons with ⟨length, rest, runs⟩
  rw [runs] at cancelled
  have fifth := congrArg (fun bytes : List Byte => bytes[4]?) cancelled
  simp [runBytes, u16, slice, List.range'_succ, secondEpoch, uploadedEpoch] at fifth

def secondPass : PassEpoch (List Byte) := passEpoch id secondEpoch

/-- After the Z80 was isolated no epoch is looked up, so an image that is not registered comes into
the activation order. -/
theorem isolated_activates_unregistered :
    ¬ ∀ observe : List (Image (List Byte)) → PassObservation (List Byte), PassContract observe →
      (materialize id (passRunner observe) {} []).summary.failure = .none →
      (materialize id (passRunner observe) {} []).summary.activationOrder =
        (materialize id (passRunner observe) {} []).registry.signatures := by
  intro equal
  have contract := uploadPass_contract [secondPass] (some ⟨1, 1000⟩) fun isolated => by cases isolated
  rcases materialize_upload [secondPass] (some ⟨1, 1000⟩) with
    ⟨result, ended, success, registry, order, -⟩
  have same := equal _ contract
  rw [ended] at same
  have active : secondPass.extents ≠ 0 := by
    intro empty
    have written : secondEpoch.written = uploadedEpoch.written := rfl
    have counted : secondPass.extents = (extents uploadedEpoch.written).length := by
      rw [secondPass, passEpoch_eq, written]
    rw [counted] at empty
    rw [List.length_eq_zero_iff] at empty
    exact extents_uploaded empty
  have new : secondPass.signature ∉ [uploadedPass.signature] := by
    rw [secondPass, uploadedPass, passEpoch_eq, passEpoch_eq, List.mem_singleton]
    exact signature_second_ne
  have first : recordActivation {} (uploadedPass, 1) = ⟨[uploadedPass.signature], [1]⟩ := by
    rw [recordActivation, if_neg fun restart => restart.2 rfl, if_neg List.not_mem_nil]
    rfl
  have second : recordActivation ⟨[uploadedPass.signature], [1]⟩ (secondPass, 2) =
      ⟨[uploadedPass.signature, secondPass.signature], [1, 2]⟩ := by
    rw [recordActivation, if_neg fun restart => active restart.1, if_neg new]
    rfl
  have both : (activationsOf [uploadedPass, secondPass]).order =
      [uploadedPass.signature, secondPass.signature] := by
    rw [activationsOf, List.zipIdx_cons, List.zipIdx_cons, List.zipIdx_nil, List.foldl_cons, first,
      List.foldl_cons, second, List.foldl_nil]
  have listed := same success
  rw [order, both, registry] at listed
  cases listed

end Segarecomp.Genesis.Z80Images

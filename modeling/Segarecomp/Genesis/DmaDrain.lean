import Segarecomp.Genesis.Route
import Segarecomp.Genesis.ScheduleRun

/-! Transfers from memory to the VDP are over when the access that armed them answers: the words
they copied, and that no accepted access leaves one in flight. -/

namespace Segarecomp.Genesis.DmaDrain

open Schedule VdpPort Route

variable {D F : Type} {read : SourceRead} {s s' : Screen F}

/-- A transfer of memory words that was armed and has not ended. -/
def InFlight (vdp : VdpState) : Prop := vdp.dma.phase = .busy ∧ vdp.dma.kind = .memory_to_vram

instance (vdp : VdpState) : Decidable (InFlight vdp) :=
  inferInstanceAs (Decidable (vdp.dma.phase = .busy ∧ vdp.dma.kind = .memory_to_vram))

/-! ## What a transfer copies -/

/-- The address of a word of the source. -/
def sourceAt (source : BitVec 32) (k : ℕ) : BitVec 32 := (fun address => (address + 2) &&& 0x00FFFFFE)^[k] source

/-- The address a word of the source is stored at. -/
def destinationAt (target : Target) (pointer increment k : ℕ) : ℕ := (pointer + k * increment) % target.size

def putWord (s : Screen F) (target : Target) (destination : ℕ) (value : BitVec 32) : Screen F :=
  storeHalfword s target destination ((value >>> 8).setWidth 8) (value.setWidth 8)

/-- Words stored in order, each at its destination. -/
def putWords (target : Target) (pointer increment : ℕ) (words : List (BitVec 32)) (s : Screen F) : Screen F :=
  words.zipIdx.foldl (fun s word => putWord s target (destinationAt target pointer increment word.2) word.1) s

/-- The registers of a screen's VDP a transfer moves. -/
def stamp (s : Screen F) (pointer : ℕ) (dma : DmaState) (code : Byte) (valid : Bool) : Screen F :=
  { s with vdp := { s.vdp with
      addressedPointer := pointer, dma := dma, dataPortTransferCode := code, dataPortTransferCodeValid := valid } }

/-- The screen after all words of a transfer: the engine is idle and the target stays selected. -/
def copied (s : Screen F) (target : Target) (words : List (BitVec 32)) : Screen F :=
  let increment := s.vdp.autoIncrementValue.toNat
  stamp (putWords target s.vdp.addressedPointer increment words s)
    (destinationAt target s.vdp.addressedPointer increment words.length)
    { s.vdp.dma with
      phase := .idle
      sourceAddress := sourceAt s.vdp.dma.sourceAddress words.length
      remainingLength := 0
      transferAccessCount := s.vdp.dma.transferAccessCount + BitVec.ofNat 32 words.length }
    s.vdp.dma.writeTargetCode true

theorem journalVram_vdp (address : ℕ) (value : Byte) : (journalVram s address value).vdp = s.vdp := by
  rw [journalVram]
  split
  · rfl
  · dsimp only
    split_ifs <;> rfl

theorem journalVram_stamp (address : ℕ) (value : Byte) (pointer : ℕ) (dma : DmaState) (code : Byte) (valid : Bool) :
    journalVram (stamp s pointer dma code valid) address value =
      stamp (journalVram s address value) pointer dma code valid := by
  have raster : (stamp s pointer dma code valid).raster = s.raster := rfl
  have live : (stamp s pointer dma code valid).liveRaster = s.liveRaster := rfl
  rw [journalVram, journalVram, raster, live]
  cases s.liveRaster with
  | none => rfl
  | some capture =>
      dsimp only
      by_cases closed : capture.frame.hasVramJournal = false ∨ rasterMaxLines ≤ s.raster.lastLine % linesPerFrame
      · rw [if_pos closed, if_pos closed]
      · rw [if_neg closed, if_neg closed]
        rfl

theorem storeByte_increment (vdp : VdpState) (target : Target) (address : ℕ) (value : Byte) :
    (storeByte vdp target address value).autoIncrementValue = vdp.autoIncrementValue := by
  cases target <;> rfl

theorem storeHalfword_vdp (target : Target) (destination : ℕ) (first second : Byte) :
    (storeHalfword s target destination first second).vdp =
      storeByte (storeByte s.vdp target destination first) target ((destination + 1) % target.size) second := by
  cases target
  · exact (journalVram_vdp _ _).trans (journalVram_vdp _ _)
  · rfl
  · rfl

theorem storeHalfword_stamp (target : Target) (destination : ℕ) (first second : Byte) (pointer : ℕ)
    (dma : DmaState) (code : Byte) (valid : Bool) :
    storeHalfword (stamp s pointer dma code valid) target destination first second =
      stamp (storeHalfword s target destination first second) pointer dma code valid := by
  cases target
  · have stored : ∀ t : Screen F,
        storeHalfword t .vram destination first second =
          journalVram (journalVram { t with
            vdp := storeByte (storeByte t.vdp .vram destination first) .vram ((destination + 1) % 65536) second }
            destination first) ((destination + 1) % 65536) second := fun _ => rfl
    rw [stored, stored, ← journalVram_stamp, ← journalVram_stamp]
    rfl
  · rfl
  · rfl

section Words

variable {target : Target} {pointer increment : ℕ} {word : BitVec 32} {words : List (BitVec 32)}

theorem destinationAt_succ (k : ℕ) :
    destinationAt target pointer increment (k + 1) =
      destinationAt target ((pointer % target.size + increment) % target.size) increment k := by
  rw [destinationAt, destinationAt, Nat.mod_add_mod, Nat.add_assoc, Nat.mod_add_mod]
  congr 1
  ring

theorem putWords_cons :
    putWords target pointer increment (word :: words) s =
      putWords target ((pointer % target.size + increment) % target.size) increment words
        (putWord s target (pointer % target.size) word) := by
  have first : destinationAt target pointer increment 0 = pointer % target.size := by
    rw [destinationAt, Nat.zero_mul, Nat.add_zero]
  rw [putWords, List.zipIdx_cons, List.foldl_cons, first, Nat.zero_add, List.zipIdx_succ, List.foldl_map, putWords]
  simp only [destinationAt_succ]

theorem putWords_stamp (dma : DmaState) (code : Byte) (valid : Bool) (place : ℕ) :
    putWords target pointer increment words (stamp s place dma code valid) =
      stamp (putWords target pointer increment words s) place dma code valid := by
  induction words generalizing s pointer with
  | nil => rfl
  | cons word words ih =>
      rw [putWords_cons, putWords_cons, putWord, storeHalfword_stamp, ih]
      rfl

/-- Storing a word leaves the registers of the transfer alone. -/
theorem putWord_self (destination : ℕ) :
    stamp (putWord s target destination word) s.vdp.addressedPointer s.vdp.dma s.vdp.dataPortTransferCode
      s.vdp.dataPortTransferCodeValid = putWord s target destination word :=
  (storeHalfword_stamp _ _ _ _ _ _ _ _).symm

theorem putWord_dma (destination : ℕ) : (putWord s target destination word).vdp.dma = s.vdp.dma :=
  (congrArg (fun s : Screen F => s.vdp.dma) (putWord_self destination)).symm

theorem putWord_increment (destination : ℕ) :
    (putWord s target destination word).vdp.autoIncrementValue = s.vdp.autoIncrementValue := by
  rw [putWord, storeHalfword_vdp, storeByte_increment, storeByte_increment]

end Words

/-! ## The drain -/

section Drain

variable {target : Target} {word : BitVec 32} {words : List (BitVec 32)}

/-- The transfer engine after a word that is not the last. -/
def DmaState.moved (dma : DmaState) : DmaState :=
  { dma with
    sourceAddress := (dma.sourceAddress + 2) &&& 0x00FFFFFE
    remainingLength := dma.remainingLength - 1
    transferAccessCount := dma.transferAccessCount + 1 }

/-- The word at the head of a transfer. -/
def putHead (s : Screen F) (target : Target) (word : BitVec 32) : Screen F :=
  let stored := putWord s target (s.vdp.addressedPointer % target.size) word
  stamp stored ((s.vdp.addressedPointer % target.size + s.vdp.autoIncrementValue.toNat) % target.size)
    (DmaState.moved s.vdp.dma) stored.vdp.dataPortTransferCode stored.vdp.dataPortTransferCodeValid

theorem copied_single :
    copied s target [word] =
      stamp (putWord s target (s.vdp.addressedPointer % target.size) word)
        ((s.vdp.addressedPointer % target.size + s.vdp.autoIncrementValue.toNat) % target.size)
        { DmaState.moved s.vdp.dma with phase := .idle, remainingLength := 0 } s.vdp.dma.writeTargetCode true := by
  have pointer : destinationAt target s.vdp.addressedPointer s.vdp.autoIncrementValue.toNat 1 =
      (s.vdp.addressedPointer % target.size + s.vdp.autoIncrementValue.toNat) % target.size := by
    rw [destinationAt_succ, destinationAt, Nat.zero_mul, Nat.add_zero, Nat.mod_mod]
  have stored : putWords target s.vdp.addressedPointer s.vdp.autoIncrementValue.toNat [word] s =
      putWord s target (s.vdp.addressedPointer % target.size) word := putWords_cons
  rw [copied, List.length_singleton, pointer, stored]
  rfl

theorem transferWord_eq (pos : 0 < s.vdp.dma.remainingLength) (bound : s.vdp.dma.remainingLength < 2 ^ 32) :
    transferWord s target word =
      if s.vdp.dma.remainingLength = 1 then copied s target [word] else putHead s target word := by
  have less : (s.vdp.dma.remainingLength + 2 ^ 32 - 1) % 2 ^ 32 = s.vdp.dma.remainingLength - 1 := by omega
  have dma : (putWord s target (s.vdp.addressedPointer % target.size) word).vdp.dma = s.vdp.dma := putWord_dma _
  have increment : (putWord s target (s.vdp.addressedPointer % target.size) word).vdp.autoIncrementValue.toNat =
      s.vdp.autoIncrementValue.toNat := congrArg BitVec.toNat (putWord_increment _)
  rw [putWord] at dma increment
  rw [transferWord]
  dsimp only
  rw [dma, increment, less]
  by_cases last : s.vdp.dma.remainingLength = 1
  · have none : s.vdp.dma.remainingLength - 1 = 0 := by omega
    rw [if_pos last, copied_single, none, if_pos rfl, if_pos rfl]
    rfl
  · have more : s.vdp.dma.remainingLength - 1 ≠ 0 := by omega
    rw [if_neg last, if_neg more, if_neg more]
    rfl

theorem copied_cons : copied (putHead s target word) target words = copied s target (word :: words) := by
  have increment : (putHead s target word).vdp.autoIncrementValue = s.vdp.autoIncrementValue := putWord_increment _
  have count : s.vdp.dma.transferAccessCount + 1 + BitVec.ofNat 32 words.length =
      s.vdp.dma.transferAccessCount + BitVec.ofNat 32 (words.length + 1) := by
    rw [BitVec.add_assoc, Nat.add_comm, BitVec.ofNat_add]
    rfl
  rw [copied, copied, increment, putHead, putWords_stamp, putWords_cons, List.length_cons, destinationAt_succ,
    ← count]
  rfl

/-- The words a transfer reads, in order. -/
def Reads (read : SourceRead) (source : BitVec 32) (words : List (BitVec 32)) : Prop :=
  ∀ (k : ℕ) (h : k < words.length), read (sourceAt source k) = .ok words[k]

theorem Reads.cons {source : BitVec 32} (first : read source = .ok word)
    (later : Reads read ((source + 2) &&& 0x00FFFFFE) words) : Reads read source (word :: words) := by
  intro k h
  cases k with
  | zero => exact first
  | succ k => exact later k (Nat.lt_of_succ_lt_succ h)

theorem progressDma_ok (flight : InFlight s.vdp) (selects : writeTarget s.vdp.dma.writeTargetCode = some target)
    (ok : progressDma read s = .ok s') :
    ∃ word, read s.vdp.dma.sourceAddress = .ok word ∧ s' = transferWord s target word := by
  have memory : s.vdp.dma.kind ≠ .vram_fill := by
    rw [flight.2]
    exact DmaKind.noConfusion
  rw [progressDma] at ok
  rw [if_neg (not_not.mpr flight.1), if_neg memory, selects] at ok
  split_ifs at ok
  cases answer : read s.vdp.dma.sourceAddress with
  | error stop =>
      rw [answer] at ok
      dsimp only at ok
      cases ok
  | ok word =>
      rw [answer] at ok
      dsimp only at ok
      split_ifs at ok
      exact ⟨word, rfl, (Except.ok.inj ok).symm⟩

theorem drainLoop_succ {n : ℕ} (flight : InFlight s.vdp)
    (selects : writeTarget s.vdp.dma.writeTargetCode = some target)
    (ok : drainLoop read (n + 1) s = (.ok (), s')) :
    ∃ word, read s.vdp.dma.sourceAddress = .ok word ∧ drainLoop read n (transferWord s target word) = (.ok (), s') := by
  rw [drainLoop, if_neg (not_not.mpr flight.1)] at ok
  cases progress : progressDma read s with
  | error stop =>
      rw [progress] at ok
      dsimp only at ok
      cases ok
  | ok s₁ =>
      rw [progress] at ok
      obtain ⟨word, first, rfl⟩ := progressDma_ok flight selects progress
      exact ⟨word, first, ok⟩

/-- A drain that succeeds has copied every word that was left. -/
theorem drainLoop_copied (n : ℕ) (flight : InFlight s.vdp)
    (selects : writeTarget s.vdp.dma.writeTargetCode = some target) (left : s.vdp.dma.remainingLength = n + 1)
    (bound : n + 1 < 2 ^ 32) (ok : drainLoop read (n + 1) s = (.ok (), s')) :
    ∃ words, words.length = n + 1 ∧ Reads read s.vdp.dma.sourceAddress words ∧ s' = copied s target words := by
  obtain ⟨word, first, later⟩ := drainLoop_succ flight selects ok
  rw [transferWord_eq (by omega) (by omega)] at later
  induction n generalizing s word with
  | zero =>
      rw [if_pos left] at later
      exact ⟨[word], rfl, .cons first fun k h => absurd h (Nat.not_lt_zero k), (congrArg Prod.snd later).symm⟩
  | succ n ih =>
      rw [if_neg (by omega)] at later
      have moved : (putHead s target word).vdp.dma.remainingLength = n + 1 := by
        change s.vdp.dma.remainingLength - 1 = n + 1
        omega
      have flight' : InFlight (putHead s target word).vdp := flight
      obtain ⟨next, second, after⟩ := drainLoop_succ (s := putHead s target word) flight' selects later
      rw [transferWord_eq (by omega) (by omega)] at after
      obtain ⟨words, length, reads, rfl⟩ :=
        ih (s := putHead s target word) flight' selects moved (by omega) later next second after
      exact ⟨word :: words, by rw [List.length_cons, length], .cons first reads, copied_cons⟩

end Drain

/-! ## Control words -/

/-- The VDP a command word leaves that arms a transfer from memory. -/
def armed (vdp : VdpState) (word : BitVec 16) : VdpState :=
  commandDone { vdp with
    addressedPointer := commandAddress vdp.controlPortFirstWord word
    dma :=
      { phase := .busy
        kind := .memory_to_vram
        sourceAddress := dmaSource vdp
        remainingLength := dmaCount vdp
        writeTargetCode := commandCode vdp.controlPortFirstWord word &&& 0x1F }
    dataPortTransferCode := 0
    dataPortTransferCodeValid := false }

theorem armDma_cases {vdp vdp' : VdpState} {word : BitVec 16}
    (accepted : armDma vdp (commandAddress vdp.controlPortFirstWord word)
      (commandCode vdp.controlPortFirstWord word) = some vdp') :
    vdp'.dma.kind = .vram_fill ∨
      vdp' = armed vdp word ∧
        ∃ target, writeTarget (commandCode vdp.controlPortFirstWord word &&& 0x1F) = some target := by
  rw [armDma] at accepted
  split_ifs at accepted with refused fillRefused other fill memory memory
  · rw [← Option.some.inj accepted]
    exact .inl rfl
  · rw [← Option.some.inj accepted]
    exact .inl rfl
  · rw [← Option.some.inj accepted]
    refine .inr ⟨rfl, Option.isSome_iff_exists.mp ?_⟩
    rwa [Bool.not_eq_true, Option.isNone_eq_false_iff] at refused
  · exact absurd ⟨memory, fill⟩ other

/-- An accepted control word leaves the engine alone, arms a fill, or arms a transfer. -/
theorem controlPortWriteWord_cases {vdp vdp' : VdpState} {word : BitVec 16}
    (accepted : controlPortWriteWord vdp word = some vdp') :
    vdp'.dma = vdp.dma ∨ vdp'.dma.kind = .vram_fill ∨
      vdp' = armed vdp word ∧
        ∃ target, writeTarget (commandCode vdp.controlPortFirstWord word &&& 0x1F) = some target := by
  rw [controlPortWriteWord] at accepted
  split_ifs at accepted
  · rw [secondWord] at accepted
    dsimp only at accepted
    split_ifs at accepted
    · rw [← Option.some.inj accepted]
      exact .inl rfl
    · exact .inr (armDma_cases accepted)
    · rw [← Option.some.inj accepted]
      exact .inl rfl
  · rw [setRegister] at accepted
    split_ifs at accepted <;> (rw [← Option.some.inj accepted]; exact .inl rfl)
  · rw [← Option.some.inj accepted]
    exact .inl rfl

theorem dmaCount_pos (vdp : VdpState) : 0 < dmaCount vdp ∧ dmaCount vdp < 2 ^ 32 := by
  have bound : dmaLength vdp < 2 ^ 16 := BitVec.isLt _
  rw [dmaCount]
  split_ifs with zero
  · decide
  · omega

/-- What an accepted control word leaves: a command, or the whole transfer it armed. -/
inductive Half (read : SourceRead) (s : Screen F) (word : BitVec 16) : Screen F → Prop
  | command {vdp : VdpState} (accepted : controlPortWriteWord s.vdp word = some vdp) (idle : ¬ InFlight vdp) :
      Half read s word { s with vdp := vdp }
  | transfer {target : Target} {words : List (BitVec 32)}
      (accepted : controlPortWriteWord s.vdp word = some (armed s.vdp word))
      (selects : writeTarget (commandCode s.vdp.controlPortFirstWord word &&& 0x1F) = some target)
      (length : words.length = dmaCount s.vdp) (reads : Reads read (dmaSource s.vdp) words) :
      Half read s word (copied { s with vdp := armed s.vdp word } target words)

theorem Half.idle {word : BitVec 16} (half : Half read s word s') : ¬ InFlight s'.vdp := by
  cases half with
  | command accepted idle => exact idle
  | transfer => exact fun flight => DmaPhase.noConfusion flight.1

theorem drain_idle (idle : ¬ InFlight s.vdp) : drainMemoryToVdpDma read s = (.ok (), s) := by
  rw [drainMemoryToVdpDma, if_pos (not_and_or.mp idle)]

theorem half_of_accepted {word : BitVec 16} {vdp : VdpState} (idle : ¬ InFlight s.vdp)
    (accepted : controlPortWriteWord s.vdp word = some vdp)
    (ok : drainMemoryToVdpDma read { s with vdp := vdp } = (.ok (), s')) : Half read s word s' := by
  by_cases flight : InFlight vdp
  · rcases controlPortWriteWord_cases accepted with same | fill | ⟨rfl, target, selects⟩
    · exact absurd ⟨same ▸ flight.1, same ▸ flight.2⟩ idle
    · exact DmaKind.noConfusion (fill.symm.trans flight.2)
    · have ⟨pos, bound⟩ := dmaCount_pos s.vdp
      have left : (armed s.vdp word).dma.remainingLength = dmaCount s.vdp - 1 + 1 := (Nat.sub_add_cancel pos).symm
      have steps : wordsLeft (armed s.vdp word).dma = dmaCount s.vdp - 1 + 1 := by
        rw [wordsLeft, left, if_neg (Nat.succ_ne_zero _)]
      rw [drainMemoryToVdpDma, if_neg (fun none => none.elim (· flight.1) (· flight.2)), steps] at ok
      obtain ⟨words, length, reads, rfl⟩ :=
        drainLoop_copied (s := { s with vdp := armed s.vdp word }) _ flight selects left (by omega) ok
      exact .transfer accepted selects (length.trans (Nat.sub_add_cancel pos)) reads
  · rw [drain_idle (s := { s with vdp := vdp }) flight] at ok
    obtain rfl := congrArg Prod.snd ok
    exact .command accepted flight

theorem suspend_half {word : BitVec 16} (idle : ¬ InFlight s.vdp)
    (ok : controlPortWriteWordAndSuspend read s word = (.ok (), s')) : Half read s word s' := by
  rw [controlPortWriteWordAndSuspend] at ok
  cases accepted : controlPortWriteWord s.vdp word with
  | none =>
      rw [accepted] at ok
      dsimp only at ok
      cases ok
  | some vdp =>
      rw [accepted] at ok
      exact half_of_accepted idle accepted ok

/-! ## The VDP behind the router -/

def isWordControlWrite (a : Access) : Bool := a.direction = .write && a.width = .word && a.address = 0xC00004

/-- The engine of a fill that has ended. -/
def DmaState.filled (dma : DmaState) : DmaState := { dma with phase := .idle, fillByteCount := 0 }

theorem storeHalfword_dma (target : Target) (destination : ℕ) (first second : Byte) :
    (storeHalfword s target destination first second).vdp.dma = s.vdp.dma := by
  rw [storeHalfword_vdp]
  cases target <;> rfl

theorem fillStep_dma (increment : ℕ) (high : Byte) (n : ℕ) (p : Screen F × ℕ) :
    ((fillStep increment high)^[n] p).1.vdp.dma = p.1.vdp.dma := by
  have step (p : Screen F × ℕ) : (fillStep increment high p).1.vdp.dma = p.1.vdp.dma := by
    rw [fillStep, journalVram_vdp]
    rfl
  induction n generalizing p with
  | zero => rfl
  | succ n ih => exact (ih _).trans (step p)

theorem dataPortFillWrite_dma (value : BitVec 16) :
    (dataPortFillWrite s value).2.vdp.dma = s.vdp.dma ∨
      (dataPortFillWrite s value).2.vdp.dma = DmaState.filled s.vdp.dma := by
  rw [dataPortFillWrite]
  dsimp only
  split_ifs
  · exact .inl rfl
  · exact .inr (by rw [fillStep_dma, storeHalfword_dma]; rfl)

theorem dataPortTargetWriteHalfword_dma (target : Target) (halfword : BitVec 16) :
    (dataPortTargetWriteHalfword s target halfword).2.vdp.dma = s.vdp.dma := by
  rw [dataPortTargetWriteHalfword]
  dsimp only
  split_ifs
  · rfl
  · exact storeHalfword_dma _ _ _ _
  · exact storeHalfword_dma _ _ _ _

theorem cancelCommand_dma (vdp : VdpState) : (cancelCommand vdp).dma = vdp.dma := by
  rw [cancelCommand]
  split_ifs <;> rfl

theorem dataPortCpuWrite_dma (width : Width) (value : BitVec 32) :
    (dataPortCpuWrite s width value).2.vdp.dma = s.vdp.dma := by
  have cancelled := cancelCommand_dma s.vdp
  rw [dataPortCpuWrite]
  dsimp only
  split_ifs with busy invalid
  · rfl
  · exact cancelled
  · cases writeTarget (cancelCommand s.vdp).dataPortTransferCode with
    | none => exact cancelled
    | some target =>
        cases width with
        | byte => exact (dataPortTargetWriteHalfword_dma _ _).trans cancelled
        | word => exact (dataPortTargetWriteHalfword_dma _ _).trans cancelled
        | long =>
            dsimp only
            have first := (dataPortTargetWriteHalfword_dma (s := { s with vdp := cancelCommand s.vdp }) target
              (halfHigh value)).trans cancelled
            split_ifs
            · exact (dataPortTargetWriteHalfword_dma _ _).trans first
            · exact first

theorem dataPortTargetReadHalfword_dma (target : Target) :
    (dataPortTargetReadHalfword s target).2.vdp.dma = s.vdp.dma := by
  rw [dataPortTargetReadHalfword]
  dsimp only
  split_ifs <;> rfl

theorem dataPortCpuRead_dma (width : Width) : (dataPortCpuRead s width).2.vdp.dma = s.vdp.dma := by
  have cancelled := cancelCommand_dma s.vdp
  rw [dataPortCpuRead]
  dsimp only
  split_ifs with busy invalid
  · rfl
  · exact cancelled
  · cases readTarget (cancelCommand s.vdp).dataPortTransferCode with
    | none => exact cancelled
    | some target =>
        have first := (dataPortTargetReadHalfword_dma (s := { s with vdp := cancelCommand s.vdp }) target).trans
          cancelled
        cases width with
        | byte => exact cancelled
        | word => exact first
        | long =>
            dsimp only
            split
            · exact first
            · exact (dataPortTargetReadHalfword_dma _).trans first

theorem vdpRead_dma (a : Access) : (vdpRead s a).2.vdp.dma = s.vdp.dma := by
  rw [vdpRead]
  split_ifs
  · rfl
  · rfl
  · exact dataPortCpuRead_dma _
  · rfl

theorem vdpWrite_dma {a : Access} (other : ¬ (a.width = .word ∧ a.address = 0xC00004)) :
    (vdpWrite s a).2.vdp.dma = s.vdp.dma ∨ (vdpWrite s a).2.vdp.dma = DmaState.filled s.vdp.dma := by
  rw [vdpWrite]
  split_ifs
  · cases a.width with
    | byte => exact dataPortFillWrite_dma _
    | word => exact dataPortFillWrite_dma _
    | long => exact .inl rfl
  · exact .inl (dataPortCpuWrite_dma _ _)
  · exact .inl rfl

theorem vdpAccess_dma {a : Access} (other : isWordControlWrite a = false) :
    (vdpAccess s a).2.vdp.dma = s.vdp.dma ∨ (vdpAccess s a).2.vdp.dma = DmaState.filled s.vdp.dma := by
  rw [vdpAccess]
  cases direction : a.direction with
  | read => exact .inl (vdpRead_dma a)
  | write =>
      have plain : ¬ (a.width = .word ∧ a.address = 0xC00004) := by
        rintro ⟨width, address⟩
        rw [isWordControlWrite, direction, width, address] at other
        exact absurd other (by decide)
      dsimp only
      split_ifs
      · exact vdpWrite_dma plain
      · exact vdpWrite_dma plain

theorem progressed_idle {a : Access} (idle : ¬ InFlight s.vdp) : progressed read s a = .ok s := by
  rw [progressed]
  split_ifs
  · rw [progressDma]
    by_cases busy : s.vdp.dma.phase = .busy
    · have fill : s.vdp.dma.kind = .vram_fill := by
        cases kind : s.vdp.dma.kind with
        | memory_to_vram => exact absurd ⟨busy, kind⟩ idle
        | vram_fill => rfl
      rw [if_neg (not_not.mpr busy), if_pos fill]
    · rw [if_pos busy]
  · rfl

/-- What an accepted access does to the transfer engine. -/
structure Drained (machine : Machine D) (r : Runtime D F) (a : Access) (r' : Runtime D F) : Prop where
  idle : ¬ InFlight r'.vdp
  word : isWordControlWrite a = true →
    Half (sourceRead machine r.rest) r.toScreen (halfLow a.value) r'.toScreen
  long : isLongControlWrite a = true → ∃ s, Half (sourceRead machine r.rest) r.toScreen (halfHigh a.value) s ∧
    Half (sourceRead machine r.rest) s (halfLow a.value) r'.toScreen
  other : isWordControlWrite a = false → isLongControlWrite a = false →
    r'.vdp.dma = r.vdp.dma ∨ r'.vdp.dma = DmaState.filled r.vdp.dma

theorem controlPortWriteLong_halves {value : BitVec 32} (idle : ¬ InFlight s.vdp)
    (ok : controlPortWriteLong read s value = (.ok (), s')) :
    ∃ s₁, Half read s (halfHigh value) s₁ ∧ Half read s₁ (halfLow value) s' := by
  rw [controlPortWriteLong] at ok
  cases first : controlPortWriteWordAndSuspend read s (halfHigh value) with
  | mk answer s₁ =>
      rw [first] at ok
      cases answer with
      | error stop =>
          dsimp only at ok
          cases ok
      | ok done =>
          have high : Half read s (halfHigh value) s₁ := suspend_half idle first
          exact ⟨s₁, high, suspend_half high.idle ok⟩

theorem vdpAccess_word {a : Access} (control : isWordControlWrite a = true) :
    vdpAccess s a =
      match controlPortWriteWord s.vdp (halfLow a.value) with
      | none => (none, s)
      | some vdp => (some a.value, { s with vdp := vdp }) := by
  obtain ⟨address, width, direction, value⟩ := a
  simp only [isWordControlWrite, Bool.and_eq_true, decide_eq_true_eq] at control
  obtain ⟨⟨rfl, rfl⟩, rfl⟩ := control
  have plain : ¬ ((0xC00004 : BitVec 32) = 0xC00000 ∨ ((0xC00004 : BitVec 32) = 0xC00001 ∧ Width.word = .byte ∧
      armedFill s.vdp = true)) := by
    rintro (h | h)
    · exact absurd h (by decide)
    · exact absurd h.1 (by decide)
  have answered : vdpWrite s { address := 0xC00004, width := .word, direction := .write, value := value } =
      match controlPortWriteWord s.vdp (halfLow value) with
      | none => (false, s)
      | some vdp => (true, { s with vdp := vdp }) := by
    rw [vdpWrite]
    exact (if_neg plain).trans (if_pos ⟨rfl, rfl⟩)
  rw [vdpAccess]
  dsimp only
  rw [answered]
  cases controlPortWriteWord s.vdp (halfLow value) with
  | none => rfl
  | some vdp => rfl

theorem not_inFlight_of_dma {vdp vdp' : VdpState} (idle : ¬ InFlight vdp)
    (dma : vdp'.dma = vdp.dma ∨ vdp'.dma = DmaState.filled vdp.dma) : ¬ InFlight vdp' := by
  rintro ⟨busy, memory⟩
  rcases dma with same | filled
  · rw [same] at busy memory
    exact idle ⟨busy, memory⟩
  · rw [filled] at busy
    exact DmaPhase.noConfusion busy

theorem ok_of_map {α : Type} {x : Except RuntimeStop Unit} {f : Unit → α} {value : α} (ok : x.map f = .ok value) :
    x = .ok () := by
  cases x with
  | error stop => cases ok
  | ok => rfl

theorem routeVdp_drained {machine : Machine D} {r r' : Runtime D F} {a : Access} {value : BitVec 32}
    (idle : ¬ InFlight r.vdp) (ok : routeVdp machine r a = (.ok value, r')) : Drained machine r a r' := by
  rw [routeVdp, progressed_idle idle] at ok
  dsimp only at ok
  by_cases long : isLongControlWrite a = true
  · rw [if_pos long] at ok
    have answered := ok_of_map (congrArg Prod.fst ok)
    obtain rfl := congrArg Prod.snd ok
    have halves := controlPortWriteLong_halves idle (Prod.ext answered rfl)
    refine ⟨?_, fun word => ?_, fun _ => halves, fun _ short => absurd long (by rw [short]; decide)⟩
    · obtain ⟨s₁, high, low⟩ := halves
      exact low.idle
    · simp only [isWordControlWrite, isLongControlWrite, Bool.and_eq_true, decide_eq_true_eq] at word long
      exact Width.noConfusion (word.1.2.symm.trans long.1.2)
  · rw [if_neg long] at ok
    by_cases word : isWordControlWrite a = true
    · rw [vdpAccess_word word] at ok
      cases accepted : controlPortWriteWord r.vdp (halfLow a.value) with
      | none =>
          rw [accepted] at ok
          dsimp only at ok
          cases ok
      | some vdp =>
          rw [accepted] at ok
          dsimp only at ok
          have answered := ok_of_map (congrArg Prod.fst ok)
          obtain rfl := congrArg Prod.snd ok
          have half := half_of_accepted (s := r.toScreen) idle accepted (Prod.ext answered rfl)
          exact ⟨half.idle, fun _ => half, fun h => absurd h long, fun h => absurd word (by rw [h]; decide)⟩
    · have dma := vdpAccess_dma (s := r.toScreen) (Bool.eq_false_iff.mpr word)
      generalize vdpAccess r.toScreen a = out at ok dma
      obtain ⟨answer, s₁⟩ := out
      cases answer with
      | none =>
          dsimp only at ok
          cases ok
      | some answer =>
          have idle₁ : ¬ InFlight s₁.vdp := not_inFlight_of_dma idle dma
          dsimp only at ok
          rw [drain_idle idle₁] at ok
          obtain rfl := congrArg Prod.snd ok
          exact ⟨idle₁, fun h => absurd h word, fun h => absurd h long, fun _ _ => dma⟩

theorem routeUnrecorded_cases {machine : Machine D} {r r' : Runtime D F} {a : Access} {value : BitVec 32}
    (ok : routeAccessUnrecorded machine r a = (.ok value, r')) :
    (r'.toScreen = r.toScreen ∧ a.address ≠ 0xC00004) ∨ routeVdp machine r a = (.ok value, r') := by
  rw [routeAccessUnrecorded] at ok
  cases refused : malformed a with
  | some stop =>
      rw [refused] at ok
      dsimp only at ok
      cases ok
  | none =>
      rw [refused] at ok
      dsimp only at ok
      split_ifs at ok with memory discarded vdp
      · obtain rfl := congrArg Prod.snd ok
        refine .inl ⟨rfl, fun address => ?_⟩
        rw [isMemory, address] at memory
        cases width : a.width <;> rw [width] at memory <;> exact absurd memory (by decide)
      · obtain rfl := congrArg Prod.snd ok
        refine .inl ⟨rfl, fun address => ?_⟩
        rw [isDiscardedPsgWrite, address] at discarded
        simp at discarded
      · exact .inr ok
      · obtain rfl := congrArg Prod.snd ok
        refine .inl ⟨rfl, fun address => ?_⟩
        rw [address] at vdp
        exact absurd (by decide) vdp

theorem Drained.of_screen {machine : Machine D} {r r' : Runtime D F} {a : Access} (idle : ¬ InFlight r.vdp)
    (screen : r'.toScreen = r.toScreen) (elsewhere : a.direction = .read ∨ a.address ≠ 0xC00004) :
    Drained machine r a r' := by
  have vdp : r'.vdp = r.vdp := congrArg Screen.vdp screen
  refine ⟨vdp ▸ idle, fun word => ?_, fun long => ?_, fun _ _ => .inl (congrArg VdpState.dma vdp)⟩
  · simp only [isWordControlWrite, Bool.and_eq_true, decide_eq_true_eq] at word
    rcases elsewhere with read | address
    · exact Direction.noConfusion (read.symm.trans word.1.1)
    · exact absurd word.2 address
  · simp only [isLongControlWrite, Bool.and_eq_true, decide_eq_true_eq] at long
    rcases elsewhere with read | address
    · exact Direction.noConfusion (read.symm.trans long.1.1)
    · exact absurd long.2 address

theorem Drained.recorded {machine : Machine D} {r r' : Runtime D F} {a : Access} (drained : Drained machine r a r') :
    Drained machine r a (recorded r' a) :=
  ⟨drained.idle, drained.word, drained.long, drained.other⟩

theorem routeAccess_drained {machine : Machine D} {r r' : Runtime D F} {a : Access} {discarded : Bool}
    {value : BitVec 32} (idle : ¬ InFlight r.vdp) (ok : routeAccess machine r a discarded = (.ok value, r')) :
    Drained machine r a r' := by
  rw [routeAccess] at ok
  split_ifs at ok with ignored
  · obtain rfl := congrArg Prod.snd ok
    exact .of_screen idle rfl (.inl ignored.2.1)
  · cases routed : routeAccessUnrecorded machine r a with
    | mk answer r₁ =>
        rw [routed] at ok
        cases answer with
        | error stop =>
            dsimp only at ok
            cases ok
        | ok answer =>
            obtain rfl := congrArg Prod.snd ok
            rcases routeUnrecorded_cases routed with ⟨screen, address⟩ | vdp
            · exact (Drained.of_screen idle screen (.inr address)).recorded
            · exact (routeVdp_drained idle vdp).recorded

/-! ## The source reads are routed reads -/

theorem memoryAccess_word (machine : Machine D) (rest : Rest D) (address : BitVec 32) :
    (memoryAccess machine rest { address := address, width := .word, direction := .read }).2 = rest := by
  rw [memoryAccess]
  split_ifs
  · rfl
  · rw [cartridgeAccess]
    cases overlay machine rest { address := address, width := .word, direction := .read } with
    | none =>
        dsimp only
        cases cartridgeRead machine address.toNat (Width.bytes .word) <;> rfl
    | some sram =>
        have wide : sram.classify { address := address, width := .word, direction := .read } ≠ .byte := by
          rw [CartridgeSramConfig.classify]
          split_ifs with outside rejected
          · exact SramAccess.noConfusion
          · exact SramAccess.noConfusion
          · exact absurd (.inl Width.noConfusion) rejected
        dsimp only
        rw [sramAccess]
        cases class' : sram.classify { address := address, width := .word, direction := .read } with
        | byte => exact absurd class' wide
        | outside => split_ifs <;> rfl
        | rejected => split_ifs <;> rfl

theorem deviceRegion_source {address : BitVec 32} (routable : dmaSourceIsRoutable address = true) :
    deviceRegion address = none := by
  have memory : address < 0x400000 ∨ inWorkRam address 1 = true := by
    rw [dmaSourceIsRoutable, Bool.or_eq_true, decide_eq_true_eq] at routable
    rcases routable with rom | ram
    · exact .inl rom
    · refine .inr ?_
      simp only [inWorkRam, decide_eq_true_eq] at ram ⊢
      omega
  rw [deviceRegion, if_pos memory]

/-- The router answers the WORD read of a routable source and changes nothing. -/
theorem routeAccess_source (machine : Machine D) (r : Runtime D F) (address : BitVec 32)
    (routable : dmaSourceIsRoutable address = true) :
    routeAccess machine r { address := address, width := .word, direction := .read } =
      (sourceRead machine r.rest address, r) := by
  let a : Access := { address := address, width := .word, direction := .read }
  have memory : isMemory a = true := (Bool.or_comm _ _).trans routable
  have unrecorded : recorded r a = r := by
    have read : ¬ (r.rest.recorders.m68kCheckpoint.enabled = true ∧ a.direction = .write) :=
      fun write => Direction.noConfusion write.2
    rw [recorded, Recorders.note, deviceRegion_source routable, if_neg read]
  have same := memoryAccess_word machine r.rest address
  rw [routeAccess, if_neg (fun discarded => Bool.noConfusion discarded.1), routeAccessUnrecorded, sourceRead]
  cases refused : malformed a with
  | some stop => rfl
  | none =>
      dsimp only
      rw [if_pos memory, same]
      cases (memoryAccess machine r.rest a).1 with
      | error stop => rfl
      | ok value => exact Prod.ext rfl unrecorded

/-! ## Runs -/

/-- The runs of a program from a reset: accesses that are accepted, retirements and exceptions that
do not stop, and whatever the CPU and the machine outside the screen do between them. -/
inductive Reach (machine : Machine D) (board : Board (Rest D)) : Runtime D F → Prop
  | reset {r : Runtime D F} (dma : r.vdp.dma = {}) (irq : r.m68kInterrupt = {}) : Reach machine board r
  | cpu {r r' : Runtime D F} (reach : Reach machine board r) (kept : Kept r r') : Reach machine board r'
  | access {r r' : Runtime D F} (reach : Reach machine board r) {a : Access} {discarded : Bool}
      {value : BitVec 32} (ok : routeAccess machine r a discarded = (.ok value, r')) : Reach machine board r'
  | retire {r : Runtime D F} (reach : Reach machine board r) (cycles : ℕ) (nextPc : BitVec 32)
      (pendingStop : Option RuntimeStop)
      (going : (retireM68kInstruction board r cycles nextPc pendingStop).transfer.stops = false) :
      Reach machine board (retireM68kInstruction board r cycles nextPc pendingStop).runtime
  | raise {r : Runtime D F} (reach : Reach machine board r) (vector stackedPc : BitVec 32) (entryCycles : ℕ)
      (failStop : RuntimeStop)
      (going : (raiseSynchronousException board r vector stackedPc entryCycles failStop).transfer.stops = false) :
      Reach machine board (raiseSynchronousException board r vector stackedPc entryCycles failStop).runtime

theorem routeVdp_irq (machine : Machine D) (r : Runtime D F) (a : Access) :
    (routeVdp machine r a).2.m68kInterrupt = r.m68kInterrupt := by
  rw [routeVdp]
  dsimp only
  split
  · rfl
  · split_ifs
    · rfl
    · split <;> rfl

theorem routeAccess_irq (machine : Machine D) (r : Runtime D F) (a : Access) (discarded : Bool) :
    (routeAccess machine r a discarded).2.m68kInterrupt = r.m68kInterrupt := by
  have unrecorded : (routeAccessUnrecorded machine r a).2.m68kInterrupt = r.m68kInterrupt := by
    rw [routeAccessUnrecorded]
    split
    · rfl
    · split_ifs
      · rfl
      · rfl
      · exact routeVdp_irq machine r a
      · rfl
  rw [routeAccess]
  split_ifs
  · rfl
  · split
    · rename_i routed
      rw [routed] at unrecorded
      exact unrecorded
    · rename_i routed
      rw [routed] at unrecorded
      exact unrecorded

theorem Reach.idle {machine : Machine D} {board : Board (Rest D)} {r : Runtime D F} (reach : Reach machine board r) :
    ¬ InFlight r.vdp ∧ r.m68kInterrupt.level7EdgePending = false := by
  induction reach with
  | reset dma irq =>
      refine ⟨fun flight => ?_, by rw [irq]⟩
      rw [InFlight, dma] at flight
      exact DmaPhase.noConfusion flight.1
  | cpu _ kept ih => exact ⟨congrArg Screen.vdp kept.screen ▸ ih.1, kept.edge.trans ih.2⟩
  | @access r r' _ a discarded value ok ih =>
      have irq := routeAccess_irq machine r a discarded
      rw [ok] at irq
      exact ⟨(routeAccess_drained ih.1 ok).idle, (congrArg (·.level7EdgePending) irq).trans ih.2⟩
  | retire _ cycles nextPc pendingStop _ ih =>
      have path := retireBoundary_path board _ cycles nextPc pendingStop ih.2
      exact ⟨path.vdp ▸ ih.1, path.edge ih.2⟩
  | @raise r _ vector stackedPc entryCycles failStop _ ih =>
      have path := raise_path board r vector stackedPc entryCycles failStop
      exact ⟨path.vdp ▸ ih.1, path.edge ih.2⟩

/-- A control word the command protocol refuses is a stop of its own and changes nothing. -/
theorem routeAccess_rejected {machine : Machine D} {r : Runtime D F} {a : Access} (discarded : Bool)
    (control : isWordControlWrite a = true) (rejected : controlPortWriteWord r.vdp (halfLow a.value) = none) :
    routeAccess machine r a discarded = (.error deviceStop, r) := by
  have answer := vdpAccess_word (s := r.toScreen) control
  rw [rejected] at answer
  obtain ⟨address, width, direction, value⟩ := a
  simp only [isWordControlWrite, Bool.and_eq_true, decide_eq_true_eq] at control
  obtain ⟨⟨rfl, rfl⟩, rfl⟩ := control
  let a : Access := { address := 0xC00004, width := .word, direction := .write, value := value }
  have settled (read : SourceRead) : progressed read r.toScreen a = .ok r.toScreen := if_neg Bool.false_ne_true
  have short : ¬ isLongControlWrite a = true := Bool.false_ne_true
  have routed : routeVdp machine r a = (.error deviceStop, r) := by
    rw [routeVdp, settled]
    dsimp only
    rw [if_neg short, answer]
  have inRange : (0xC00004 : BitVec 32) &&& 0xFF000000 = 0 := by decide
  have even : (0xC00004 : BitVec 32) &&& 1 = 0 := by decide
  have wellFormed : malformed a = none := by
    rw [malformed, if_neg (not_not.mpr inRange), if_neg fun odd => odd.2 even]
  have memory : isMemory a = false := rfl
  have psg : isDiscardedPsgWrite a = false := rfl
  have region : (isVdpRegion a.address && !isPsgPort a.address) = true := rfl
  have unrecorded : routeAccessUnrecorded machine r a = routeVdp machine r a := by
    rw [routeAccessUnrecorded, wellFormed, memory, psg, region]
    rfl
  have wanted : ¬ (discarded = true ∧ a.direction = .read ∧ a.address = 0xA11200 ∧ a.width ≠ .long) :=
    fun ignored => Direction.noConfusion ignored.2.1
  rw [routeAccess, if_neg wanted, unrecorded, routed]

/-- In every run a transfer from memory is over when the access that armed it is accepted: no
accepted access leaves one in flight, each half of a control write has copied all the words of the
transfer it armed before the next half, the words are routed reads, and a rejected control word
changes nothing. -/
theorem dma_drained {machine : Machine D} {board : Board (Rest D)} {r : Runtime D F}
    (reach : Reach machine board r) (a : Access) (discarded : Bool) :
    (∀ value r', routeAccess machine r a discarded = (.ok value, r') → Drained machine r a r') ∧
      (∀ address, dmaSourceIsRoutable address = true →
        routeAccess machine r { address := address, width := .word, direction := .read } =
          (sourceRead machine r.rest address, r)) ∧
      (isWordControlWrite a = true → controlPortWriteWord r.vdp (halfLow a.value) = none →
        routeAccess machine r a discarded = (.error deviceStop, r)) :=
  ⟨fun _ _ ok => routeAccess_drained reach.idle.1 ok, fun address => routeAccess_source machine r address,
    fun control rejected => routeAccess_rejected discarded control rejected⟩

/-! Concrete runs over a cartridge of four bytes and no other device. -/

def cartridge : Machine Unit where
  ownedRegions := [{ start := 0, stop := 4, length := 4, data := fun index => BitVec.ofNat 8 (0x11 * (index + 1)) }]
  eeprom _ storage _ := (0, (), storage)
  device rest _ synced _ := (.error (memoryStop .unmapped_data_access), rest, synced)

def quietBoard : Board (Rest Unit) where
  stackRead rest _ _ := (none, rest)
  frameWrite rest _ _ _ := (rest, false)
  noteIrq6ExceptionFrame rest _ := rest

def powerOn : Runtime Unit Unit where
  vdp := vdpWith 0 0 0
  a7 := 0xFFFE00
  usp := 0
  sr := 0x2700
  pc := 0x200
  rest := { workRam := fun _ => 0, devices := () }

def command (word : BitVec 32) : Access := { address := 0xC00004, width := .word, direction := .write, value := word }

/-- The runtime after accesses, whatever they answer. -/
def accessAll (r : Runtime Unit Unit) (accesses : List Access) : Runtime Unit Unit :=
  accesses.foldl (fun r a => (routeAccess cartridge r a).2) r

/-- Two words from address 0 to VRAM address 0, two apart. -/
theorem dma_drained_transfer :
    let r := accessAll powerOn ([0x8114, 0x8F02, 0x9302, 0x4000].map command)
    let out := routeAccess cartridge r (command 0x0080)
    out.1 = .ok 0x0080 ∧ ¬ InFlight out.2.vdp ∧ out.2.vdp.dma.transferAccessCount = 2 ∧
      (List.range 4).map (fun n => out.2.vdp.vram (Fin.ofNat 65536 n)) = [0x11, 0x22, 0x33, 0x44] := by
  have next {r : Runtime Unit Unit} (reach : Reach cartridge quietBoard r) (word : BitVec 32)
      (ok : (routeAccess cartridge r (command word)).1 = .ok word) :
      Reach cartridge quietBoard (accessAll r [command word]) := reach.access (Prod.ext ok rfl)
  have start : Reach cartridge quietBoard powerOn := .reset rfl rfl
  have enabled := next start 0x8114 (by decide)
  have stepped := next enabled 0x8F02 (by decide)
  have counted := next stepped 0x9302 (by decide)
  have addressed := next counted 0x4000 (by decide)
  have answered : (routeAccess cartridge (accessAll powerOn ([0x8114, 0x8F02, 0x9302, 0x4000].map command))
      (command 0x0080)).1 = .ok 0x0080 := by decide
  have drained := (dma_drained addressed (command 0x0080) false).1 0x0080 _ (Prod.ext answered rfl)
  exact ⟨answered, drained.idle, by decide, by decide⟩

/-- A transfer whose source leaves the cartridge fails and stays in flight; a read of work RAM is
then still accepted. -/
theorem failed_transfer_in_flight :
    ¬ ∀ (accesses : List Access) (a : Access) value r',
      routeAccess cartridge (accessAll powerOn accesses) a = (.ok value, r') → ¬ InFlight r'.vdp := by
  intro drained
  have idle := drained ([0x8114, 0x9301, 0x9720, 0x4000, 0x0080].map command)
    { address := 0xFF0000, width := .byte, direction := .read } 0 _ (Prod.ext (by decide) rfl)
  exact absurd (by decide) idle

end Segarecomp.Genesis.DmaDrain

import Segarecomp.Genesis.DataPort

/-! A transfer from memory to the VDP against the same words written to the data port: they agree unless
a word goes to an odd VRAM address. -/

namespace Segarecomp.Genesis.DmaPort

open Schedule VdpPort DataPort
open DmaDrain (InFlight destinationAt destinationAt_succ sourceAt stamp putWord putWords putWords_cons putWords_stamp
  putHead copied copied_cons transferWord_eq storeHalfword_vdp storeHalfword_stamp)

variable {F : Type} {read : SourceRead} {s s' : Screen F} {vdp : VdpState} {target : Target} {address : BitVec 16}
  {word : BitVec 32} {words : List (BitVec 32)}

/-! ## The transfer -/

/-- The source gives these words, from addresses that a transfer can read. -/
def Serves (read : SourceRead) (source : BitVec 32) (words : List (BitVec 32)) : Prop :=
  ∀ (k : ℕ) (inside : k < words.length),
    dmaSourceIsRoutable (sourceAt source k) = true ∧ read (sourceAt source k) = .ok words[k]

def dmaCode (target : Target) : Byte := writeCode target ||| 0x20

/-- Both words of a DMA command, each with the transfer that it arms. -/
def transfer (read : SourceRead) (s : Screen F) (target : Target) (address : BitVec 16) :
    Except RuntimeStop Unit × Screen F :=
  match controlPortWriteWordAndSuspend read s (commandFirst (dmaCode target) address) with
  | (.error stop, s) => (.error stop, s)
  | (.ok _, s) => controlPortWriteWordAndSuspend read s (commandSecond (dmaCode target) address)

theorem dmaCode_coded (target : Target) : Coded (dmaCode target) := by
  cases target <;> exact ⟨by decide, by decide, by decide⟩

theorem dmaCode_cd5 (target : Target) (address : BitVec 16) :
    (commandSecond (dmaCode target) address >>> 7) &&& 1 ≠ 0 := by
  intro none
  have bit : ((commandSecond (dmaCode target) address >>> 7) &&& 1)[0] = false := by rw [none]; decide
  cases target <;> simp [commandSecond, dmaCode, writeCode] at bit

theorem dmaCode_target (target : Target) : dmaCode target &&& 0x1F = writeCode target := by cases target <;> decide

theorem progressDma_word (flight : InFlight s.vdp) (selects : writeTarget s.vdp.dma.writeTargetCode = some target)
    (routable : dmaSourceIsRoutable s.vdp.dma.sourceAddress = true) (answer : read s.vdp.dma.sourceAddress = .ok word)
    (aligned : Aligned target (s.vdp.addressedPointer % target.size)) :
    progressDma read s = .ok (transferWord s target word) := by
  have memory : s.vdp.dma.kind ≠ .vram_fill := by
    rw [flight.2]
    exact DmaKind.noConfusion
  have fits : ¬(target ≠ .vram ∧ s.vdp.addressedPointer % target.size % 2 ≠ 0) :=
    fun both => both.2 (aligned both.1)
  rw [progressDma, if_neg (not_not.mpr flight.1), if_neg memory, selects]
  dsimp only
  rw [routable, if_neg (by decide), answer]
  exact if_neg fits

theorem drainLoop_serves (flight : InFlight s.vdp) (selects : writeTarget s.vdp.dma.writeTargetCode = some target)
    (left : s.vdp.dma.remainingLength = words.length) (some_word : words ≠ []) (bound : words.length < 2 ^ 32)
    (serves : Serves read s.vdp.dma.sourceAddress words)
    (aligned : ∀ k < words.length, Aligned target (place target s.vdp k)) :
    drainLoop read words.length s = (.ok (), copied s target words) := by
  induction words generalizing s with
  | nil => exact absurd rfl some_word
  | cons word words ih =>
    have first := serves 0 (Nat.succ_pos _)
    have fits := aligned 0 (Nat.succ_pos _)
    rw [place_zero] at fits
    have progress : progressDma read s = .ok (transferWord s target word) :=
      progressDma_word flight selects first.1 first.2 fits
    rw [List.length_cons] at left bound ⊢
    rw [drainLoop, if_neg (not_not.mpr flight.1), progress]
    dsimp only
    rw [transferWord_eq (by omega) (by omega)]
    cases words with
    | nil =>
      rw [if_pos (show s.vdp.dma.remainingLength = 1 from left)]
      rfl
    | cons next words =>
      rw [List.length_cons] at left
      rw [if_neg (by omega), ← copied_cons]
      have step : (DmaDrain.DmaState.moved s.vdp.dma).remainingLength = (next :: words).length := by
        change s.vdp.dma.remainingLength - 1 = words.length + 1
        omega
      apply ih (s := putHead s target word) flight selects step (List.cons_ne_nil _ _) (by omega)
      · exact fun k inside => serves (k + 1) (Nat.succ_lt_succ inside)
      · intro k inside
        have later := aligned (k + 1) (Nat.succ_lt_succ inside)
        have increments : increment (putHead s target word).vdp = increment s.vdp :=
          congrArg BitVec.toNat (DmaDrain.putWord_increment _)
        rw [place, destinationAt_succ] at later
        rw [place, increments]
        exact later

/-- The screen with no command pending. -/
def settled (s : Screen F) : Screen F := { s with vdp := commandDone s.vdp }

/-- What a memory transfer needs of the registers. -/
structure MemoryMode (vdp : VdpState) : Prop where
  enabled : dmaEnabled vdp = true
  memory : vdp.registers 23 &&& 0x80 = 0

theorem memory_not_fill (mode : MemoryMode vdp) : ¬vdp.registers 23 &&& 0xC0 = 0x80 := by
  intro fill
  have high : (vdp.registers 23 &&& 0xC0)[7] = true := by rw [fill]; decide
  have low : (vdp.registers 23 &&& 0x80)[7] = false := by rw [mode.memory]; decide
  simp at high low
  exact Bool.noConfusion (high.symm.trans low)

theorem secondWord_transfer (mode : MemoryMode vdp) (first : vdp.controlPortFirstWord = commandFirst (dmaCode target) address) :
    secondWord vdp (commandSecond (dmaCode target) address) =
      some (DmaDrain.armed vdp (commandSecond (dmaCode target) address)) := by
  have reserved := commandSecond_reserved (dmaCode_coded target) address
  have cd5 := dmaCode_cd5 target address
  have fill := memory_not_fill mode
  have coded := commandCode_command (dmaCode_coded target) address
  have selects : ¬(writeTarget (writeCode target)).isNone = true := by
    rw [writeTarget_writeCode]
    exact Bool.false_ne_true
  rw [secondWord]
  dsimp only
  rw [first, coded, reserved.1, reserved.2, if_neg (by simp), mode.enabled, if_neg (by simp), if_pos (by simpa using cd5),
    armDma, dmaCode_target, if_neg selects, if_neg (fun both => fill both.1), if_neg (fun both => both.1 mode.memory),
    if_neg (by simpa using fill), if_pos mode.memory, if_pos mode.memory, if_neg (by simpa using fill), DmaDrain.armed, first,
    coded, dmaCode_target]

/-- The screen after the first word of a command. -/
def begun (s : Screen F) (word : BitVec 16) : Screen F := { s with vdp := firstWord s.vdp word }

theorem transfer_begins (idle : s.vdp.dma.phase = .idle) (boundary : s.vdp.controlPortAwaitingSecondWord = false) :
    controlPortWriteWordAndSuspend read s (commandFirst (dmaCode target) address) =
      (.ok (), begun s (commandFirst (dmaCode target) address)) := by
  have first : controlPortWriteWord s.vdp (commandFirst (dmaCode target) address) =
      some (firstWord s.vdp (commandFirst (dmaCode target) address)) := by
    rw [controlPortWriteWord, boundary, if_neg Bool.false_ne_true,
      if_neg (commandFirst_address (dmaCode_coded target) address)]
  have quiet : ¬InFlight (begun s (commandFirst (dmaCode target) address)).vdp := by
    intro flight
    exact DmaPhase.noConfusion (idle.symm.trans flight.1)
  rw [controlPortWriteWordAndSuspend, first]
  exact DmaDrain.drain_idle quiet

/-- The engine a DMA command arms. -/
def engine (vdp : VdpState) (target : Target) : DmaState :=
  { phase := .busy
    kind := .memory_to_vram
    sourceAddress := dmaSource vdp
    remainingLength := dmaCount vdp
    writeTargetCode := writeCode target }

theorem armed_eq (s : Screen F) (target : Target) (address : BitVec 16) :
    ({ begun s (commandFirst (dmaCode target) address) with
        vdp := DmaDrain.armed (begun s (commandFirst (dmaCode target) address)).vdp
          (commandSecond (dmaCode target) address) } : Screen F) =
      stamp (settled s) address.toNat (engine s.vdp target) 0 false := by
  rw [DmaDrain.armed, show (begun s (commandFirst (dmaCode target) address)).vdp.controlPortFirstWord =
    commandFirst (dmaCode target) address from rfl, commandAddress_command, commandCode_command (dmaCode_coded target),
    dmaCode_target]
  rfl

theorem transfer_eq (idle : s.vdp.dma.phase = .idle) (boundary : s.vdp.controlPortAwaitingSecondWord = false)
    (mode : MemoryMode s.vdp) (count : words.length = dmaCount s.vdp) (serves : Serves read (dmaSource s.vdp) words)
    (aligned : ∀ k < words.length, Aligned target (reached target address s.vdp k)) :
    ∃ dma, transfer read s target address =
      (.ok (), stamp (putWords target address.toNat (increment s.vdp) words (settled s))
        (reached target address s.vdp words.length) dma (writeCode target) true) := by
  have positive := DmaDrain.dmaCount_pos s.vdp
  have second : controlPortWriteWord (begun s (commandFirst (dmaCode target) address)).vdp
      (commandSecond (dmaCode target) address) =
        some (DmaDrain.armed (begun s (commandFirst (dmaCode target) address)).vdp
          (commandSecond (dmaCode target) address)) := by
    rw [controlPortWriteWord, if_pos (show (begun s _).vdp.controlPortAwaitingSecondWord = true from rfl)]
    exact secondWord_transfer ⟨mode.enabled, mode.memory⟩ rfl
  have left : wordsLeft (engine s.vdp target) = words.length := by
    rw [wordsLeft, if_neg (show (engine s.vdp target).remainingLength ≠ 0 from positive.1.ne')]
    exact count.symm
  have drained : drainLoop read words.length (stamp (settled s) address.toNat (engine s.vdp target) 0 false) =
      (.ok (), copied (stamp (settled s) address.toNat (engine s.vdp target) 0 false) target words) := by
    apply drainLoop_serves ⟨rfl, rfl⟩ (writeTarget_writeCode target) count.symm
    · intro none
      rw [none] at count
      exact positive.1.ne count
    · rw [count]
      exact positive.2
    · exact serves
    · exact aligned
  have busy : ¬((stamp (settled s) address.toNat (engine s.vdp target) 0 false).vdp.dma.phase ≠ .busy ∨
      (stamp (settled s) address.toNat (engine s.vdp target) 0 false).vdp.dma.kind ≠ .memory_to_vram) :=
    fun quiet => quiet.elim (fun idle => idle rfl) (fun fill => fill rfl)
  rw [transfer, transfer_begins idle boundary]
  dsimp only
  rw [controlPortWriteWordAndSuspend, second]
  dsimp only
  rw [armed_eq, drainMemoryToVdpDma, if_neg busy,
    show (stamp (settled s) address.toNat (engine s.vdp target) 0 false).vdp.dma = engine s.vdp target from rfl, left,
    drained, copied, putWords_stamp]
  exact ⟨_, rfl⟩

/-! ## The port -/

/-- The words written to the data port one by one, behind a plain command. -/
def portWrites (s : Screen F) (target : Target) (address : BitVec 16) (words : List (BitVec 32)) : Option (Screen F) :=
  (command s (writeCode target) address).bind fun s => writeAll s (words.map fun word => .word (halfLow word))

theorem highByte_halfLow (word : BitVec 32) : highByte (halfLow word) = (word >>> 8).setWidth 8 := by
  apply BitVec.eq_of_getLsbD_eq
  intro i inside
  rw [highByte, halfLow]
  simp [inside, show 8 + i < 16 by omega]

theorem lowByte_halfLow (word : BitVec 32) : lowByte (halfLow word) = word.setWidth 8 :=
  BitVec.setWidth_setWidth_of_le word (by decide)

/-- The screen after a word written to the port. -/
def ported (target : Target) (s : Screen F) (word : BitVec 32) : Screen F :=
  (dataPortTargetWriteHalfword s target (halfLow word)).2

theorem writeAll_ported (selected : Selected s.vdp (writeCode target)) (words : List (BitVec 32))
    (aligned : AllAligned target s.vdp words.length) :
    writeAll s (words.map fun word => .word (halfLow word)) = some (words.foldl (ported target) s) := by
  induction words generalizing s with
  | nil => rfl
  | cons word words ih =>
    have first := aligned.head
    have one := dataPortTargetWriteHalfword_eq (halfLow word) first
    have port := dataPortCpuWrite_word selected ((halfLow word).setWidth 32)
    rw [show halfLow ((halfLow word).setWidth 32) = halfLow word from BitVec.setWidth_setWidth_of_le _ (by decide)] at port
    have answer : access s (dataWrite .word ((halfLow word).setWidth 32)) =
        some ((halfLow word).setWidth 32, ported target s word) := by
      rw [access_of_accepted selected ((congrArg Prod.fst port).trans one.1), port]
      rfl
    have kept : Selected (ported target s word).vdp (writeCode target) := by
      rw [ported, one.2]
      exact selected.written _
    have later : AllAligned target (ported target s word).vdp words.length := by
      rw [ported, one.2]
      exact aligned.written
    rw [List.map_cons, writeAll]
    calc ((access s (dataWrite .word ((halfLow word).setWidth 32))).bind fun out =>
          writeAll out.2 (words.map fun word => .word (halfLow word)))
        = writeAll (ported target s word) (words.map fun word => .word (halfLow word)) := by
          rw [answer]
          rfl
      _ = some (words.foldl (ported target) (ported target s word)) := ih kept later

/-- A word that goes to an even address is stored as the transfer stores it. -/
theorem ported_even (even : s.vdp.addressedPointer % target.size % 2 = 0) :
    ported target s word =
      stamp (putWord s target (s.vdp.addressedPointer % target.size) word)
        ((s.vdp.addressedPointer % target.size + increment s.vdp) % target.size) s.vdp.dma s.vdp.dataPortTransferCode
        s.vdp.dataPortTransferCodeValid := by
  have inside := Nat.mod_lt s.vdp.addressedPointer (Target.size_pos target)
  have stored : putWord s target (s.vdp.addressedPointer % target.size) word =
      storeHalfword s target (s.vdp.addressedPointer % target.size) (highByte (halfLow word)) (lowByte (halfLow word)) := by
    rw [putWord, highByte_halfLow, lowByte_halfLow]
  rw [ported, dataPortTargetWriteHalfword]
  dsimp only
  rw [if_neg (not_not.mpr even), ← stored, Nat.mod_add_mod]
  have self : stamp (putWord s target (s.vdp.addressedPointer % target.size) word) s.vdp.addressedPointer s.vdp.dma
      s.vdp.dataPortTransferCode s.vdp.dataPortTransferCodeValid =
        putWord s target (s.vdp.addressedPointer % target.size) word := DmaDrain.putWord_self _
  have steps : (putWord s target (s.vdp.addressedPointer % target.size) word).vdp.autoIncrementValue =
      s.vdp.autoIncrementValue := DmaDrain.putWord_increment _
  generalize putWord s target (s.vdp.addressedPointer % target.size) word = t at self steps ⊢
  dsimp only
  have pointer : t.vdp.addressedPointer = s.vdp.addressedPointer := by rw [← self]; rfl
  have dma : t.vdp.dma = s.vdp.dma := by rw [← self]; rfl
  have code : t.vdp.dataPortTransferCode = s.vdp.dataPortTransferCode := by rw [← self]; rfl
  have valid : t.vdp.dataPortTransferCodeValid = s.vdp.dataPortTransferCodeValid := by rw [← self]; rfl
  have amount : increment s.vdp = t.vdp.autoIncrementValue.toNat := congrArg BitVec.toNat steps.symm
  rw [stamp, ← dma, ← code, ← valid, advancePointer, pointer, amount]

theorem ported_all (some_word : words ≠ []) (even : ∀ k < words.length, place target s.vdp k % 2 = 0) :
    words.foldl (ported target) s =
      stamp (putWords target s.vdp.addressedPointer (increment s.vdp) words s) (place target s.vdp words.length) s.vdp.dma
        s.vdp.dataPortTransferCode s.vdp.dataPortTransferCodeValid := by
  induction words generalizing s with
  | nil => exact absurd rfl some_word
  | cons word words ih =>
    have first := even 0 (Nat.succ_pos _)
    rw [place_zero] at first
    have step : ported target s word = _ := ported_even first
    have steps : increment (ported target s word).vdp = increment s.vdp := by
      rw [step]
      exact congrArg BitVec.toNat (DmaDrain.putWord_increment _)
    have next (k : ℕ) : place target (ported target s word).vdp k = place target s.vdp (k + 1) := by
      rw [place, steps, place, destinationAt_succ, step]
      rfl
    rw [List.foldl_cons, List.length_cons]
    cases words with
    | nil =>
      rw [List.foldl_nil, step, putWords_cons, place, destinationAt_succ, destinationAt, List.length_nil, Nat.zero_mul,
        Nat.add_zero, Nat.mod_mod]
      rfl
    | cons second words =>
      rw [ih (List.cons_ne_nil _ _) (fun k inside => by rw [next]; exact even (k + 1) (Nat.succ_lt_succ inside)), next, steps,
        step, putWords_stamp]
      conv_rhs => rw [putWords_cons]
      rfl

/-! ## Both -/

/-- What the picture and the next access are made of. -/
structure Same (a b : Screen F) : Prop where
  vram : a.vdp.vram = b.vdp.vram
  cram : a.vdp.cram = b.vdp.cram
  vsram : a.vdp.vsram = b.vdp.vsram
  addressedPointer : a.vdp.addressedPointer = b.vdp.addressedPointer
  liveRaster : a.liveRaster = b.liveRaster

theorem Same.of_stamp (s : Screen F) (pointer : ℕ) (first second : DmaState) (code other : Byte) (valid : Bool) :
    Same (stamp s pointer first code valid) (stamp s pointer second other valid) := ⟨rfl, rfl, rfl, rfl, rfl⟩

theorem commanded_eq (s : Screen F) (code : Byte) (address : BitVec 16) :
    ({ s with vdp := commanded s.vdp code address } : Screen F) =
      stamp (settled s) address.toNat s.vdp.dma code true := rfl

theorem portWrites_eq (idle : s.vdp.dma.phase = .idle) (boundary : s.vdp.controlPortAwaitingSecondWord = false)
    (aligned : ∀ k < words.length, Aligned target (reached target address s.vdp k)) :
    portWrites s target address words =
      some (words.foldl (ported target) (stamp (settled s) address.toNat s.vdp.dma (writeCode target) true)) := by
  have selected : Selected (stamp (settled s) address.toNat s.vdp.dma (writeCode target) true).vdp (writeCode target) :=
    ⟨idle, rfl, rfl, rfl⟩
  rw [portWrites, command_eq (writeCode_plain target) boundary, commanded_eq]
  exact writeAll_ported selected words aligned

theorem same_of_even {dma : DmaState} (some_word : words ≠ [])
    (even : ∀ k < words.length, reached target address s.vdp k % 2 = 0) :
    Same
      (stamp (putWords target address.toNat (increment s.vdp) words (settled s)) (reached target address s.vdp words.length)
        dma (writeCode target) true)
      (words.foldl (ported target) (stamp (settled s) address.toNat s.vdp.dma (writeCode target) true)) := by
  have all := ported_all (s := stamp (settled s) address.toNat s.vdp.dma (writeCode target) true) some_word even
  rw [all]
  change Same _ (stamp (putWords target address.toNat (increment s.vdp) words
    (stamp (settled s) address.toNat s.vdp.dma (writeCode target) true)) _ _ _ _)
  rw [putWords_stamp]
  exact Same.of_stamp _ _ _ _ _ _ _

/-! ## The journal -/

/-- The frame's journal is open in an active line and holds `count` bytes. -/
def Open (s : Screen F) (count : ℕ) : Prop :=
  ∃ capture, s.liveRaster = some capture ∧ capture.frame.hasVramJournal = true ∧
    capture.frame.vramWriteCount.toNat = count ∧ s.raster.lastLine % linesPerFrame < rasterMaxLines

/-- Entry `i` of the journal is of this address. -/
def Journaled (s : Screen F) (i : ℕ) (address : BitVec 16) : Prop :=
  ∃ capture, ∃ room : i < 8192, s.liveRaster = some capture ∧ i < capture.frame.vramWriteCount.toNat ∧
    (capture.frame.vramWrites ⟨i, room⟩).address = address

variable {i count : ℕ} {entry : BitVec 16}

theorem Open.journal (opened : Open s count) (room : count < 8192) (place : ℕ) (value : Byte) :
    Open (journalVram s place value) (count + 1) ∧ Journaled (journalVram s place value) count (BitVec.ofNat 16 place) := by
  rcases opened with ⟨capture, live, journal, held, line⟩
  have active : ¬(capture.frame.hasVramJournal = false ∨ rasterMaxLines ≤ s.raster.lastLine % linesPerFrame) := by
    intro closed
    rcases closed with none | late
    · exact Bool.noConfusion (journal.symm.trans none)
    · omega
  have next : (capture.frame.vramWriteCount + 1).toNat = count + 1 := by
    rw [BitVec.toNat_add, held, show (1 : BitVec 16).toNat = 1 from rfl]
    exact Nat.mod_eq_of_lt (by omega)
  subst held
  rw [journalVram, live]
  dsimp only
  rw [if_neg active, dif_pos room]
  constructor
  · exact ⟨_, rfl, journal, next, line⟩
  · refine ⟨_, room, rfl, ?_, ?_⟩
    · dsimp only
      omega
    · dsimp only
      rw [Function.update_self]

theorem Journaled.journal (journaled : Journaled s i entry) (place : ℕ) (value : Byte) :
    Journaled (journalVram s place value) i entry := by
  rcases journaled with ⟨capture, room, live, below, held⟩
  rw [journalVram, live]
  dsimp only
  by_cases closed : capture.frame.hasVramJournal = false ∨ rasterMaxLines ≤ s.raster.lastLine % linesPerFrame
  · rw [if_pos closed]
    exact ⟨capture, room, live, below, held⟩
  · rw [if_neg closed]
    by_cases free : capture.frame.vramWriteCount.toNat < 8192
    · have next : (capture.frame.vramWriteCount + 1).toNat = capture.frame.vramWriteCount.toNat + 1 := by
        rw [BitVec.toNat_add, show (1 : BitVec 16).toNat = 1 from rfl]
        exact Nat.mod_eq_of_lt (by omega)
      have other : (⟨i, room⟩ : Fin 8192) ≠ ⟨capture.frame.vramWriteCount.toNat, free⟩ := by
        intro same
        exact below.ne (congrArg Fin.val same)
      rw [dif_pos free]
      refine ⟨_, room, rfl, ?_, ?_⟩
      · dsimp only
        omega
      · dsimp only
        rw [Function.update_of_ne other]
        exact held
    · rw [dif_neg free]
      exact ⟨_, room, rfl, below, held⟩

theorem storeHalfword_vram (s : Screen F) (destination : ℕ) (first second : Byte) :
    ∃ vdp, storeHalfword s .vram destination first second =
      journalVram (journalVram { s with vdp := vdp } destination first) ((destination + 1) % 65536) second :=
  ⟨_, rfl⟩

theorem storeHalfword_open (destination : ℕ) (opened : Open s count) (room : count + 1 < 8192) (first second : Byte) :
    Open (storeHalfword s .vram destination first second) (count + 2) ∧
      Journaled (storeHalfword s .vram destination first second) count (BitVec.ofNat 16 destination) := by
  rcases storeHalfword_vram s destination first second with ⟨vdp, stored⟩
  rw [stored]
  have one := Open.journal (s := { s with vdp := vdp }) opened (by omega) destination first
  have two := one.1.journal room ((destination + 1) % 65536) second
  exact ⟨two.1, one.2.journal _ _⟩

theorem storeHalfword_kept {destination : ℕ} (journaled : Journaled s i entry) (first second : Byte) :
    Journaled (storeHalfword s .vram destination first second) i entry := by
  rcases storeHalfword_vram s destination first second with ⟨vdp, stored⟩
  rw [stored]
  exact (Journaled.journal (s := { s with vdp := vdp }) journaled _ _).journal _ _

theorem putWords_kept {pointer step : ℕ} (journaled : Journaled s i entry) :
    Journaled (putWords .vram pointer step words s) i entry := by
  induction words generalizing s pointer with
  | nil => exact journaled
  | cons word words ih =>
    rw [putWords_cons]
    exact ih (storeHalfword_kept journaled _ _)

/-- A transfer journals its words at the addresses it was given. -/
theorem putWords_journaled {pointer step : ℕ} (opened : Open s count) (j : ℕ) (inside : j < words.length)
    (room : count + 2 * j + 1 < 8192) :
    Journaled (putWords .vram pointer step words s) (count + 2 * j)
      (BitVec.ofNat 16 (destinationAt .vram pointer step j)) := by
  induction words generalizing s pointer count j with
  | nil => exact absurd inside (Nat.not_lt_zero j)
  | cons word words ih =>
    rw [putWords_cons]
    have stored := storeHalfword_open (pointer % Target.vram.size) opened (by omega)
      ((word >>> 8).setWidth 8) (word.setWidth 8)
    cases j with
    | zero =>
      rw [destinationAt, Nat.zero_mul, Nat.add_zero]
      exact putWords_kept stored.2
    | succ j =>
      rw [destinationAt_succ, show count + 2 * (j + 1) = count + 2 + 2 * j by omega]
      exact ih stored.1 j (Nat.lt_of_succ_lt_succ inside) (by omega)

/-- The pair of a byte. -/
def base (place : ℕ) : ℕ := place - place % 2

theorem ported_stored (s : Screen F) (word : BitVec 32) :
    ∃ first second, ∃ vdp, ported .vram s word =
      { storeHalfword s .vram (base (s.vdp.addressedPointer % 65536)) first second with vdp := vdp } := by
  rw [ported, dataPortTargetWriteHalfword]
  dsimp only
  by_cases odd : s.vdp.addressedPointer % Target.vram.size % 2 ≠ 0
  · have one : s.vdp.addressedPointer % 65536 % 2 = 1 := by
      change s.vdp.addressedPointer % 65536 % 2 ≠ 0 at odd
      omega
    rw [if_pos odd, if_neg (fun other => other rfl), base, one]
    exact ⟨_, _, _, rfl⟩
  · have none : s.vdp.addressedPointer % 65536 % 2 = 0 := not_not.mp odd
    rw [if_neg odd, base, none]
    exact ⟨_, _, _, rfl⟩

theorem ported_kept (journaled : Journaled s i entry) : Journaled (words.foldl (ported .vram) s) i entry := by
  induction words generalizing s with
  | nil => exact journaled
  | cons word words ih =>
    rcases ported_stored s word with ⟨first, second, vdp, stored⟩
    rw [List.foldl_cons, stored]
    exact ih (storeHalfword_kept journaled first second)

theorem ported_place (s : Screen F) (word : BitVec 32) (k : ℕ) :
    place .vram (ported .vram s word).vdp k = place .vram s.vdp (k + 1) := by
  have aligned : Aligned .vram (s.vdp.addressedPointer % Target.vram.size) := fun other => absurd rfl other
  have one := dataPortTargetWriteHalfword_eq (halfLow word) aligned
  rw [ported, one.2, place_written]

/-- The port journals a word at the even address of its pair. -/
theorem ported_journaled (opened : Open s count) (j : ℕ) (inside : j < words.length) (room : count + 2 * j + 1 < 8192) :
    Journaled (words.foldl (ported .vram) s) (count + 2 * j) (BitVec.ofNat 16 (base (place .vram s.vdp j))) := by
  induction words generalizing s count j with
  | nil => exact absurd inside (Nat.not_lt_zero j)
  | cons word words ih =>
    rw [List.foldl_cons]
    rcases ported_stored s word with ⟨first, second, vdp, stored⟩
    have wrote := storeHalfword_open (base (s.vdp.addressedPointer % 65536)) opened (by omega) first second
    have opens : Open (ported .vram s word) (count + 2) := by
      rw [stored]
      exact wrote.1
    cases j with
    | zero =>
      rw [place_zero]
      apply ported_kept
      rw [stored]
      exact wrote.2
    | succ j =>
      have later := ih opens j (Nat.lt_of_succ_lt_succ inside) (by omega)
      rw [ported_place] at later
      rw [show count + 2 * (j + 1) = count + 2 + 2 * j by omega]
      exact later

theorem Journaled.unique {other : BitVec 16} {t : Screen F} (first : Journaled s i entry) (second : Journaled t i other)
    (same : s.liveRaster = t.liveRaster) : entry = other := by
  rcases first with ⟨capture, room, live, _, held⟩
  rcases second with ⟨capture', room', live', _, held'⟩
  have equal : capture = capture' := Option.some.inj (live.symm.trans (same.trans live'))
  subst equal
  exact held.symm.trans held'

/-! ## When they agree -/

/-- A screen around a VDP, in an active line, with an empty open journal. -/
def capturing (F : Type) (vdp : VdpState) : Screen F :=
  { vdp := vdp
    liveRaster := some
      { producer := none
        frame :=
          { lines := fun _ => rasterCaptureState vdp
            hasVramJournal := true
            vramWriteCount := 0
            vramWrites := fun _ => { address := 0, value := 0, line := 0 }
            vramStart := vdp.vram }
        captured := fun _ => false
        renderRejections := 0
        vramJournalOverflows := 0 } }

theorem capturing_open (F : Type) (vdp : VdpState) : Open (settled (capturing F vdp)) 0 :=
  ⟨_, rfl, rfl, rfl, show 0 % linesPerFrame < rasterMaxLines by decide⟩

/-- If any word of a run goes to an odd address, the first or the second one does. -/
theorem odd_early {pointer step k n : ℕ} (inside : k < n) (odd : destinationAt target pointer step k % 2 = 1) :
    ∃ j, j < n ∧ j < 2 ∧ destinationAt target pointer step j % 2 = 1 := by
  have even := Target.size_even target
  have parity (j : ℕ) : destinationAt target pointer step j % 2 = (pointer + j * step) % 2 := by
    rw [destinationAt]
    exact Nat.mod_mod_of_dvd _ (Nat.dvd_of_mod_eq_zero even)
  rw [parity] at odd
  by_cases start : pointer % 2 = 1
  · refine ⟨0, by omega, by decide, ?_⟩
    rw [parity, Nat.zero_mul, Nat.add_zero]
    exact start
  · have later : 0 < k := by
      by_contra first
      rw [show k = 0 by omega, Nat.zero_mul, Nat.add_zero] at odd
      exact start odd
    have stepOdd : step % 2 = 1 := by
      by_contra other
      have product : k * step % 2 = 0 := by rw [Nat.mul_mod, show step % 2 = 0 by omega, Nat.mul_zero]
      omega
    refine ⟨1, by omega, by decide, ?_⟩
    rw [parity, Nat.one_mul]
    omega

/-- A word for an odd VRAM address is journaled, and so stored, at two different places. -/
theorem differ_of_odd {dma : DmaState} {k : ℕ} (inside : k < words.length)
    (odd : reached .vram address vdp k % 2 = 1) :
    ¬Same
      (stamp (putWords .vram address.toNat (increment vdp) words (settled (capturing F vdp)))
        (reached .vram address vdp words.length) dma (writeCode .vram) true)
      (words.foldl (ported .vram)
        (stamp (settled (capturing F vdp)) address.toNat vdp.dma (writeCode .vram) true)) := by
  intro same
  rcases odd_early inside odd with ⟨j, low, few, early⟩
  have opened := capturing_open F vdp
  have first : Journaled (putWords .vram address.toNat (increment vdp) words (settled (capturing F vdp))) (0 + 2 * j)
      (BitVec.ofNat 16 (destinationAt .vram address.toNat (increment vdp) j)) :=
    putWords_journaled opened j low (by omega)
  have second := ported_journaled (s := stamp (settled (capturing F vdp)) address.toNat vdp.dma (writeCode .vram) true)
    opened j low (by omega)
  have equal := first.unique second same.liveRaster
  have narrow : destinationAt .vram address.toNat (increment vdp) j < 65536 := Nat.mod_lt _ (by decide)
  have places : destinationAt .vram address.toNat (increment vdp) j % 65536 =
      base (destinationAt .vram address.toNat (increment vdp) j) % 65536 := congrArg BitVec.toNat equal
  rw [base, early] at places
  omega

/-- The transfer of words whose destinations are accepted leaves what the port leaves, on every screen around a VDP,
if and only if no word goes to an odd address. -/
theorem transfer_same_iff (read : SourceRead) (vdp : VdpState) (target : Target) (address : BitVec 16)
    (words : List (BitVec 32)) (idle : vdp.dma.phase = .idle) (boundary : vdp.controlPortAwaitingSecondWord = false)
    (mode : MemoryMode vdp) (count : words.length = dmaCount vdp) (serves : Serves read (dmaSource vdp) words)
    (aligned : ∀ k < words.length, Aligned target (reached target address vdp k)) :
    (∀ s : Screen F, s.vdp = vdp → ∃ moved written, transfer read s target address = (.ok (), moved) ∧
        portWrites s target address words = some written ∧ Same moved written) ↔
      ∀ k < words.length, reached target address vdp k % 2 = 0 := by
  have some_word : words ≠ [] := by
    intro none
    rw [none] at count
    exact (DmaDrain.dmaCount_pos vdp).1.ne count
  constructor
  · intro agree k inside
    by_contra odd
    have vram : target = .vram := by
      by_contra other
      exact odd (aligned k inside other)
    subst vram
    rcases agree (capturing F vdp) rfl with ⟨moved, written, transferred, wrote, same⟩
    rcases transfer_eq (s := capturing F vdp) idle boundary mode count serves aligned with ⟨dma, engine⟩
    rw [portWrites_eq (s := capturing F vdp) idle boundary aligned] at wrote
    rw [engine] at transferred
    have moves := congrArg Prod.snd transferred
    dsimp only at moves
    rw [← moves, ← Option.some.inj wrote] at same
    have early : reached .vram address vdp k % 2 = 1 := by omega
    exact differ_of_odd inside early same
  · intro even s around
    subst around
    rcases transfer_eq idle boundary mode count serves aligned with ⟨dma, engine⟩
    exact ⟨_, _, engine, portWrites_eq idle boundary aligned, same_of_even some_word even⟩

/-- A VDP that a transfer of one word can be started on. -/
def oneWord : VdpState :=
  { DmaDrain.powerOn.vdp with
    registers := fun n => if n.val = 1 then 0x10 else if n.val = 19 then 1 else 0 }

def constant : SourceRead := fun _ => .ok 0x1234

theorem oneWord_mode : MemoryMode oneWord := ⟨by decide, by decide⟩

theorem oneWord_serves : Serves constant (dmaSource oneWord) [0x1234] := by
  intro k inside
  have only : k = 0 := by
    rw [List.length_singleton] at inside
    omega
  subst only
  exact ⟨by decide, rfl⟩

theorem transfer_same_iff_oneWord :
    (∀ s : Screen Unit, s.vdp = oneWord → ∃ moved written, transfer constant s .vram 1 = (.ok (), moved) ∧
        portWrites s .vram 1 [0x1234] = some written ∧ Same moved written) ↔
      ∀ k < [(0x1234 : BitVec 32)].length, reached .vram 1 oneWord k % 2 = 0 :=
  transfer_same_iff constant oneWord .vram 1 [0x1234] rfl rfl oneWord_mode (by decide) oneWord_serves
    (fun _ _ other => absurd rfl other)

/-- One word moved to VRAM address one. -/
theorem not_transfer_same :
    ¬∀ (read : SourceRead) (vdp : VdpState) (target : Target) (address : BitVec 16) (words : List (BitVec 32)),
      vdp.dma.phase = .idle → vdp.controlPortAwaitingSecondWord = false → MemoryMode vdp →
      words.length = dmaCount vdp → Serves read (dmaSource vdp) words →
      (∀ k < words.length, Aligned target (reached target address vdp k)) →
      ∀ s : Screen Unit, s.vdp = vdp → ∃ moved written, transfer read s target address = (.ok (), moved) ∧
        portWrites s target address words = some written ∧ Same moved written := by
  intro claim
  have vram : ∀ k < [(0x1234 : BitVec 32)].length, Aligned .vram (reached .vram 1 oneWord k) :=
    fun _ _ other => absurd rfl other
  rcases claim constant oneWord .vram 1 [0x1234] rfl rfl oneWord_mode (by decide) oneWord_serves vram
    (capturing Unit oneWord) rfl with ⟨moved, written, transferred, wrote, same⟩
  rcases transfer_eq (s := capturing Unit oneWord) rfl rfl oneWord_mode (by decide) oneWord_serves vram with ⟨dma, engine⟩
  rw [portWrites_eq (s := capturing Unit oneWord) rfl rfl vram] at wrote
  rw [engine] at transferred
  have moves := congrArg Prod.snd transferred
  dsimp only at moves
  rw [← moves, ← Option.some.inj wrote] at same
  exact differ_of_odd (k := 0) (by decide) (by decide) same

end Segarecomp.Genesis.DmaPort

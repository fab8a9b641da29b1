import Segarecomp.Genesis.DmaDrain

/-! What the 68000 writes to the data port it reads back, at odd VRAM addresses too. -/

namespace Segarecomp.Genesis.DataPort

open Schedule VdpPort Route
open DmaDrain (destinationAt destinationAt_succ journalVram_vdp storeHalfword_vdp)

variable {F : Type} {s s' : Screen F} {vdp : VdpState} {target : Target} {code : Byte}

/-! ## One halfword -/

def pair (high low : Byte) : BitVec 16 := high.setWidth 16 <<< 8 ||| low.setWidth 16

/-- The halfword that the port gives at an address. -/
def fetch (vdp : VdpState) (target : Target) (destination : ℕ) : BitVec 16 :=
  if destination % 2 ≠ 0 then
    pair (storedByte vdp target destination) (storedByte vdp target (destination - 1))
  else pair (storedByte vdp target destination) (storedByte vdp target (destination + 1))

def put (vdp : VdpState) (target : Target) (destination : ℕ) (halfword : BitVec 16) : VdpState :=
  if destination % 2 ≠ 0 then
    storeByte (storeByte vdp target (destination - 1) (lowByte halfword)) target destination (highByte halfword)
  else storeByte (storeByte vdp target destination (highByte halfword)) target (destination + 1) (lowByte halfword)

theorem storedByte_storeByte (vdp : VdpState) (target other : Target) (value : Byte) {address place : ℕ}
    (inside : address < target.size) (placed : place < other.size) :
    storedByte (storeByte vdp target address value) other place =
      if other = target ∧ place = address then value else storedByte vdp other place := by
  by_cases same : other = target
  · subst same
    by_cases here : place = address
    · subst here
      rw [if_pos ⟨rfl, rfl⟩]
      cases other <;> exact Function.update_self _ _ _
    · rw [if_neg (fun both => here both.2)]
      have apart (n : ℕ) [NeZero n] (low : address < n) (high : place < n) : Fin.ofNat n place ≠ Fin.ofNat n address := by
        intro equal
        have values : place % n = address % n := congrArg Fin.val equal
        rw [Nat.mod_eq_of_lt low, Nat.mod_eq_of_lt high] at values
        exact here values
      cases other with
      | vram => exact Function.update_of_ne (apart 65536 inside placed) _ _
      | cram => exact Function.update_of_ne (apart 128 inside placed) _ _
      | vsram => exact Function.update_of_ne (apart 80 inside placed) _ _
  · rw [if_neg (fun both => same both.1)]
    cases target <;> cases other <;> first | rfl | exact absurd rfl same

theorem Target.size_even (target : Target) : target.size % 2 = 0 := by cases target <;> rfl

theorem Target.size_pos (target : Target) : 0 < target.size := by cases target <;> decide

theorem pair_bytes (halfword : BitVec 16) : pair (highByte halfword) (lowByte halfword) = halfword := by
  apply BitVec.eq_of_getLsbD_eq
  intro i inside
  rw [pair, highByte, lowByte]
  rcases Nat.lt_or_ge i 8 with low | high
  · simp [low, inside]
  · have up : 8 + (i - 8) = i := by omega
    simp [high, show ¬i < 8 by omega, inside, up, show i - 8 < 8 by omega, show i - 8 < 16 by omega]

theorem storedByte_put {destination place : ℕ} {other : Target} (halfword : BitVec 16) (inside : destination < target.size)
    (placed : place < other.size) (apart : other = target → place / 2 ≠ destination / 2) :
    storedByte (put vdp target destination halfword) other place = storedByte vdp other place := by
  have even := Target.size_even target
  rw [put]
  split
  · rw [storedByte_storeByte _ _ _ _ inside placed, storedByte_storeByte _ _ _ _ (by omega) placed]
    split_ifs with last first
    · exact absurd (by omega) (apart last.1)
    · exact absurd (by omega) (apart first.1)
    · rfl
  · rw [storedByte_storeByte _ _ _ _ (by omega) placed, storedByte_storeByte _ _ _ _ inside placed]
    split_ifs with last first
    · exact absurd (by omega) (apart last.1)
    · exact absurd (by omega) (apart first.1)
    · rfl

theorem fetch_put {destination : ℕ} (halfword : BitVec 16) (inside : destination < target.size) :
    fetch (put vdp target destination halfword) target destination = halfword := by
  have even := Target.size_even target
  rw [fetch, put]
  by_cases odd : destination % 2 ≠ 0
  · rw [if_pos odd, if_pos odd, storedByte_storeByte _ _ _ _ inside inside, if_pos ⟨rfl, rfl⟩,
      storedByte_storeByte _ _ _ _ inside (by omega), if_neg (by omega),
      storedByte_storeByte _ _ _ _ (by omega) (by omega), if_pos ⟨rfl, rfl⟩]
    exact pair_bytes halfword
  · rw [if_neg odd, if_neg odd, storedByte_storeByte _ _ _ _ (by omega) inside, if_neg (by omega),
      storedByte_storeByte _ _ _ _ inside inside, if_pos ⟨rfl, rfl⟩,
      storedByte_storeByte _ _ _ _ (by omega) (by omega), if_pos ⟨rfl, rfl⟩]
    exact pair_bytes halfword

/-! ## The port -/

def Aligned (target : Target) (destination : ℕ) : Prop := target ≠ .vram → destination % 2 = 0

/-- The VDP after one halfword of a write. -/
def written (target : Target) (vdp : VdpState) (halfword : BitVec 16) : VdpState :=
  advancePointer (put vdp target (vdp.addressedPointer % target.size) halfword) target

theorem dataPortTargetWriteHalfword_eq (halfword : BitVec 16)
    (aligned : Aligned target (s.vdp.addressedPointer % target.size)) :
    (dataPortTargetWriteHalfword s target halfword).1 = true ∧
      (dataPortTargetWriteHalfword s target halfword).2.vdp = written target s.vdp halfword := by
  have even := Target.size_even target
  have inside := Nat.mod_lt s.vdp.addressedPointer (Target.size_pos target)
  rw [dataPortTargetWriteHalfword]
  dsimp only
  by_cases odd : s.vdp.addressedPointer % target.size % 2 ≠ 0
  · have vram : target = .vram := by
      by_contra other
      exact odd (aligned other)
    have back : (s.vdp.addressedPointer % target.size - 1 + 1) % target.size = s.vdp.addressedPointer % target.size := by
      rw [Nat.sub_add_cancel (by omega), Nat.mod_mod]
    rw [if_pos odd, if_neg (not_not.mpr vram), written, put, if_pos odd]
    exact ⟨rfl, by dsimp only; rw [storeHalfword_vdp, back]⟩
  · have next : (s.vdp.addressedPointer % target.size + 1) % target.size = s.vdp.addressedPointer % target.size + 1 :=
      Nat.mod_eq_of_lt (by omega)
    rw [if_neg odd, written, put, if_neg odd]
    exact ⟨rfl, by dsimp only; rw [storeHalfword_vdp, next]⟩

theorem dataPortTargetReadHalfword_eq (aligned : Aligned target (s.vdp.addressedPointer % target.size)) :
    dataPortTargetReadHalfword s target =
      (some (fetch s.vdp target (s.vdp.addressedPointer % target.size)),
        { s with vdp := advancePointer s.vdp target }) := by
  have even := Target.size_even target
  have inside := Nat.mod_lt s.vdp.addressedPointer (Target.size_pos target)
  rw [dataPortTargetReadHalfword, fetch]
  dsimp only
  by_cases odd : s.vdp.addressedPointer % target.size % 2 ≠ 0
  · have vram : target = .vram := by
      by_contra other
      exact odd (aligned other)
    rw [if_pos odd, if_neg (not_not.mpr vram), if_pos odd, Nat.sub_add_cancel (by omega)]
    rfl
  · rw [if_neg odd, if_neg odd, Nat.mod_eq_of_lt (show s.vdp.addressedPointer % target.size + 1 < target.size by omega)]
    rfl

/-! ## Many halfwords -/

def increment (vdp : VdpState) : ℕ := vdp.autoIncrementValue.toNat

/-- The address of the halfword that the port reaches after `k` others. -/
def place (target : Target) (vdp : VdpState) (k : ℕ) : ℕ :=
  destinationAt target vdp.addressedPointer (increment vdp) k

def writtenAll (target : Target) (vdp : VdpState) (halfwords : List (BitVec 16)) : VdpState :=
  halfwords.foldl (written target) vdp

variable {halfword : BitVec 16} {halfwords : List (BitVec 16)}

theorem place_lt (target : Target) (vdp : VdpState) (k : ℕ) : place target vdp k < target.size :=
  Nat.mod_lt _ (Target.size_pos target)

theorem place_zero (target : Target) (vdp : VdpState) : place target vdp 0 = vdp.addressedPointer % target.size := by
  rw [place, destinationAt, Nat.zero_mul, Nat.add_zero]

theorem put_pointer (destination : ℕ) :
    (put vdp target destination halfword).addressedPointer = vdp.addressedPointer := by
  rw [put]
  split <;> cases target <;> rfl

theorem put_increment (destination : ℕ) :
    increment (put vdp target destination halfword) = increment vdp := by
  rw [put]
  split <;> cases target <;> rfl

theorem place_advance (k : ℕ) : place target (advancePointer vdp target) k = place target vdp (k + 1) := by
  have pointer : (advancePointer vdp target).addressedPointer =
      (vdp.addressedPointer % target.size + increment vdp) % target.size := (Nat.mod_add_mod _ _ _).symm
  have step : increment (advancePointer vdp target) = increment vdp := rfl
  rw [place, place, destinationAt_succ, pointer, step]

theorem place_written (halfword : BitVec 16) (k : ℕ) : place target (written target vdp halfword) k = place target vdp (k + 1) := by
  rw [written, place_advance, place, place, put_pointer, put_increment]

theorem fetch_advance (destination : ℕ) :
    fetch (advancePointer vdp target) target destination = fetch vdp target destination := by
  cases target <;> rfl

theorem storedByte_advance (other : Target) (address : ℕ) :
    storedByte (advancePointer vdp target) other address = storedByte vdp other address := by
  cases other <;> rfl

theorem storedByte_writtenAll {other : Target} {address : ℕ} (placed : address < other.size)
    (apart : other = target → ∀ k < halfwords.length, place target vdp k / 2 ≠ address / 2) :
    storedByte (writtenAll target vdp halfwords) other address = storedByte vdp other address := by
  induction halfwords generalizing vdp with
  | nil => rfl
  | cons halfword halfwords ih =>
    have later : other = target → ∀ k < halfwords.length, place target (written target vdp halfword) k / 2 ≠ address / 2 := by
      intro same k inside
      rw [place_written]
      exact apart same (k + 1) (Nat.succ_lt_succ inside)
    have first : other = target → address / 2 ≠ vdp.addressedPointer % target.size / 2 := by
      intro same
      rw [← place_zero]
      exact (apart same 0 (Nat.succ_pos _)).symm
    rw [writtenAll, List.foldl_cons]
    calc storedByte (writtenAll target (written target vdp halfword) halfwords) other address
        = storedByte (written target vdp halfword) other address := ih later
      _ = storedByte vdp other address := by
        rw [written, storedByte_advance, storedByte_put halfword (Nat.mod_lt _ (Target.size_pos target)) placed first]

theorem fetch_writtenAll_apart {address : ℕ} (placed : address < target.size)
    (apart : ∀ k < halfwords.length, place target vdp k / 2 ≠ address / 2) :
    fetch (writtenAll target vdp halfwords) target address = fetch vdp target address := by
  have even := Target.size_even target
  have same {other : ℕ} (cell : other / 2 = address / 2) (inside : other < target.size) :
      storedByte (writtenAll target vdp halfwords) target other = storedByte vdp target other :=
    storedByte_writtenAll inside (fun _ k count => by rw [cell]; exact apart k count)
  rw [fetch, fetch, same rfl placed]
  split
  · rw [same (by omega) (by omega)]
  · rw [same (by omega) (by omega)]

theorem fetch_writtenAll (distinct : Set.InjOn (fun k => place target vdp k / 2) (Set.Iio halfwords.length)) (k : ℕ)
    (inside : k < halfwords.length) :
    fetch (writtenAll target vdp halfwords) target (place target vdp k) = halfwords[k] := by
  induction halfwords generalizing vdp k with
  | nil => exact absurd inside (Nat.not_lt_zero k)
  | cons halfword halfwords ih =>
    rw [writtenAll, List.foldl_cons]
    cases k with
    | zero =>
      have apart : ∀ j < halfwords.length, place target (written target vdp halfword) j / 2 ≠ place target vdp 0 / 2 := by
        intro j count equal
        rw [place_written] at equal
        have index := distinct (Set.mem_Iio.mpr (Nat.succ_lt_succ count)) (Set.mem_Iio.mpr inside) equal
        exact Nat.succ_ne_zero j index
      calc fetch (writtenAll target (written target vdp halfword) halfwords) target (place target vdp 0)
          = fetch (written target vdp halfword) target (place target vdp 0) :=
            fetch_writtenAll_apart (place_lt target vdp 0) apart
        _ = halfword := by
          rw [written, fetch_advance, place_zero, fetch_put halfword (Nat.mod_lt _ (Target.size_pos target))]
    | succ k =>
      have later : Set.InjOn (fun k => place target (written target vdp halfword) k / 2) (Set.Iio halfwords.length) := by
        intro i first j second equal
        have index := distinct (Set.mem_Iio.mpr (Nat.succ_lt_succ first)) (Set.mem_Iio.mpr (Nat.succ_lt_succ second))
          (by simpa only [place_written] using equal)
        exact Nat.succ.inj index
      rw [← place_written halfword]
      exact ih later k (Nat.lt_of_succ_lt_succ inside)

/-! ## The bus -/

/-- What the VDP answers to an access it accepts, and the screen it leaves. -/
def access (s : Screen F) (a : Access) : Option (BitVec 32 × Screen F) :=
  (vdpAccess s a).1.map fun value => (value, (vdpAccess s a).2)

def controlWord (word : BitVec 16) : Access :=
  { address := 0xC00004, width := .word, direction := .write, value := word.setWidth 32 }

def dataWrite (width : Width) (value : BitVec 32) : Access :=
  { address := 0xC00000, width := width, direction := .write, value := value }

def dataRead (width : Width) : Access := { address := 0xC00000, width := width, direction := .read }

/-- A WORD or a LONG. -/
inductive Value
  | word (halfword : BitVec 16)
  | long (value : BitVec 32)

def Value.width : Value → Width
  | .word _ => .word
  | .long _ => .long

def Value.bus : Value → BitVec 32
  | .word halfword => halfword.setWidth 32
  | .long value => value

def Value.halves : Value → List (BitVec 16)
  | .word halfword => [halfword]
  | .long value => [halfHigh value, halfLow value]

def writeAll (s : Screen F) : List Value → Option (Screen F)
  | [] => some s
  | value :: values => (access s (dataWrite value.width value.bus)).bind fun out => writeAll out.2 values

def readAll (s : Screen F) : List Width → Option (List (BitVec 32) × Screen F)
  | [] => some ([], s)
  | width :: widths =>
    (access s (dataRead width)).bind fun first =>
      (readAll first.2 widths).map fun rest => (first.1 :: rest.1, rest.2)

/-! ## Commands -/

def writeCode : Target → Byte
  | .vram => 0x01
  | .cram => 0x03
  | .vsram => 0x05

def readCode : Target → Byte
  | .vram => 0x00
  | .cram => 0x08
  | .vsram => 0x04

def commandFirst (code : Byte) (address : BitVec 16) : BitVec 16 := code.setWidth 16 <<< 14 ||| address &&& 0x3FFF

def commandSecond (code : Byte) (address : BitVec 16) : BitVec 16 := (code >>> 2).setWidth 16 <<< 4 ||| address >>> 14

/-- Both words of a command that selects a code and an address. -/
def command (s : Screen F) (code : Byte) (address : BitVec 16) : Option (Screen F) :=
  (access s (controlWord (commandFirst code address))).bind fun first =>
    (access first.2 (controlWord (commandSecond code address))).map Prod.snd

/-- A code of six bits whose first word is not that of a register write. -/
structure Coded (code : Byte) : Prop where
  six : code.getLsbD 6 = false
  seven : code.getLsbD 7 = false
  setsRegister : ¬(code.getLsbD 1 = true ∧ code.getLsbD 0 = false)

/-- The codes that the data port serves. -/
structure Plain (code : Byte) : Prop extends Coded code where
  listed : code ∈ ([0x00, 0x01, 0x03, 0x04, 0x05, 0x08] : List Byte)
  five : code.getLsbD 5 = false

theorem writeCode_plain (target : Target) : Plain (writeCode target) := by
  cases target <;> exact ⟨⟨by decide, by decide, by decide⟩, by decide, by decide⟩

theorem readCode_plain (target : Target) : Plain (readCode target) := by
  cases target <;> exact ⟨⟨by decide, by decide, by decide⟩, by decide, by decide⟩

theorem commandAddress_command (address : BitVec 16) :
    commandAddress (commandFirst code address) (commandSecond code address) = address.toNat := by
  rw [commandAddress, commandFirst, commandSecond]
  congr 1
  apply BitVec.eq_of_getLsbD_eq
  intro i inside
  interval_cases i <;> simp

theorem commandCode_command (coded : Coded code) (address : BitVec 16) :
    commandCode (commandFirst code address) (commandSecond code address) = code := by
  have six : code[6] = false := coded.six
  have seven : code[7] = false := coded.seven
  rw [commandCode, commandFirst, commandSecond]
  apply BitVec.eq_of_getLsbD_eq
  intro i inside
  interval_cases i <;> simp [six, seven]

theorem commandSecond_reserved (coded : Coded code) (address : BitVec 16) :
    (commandSecond code address >>> 8) &&& 0xFF = 0 ∧ (commandSecond code address >>> 2) &&& 3 = 0 := by
  have six : code[6] = false := coded.six
  have seven : code[7] = false := coded.seven
  rw [commandSecond]
  constructor
  · apply BitVec.eq_of_getLsbD_eq
    intro i inside
    interval_cases i <;> simp [six, seven]
  · apply BitVec.eq_of_getLsbD_eq
    intro i inside
    interval_cases i <;> simp

theorem commandSecond_cd5 (plain : Plain code) (address : BitVec 16) :
    (commandSecond code address >>> 7) &&& 1 = 0 := by
  have five : code[5] = false := plain.five
  rw [commandSecond]
  apply BitVec.eq_of_getLsbD_eq
  intro i inside
  interval_cases i <;> simp [five]

theorem commandFirst_address (coded : Coded code) (address : BitVec 16) :
    commandFirst code address &&& 0xE000 ≠ 0x8000 := by
  intro register
  have high : (commandFirst code address &&& 0xE000)[15] = true := by rw [register]; decide
  have low : (commandFirst code address &&& 0xE000)[14] = false := by rw [register]; decide
  simp [commandFirst] at high low
  exact coded.setsRegister ⟨high, low⟩

/-- The VDP after a command. -/
def commanded (vdp : VdpState) (code : Byte) (address : BitVec 16) : VdpState :=
  { vdp with
    controlPortAwaitingSecondWord := false
    controlPortFirstWord := 0
    addressedPointer := address.toNat
    dataPortTransferCode := code
    dataPortTransferCodeValid := true }

theorem access_control {word : BitVec 16} (accepted : controlPortWriteWord s.vdp word = some vdp) :
    access s (controlWord word) = some (word.setWidth 32, { s with vdp := vdp }) := by
  have low : halfLow (controlWord word).value = word := by
    change (word.setWidth 32).setWidth 16 = word
    exact BitVec.setWidth_setWidth_of_le word (by decide)
  rw [access, DmaDrain.vdpAccess_word rfl, low, accepted]
  rfl

theorem secondWord_command (plain : Plain code) (address : BitVec 16)
    (first : vdp.controlPortFirstWord = commandFirst code address) :
    secondWord vdp (commandSecond code address) = some (selectTarget vdp address.toNat code) := by
  have reserved := commandSecond_reserved plain.toCoded address
  rw [secondWord]
  dsimp only
  rw [first, commandCode_command plain.toCoded, commandAddress_command, reserved.1, reserved.2,
    commandSecond_cd5 plain, if_neg (by simp), if_neg (by simp), if_neg (by simp), if_neg (not_not.mpr plain.listed)]

theorem command_eq (plain : Plain code) (settled : s.vdp.controlPortAwaitingSecondWord = false) (address : BitVec 16) :
    command s code address = some { s with vdp := commanded s.vdp code address } := by
  have first : controlPortWriteWord s.vdp (commandFirst code address) =
      some (firstWord s.vdp (commandFirst code address)) := by
    rw [controlPortWriteWord, settled, if_neg Bool.false_ne_true, if_neg (commandFirst_address plain.toCoded address)]
  have second : controlPortWriteWord (firstWord s.vdp (commandFirst code address)) (commandSecond code address) =
      some (commanded s.vdp code address) := by
    rw [controlPortWriteWord, if_pos (show (firstWord s.vdp _).controlPortAwaitingSecondWord = true from rfl),
      secondWord_command plain address rfl]
    rfl
  rw [command, access_control first, Option.bind_some]
  exact congrArg (Option.map Prod.snd)
    (access_control (s := { s with vdp := firstWord s.vdp (commandFirst code address) }) second)

/-! ## Values -/

structure Selected (vdp : VdpState) (code : Byte) : Prop where
  idle : vdp.dma.phase = .idle
  settled : vdp.controlPortAwaitingSecondWord = false
  valid : vdp.dataPortTransferCodeValid = true
  selects : vdp.dataPortTransferCode = code

theorem Selected.written (selected : Selected vdp code) (halfword : BitVec 16) :
    Selected (written target vdp halfword) code := by
  rw [DataPort.written, put]
  split <;> cases target <;> exact ⟨selected.idle, selected.settled, selected.valid, selected.selects⟩

theorem Selected.writtenAll (selected : Selected vdp code) (halfwords : List (BitVec 16)) :
    Selected (writtenAll target vdp halfwords) code := by
  induction halfwords generalizing vdp with
  | nil => exact selected
  | cons halfword halfwords ih => exact ih (selected.written halfword)

theorem Selected.advance (selected : Selected vdp code) : Selected (advancePointer vdp target) code :=
  ⟨selected.idle, selected.settled, selected.valid, selected.selects⟩

theorem cancelCommand_settled (settled : vdp.controlPortAwaitingSecondWord = false) : cancelCommand vdp = vdp := by
  rw [cancelCommand, settled, if_neg Bool.false_ne_true]

theorem writeTarget_writeCode (target : Target) : writeTarget (writeCode target) = some target := by
  cases target <;> rfl

theorem readTarget_readCode (target : Target) : readTarget (readCode target) = some target := by
  cases target <;> rfl

theorem vdpAccess_dataWrite (selected : Selected s.vdp (writeCode target)) (width : Width) (value : BitVec 32) :
    vdpAccess s (dataWrite width value) =
      if (dataPortCpuWrite s width value).1 then (some value, (dataPortCpuWrite s width value).2)
      else (none, (dataPortCpuWrite s width value).2) := by
  have plain : armedFill s.vdp = false := by
    rw [armedFill, selected.idle]
    rfl
  have port : vdpWrite s (dataWrite width value) = dataPortCpuWrite s width value := by
    rw [vdpWrite, plain]
    exact (if_pos (Or.inl rfl)).trans (if_neg Bool.false_ne_true)
  rw [vdpAccess]
  change (if (vdpWrite s (dataWrite width value)).1 then _ else _) = _
  rw [port]
  rfl

theorem dataPortCpuWrite_word (selected : Selected s.vdp (writeCode target)) (value : BitVec 32) :
    dataPortCpuWrite s .word value = dataPortTargetWriteHalfword s target (halfLow value) := by
  rw [dataPortCpuWrite, if_neg (not_not.mpr selected.idle)]
  dsimp only
  rw [cancelCommand_settled selected.settled, selected.valid, if_neg (by decide), selected.selects,
    writeTarget_writeCode]

theorem dataPortCpuWrite_long (selected : Selected s.vdp (writeCode target)) (value : BitVec 32)
    (first : (dataPortTargetWriteHalfword s target (halfHigh value)).1 = true) :
    dataPortCpuWrite s .long value =
      dataPortTargetWriteHalfword (dataPortTargetWriteHalfword s target (halfHigh value)).2 target (halfLow value) := by
  rw [dataPortCpuWrite, if_neg (not_not.mpr selected.idle)]
  dsimp only
  rw [cancelCommand_settled selected.settled, selected.valid, if_neg (by decide), selected.selects,
    writeTarget_writeCode]
  exact if_pos first

theorem access_of_accepted (selected : Selected s.vdp (writeCode target)) {width : Width} {value : BitVec 32}
    (accepted : (dataPortCpuWrite s width value).1 = true) :
    access s (dataWrite width value) = some (value, (dataPortCpuWrite s width value).2) := by
  rw [access, vdpAccess_dataWrite selected, if_pos accepted]
  rfl

theorem access_dataWrite (selected : Selected s.vdp (writeCode target)) (value : Value)
    (aligned : ∀ k < value.halves.length, Aligned target (place target s.vdp k)) :
    ∃ s', access s (dataWrite value.width value.bus) = some (value.bus, s') ∧
      s'.vdp = writtenAll target s.vdp value.halves := by
  cases value with
  | word halfword =>
    have first : Aligned target (s.vdp.addressedPointer % target.size) := by
      rw [← place_zero]
      exact aligned 0 Nat.one_pos
    have low : halfLow (halfword.setWidth 32) = halfword := BitVec.setWidth_setWidth_of_le halfword (by decide)
    have one := dataPortTargetWriteHalfword_eq halfword first
    have port := dataPortCpuWrite_word selected (halfword.setWidth 32)
    rw [low] at port
    refine ⟨_, access_of_accepted selected ?_, ?_⟩
    · exact (congrArg Prod.fst port).trans one.1
    · exact (congrArg (fun out => out.2.vdp) port).trans one.2
  | long value =>
    have first : Aligned target (s.vdp.addressedPointer % target.size) := by
      rw [← place_zero]
      exact aligned 0 Nat.two_pos
    have one := dataPortTargetWriteHalfword_eq (halfHigh value) first
    have next : Aligned target
        ((dataPortTargetWriteHalfword s target (halfHigh value)).2.vdp.addressedPointer % target.size) := by
      rw [one.2, ← place_zero, place_written]
      exact aligned 1 Nat.one_lt_two
    have two := dataPortTargetWriteHalfword_eq (halfLow value) next
    have port := dataPortCpuWrite_long selected value one.1
    refine ⟨_, access_of_accepted selected ?_, ?_⟩
    · exact (congrArg Prod.fst port).trans two.1
    · calc (dataPortCpuWrite s .long value).2.vdp
          = written target (dataPortTargetWriteHalfword s target (halfHigh value)).2.vdp (halfLow value) :=
            (congrArg (fun out => out.2.vdp) port).trans two.2
        _ = written target (written target s.vdp (halfHigh value)) (halfLow value) := by rw [one.2]

theorem vdpAccess_dataRead (s : Screen F) {width : Width} (served : width = .word ∨ width = .long) :
    vdpAccess s (dataRead width) = dataPortCpuRead s width := by
  have counter : ¬((0xC00008 : BitVec 32) ≤ 0xC00000 ∧ (0xC00000 : BitVec 32) ≤ 0xC0000F ∧
      (width = .byte ∨ width = .word ∧ (0xC00000 : BitVec 32) &&& 1 = 0)) := fun both => absurd both.1 (by decide)
  have status : isStatusReadShape (dataRead width) = false := by
    rcases served with rfl | rfl <;> rfl
  change vdpRead s (dataRead width) = _
  rw [vdpRead, status, if_neg Bool.false_ne_true]
  exact (if_neg counter).trans (if_pos ⟨rfl, served⟩)

theorem access_of_read {width : Width} {value : BitVec 32} (served : width = .word ∨ width = .long)
    (answer : dataPortCpuRead s width = (some value, s')) : access s (dataRead width) = some (value, s') := by
  rw [access, vdpAccess_dataRead s served, answer]
  rfl

theorem halves_long (value : BitVec 32) :
    (halfHigh value).setWidth 32 <<< 16 ||| (halfLow value).setWidth 32 = value := by
  apply BitVec.eq_of_getLsbD_eq
  intro i inside
  rw [halfHigh, halfLow]
  rcases Nat.lt_or_ge i 16 with low | high
  · simp [low, inside]
  · have up : 16 + (i - 16) = i := by omega
    simp [show ¬i < 16 by omega, inside, up, show i - 16 < 16 by omega, show i - 16 < 32 by omega]

theorem dataPortCpuRead_word (selected : Selected s.vdp (readCode target)) :
    dataPortCpuRead s .word =
      ((dataPortTargetReadHalfword s target).1.map (BitVec.setWidth 32), (dataPortTargetReadHalfword s target).2) := by
  rw [dataPortCpuRead, if_neg (not_not.mpr selected.idle)]
  dsimp only
  rw [cancelCommand_settled selected.settled, selected.valid, if_neg (by decide), selected.selects, readTarget_readCode]

theorem dataPortCpuRead_long (selected : Selected s.vdp (readCode target)) {high low : BitVec 16} {middle : Screen F}
    (first : dataPortTargetReadHalfword s target = (some high, middle))
    (second : dataPortTargetReadHalfword middle target = (some low, s')) :
    dataPortCpuRead s .long = (some (high.setWidth 32 <<< 16 ||| low.setWidth 32), s') := by
  rw [dataPortCpuRead, if_neg (not_not.mpr selected.idle)]
  dsimp only
  rw [cancelCommand_settled selected.settled, selected.valid, if_neg (by decide), selected.selects, readTarget_readCode]
  dsimp only
  rw [first]
  dsimp only
  rw [second]
  rfl

/-- The next halfwords that the port reaches are these. -/
def Holds (target : Target) (vdp : VdpState) (halfwords : List (BitVec 16)) : Prop :=
  ∀ (k : ℕ) (inside : k < halfwords.length), fetch vdp target (place target vdp k) = halfwords[k]

theorem Holds.tail (holds : Holds target vdp (halfword :: halfwords)) :
    Holds target (advancePointer vdp target) halfwords := by
  intro k inside
  rw [place_advance, fetch_advance]
  exact holds (k + 1) (Nat.succ_lt_succ inside)

theorem Holds.head (holds : Holds target vdp (halfword :: halfwords)) :
    fetch vdp target (vdp.addressedPointer % target.size) = halfword := by
  rw [← place_zero]
  exact holds 0 (Nat.succ_pos _)

def AllAligned (target : Target) (vdp : VdpState) (count : ℕ) : Prop :=
  ∀ k < count, Aligned target (place target vdp k)

theorem AllAligned.head {count : ℕ} (aligned : AllAligned target vdp (count + 1)) :
    Aligned target (vdp.addressedPointer % target.size) := by
  rw [← place_zero]
  exact aligned 0 (Nat.succ_pos _)

theorem AllAligned.tail {count : ℕ} (aligned : AllAligned target vdp (count + 1)) :
    AllAligned target (advancePointer vdp target) count := by
  intro k inside
  rw [place_advance]
  exact aligned (k + 1) (Nat.succ_lt_succ inside)

theorem AllAligned.written {count : ℕ} (aligned : AllAligned target vdp (count + 1)) :
    AllAligned target (written target vdp halfword) count := by
  intro k inside
  rw [place_written]
  exact aligned (k + 1) (Nat.succ_lt_succ inside)

/-- The VDP after reads: only the pointer has moved. -/
structure Passed (target : Target) (before after : VdpState) (rest : List (BitVec 16)) (count : ℕ) : Prop where
  selected : Selected after (readCode target)
  holds : Holds target after rest
  aligned : AllAligned target after count
  bytes : ∀ other address, storedByte after other address = storedByte before other address

theorem readHalfword {count : ℕ} (selected : Selected s.vdp (readCode target))
    (holds : Holds target s.vdp (halfword :: halfwords)) (aligned : AllAligned target s.vdp (count + 1)) :
    ∃ s', dataPortTargetReadHalfword s target = (some halfword, s') ∧ Passed target s.vdp s'.vdp halfwords count := by
  refine ⟨{ s with vdp := advancePointer s.vdp target }, ?_, ?_⟩
  · rw [dataPortTargetReadHalfword_eq aligned.head, holds.head]
  · exact ⟨selected.advance, holds.tail, aligned.tail, storedByte_advance⟩

theorem access_dataRead {count : ℕ} (selected : Selected s.vdp (readCode target)) (value : Value)
    (holds : Holds target s.vdp (value.halves ++ halfwords))
    (aligned : AllAligned target s.vdp (value.halves.length + count)) :
    ∃ s', access s (dataRead value.width) = some (value.bus, s') ∧ Passed target s.vdp s'.vdp halfwords count := by
  cases value with
  | word halfword =>
    rw [show (Value.word halfword).halves.length + count = count + 1 from Nat.add_comm 1 count] at aligned
    rcases readHalfword selected holds aligned with ⟨s', read, passed⟩
    have port : dataPortCpuRead s .word = (some (halfword.setWidth 32), s') := by
      rw [dataPortCpuRead_word selected, read]
      rfl
    exact ⟨s', access_of_read (Or.inl rfl) port, passed⟩
  | long value =>
    rw [show (Value.long value).halves.length + count = count + 1 + 1 from Nat.add_comm 2 count] at aligned
    rcases readHalfword selected holds aligned with ⟨middle, first, between⟩
    rcases readHalfword between.selected between.holds between.aligned with ⟨s', second, passed⟩
    have port : dataPortCpuRead s .long = (some value, s') := by
      rw [dataPortCpuRead_long selected first second, halves_long]
    refine ⟨s', access_of_read (Or.inr rfl) port, passed.selected, passed.holds, passed.aligned, ?_⟩
    exact fun other address => (passed.bytes other address).trans (between.bytes other address)

/-! ## The round trip -/

def stream (values : List Value) : List (BitVec 16) := values.flatMap Value.halves

theorem stream_cons (value : Value) (values : List Value) : stream (value :: values) = value.halves ++ stream values :=
  List.flatMap_cons

theorem writeAll_eq (selected : Selected s.vdp (writeCode target)) (values : List Value)
    (aligned : AllAligned target s.vdp (stream values).length) :
    ∃ s', writeAll s values = some s' ∧ s'.vdp = writtenAll target s.vdp (stream values) := by
  induction values generalizing s with
  | nil => exact ⟨s, rfl, rfl⟩
  | cons value values ih =>
    rw [stream_cons, List.length_append] at aligned
    have first : AllAligned target s.vdp value.halves.length := fun k inside => aligned k (by omega)
    rcases access_dataWrite selected value first with ⟨middle, answer, wrote⟩
    have later : AllAligned target middle.vdp (stream values).length := by
      rw [wrote]
      cases value with
      | word halfword => exact AllAligned.written (by rw [Nat.add_comm]; exact aligned)
      | long value => exact AllAligned.written (AllAligned.written (by rw [Nat.add_comm] at aligned; exact aligned))
    have kept : Selected middle.vdp (writeCode target) := by
      rw [wrote]
      exact selected.writtenAll _
    rcases ih kept later with ⟨s', rest, all⟩
    refine ⟨s', ?_, ?_⟩
    · rw [writeAll, answer]
      exact rest
    · rw [all, wrote, stream_cons, writtenAll, writtenAll, writtenAll, List.foldl_append]

theorem readAll_eq (selected : Selected s.vdp (readCode target)) (values : List Value)
    (holds : Holds target s.vdp (stream values)) (aligned : AllAligned target s.vdp (stream values).length) :
    ∃ s', readAll s (values.map Value.width) = some (values.map Value.bus, s') ∧
      ∀ other address, storedByte s'.vdp other address = storedByte s.vdp other address := by
  induction values generalizing s with
  | nil => exact ⟨s, rfl, fun _ _ => rfl⟩
  | cons value values ih =>
    rw [stream_cons] at holds aligned
    rw [List.length_append] at aligned
    rcases access_dataRead selected value holds aligned with ⟨middle, answer, passed⟩
    rcases ih passed.selected passed.holds passed.aligned with ⟨s', rest, bytes⟩
    refine ⟨s', ?_, fun other address => (bytes other address).trans (passed.bytes other address)⟩
    rw [List.map_cons, readAll, answer, Option.bind_some, rest]
    rfl

/-- The address of the halfword `k` of a sequence that starts at an address. -/
def reached (target : Target) (address : BitVec 16) (vdp : VdpState) (k : ℕ) : ℕ :=
  destinationAt target address.toNat (increment vdp) k

/-- Values written behind a write command are what a read command at the same address gives, and no other byte
changes. -/
def ReadsBack (s : Screen F) (target : Target) (address : BitVec 16) (values : List Value) : Prop :=
  ∃ s₁ s₂ s₃ s₄, command s (writeCode target) address = some s₁ ∧ writeAll s₁ values = some s₂ ∧
    command s₂ (readCode target) address = some s₃ ∧
    readAll s₃ (values.map Value.width) = some (values.map Value.bus, s₄) ∧
    ∀ other place, place < other.size →
      (other = target → ∀ k < (stream values).length, reached target address s.vdp k / 2 ≠ place / 2) →
        storedByte s₄.vdp other place = storedByte s.vdp other place

/-- The byte pairs that the values reach are distinct. -/
def Distinct (s : Screen F) (target : Target) (address : BitVec 16) (values : List Value) : Prop :=
  Set.InjOn (fun k => reached target address s.vdp k / 2) (Set.Iio (stream values).length)

def RoundTrip (s : Screen F) : Prop :=
  ∀ (target : Target) (address : BitVec 16) (values : List Value), Distinct s target address values →
    (∀ k < (stream values).length, Aligned target (reached target address s.vdp k)) → ReadsBack s target address values

theorem writtenAll_increment (target : Target) (vdp : VdpState) (halfwords : List (BitVec 16)) :
    increment (writtenAll target vdp halfwords) = increment vdp := by
  induction halfwords generalizing vdp with
  | nil => rfl
  | cons halfword halfwords ih => exact (ih _).trans (put_increment _)

theorem storedByte_commanded (address : BitVec 16) (other : Target) (place : ℕ) :
    storedByte (commanded vdp code address) other place = storedByte vdp other place := by
  cases other <;> rfl

theorem fetch_commanded (address : BitVec 16) (place : ℕ) :
    fetch (commanded vdp code address) target place = fetch vdp target place := by
  cases target <;> rfl

theorem roundTrip (idle : s.vdp.dma.phase = .idle) (settled : s.vdp.controlPortAwaitingSecondWord = false) :
    RoundTrip s := by
  intro target address values distinct aligned
  have first : Selected (commanded s.vdp (writeCode target) address) (writeCode target) := ⟨idle, rfl, rfl, rfl⟩
  rcases writeAll_eq (s := { s with vdp := commanded s.vdp (writeCode target) address }) first values aligned with
    ⟨s₂, wrote, all⟩
  have after : Selected s₂.vdp (writeCode target) := by
    rw [all]
    exact first.writtenAll _
  have second : Selected (commanded s₂.vdp (readCode target) address) (readCode target) := ⟨after.idle, rfl, rfl, rfl⟩
  have steps : increment (commanded s₂.vdp (readCode target) address) = increment s.vdp := by
    have kept := writtenAll_increment target (commanded s.vdp (writeCode target) address) (stream values)
    rw [← all] at kept
    exact kept
  have same (k : ℕ) : place target (commanded s₂.vdp (readCode target) address) k = reached target address s.vdp k := by
    rw [place, reached, steps]
    rfl
  have apart : Set.InjOn (fun k => place target (commanded s.vdp (writeCode target) address) k / 2)
      (Set.Iio (stream values).length) := distinct
  have holds : Holds target (commanded s₂.vdp (readCode target) address) (stream values) := by
    intro k inside
    rw [fetch_commanded, same, all]
    exact fetch_writtenAll apart k inside
  have fits : AllAligned target (commanded s₂.vdp (readCode target) address) (stream values).length := by
    intro k inside
    rw [same]
    exact aligned k inside
  rcases readAll_eq (s := { s₂ with vdp := commanded s₂.vdp (readCode target) address }) second values holds fits with
    ⟨s₄, read, bytes⟩
  refine ⟨_, s₂, _, s₄, command_eq (writeCode_plain target) settled address, wrote,
    command_eq (readCode_plain target) after.settled address, read, ?_⟩
  intro other place placed untouched
  calc storedByte s₄.vdp other place
      = storedByte (commanded s₂.vdp (readCode target) address) other place := bytes other place
    _ = storedByte s₂.vdp other place := storedByte_commanded address other place
    _ = storedByte (commanded s.vdp (writeCode target) address) other place := by
      rw [all]
      exact storedByte_writtenAll placed untouched
    _ = storedByte s.vdp other place := storedByte_commanded address other place

theorem cancelCommand_ends (vdp : VdpState) : (cancelCommand vdp).controlPortAwaitingSecondWord = false := by
  rw [cancelCommand]
  split
  next => rfl
  next ended => exact Bool.eq_false_of_not_eq_true ended

theorem advancePointer_awaiting :
    (advancePointer vdp target).controlPortAwaitingSecondWord = vdp.controlPortAwaitingSecondWord := rfl

theorem dataPortTargetWriteHalfword_awaiting :
    (dataPortTargetWriteHalfword s target halfword).2.vdp.controlPortAwaitingSecondWord =
      s.vdp.controlPortAwaitingSecondWord := by
  rw [dataPortTargetWriteHalfword]
  dsimp only
  split_ifs
  · rfl
  · rw [advancePointer_awaiting, storeHalfword_vdp]
    cases target <;> rfl
  · rw [advancePointer_awaiting, storeHalfword_vdp]
    cases target <;> rfl

theorem dataPortCpuWrite_settles (idle : s.vdp.dma.phase = .idle) (width : Width) (value : BitVec 32) :
    (dataPortCpuWrite s width value).2.vdp.controlPortAwaitingSecondWord = false := by
  have ends := cancelCommand_ends s.vdp
  rw [dataPortCpuWrite, if_neg (not_not.mpr idle)]
  dsimp only
  split_ifs
  · exact ends
  · cases writeTarget (cancelCommand s.vdp).dataPortTransferCode with
    | none => exact ends
    | some target =>
      cases width with
      | byte => exact dataPortTargetWriteHalfword_awaiting.trans ends
      | word => exact dataPortTargetWriteHalfword_awaiting.trans ends
      | long =>
        dsimp only
        split_ifs
        · exact dataPortTargetWriteHalfword_awaiting.trans (dataPortTargetWriteHalfword_awaiting.trans ends)
        · exact dataPortTargetWriteHalfword_awaiting.trans ends

theorem dataPortTargetReadHalfword_awaiting (target : Target) :
    (dataPortTargetReadHalfword s target).2.vdp.controlPortAwaitingSecondWord =
      s.vdp.controlPortAwaitingSecondWord := by
  rw [dataPortTargetReadHalfword]
  dsimp only
  split_ifs <;> rfl

theorem dataPortCpuRead_settles (idle : s.vdp.dma.phase = .idle) (width : Width) :
    (dataPortCpuRead s width).2.vdp.controlPortAwaitingSecondWord = false := by
  have ends := cancelCommand_ends s.vdp
  rw [dataPortCpuRead, if_neg (not_not.mpr idle)]
  dsimp only
  split_ifs
  · exact ends
  · cases readTarget (cancelCommand s.vdp).dataPortTransferCode with
    | none => exact ends
    | some target =>
      have first := (dataPortTargetReadHalfword_awaiting (s := { s with vdp := cancelCommand s.vdp }) target).trans ends
      cases width with
      | byte => exact ends
      | word => exact first
      | long =>
        dsimp only
        generalize dataPortTargetReadHalfword { s with vdp := cancelCommand s.vdp } target = out at first ⊢
        rcases out with ⟨value, middle⟩
        cases value with
        | none => exact first
        | some high => exact (dataPortTargetReadHalfword_awaiting target).trans first

/-- An accepted access to the data port ends a command of which one word was written. -/
theorem access_settles (idle : s.vdp.dma.phase = .idle) {a : Access} {value : BitVec 32} (port : a.address = 0xC00000)
    (accepted : access s a = some (value, s')) :
    s'.vdp.dma.phase = .idle ∧ s'.vdp.controlPortAwaitingSecondWord = false := by
  rcases a with ⟨address, width, direction, data⟩
  dsimp only at port
  subst port
  cases direction with
  | write =>
    have plain : armedFill s.vdp = false := by
      rw [armedFill, idle]
      rfl
    have answer : vdpWrite s ⟨0xC00000, width, .write, data⟩ = dataPortCpuWrite s width data := by
      rw [vdpWrite, plain]
      exact (if_pos (Or.inl rfl)).trans (if_neg Bool.false_ne_true)
    have left : s' = (dataPortCpuWrite s width data).2 := by
      rw [access, vdpAccess] at accepted
      dsimp only at accepted
      rw [answer] at accepted
      split_ifs at accepted
      · exact (congrArg Prod.snd (Option.some.inj accepted)).symm
      · cases accepted
    rw [left]
    exact ⟨(congrArg DmaState.phase (DmaDrain.dataPortCpuWrite_dma width data)).trans idle,
      dataPortCpuWrite_settles idle width data⟩
  | read =>
    by_cases served : width = .word ∨ width = .long
    · have answer : vdpAccess s ⟨0xC00000, width, .read, data⟩ = dataPortCpuRead s width := vdpAccess_dataRead s served
      have left : s' = (dataPortCpuRead s width).2 := by
        rw [access, answer] at accepted
        rcases Option.map_eq_some_iff.mp accepted with ⟨read, _, both⟩
        exact (congrArg Prod.snd both).symm
      rw [left]
      exact ⟨(congrArg DmaState.phase (DmaDrain.dataPortCpuRead_dma width)).trans idle,
        dataPortCpuRead_settles idle width⟩
    · have byte : width = .byte := by
        cases width with
        | byte => rfl
        | word => exact absurd (Or.inl rfl) served
        | long => exact absurd (Or.inr rfl) served
      subst byte
      have refused : vdpAccess s ⟨0xC00000, .byte, .read, data⟩ = (none, s) := rfl
      rw [access, refused] at accepted
      cases accepted

/-- With no transfer armed, at a command boundary and after an access that abandoned half a command. -/
theorem dataPort_roundTrip (s : Screen F) (idle : s.vdp.dma.phase = .idle) :
    (s.vdp.controlPortAwaitingSecondWord = false → RoundTrip s) ∧
      ∀ (a : Access) (value : BitVec 32) (s' : Screen F), a.address = 0xC00000 → access s a = some (value, s') →
        RoundTrip s' := by
  constructor
  · exact roundTrip idle
  · intro a value s' port accepted
    have settled := access_settles idle port accepted
    exact roundTrip settled.1 settled.2

/-- A screen whose pointer moves by one word, with a command of which one word was written. -/
def halfWritten : Screen Unit :=
  { DmaDrain.powerOn.toScreen with
    vdp := { DmaDrain.powerOn.vdp with
      autoIncrementValue := 2, controlPortAwaitingSecondWord := true, dataPortTransferCode := 0x01
      dataPortTransferCodeValid := true } }

theorem halfWritten_accepts : ((access halfWritten (dataWrite .word 0x1234)).map Prod.fst) = some 0x1234 := by
  decide

theorem dataPort_roundTrip_halfWritten :
    ∃ s', access halfWritten (dataWrite .word 0x1234) = some (0x1234, s') ∧ RoundTrip s' := by
  rcases Option.map_eq_some_iff.mp halfWritten_accepts with ⟨⟨value, s'⟩, accepted, same⟩
  dsimp only at same
  subst same
  exact ⟨s', accepted, (dataPort_roundTrip halfWritten rfl).2 _ _ s' rfl accepted⟩

/-- A halfword for CRAM at address one is refused. -/
theorem not_every_address_readsBack :
    ¬∀ (s : Screen Unit) (target : Target) (address : BitVec 16) (values : List Value),
      s.vdp.dma.phase = .idle → s.vdp.controlPortAwaitingSecondWord = false → Distinct s target address values →
        ReadsBack s target address values := by
  intro claim
  have single : Distinct DmaDrain.powerOn.toScreen .cram 1 [.word 0x0EEE] := by
    intro i first j second _
    have low : i < 1 := first
    have high : j < 1 := second
    omega
  rcases claim DmaDrain.powerOn.toScreen .cram 1 [.word 0x0EEE] rfl rfl single with ⟨s₁, s₂, _, _, selected, wrote, _⟩
  have refused : ((command DmaDrain.powerOn.toScreen (writeCode .cram) 1).bind
      fun s => writeAll s [.word 0x0EEE]).isNone = true := by decide
  rw [selected, Option.bind_some, wrote] at refused
  exact Bool.noConfusion refused

end Segarecomp.Genesis.DataPort

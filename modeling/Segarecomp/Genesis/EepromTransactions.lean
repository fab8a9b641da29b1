import Segarecomp.Genesis.Eeprom

/-! Whole transactions on the lines of the serial EEPROM, and what they store and read back. -/

namespace Segarecomp.Genesis.Eeprom

open Schedule

/-! ## Transactions -/

inductive Transaction
  | write (address : BitVec 7) (data : List Byte)
  | read (address : BitVec 7) (count : ℕ)
  deriving DecidableEq, Repr

/-- The level of the data line while the clock is high: one side drives it, the other reads it. -/
inductive Level
  | master (sda : Bool)
  | device (sda : Bool)
  deriving DecidableEq, Repr

/-- One clock of a transaction, with the cells as they are while the clock is high. -/
structure Slot where
  level : Level
  storage : ℕ → Byte

/-- The address `count` bytes further in the page of four. -/
def inPage (address : BitVec 7) (count : ℕ) : BitVec 7 :=
  BitVec.ofNat 7 (address.toNat / 4 * 4 + (address.toNat + count) % 4)

def levels (byte : Byte) : List Bool := (List.range 8).map byte.getMsbD

/-- The address and the direction, most significant bit first, and the acknowledgement. -/
def header (address : BitVec 7) (read : Bool) (storage : ℕ → Byte) : List Slot :=
  ((List.range 7).map fun i => ⟨.master (address.getMsbD i), storage⟩) ++
    [⟨.master read, storage⟩, ⟨.device false, storage⟩]

def writing : BitVec 7 → (ℕ → Byte) → List Byte → List Slot
  | _, _, [] => []
  | address, storage, byte :: data =>
      let stored := Function.update storage address.toNat byte
      ((levels byte).map fun level => ⟨.master level, storage⟩) ++
        ⟨.device false, stored⟩ :: writing (inPage address 1) stored data

/-- The master acknowledges every byte but the last. -/
def reading : BitVec 7 → (ℕ → Byte) → ℕ → List Slot
  | _, _, 0 => []
  | address, storage, count + 1 =>
      ((levels (storage address.toNat)).map fun level => ⟨.device level, storage⟩) ++
        ⟨.master (count == 0), storage⟩ :: reading (address + 1) storage count

def storing : BitVec 7 → (ℕ → Byte) → List Byte → ℕ → Byte
  | _, storage, [] => storage
  | address, storage, byte :: data => storing (inPage address 1) (Function.update storage address.toNat byte) data

def Transaction.slots (storage : ℕ → Byte) : Transaction → List Slot
  | .write address data => header address false storage ++ writing address storage data
  | .read address count => header address true storage ++ reading address storage count

def Transaction.stored (storage : ℕ → Byte) : Transaction → ℕ → Byte
  | .write address data => storing address storage data
  | .read _ _ => storage

def plan : (ℕ → Byte) → List Transaction → List (List Slot)
  | _, [] => []
  | storage, t :: ts => t.slots storage :: plan (t.stored storage) ts

/-! ## Waveforms -/

/-- One clock as a master may make it: the data line settles while the clock line is low, holds
its level as long as the clock line is high, and may change again as that falls. -/
structure Clock where
  settling : List Bool
  bit : Bool
  held : ℕ
  released : Bool
  deriving DecidableEq, Repr

structure Waveform where
  opening : List Bool
  raised : ℕ
  started : ℕ
  released : Bool
  clocks : List Clock
  closing : List Bool
  lowered : ℕ
  stopped : ℕ
  deriving DecidableEq, Repr

def settle (d : Device) (levels : List Bool) : Device := levels.foldl (fun d x => drive d ⟨x, false⟩) d

/-- The data line keeps one level while the clock line is high. -/
def hold (d : Device) (sda : Bool) (times : ℕ) : Device := Nat.repeat (fun d => drive d ⟨sda, true⟩) times d

def Clock.high (k : Clock) (d : Device) : Device := hold (drive (settle d k.settling) ⟨k.bit, true⟩) k.bit k.held

def Clock.conduct (k : Clock) (d : Device) : Device := drive (k.high d) ⟨k.released, false⟩

def observe (d : Device) : Bool × (ℕ → Byte) := (sample d, d.storage)

def conductClocks : List Clock → Device → List (Bool × (ℕ → Byte)) × Device
  | [], d => ([], d)
  | k :: ks, d =>
      let out := conductClocks ks (k.conduct d)
      (observe (k.high d) :: out.1, out.2)

/-- START: the data line falls while the clock line is high. -/
def Waveform.start (w : Waveform) (d : Device) : Device :=
  let raised := hold (drive (settle d w.opening) ⟨true, true⟩) true w.raised
  drive (hold (drive raised ⟨false, true⟩) false w.started) ⟨w.released, false⟩

/-- STOP: the data line rises while the clock line is high. -/
def Waveform.stop (w : Waveform) (d : Device) : Device :=
  let lowered := hold (drive (settle d w.closing) ⟨false, true⟩) false w.lowered
  hold (drive lowered ⟨true, true⟩) true w.stopped

def Waveform.conduct (w : Waveform) (d : Device) : List (Bool × (ℕ → Byte)) × Device :=
  let out := conductClocks w.clocks (w.start d)
  (out.1, w.stop out.2)

def conductAll : List Waveform → Device → List (List (Bool × (ℕ → Byte))) × Device
  | [], d => ([], d)
  | w :: ws, d =>
      let out := w.conduct d
      let rest := conductAll ws out.2
      (out.1 :: rest.1, rest.2)

/-- The master drives the bits that are its own; at the device's it may leave any level. -/
def Slot.Driven (k : Clock) (s : Slot) : Prop := ∀ sda, s.level = .master sda → k.bit = sda

def Slot.Answered (seen : Bool × (ℕ → Byte)) (s : Slot) : Prop :=
  (∀ sda, s.level = .device sda → seen.1 = sda) ∧ seen.2 = s.storage

def Waveform.Carries (w : Waveform) (slots : List Slot) : Prop := List.Forall₂ Slot.Driven w.clocks slots

/-! ## One clock -/

theorem settle_low (c : Core) (x : Bool) (levels : List Bool) :
    ∃ y, settle (c.on ⟨x, false⟩) levels = c.on ⟨y, false⟩ := by
  induction levels generalizing x with
  | nil => exact ⟨x, rfl⟩
  | cons level levels ih =>
    rw [settle, List.foldl_cons, drive_low]
    exact ih level

theorem hold_high (c : Core) (x : Bool) (times : ℕ) : hold (c.on ⟨x, true⟩) x times = c.on ⟨x, true⟩ := by
  induction times with
  | zero => rfl
  | succ times ih =>
    rw [hold] at ih ⊢
    rw [Nat.repeat, ih, drive_held]

theorem high_low (k : Clock) (c : Core) (x : Bool) : k.high (c.on ⟨x, false⟩) = (c.rise k.bit).on ⟨k.bit, true⟩ := by
  rcases settle_low c x k.settling with ⟨y, settled⟩
  rw [Clock.high, settled, drive_rise, hold_high]

theorem conduct_low (k : Clock) (c : Core) (x : Bool) :
    k.conduct (c.on ⟨x, false⟩) = (c.rise k.bit).fall.on ⟨k.released, false⟩ := by
  rw [Clock.conduct, high_low, drive_fall]

/-- Over some clocks the device answers as planned and then waits, the clock line low, at `after`. -/
def Serves (c : Core) (slots : List Slot) (after : Core) : Prop :=
  ∀ ks x, List.Forall₂ Slot.Driven ks slots →
    List.Forall₂ Slot.Answered (conductClocks ks (c.on ⟨x, false⟩)).1 slots ∧
      ∃ y, (conductClocks ks (c.on ⟨x, false⟩)).2 = after.on ⟨y, false⟩

variable {c before after : Core} {s : Slot} {slots : List Slot} {storage : ℕ → Byte}

theorem Serves.nil (c : Core) : Serves c [] c := by
  intro ks x driven
  cases driven
  exact ⟨List.Forall₂.nil, x, rfl⟩

theorem Serves.cons (next : ∀ bit, (∀ sda, s.level = .master sda → bit = sda) →
      s.Answered (observe ((c.rise bit).on ⟨bit, true⟩)) ∧ Serves (c.rise bit).fall slots after) :
    Serves c (s :: slots) after := by
  intro ks x driven
  cases driven with
  | cons first others =>
    rename_i k ks
    rcases next k.bit first with ⟨answered, served⟩
    rcases served ks k.released others with ⟨answers, y, stopped⟩
    rw [← conduct_low k c x] at answers stopped
    rw [← high_low k c x] at answered
    exact ⟨List.Forall₂.cons answered answers, y, stopped⟩

theorem Serves.master (sda : Bool) (kept : (c.rise sda).storage = storage)
    (served : Serves (c.rise sda).fall slots after) : Serves c (⟨.master sda, storage⟩ :: slots) after := by
  apply Serves.cons
  intro bit driven
  have same : bit = sda := driven sda rfl
  subst same
  refine ⟨⟨?_, kept⟩, served⟩
  intro level claimed
  cases claimed

theorem Serves.device (sda : Bool)
    (answered : ∀ bit, sdaOut ((c.rise bit).on ⟨bit, true⟩) = sda ∧ (c.rise bit).storage = storage)
    (served : ∀ bit, Serves (c.rise bit).fall slots after) : Serves c (⟨.device sda, storage⟩ :: slots) after := by
  apply Serves.cons
  intro bit _
  refine ⟨⟨?_, (answered bit).2⟩, served bit⟩
  intro level claimed
  cases claimed
  exact (sample_eq _).trans (answered bit).1

/-! ## One byte -/

/-- The `count` most significant bits of a byte. -/
def upper (byte : Byte) (count : ℕ) : Byte := byte &&& ~~~((0xFF : Byte) >>> count)

theorem upper_zero (byte : Byte) : upper byte 0 = 0 := by
  simp [upper]

theorem upper_eight (byte : Byte) : upper byte 8 = byte := BitVec.and_allOnes

theorem levelAt_and {count : ℕ} (inside : count < 8) (byte : Byte) :
    levelAt (byte.getMsbD count) (7 - count) = byte &&& BitVec.twoPow 8 (7 - count) := by
  have place : byte.getMsbD count = byte.getLsbD (7 - count) := by
    rw [BitVec.getMsbD_eq_getLsbD, decide_eq_true inside, Bool.true_and]
  rw [levelAt, place, BitVec.and_twoPow, BitVec.twoPow_eq]
  split
  · rfl
  · exact BitVec.zero_shiftLeft _

theorem upper_mask : ∀ count < 8,
    ~~~((0xFF : Byte) >>> count) ||| BitVec.twoPow 8 (7 - count) = ~~~((0xFF : Byte) >>> (count + 1)) := by
  decide

theorem upper_succ (byte : Byte) (count : ℕ) (inside : count < 8) :
    upper byte count ||| levelAt (byte.getMsbD count) (7 - count) = upper byte (count + 1) := by
  rw [levelAt_and inside, upper, upper, ← upper_mask count inside, BitVec.and_or_distrib_left]

def register (address : BitVec 7) : Byte := address.setWidth 8

theorem register_facts : ∀ address : BitVec 7,
    register address &&& ~~~pageMask ||| (register address + 1) &&& pageMask = register (inPage address 1) ∧
      (register address + 1) &&& 0x7F = register (address + 1) ∧ cell (register address) = address.toNat ∧
      upper (register address) 1 = 0 := by
  decide

theorem register_levels (address : BitVec 7) :
    (List.range 7).map address.getMsbD = (List.range' 1 7).map (register address).getMsbD := by
  simp [List.range, List.range.loop, List.range', register, BitVec.getMsbD]

section Bytes

variable {read : Bool} {address buffer : Byte} {cells : ℕ → Byte}

/-- The bits of the address, the most significant of them in clock `count`. -/
theorem serves_addressBits (byte : Byte) (left : ℕ) : ∀ count, count + left = 8 →
    Serves ⟨.address, 8, read, byte, buffer, cells⟩ slots after →
    Serves ⟨.address, count, read, upper byte count, buffer, cells⟩
      (((List.range' count left).map fun i => ⟨.master (byte.getMsbD i), cells⟩) ++ slots) after := by
  induction left with
  | zero =>
    intro count whole served
    have all : count = 8 := whole
    subst all
    rw [upper_eight]
    exact served
  | succ left ih =>
    intro count whole served
    have early : count < 8 := by omega
    have next := ih (count + 1) (by omega) served
    rw [List.range'_succ, List.map_cons, List.cons_append]
    have risen : Core.rise ⟨.address, count, read, upper byte count, buffer, cells⟩ (byte.getMsbD count) =
        ⟨.address, count, read, upper byte (count + 1), buffer, cells⟩ := by
      simp only [Core.rise, Core.on, Device.rise, Device.core, if_pos early, upper_succ byte count early]
    apply Serves.master
    · rw [risen]
    · rw [risen]
      have fallen : Core.fall ⟨.address, count, read, upper byte (count + 1), buffer, cells⟩ =
          ⟨.address, count + 1, read, upper byte (count + 1), buffer, cells⟩ := by
        have more : count < 9 := by omega
        simp [Core.fall, Core.on, SerialEepromState.fall, Device.core, more, Phase.ordinal]
      rw [fallen]
      exact next

/-- The bits of a byte to be stored, the most significant of them in clock `count + 1`. -/
theorem serves_dataBits (byte : Byte) (left : ℕ) : ∀ count, count + left = 8 →
    Serves ⟨.write, 9, read, address, byte, cells⟩ slots after →
    Serves ⟨.write, count + 1, read, address, upper byte count, cells⟩
      (((List.range' count left).map fun i => ⟨.master (byte.getMsbD i), cells⟩) ++ slots) after := by
  induction left with
  | zero =>
    intro count whole served
    have all : count = 8 := whole
    subst all
    rw [upper_eight]
    exact served
  | succ left ih =>
    intro count whole served
    have early : count < 8 := by omega
    have next := ih (count + 1) (by omega) served
    have more : count + 1 < 9 := by omega
    have place : 8 - (count + 1) = 7 - count := by omega
    rw [List.range'_succ, List.map_cons, List.cons_append]
    have risen : Core.rise ⟨.write, count + 1, read, address, upper byte count, cells⟩ (byte.getMsbD count) =
        ⟨.write, count + 1, read, address, upper byte (count + 1), cells⟩ := by
      simp only [Core.rise, Core.on, Device.rise, Device.core, if_pos more, place, upper_succ byte count early]
    apply Serves.master
    · rw [risen]
    · rw [risen]
      have fallen : Core.fall ⟨.write, count + 1, read, address, upper byte (count + 1), cells⟩ =
          ⟨.write, count + 1 + 1, read, address, upper byte (count + 1), cells⟩ := by
        simp [Core.fall, Core.on, SerialEepromState.fall, Device.core, more, Phase.ordinal]
      rw [fallen]
      exact next

/-- The bits of a byte that is read, the most significant of them in clock `count + 1`. -/
theorem serves_readBits (left : ℕ) : ∀ count, count + left = 8 →
    Serves ⟨.read, 9, read, address, buffer, cells⟩ slots after →
    Serves ⟨.read, count + 1, read, address, buffer, cells⟩
      (((List.range' count left).map fun i => ⟨.device ((cells (cell address)).getMsbD i), cells⟩) ++ slots) after := by
  induction left with
  | zero =>
    intro count whole served
    have all : count = 8 := whole
    subst all
    exact served
  | succ left ih =>
    intro count whole served
    have next := ih (count + 1) (by omega) served
    have more : count + 1 < 9 := by omega
    have middle : ¬count = 8 := by omega
    rw [List.range'_succ, List.map_cons, List.cons_append]
    have risen (bit : Bool) : Core.rise ⟨.read, count + 1, read, address, buffer, cells⟩ bit =
        ⟨.read, count + 1, read, address, buffer, cells⟩ := by
      simp [Core.rise, Core.on, Device.rise, Device.core, middle]
    apply Serves.device
    · intro bit
      rw [risen]
      refine ⟨?_, rfl⟩
      have early : count < 8 := by omega
      have place : 8 - (count + 1) = 8 - 1 - count := by omega
      simp [sdaOut, Core.on, more, BitVec.getMsbD, early, place]
    · intro bit
      rw [risen]
      have fallen : Core.fall ⟨.read, count + 1, read, address, buffer, cells⟩ =
          ⟨.read, count + 1 + 1, read, address, buffer, cells⟩ := by
        simp [Core.fall, Core.on, SerialEepromState.fall, Device.core, more, Phase.ordinal]
      rw [fallen]
      exact next

/-- What the device is ready for once a transaction is addressed. -/
def direction (read : Bool) : Phase := if read then .read else .write

theorem serves_header (first : BitVec 7) (reads : Bool)
    (served : Serves ⟨direction reads, 1, reads, register first, 0, cells⟩ slots after) :
    Serves ⟨.address, 1, read, 0, buffer, cells⟩ (header first reads cells ++ slots) after := by
  have bits := register_levels first
  have mapped : (List.range 7).map (fun i => (⟨.master (first.getMsbD i), cells⟩ : Slot)) =
      (List.range' 1 7).map fun i => ⟨.master ((register first).getMsbD i), cells⟩ := by
    have both := congrArg (List.map fun level => (⟨.master level, cells⟩ : Slot)) bits
    rwa [List.map_map, List.map_map] at both
  rw [header, mapped, List.append_assoc, ← (register_facts first).2.2.2]
  apply serves_addressBits (register first) 7 1 rfl
  apply Serves.master
  · rfl
  · apply Serves.device
    · intro bit
      exact ⟨rfl, rfl⟩
    · intro bit
      cases reads <;> exact served

theorem serves_byte (place : BitVec 7) (byte : Byte)
    (served : Serves ⟨.write, 1, read, register (inPage place 1), 0, Function.update cells place.toNat byte⟩
      slots after) :
    Serves ⟨.write, 1, read, register place, 0, cells⟩
      (((levels byte).map fun level => ⟨.master level, cells⟩) ++
        ⟨.device false, Function.update cells place.toNat byte⟩ :: slots) after := by
  rw [levels, List.map_map, List.range_eq_range', ← upper_zero byte]
  apply serves_dataBits byte 8 0 rfl
  have risen (bit : Bool) : Core.rise ⟨.write, 9, read, register place, byte, cells⟩ bit =
      ⟨.write, 9, read, register (inPage place 1), 0, Function.update cells place.toNat byte⟩ := by
    rw [← (register_facts place).1, ← (register_facts place).2.2.1]
    rfl
  apply Serves.device
  · intro bit
    rw [risen]
    exact ⟨rfl, rfl⟩
  · intro bit
    rw [risen]
    exact served

theorem serves_writing (data : List Byte) : ∀ (place : BitVec 7) (cells : ℕ → Byte), ∃ last,
    Serves ⟨.write, 1, read, register place, 0, cells⟩ (writing place cells data)
      ⟨.write, 1, read, last, 0, storing place cells data⟩ := by
  induction data with
  | nil => exact fun place cells => ⟨register place, Serves.nil _⟩
  | cons byte data ih =>
    intro place cells
    rcases ih (inPage place 1) (Function.update cells place.toNat byte) with ⟨last, served⟩
    exact ⟨last, serves_byte place byte served⟩

/-- A byte that is read, and what follows: another at the next address, or nothing before STOP. -/
theorem serves_readByte (place : BitVec 7) (final : Bool)
    (served : Serves (if final then ⟨.wait_stop, 9, read, register place, buffer, cells⟩
      else ⟨.read, 1, read, register (place + 1), buffer, cells⟩) slots after) :
    Serves ⟨.read, 1, read, register place, buffer, cells⟩
      (((levels (cells place.toNat)).map fun level => ⟨.device level, cells⟩) ++
        ⟨.master final, cells⟩ :: slots) after := by
  rw [levels, List.map_map, List.range_eq_range', ← (register_facts place).2.2.1]
  apply serves_readBits 8 0 rfl
  cases final with
  | true => exact Serves.master true rfl served
  | false =>
    have risen : Core.rise ⟨.read, 9, read, register place, buffer, cells⟩ false =
        ⟨.read, 9, read, register (place + 1), buffer, cells⟩ := by
      rw [← (register_facts place).2.1]
      rfl
    apply Serves.master
    · rw [risen]
    · rw [risen]
      exact served

/-- Where a read leaves the device before STOP. -/
def restingRead (read : Bool) (place : BitVec 7) (buffer : Byte) (cells : ℕ → Byte) : ℕ → Core
  | 0 => ⟨.read, 1, read, register place, buffer, cells⟩
  | count + 1 => ⟨.wait_stop, 9, read, register (place + BitVec.ofNat 7 count), buffer, cells⟩

theorem serves_reading (count : ℕ) : ∀ place : BitVec 7,
    Serves ⟨.read, 1, read, register place, buffer, cells⟩ (reading place cells count)
      (restingRead read place buffer cells count) := by
  induction count with
  | zero => exact fun place => Serves.nil _
  | succ count ih =>
    intro place
    apply serves_readByte
    cases count with
    | zero =>
      rw [restingRead, BitVec.add_zero]
      exact Serves.nil _
    | succ count =>
      have later := ih (place + 1)
      have moved : place + BitVec.ofNat 7 (count + 1) = place + 1 + BitVec.ofNat 7 count := by
        rw [BitVec.add_assoc, BitVec.ofNat_add, BitVec.add_comm 1]
        rfl
      rw [restingRead, moved]
      exact later

end Bytes

/-! ## Whole transactions -/

theorem start_idle (w : Waveform) (d : Device) (idle : d.eeprom.phase = .idle) :
    w.start d = Core.on ⟨.address, 1, d.eeprom.read, 0, d.eeprom.buffer, d.storage⟩ ⟨w.released, false⟩ := by
  have settled (xs : List Bool) : ∀ d : Device, d.eeprom.phase = .idle →
      drive (settle d xs) ⟨true, true⟩ = d.core.on ⟨true, true⟩ := by
    induction xs with
    | nil =>
      intro d idle
      exact drive_idle d _ idle (Or.inl rfl)
    | cons x xs ih =>
      intro d idle
      rw [settle, List.foldl_cons, drive_idle d _ idle (Or.inr rfl)]
      exact ih (d.core.on ⟨x, false⟩) idle
  have ready : d.core.phase ≠ .wait_stop := by
    intro waits
    have both : d.eeprom.phase = .wait_stop := waits
    rw [idle] at both
    cases both
  rw [Waveform.start, settled w.opening d idle, hold_high, drive_start d.core ready, hold_high, drive_fall]
  rfl

theorem stop_low (w : Waveform) (c : Core) (x : Bool) :
    w.stop (c.on ⟨x, false⟩) = Core.on { c.rise false with phase := .idle } ⟨true, true⟩ := by
  rcases settle_low c x w.closing with ⟨y, settled⟩
  rw [Waveform.stop, settled, drive_rise, hold_high, drive_stop, hold_high]

/-- Every answer of a transaction is the planned one, and after STOP the device is idle. -/
theorem conduct_idle (w : Waveform) (t : Transaction) (d : Device) (idle : d.eeprom.phase = .idle)
    (carries : w.Carries (t.slots d.storage)) :
    List.Forall₂ Slot.Answered (w.conduct d).1 (t.slots d.storage) ∧
      (w.conduct d).2.eeprom.phase = .idle ∧ (w.conduct d).2.storage = t.stored d.storage := by
  have served : ∃ c : Core,
      Serves ⟨.address, 1, d.eeprom.read, 0, d.eeprom.buffer, d.storage⟩ (t.slots d.storage) c ∧
        (c.rise false).storage = t.stored d.storage := by
    cases t with
    | write address data =>
      rcases serves_writing data address d.storage with ⟨last, written⟩
      exact ⟨_, serves_header address false written, rfl⟩
    | read address count =>
      refine ⟨_, serves_header address true (serves_reading count address), ?_⟩
      cases count <;> rfl
  rcases served with ⟨c, served, kept⟩
  rcases served w.clocks w.released carries with ⟨answers, y, ended⟩
  rw [Waveform.conduct, start_idle w d idle]
  refine ⟨answers, ?_, ?_⟩
  · rw [ended, stop_low]
    rfl
  · rw [ended, stop_low]
    exact kept

def storedAll (storage : ℕ → Byte) (ts : List Transaction) : ℕ → Byte := ts.foldl Transaction.stored storage

theorem conductAll_idle (ws : List Waveform) : ∀ (ts : List Transaction) (d : Device), d.eeprom.phase = .idle →
    List.Forall₂ Waveform.Carries ws (plan d.storage ts) →
    List.Forall₂ (List.Forall₂ Slot.Answered) (conductAll ws d).1 (plan d.storage ts) ∧
      (conductAll ws d).2.eeprom.phase = .idle ∧ (conductAll ws d).2.storage = storedAll d.storage ts := by
  induction ws with
  | nil =>
    intro ts d idle carried
    cases ts with
    | nil => exact ⟨List.Forall₂.nil, idle, rfl⟩
    | cons t ts => cases carried
  | cons w ws ih =>
    intro ts d idle carried
    cases ts with
    | nil => cases carried
    | cons t ts =>
      rcases List.forall₂_cons.mp carried with ⟨first, others⟩
      rcases conduct_idle w t d idle first with ⟨answers, idleAgain, stored⟩
      rw [← stored] at others
      rcases ih ts (w.conduct d).2 idleAgain others with ⟨laterAnswers, idleLast, storedLast⟩
      refine ⟨?_, idleLast, ?_⟩
      · rw [stored] at laterAnswers
        exact List.Forall₂.cons answers laterAnswers
      · rw [stored] at storedLast
        exact storedLast

/-! ## The cells of a write -/

theorem inPage_inPage (address : BitVec 7) (count : ℕ) : inPage (inPage address 1) count = inPage address (count + 1) := by
  apply BitVec.eq_of_toNat_eq
  have small := address.isLt
  simp only [inPage, BitVec.toNat_ofNat]
  omega

theorem inPage_zero (address : BitVec 7) : inPage address 0 = address := by
  apply BitVec.eq_of_toNat_eq
  have small := address.isLt
  simp only [inPage, BitVec.toNat_ofNat]
  omega

/-- The cells that a transaction stores to. -/
def Transaction.Stores (place : ℕ) : Transaction → Prop
  | .write address data => ∃ i < data.length, (inPage address i).toNat = place
  | .read _ _ => False

theorem storing_other (data : List Byte) : ∀ (address : BitVec 7) (storage : ℕ → Byte) (place : ℕ),
    (∀ i < data.length, (inPage address i).toNat ≠ place) → storing address storage data place = storage place := by
  induction data with
  | nil => exact fun _ _ _ _ => rfl
  | cons byte data ih =>
    intro address storage place apart
    have next : ∀ i < data.length, (inPage (inPage address 1) i).toNat ≠ place := by
      intro i inside
      rw [inPage_inPage]
      exact apart (i + 1) (Nat.succ_lt_succ inside)
    have here := apart 0 (Nat.succ_pos _)
    rw [inPage_zero] at here
    rw [storing, ih _ _ place next, Function.update_of_ne here.symm]

theorem stored_other (storage : ℕ → Byte) (t : Transaction) (place : ℕ) (apart : ¬t.Stores place) :
    t.stored storage place = storage place := by
  cases t with
  | read address count => rfl
  | write address data => exact storing_other data address storage place fun i inside same => apart ⟨i, inside, same⟩

theorem storedAll_other (ts : List Transaction) (place : ℕ) : ∀ storage : ℕ → Byte,
    (∀ t ∈ ts, ¬t.Stores place) → storedAll storage ts place = storage place := by
  induction ts with
  | nil => exact fun _ _ => rfl
  | cons t ts ih =>
    intro storage apart
    calc
      storedAll storage (t :: ts) place = t.stored storage place :=
        ih (t.stored storage) fun later inside => apart later (List.mem_cons_of_mem t inside)
      _ = storage place := stored_other storage t place (apart t List.mem_cons_self)

/-- A byte is kept unless a later one of the same write comes to its cell, four places on. -/
theorem storing_last (data : List Byte) : ∀ (address : BitVec 7) (storage : ℕ → Byte) (i : ℕ) (byte : Byte),
    data[i]? = some byte → data.length ≤ i + 4 → storing address storage data (inPage address i).toNat = byte := by
  induction data with
  | nil =>
    intro address storage i byte given
    cases given
  | cons first data ih =>
    intro address storage i byte given last
    cases i with
    | succ i =>
      rw [← inPage_inPage]
      exact ih (inPage address 1) _ i byte given (by simpa using last)
    | zero =>
      have same : first = byte := by simpa using given
      have apart : ∀ j < data.length, (inPage (inPage address 1) j).toNat ≠ address.toNat := by
        intro j inside equal
        have short : data.length < 4 := by simpa using last
        have small := address.isLt
        simp only [inPage, BitVec.toNat_ofNat] at equal
        omega
      rw [inPage_zero, storing, storing_other data _ _ _ apart, Function.update_self, same]

/-! ## The clocks of a read -/

theorem reading_byte (count : ℕ) : ∀ (place : BitVec 7) (storage : ℕ → Byte) (i : ℕ), i < count →
    ((reading place storage count).drop (9 * i)).take 8 =
      (levels (storage (place + BitVec.ofNat 7 i).toNat)).map fun level => ⟨.device level, storage⟩ := by
  induction count with
  | zero => exact fun _ _ _ outside => absurd outside (Nat.not_lt_zero _)
  | succ count ih =>
    intro place storage i inside
    have eight : ((levels (storage place.toNat)).map fun level => (⟨.device level, storage⟩ : Slot)).length = 8 := by
      simp [levels]
    cases i with
    | zero =>
      rw [reading, Nat.mul_zero, List.drop_zero, BitVec.add_zero]
      exact List.take_left' eight
    | succ i =>
      have moved : place + BitVec.ofNat 7 (i + 1) = place + 1 + BitVec.ofNat 7 i := by
        rw [BitVec.add_assoc, BitVec.ofNat_add, BitVec.add_comm 1]
        rfl
      have split : 9 * (i + 1) = 8 + (9 * i + 1) := by omega
      rw [moved, reading, split, ← List.drop_drop, List.drop_left' eight, List.drop_succ_cons]
      exact ih (place + 1) storage i (Nat.lt_of_succ_lt_succ inside)

theorem levels_answered (storage : ℕ → Byte) (expected : List Bool) : ∀ seen : List (Bool × (ℕ → Byte)),
    List.Forall₂ Slot.Answered seen (expected.map fun level => ⟨.device level, storage⟩) →
    seen.map Prod.fst = expected := by
  induction expected with
  | nil =>
    intro seen answered
    cases answered
    rfl
  | cons level expected ih =>
    intro seen answered
    cases answered with
    | cons first others => rw [List.map_cons, first.1 level rfl, ih _ others]

theorem read_answered {place : BitVec 7} {count i : ℕ} {storage : ℕ → Byte} {seen : List (Bool × (ℕ → Byte))}
    (answered : List.Forall₂ Slot.Answered seen ((Transaction.read place count).slots storage)) (inside : i < count) :
    ((seen.drop (9 + 9 * i)).take 8).map Prod.fst = levels (storage (place + BitVec.ofNat 7 i).toNat) := by
  have nine : (header place true storage).length = 9 := by simp [header]
  have part : (((Transaction.read place count).slots storage).drop (9 + 9 * i)).take 8 =
      (levels (storage (place + BitVec.ofNat 7 i).toNat)).map fun level => ⟨.device level, storage⟩ := by
    rw [Transaction.slots, ← List.drop_drop, List.drop_left' nine]
    exact reading_byte count place storage i inside
  apply levels_answered storage
  rw [← part]
  exact List.forall₂_take 8 (List.forall₂_drop (9 + 9 * i) answered)

theorem plan_at (before : List Transaction) (t : Transaction) (later : List Transaction) : ∀ storage : ℕ → Byte,
    (plan storage (before ++ t :: later))[before.length]? = some (t.slots (storedAll storage before)) := by
  induction before with
  | nil => exact fun _ => rfl
  | cons first before ih => exact fun storage => ih (first.stored storage)

theorem forall₂_at {α β : Type} {R : α → β → Prop} {xs : List α} {ys : List β} (related : List.Forall₂ R xs ys) :
    ∀ {n : ℕ} {y : β}, ys[n]? = some y → ∃ x, xs[n]? = some x ∧ R x y := by
  induction related with
  | nil =>
    intro n y given
    cases given
  | @cons x y xs ys first _ ih =>
    intro n z given
    cases n with
    | zero =>
      have same : y = z := by simpa using given
      subst same
      exact ⟨x, rfl, first⟩
    | succ n => exact ih given

/-- The serial EEPROM of an idle cartridge under any correctly clocked transactions. Each clock is
answered as planned, every byte of a write is in its cell from its ninth clock on, no other cell
changes, the device is idle after the last STOP, and a later read gives back what was written. -/
theorem serialEeprom_serves (ws : List Waveform) (ts : List Transaction) (d : Device)
    (idle : d.eeprom.phase = .idle) (carried : List.Forall₂ Waveform.Carries ws (plan d.storage ts)) :
    List.Forall₂ (List.Forall₂ Slot.Answered) (conductAll ws d).1 (plan d.storage ts) ∧
      (conductAll ws d).2.eeprom.phase = .idle ∧ (conductAll ws d).2.storage = storedAll d.storage ts ∧
      (∀ place, (∀ t ∈ ts, ¬t.Stores place) → (conductAll ws d).2.storage place = d.storage place) ∧
      ∀ before address data between place count later,
        ts = before ++ .write address data :: between ++ .read place count :: later →
        ∀ i j byte, data[i]? = some byte → data.length ≤ i + 4 → j < count →
          inPage address i = place + BitVec.ofNat 7 j → (∀ t ∈ between, ¬t.Stores (inPage address i).toNat) →
          ∃ seen, (conductAll ws d).1[before.length + (between.length + 1)]? = some seen ∧
            ((seen.drop (9 + 9 * j)).take 8).map Prod.fst = levels byte := by
  rcases conductAll_idle ws ts d idle carried with ⟨answers, idleAgain, stored⟩
  refine ⟨answers, idleAgain, stored, ?_, ?_⟩
  · intro place apart
    rw [stored]
    exact storedAll_other ts place d.storage apart
  · intro before address data between place count later shape i j byte given last inside same apart
    subst shape
    have planned := plan_at (before ++ .write address data :: between) (.read place count) later d.storage
    rw [List.length_append, List.length_cons] at planned
    rcases forall₂_at answers planned with ⟨seen, at_, answered⟩
    refine ⟨seen, at_, ?_⟩
    have kept : storedAll d.storage (before ++ .write address data :: between) (inPage address i).toNat = byte := by
      rw [storedAll, List.foldl_append, List.foldl_cons]
      calc
        storedAll (storing address (storedAll d.storage before) data) between (inPage address i).toNat =
            storing address (storedAll d.storage before) data (inPage address i).toNat :=
          storedAll_other between _ _ apart
        _ = byte := storing_last data address _ i byte given last
    rw [read_answered answered inside, ← same, kept]

/-- The simplest clock; the master lets the line high where it is the device's. -/
def Level.clock : Level → Clock
  | .master sda => ⟨[sda], sda, 0, sda⟩
  | .device _ => ⟨[true], true, 0, true⟩

def Waveform.plain (slots : List Slot) : Waveform :=
  ⟨[], 0, 0, false, slots.map fun s => s.level.clock, [false], 0, 0⟩

theorem plain_carries (slots : List Slot) : (Waveform.plain slots).Carries slots := by
  rw [Waveform.Carries, Waveform.plain, List.forall₂_map_left_iff]
  apply List.forall₂_same.mpr
  intro s _ sda driven
  rw [driven]
  rfl

/-- Two bytes at address 6, and a read of three from address 5 on: the second of them is the first
that was written. -/
theorem serialEeprom_serves_twoBytes :
    let blank : Device := ⟨⟨false, false, false, false, .idle, 0, false, 0, 0⟩, fun _ => 0xFF⟩
    let ts := [.write 6 [0xA5, 0x3C], .read 5 3]
    ∃ seen, (conductAll ((plan blank.storage ts).map Waveform.plain) blank).1[1]? = some seen ∧
      ((seen.drop 18).take 8).map Prod.fst = levels 0xA5 := by
  intro blank ts
  have carried : List.Forall₂ Waveform.Carries ((plan blank.storage ts).map Waveform.plain) (plan blank.storage ts) := by
    rw [List.forall₂_map_left_iff]
    exact List.forall₂_same.mpr fun slots _ => plain_carries slots
  have served := serialEeprom_serves _ ts blank rfl carried
  exact served.2.2.2.2 [] 6 [0xA5, 0x3C] [] 5 3 [] rfl 0 1 0xA5 rfl (by decide) (by decide) (by decide)
    (fun t inside => absurd inside List.not_mem_nil)

end Segarecomp.Genesis.Eeprom

import Mathlib.Tactic
import Segarecomp.Sms.Memory

/-! The mapper's two tables agree: where code is reported, a read serves the byte of the reported image,
and no other address is served from the ROM. -/

namespace Segarecomp.Sms

open Z80 Z80.Runtime

namespace Memory

variable {m start : Memory} {address : Addr} {value : Byte} {cycles : ℕ}

/-! ## Power on -/

def romMinSize : ℕ := 0x8000

def romMaxSize : ℕ := 0x80000

def romOnlySize : ℕ := 0x8000

def romSizeSupported (size : ℕ) : Bool :=
  decide (romMinSize ≤ size) && decide (size ≤ romMaxSize) && decide (size &&& (size - 1) = 0)

def segaResetRegs : Fin 4 → Byte := ![0, 0, 1, 2]

/-- The BIOS leaves the last value of port $3E at the first byte of RAM. -/
def reset (rom : ℕ → Byte) (romSize : ℕ) (family : MapperFamily) : Memory where
  rom
  romSize
  family
  ram := Function.update (fun _ => 0) 0 0xAB
  cartRam := fun _ => 0
  mapperRegs := segaResetRegs

def init (rom : ℕ → Byte) (romSize : ℕ) (family : MapperFamily) : Option Memory :=
  if romSizeSupported romSize = false ∨ family = .rom_only ∧ romSize ≠ romOnlySize then none
  else some (reset rom romSize family)

inductive Access where
  | read (address : Addr) (cycles : ℕ)
  | write (address : Addr) (value : Byte) (cycles : ℕ)
  | control (port : Addr) (value : Byte) (cycles : ℕ)

def access (m : Memory) : Access → Memory
  | .read address cycles => (m.read address cycles).2
  | .write address value cycles => m.write address value cycles
  | .control port value cycles => m.controlWrite port value cycles

/-! ## The size of the ROM along a run -/

/-- The ROM of the memory holds a power of two of banks, two at least, and nothing but code below $8000
without a mapper. -/
structure Sized (m : Memory) : Prop where
  banks : 2 ≤ m.romSize / bankSize
  whole : m.family = .rom_only → m.romSize = romOnlySize

theorem sized_of_init {rom : ℕ → Byte} {romSize : ℕ} {family : MapperFamily}
    (made : init rom romSize family = some start) : Sized start := by
  rw [init] at made
  by_cases refused : romSizeSupported romSize = false ∨ family = .rom_only ∧ romSize ≠ romOnlySize
  · rw [if_pos refused] at made
    exact absurd made.symm (Option.some_ne_none _)
  · rw [if_neg refused] at made
    cases Option.some.inj made
    rw [not_or, Bool.not_eq_false] at refused
    have supported : (decide (romMinSize ≤ romSize) && decide (romSize ≤ romMaxSize) &&
      decide (romSize &&& (romSize - 1) = 0)) = true := refused.1
    simp only [Bool.and_eq_true, decide_eq_true_eq] at supported
    refine ⟨?_, fun only => ?_⟩
    · have two : 2 = romMinSize / bankSize := rfl
      rw [two]
      exact Nat.div_le_div_right supported.1.1
    · by_contra other
      exact refused.2 ⟨only, other⟩

/-- An access keeps the ROM, its size and the mapper family. -/
structure Keeps (m n : Memory) : Prop where
  rom : n.rom = m.rom
  romSize : n.romSize = m.romSize
  family : n.family = m.family

theorem Keeps.refl (m : Memory) : Keeps m m := ⟨rfl, rfl, rfl⟩

theorem Keeps.trans {n k : Memory} (first : Keeps m n) (second : Keeps n k) : Keeps m k :=
  ⟨second.rom.trans first.rom, second.romSize.trans first.romSize, second.family.trans first.family⟩

theorem keeps_latchError (m : Memory) (latch : Latch) : Keeps m (m.latchError latch) := ⟨rfl, rfl, rfl⟩

theorem keeps_read (m : Memory) (address : Addr) (cycles : ℕ) : Keeps m (m.read address cycles).2 := by
  rw [read]
  by_cases failed : m.error.isSome
  · rw [if_pos failed]
    exact Keeps.refl m
  rw [if_neg failed]
  by_cases ram : 0xC000 ≤ address.toNat
  · rw [if_pos ram]
    exact Keeps.refl m
  rw [if_neg ram]
  cases m.family with
  | rom_only =>
      dsimp only
      by_cases code : address.toNat < 0x8000
      · rw [if_pos code]
        exact Keeps.refl m
      · rw [if_neg code]
        exact keeps_latchError m _
  | sega =>
      cases m.segaRomOffset address.toNat with
      | none => exact Keeps.refl m
      | some offset => exact Keeps.refl m

theorem keeps_write (m : Memory) (address : Addr) (value : Byte) (cycles : ℕ) :
    Keeps m (m.write address value cycles) := by
  rw [write]
  by_cases failed : m.error.isSome
  · rw [if_pos failed]
    exact Keeps.refl m
  rw [if_neg failed]
  by_cases ram : 0xC000 ≤ address.toNat
  · rw [if_pos ram]
    by_cases register : m.family = .sega ∧ 0xFFFC ≤ address.toNat
    · rw [if_pos register]
      by_cases refused : address.toNat = 0xFFFC ∧ (value &&& 0x10 ≠ 0 ∨ value &&& 0x03 ≠ 0)
      · rw [if_pos refused]
        exact keeps_latchError m _
      · rw [if_neg refused]
        exact ⟨rfl, rfl, rfl⟩
    · rw [if_neg register]
      exact ⟨rfl, rfl, rfl⟩
  · rw [if_neg ram]
    by_cases cart : m.family = .sega ∧ 0x8000 ≤ address.toNat ∧ m.cartRamInSlot2
    · rw [if_pos cart]
      exact ⟨rfl, rfl, rfl⟩
    · rw [if_neg cart]
      exact Keeps.refl m

theorem keeps_controlWrite (m : Memory) (port : Addr) (value : Byte) (cycles : ℕ) :
    Keeps m (m.controlWrite port value cycles) := by
  rw [controlWrite]
  by_cases failed : m.error.isSome
  · rw [if_pos failed]
    exact Keeps.refl m
  rw [if_neg failed]
  by_cases refused : value &&& 0x40 ≠ 0 ∨ value &&& 0x10 ≠ 0 ∨ value &&& 0x08 = 0
  · rw [if_pos refused]
    exact keeps_latchError m _
  · rw [if_neg refused]
    exact ⟨rfl, rfl, rfl⟩

theorem keeps_access (m : Memory) (a : Access) : Keeps m (m.access a) := by
  cases a with
  | read address cycles => exact keeps_read m address cycles
  | write address value cycles => exact keeps_write m address value cycles
  | control port value cycles => exact keeps_controlWrite m port value cycles

theorem keeps_run (m : Memory) (accesses : List Access) : Keeps m (accesses.foldl access m) := by
  induction accesses generalizing m with
  | nil => exact Keeps.refl m
  | cons a rest ih => exact (keeps_access m a).trans (ih _)

theorem Sized.keep {n : Memory} (sized : Sized m) (keeps : Keeps m n) : Sized n :=
  ⟨keeps.romSize ▸ sized.banks, fun only => keeps.romSize.trans (sized.whole (keeps.family ▸ only))⟩

/-! ## Images -/

/-- The ROM index of a byte of an image: 1 is the fixed first KiB, or the whole ROM without a mapper, and
`2 + n` is bank `n`. -/
inductive ImageByte (m : Memory) : ℕ → ℕ → ℕ → Prop
  | fixed {offset : ℕ} (mapped : m.family = .sega) (inside : offset < 0x400) : ImageByte m 1 offset offset
  | whole {offset : ℕ} (only : m.family = .rom_only) (inside : offset < romOnlySize) : ImageByte m 1 offset offset
  | bank {n offset : ℕ} (mapped : m.family = .sega) (known : n < m.romSize / bankSize) (inside : offset < bankSize) :
      ImageByte m (2 + n) offset (n * bankSize + offset)

/-- The ROM index that a read takes its byte from. -/
def romIndex (m : Memory) (address : Addr) : Option ℕ :=
  if m.error.isSome ∨ 0xC000 ≤ address.toNat then none
  else
    match m.family with
    | .rom_only => if address.toNat < 0x8000 then some address.toNat else none
    | .sega => m.segaRomOffset address.toNat

theorem ImageByte.lt_romSize {identity offset index : ℕ} (sized : Sized m)
    (holds : ImageByte m identity offset index) : index < m.romSize := by
  have whole : m.romSize / bankSize * bankSize ≤ m.romSize := Nat.div_mul_le_self _ _
  have two : 2 * bankSize ≤ m.romSize := (Nat.mul_le_mul_right _ sized.banks).trans whole
  cases holds with
  | fixed mapped inside => exact inside.trans (lt_of_lt_of_le (by decide) two)
  | whole only inside => exact sized.whole only ▸ inside
  | bank mapped known inside =>
      calc
        _ < _ * bankSize + bankSize := Nat.add_lt_add_left inside _
        _ = (_ + 1) * bankSize := (Nat.succ_mul _ _).symm
        _ ≤ m.romSize / bankSize * bankSize := Nat.mul_le_mul_right _ known
        _ ≤ m.romSize := whole

theorem exists_slot {a : ℕ} (below : a < 0xC000) :
    ∃ slot, segaSlots.find? (·.holds a) = some slot ∧ slot.windowBase ≤ a ∧ a < slot.windowBase + bankSize ∧
      slot.windowBase < 2 ^ 16 := by
  have held : ∃ slot ∈ segaSlots, slot.holds a = true := by
    simp only [segaSlots, List.mem_cons, List.not_mem_nil, or_false, exists_eq_or_imp, exists_eq_left, Slot.holds, slot0,
      slot1, slot2, Bool.and_eq_true, decide_eq_true_eq]
    omega
  obtain ⟨slot, found⟩ := Option.isSome_iff_exists.mp (List.find?_isSome.mpr held)
  have holds : slot.holds a = true := by
    have is := List.find?_some found
    exact is
  have mem := List.mem_of_find?_eq_some found
  refine ⟨slot, found, ?_⟩
  simp only [segaSlots, List.mem_cons, List.not_mem_nil, or_false] at mem
  simp only [Slot.holds, Bool.and_eq_true, decide_eq_true_eq] at holds
  rcases mem with rfl | rfl | rfl <;> simp only [slot0, slot1, slot2, bankSize] at holds ⊢ <;> omega

theorem bankSelect_lt (sized : Sized m) (value : Byte) : m.bankSelect value < m.romSize / bankSize := by
  have two := sized.banks
  exact Nat.lt_of_le_of_lt Nat.and_le_right (by omega)

theorem tables_agree (sized : Sized m) (address : Addr) :
    (∃ image index, m.codeImage address = some image ∧ m.romIndex address = some index ∧
      image.windowBase.toNat ≤ address.toNat ∧
      ImageByte m image.identity (address.toNat - image.windowBase.toNat) index) ∨
      m.codeImage address = none ∧ m.romIndex address = none := by
  rw [codeImage, romIndex]
  by_cases failed : m.error.isSome
  · rw [if_pos failed, if_pos (Or.inl failed)]
    exact Or.inr ⟨rfl, rfl⟩
  rw [if_neg failed, mapperCodeImage]
  by_cases ram : 0xC000 ≤ address.toNat
  · rw [if_pos (Or.inr ram)]
    refine Or.inr ⟨?_, rfl⟩
    cases m.family with
    | rom_only => exact if_pos (Nat.le_trans (by decide) ram)
    | sega => exact if_pos ram
  rw [if_neg (not_or.mpr ⟨failed, ram⟩)]
  cases only : m.family with
  | rom_only =>
      dsimp only
      by_cases past : 0x8000 ≤ address.toNat
      · rw [if_pos past, if_neg (Nat.not_lt_of_le past)]
        exact Or.inr ⟨rfl, rfl⟩
      · rw [if_neg past, if_pos (Nat.lt_of_not_le past)]
        exact Or.inl ⟨_, _, rfl, rfl, Nat.zero_le _, .whole only (Nat.lt_of_not_le past)⟩
  | sega =>
      dsimp only
      rw [if_neg ram, segaRomOffset]
      by_cases first : address.toNat < 0x400
      · rw [if_pos first, if_pos first]
        exact Or.inl ⟨_, _, rfl, rfl, Nat.zero_le _, .fixed only first⟩
      rw [if_neg first, if_neg first, if_neg ram]
      obtain ⟨slot, found, above, below, small⟩ := exists_slot (Nat.lt_of_not_le ram)
      rw [found]
      dsimp only
      by_cases cart : slot = slot2 ∧ m.cartRamInSlot2
      · rw [if_pos cart, if_pos cart]
        exact Or.inr ⟨rfl, rfl⟩
      · rw [if_neg cart, if_neg cart]
        have base : (BitVec.ofNat 16 slot.windowBase).toNat = slot.windowBase := by
          rw [BitVec.toNat_ofNat, Nat.mod_eq_of_lt small]
        refine Or.inl ⟨_, _, rfl, rfl, base.trans_le above, ?_⟩
        rw [base]
        exact .bank only (bankSelect_lt sized _) (by omega)

/-! ## Reads -/

theorem read_of_romIndex {index : ℕ} (served : m.romIndex address = some index) (cycles : ℕ) :
    (m.read address cycles).1 = m.rom index := by
  rw [romIndex] at served
  by_cases off : m.error.isSome ∨ 0xC000 ≤ address.toNat
  · rw [if_pos off] at served
    exact absurd served.symm (Option.some_ne_none _)
  rw [if_neg off] at served
  obtain ⟨fine, low⟩ := not_or.mp off
  rw [read, if_neg fine, if_neg low]
  cases only : m.family with
  | rom_only =>
      rw [only] at served
      dsimp only at served ⊢
      by_cases code : address.toNat < 0x8000
      · rw [if_pos code] at served ⊢
        rw [← Option.some.inj served]
      · rw [if_neg code] at served
        exact absurd served.symm (Option.some_ne_none _)
  | sega =>
      rw [only] at served
      dsimp only at served ⊢
      rw [served]

/-- A read that takes nothing from the ROM gives the same byte over any ROM. -/
theorem read_of_not_served (apart : m.romIndex address = none) (cycles : ℕ) (rom : ℕ → Byte) :
    (read { m with rom := rom } address cycles).1 = (m.read address cycles).1 := by
  rw [romIndex] at apart
  rw [read, read]
  dsimp only
  by_cases failed : m.error.isSome
  · rw [if_pos failed, if_pos failed]
  rw [if_neg failed, if_neg failed]
  by_cases ram : 0xC000 ≤ address.toNat
  · rw [if_pos ram, if_pos ram]
  rw [if_neg (not_or.mpr ⟨failed, ram⟩)] at apart
  rw [if_neg ram, if_neg ram]
  cases only : m.family with
  | rom_only =>
      rw [only] at apart
      dsimp only at apart ⊢
      by_cases code : address.toNat < 0x8000
      · rw [if_pos code] at apart
        exact absurd apart (Option.some_ne_none _)
      · rw [if_neg code, if_neg code]
  | sega =>
      rw [only] at apart
      have other : segaRomOffset { m with rom := rom, family := .sega } address.toNat = none := apart
      dsimp only at apart ⊢
      rw [other, apart]
      rfl

/-! ## Refused control writes -/

/-- A write of unsupported bits to the control register. -/
def RefusedWrite (m : Memory) (address : Addr) (value : Byte) : Prop :=
  m.family = .sega ∧ address.toNat = 0xFFFC ∧ (value &&& 0x10 ≠ 0 ∨ value &&& 0x03 ≠ 0)

/-- A write to port $3E that would unmap the cartridge or the work RAM, or map the BIOS. -/
def RefusedControl (value : Byte) : Prop := value &&& 0x40 ≠ 0 ∨ value &&& 0x10 ≠ 0 ∨ value &&& 0x08 = 0

theorem write_refused (fine : m.error = none) (refused : RefusedWrite m address value) (cycles : ℕ) :
    m.write address value cycles =
      { m with error := some ⟨.control_bit_unsupported, address, value, cycles⟩ } := by
  obtain ⟨mapped, control, bits⟩ := refused
  have ram : 0xC000 ≤ address.toNat := by omega
  have register : 0xFFFC ≤ address.toNat := control.ge
  rw [write, fine, if_neg (by decide), if_pos ram, if_pos ⟨mapped, register⟩, if_pos ⟨control, bits⟩, latchError, fine]
  rfl

theorem controlWrite_refused (fine : m.error = none) (refused : RefusedControl value) (port : Addr) (cycles : ℕ) :
    m.controlWrite port value cycles =
      { m with error := some ⟨.control_bit_unsupported, port, value, cycles⟩ } := by
  rw [RefusedControl] at refused
  rw [controlWrite, fine, if_neg (by decide), if_pos refused, latchError, fine]
  rfl

/-! ## The mapper -/

/-- Where code is reported, a read serves the byte of the reported image, from inside the ROM; nothing is
served from the ROM elsewhere; and a refused control write changes nothing but the error. -/
structure ServesImages (m : Memory) : Prop where
  image : ∀ address image cycles, m.codeImage address = some image → image.windowBase.toNat ≤ address.toNat ∧
    ∃ index, ImageByte m image.identity (address.toNat - image.windowBase.toNat) index ∧ index < m.romSize ∧
      (m.read address cycles).1 = m.rom index
  inside : ∀ address index, m.romIndex address = some index → index < m.romSize
  elsewhere : ∀ address cycles rom, m.codeImage address = none →
    (read { m with rom := rom } address cycles).1 = (m.read address cycles).1
  refusedWrite : ∀ address value cycles, m.error = none → RefusedWrite m address value →
    m.write address value cycles = { m with error := some ⟨.control_bit_unsupported, address, value, cycles⟩ }
  refusedControl : ∀ port value cycles, m.error = none → RefusedControl value →
    m.controlWrite port value cycles = { m with error := some ⟨.control_bit_unsupported, port, value, cycles⟩ }

theorem servesImages_of_sized (sized : Sized m) : ServesImages m where
  image address image cycles reported := by
    rcases tables_agree sized address with ⟨image', index, code, served, above, holds⟩ | ⟨none, -⟩
    · cases Option.some.inj (code.symm.trans reported)
      exact ⟨above, index, holds, holds.lt_romSize sized, read_of_romIndex served cycles⟩
    · exact absurd (none.symm.trans reported).symm (Option.some_ne_none _)
  inside address index served := by
    rcases tables_agree sized address with ⟨image, index', -, here, -, holds⟩ | ⟨-, none⟩
    · cases Option.some.inj (here.symm.trans served)
      exact holds.lt_romSize sized
    · exact absurd (none.symm.trans served).symm (Option.some_ne_none _)
  elsewhere address cycles rom apart := by
    rcases tables_agree sized address with ⟨image, -, code, -⟩ | ⟨-, none⟩
    · exact absurd (code.symm.trans apart) (Option.some_ne_none _)
    · exact read_of_not_served none cycles rom
  refusedWrite _ _ cycles fine refused := write_refused fine refused cycles
  refusedControl port _ cycles fine refused := controlWrite_refused fine refused port cycles

/-- Every memory reached from a reset serves code and data from the same bytes. -/
theorem servesImages_run {rom : ℕ → Byte} {romSize : ℕ} {family : MapperFamily} {start : Memory}
    (made : init rom romSize family = some start) (accesses : List Access) :
    ServesImages (accesses.foldl access start) :=
  servesImages_of_sized ((sized_of_init made).keep (keeps_run start accesses))

theorem servesImages_run_banked :
    ServesImages ([Access.write 0xFFFF 3 10, .write 0xFFFC 0x08 20].foldl access (reset (fun _ => 0) 0x10000 .sega)) :=
  @servesImages_run (fun _ => 0) 0x10000 .sega _ rfl _

end Memory

end Segarecomp.Sms

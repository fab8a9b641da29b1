import Segarecomp.Codegen.CompiledEntryLookup

/-! The direct-entry table binds what the plain tables bind, and its rows call their helpers with the
provenance that was packed. -/

namespace Segarecomp.Codegen

open Bisect IntegerText Interning

/-- Exactly one of an owner and a direct helper, and a helper with its provenance word. -/
def CompiledEntryBinding.WellFormed (b : CompiledEntryBinding) : Prop :=
  (b.directHelper = "" ∧ b.ownerSymbol ≠ "") ∨
    (b.directHelper ≠ "" ∧ b.ownerSymbol = "" ∧ b.directProvenance ≠ [])

def ownersOf (bindings : List CompiledEntryBinding) : List String :=
  (bindings.filter fun b => b.directHelper = "").map CompiledEntryBinding.ownerSymbol

def helpersOf (bindings : List CompiledEntryBinding) : List String :=
  (bindings.filter fun b => b.directHelper ≠ "").map CompiledEntryBinding.directHelper

/-- The names the emitter holds when it has read a list. -/
def namesOf (bindings : List CompiledEntryBinding) : DirectNames :=
  ⟨Interned.empty.all (ownersOf bindings), Interned.empty.all (helpersOf bindings)⟩

/-- The count that owner ids stay below: one for the placeholder where there is no owner. -/
def ownerCount (bindings : List CompiledEntryBinding) : ℕ :=
  if (namesOf bindings).owners.names = [] then 1 else (namesOf bindings).owners.names.length

variable {bindings : List CompiledEntryBinding} {b : CompiledEntryBinding} {i : ℕ} {address : BitVec 32}

/-! ## Reading the bindings -/

theorem add_of_wellFormed {names : DirectNames} (formed : b.WellFormed) :
    names.add b = .ok (if b.directHelper = "" then { names with owners := names.owners.emplace b.ownerSymbol }
      else { names with helpers := names.helpers.emplace b.directHelper }) := by
  rcases formed with ⟨plain, owner⟩ | ⟨direct, bare, word⟩
  · rw [DirectNames.add, if_neg (by simp [plain, owner]), if_pos plain, if_pos plain]
  · rw [DirectNames.add, if_neg (by simp [direct, bare]), if_neg direct, if_neg word, if_neg direct]

theorem wellFormed_of_add {names after : DirectNames} (added : names.add b = .ok after) : b.WellFormed := by
  rw [DirectNames.add] at added
  split_ifs at added with one plain word
  · left
    have owner : b.ownerSymbol ≠ "" := by simpa [plain] using one
    exact ⟨plain, owner⟩
  · right
    have bare : b.ownerSymbol = "" := by simpa [plain] using one
    exact ⟨plain, bare, word⟩

theorem addAll_eq {names : DirectNames} (formed : ∀ b ∈ bindings, b.WellFormed) :
    names.addAll bindings =
      .ok ⟨names.owners.all (ownersOf bindings), names.helpers.all (helpersOf bindings)⟩ := by
  induction bindings generalizing names with
  | nil => rfl
  | cons b rest ih =>
      have later := fun after => @ih after fun c is => formed c (List.mem_cons_of_mem b is)
      rw [DirectNames.addAll, add_of_wellFormed (formed b List.mem_cons_self)]
      by_cases plain : b.directHelper = ""
      · rw [if_pos plain]
        refine (later _).trans ?_
        simp [ownersOf, helpersOf, plain, Interned.all_cons]
      · rw [if_neg plain]
        refine (later _).trans ?_
        simp [ownersOf, helpersOf, plain, Interned.all_cons]

theorem wellFormed_of_addAll {names after : DirectNames} (added : names.addAll bindings = .ok after) :
    ∀ b ∈ bindings, b.WellFormed := by
  induction bindings generalizing names with
  | nil => exact fun b is => absurd is List.not_mem_nil
  | cons b rest ih =>
      rw [DirectNames.addAll] at added
      cases first : names.add b with
      | error text =>
          rw [first] at added
          cases added
      | ok next =>
          rw [first] at added
          intro c is
          rcases List.mem_cons.mp is with rfl | later
          · exact wellFormed_of_add first
          · exact ih added c later

/-! ## Rows -/

theorem mem_ownersOf (member : b ∈ bindings) (plain : b.directHelper = "") : b.ownerSymbol ∈ ownersOf bindings :=
  List.mem_map_of_mem (List.mem_filter.mpr ⟨member, decide_eq_true plain⟩)

theorem mem_helpersOf (member : b ∈ bindings) (direct : b.directHelper ≠ "") :
    b.directHelper ∈ helpersOf bindings :=
  List.mem_map_of_mem (List.mem_filter.mpr ⟨member, decide_eq_true direct⟩)

/-- The ids of the table fit the widest id type. -/
def IdsFit (bindings : List CompiledEntryBinding) : Prop :=
  ownerCount bindings + (namesOf bindings).helpers.names.length ≤ 2 ^ 32

def idOf (bindings : List CompiledEntryBinding) (b : CompiledEntryBinding) : ℕ :=
  if b.directHelper = "" then (namesOf bindings).owners.id b.ownerSymbol
  else ownerCount bindings + (namesOf bindings).helpers.id b.directHelper

theorem owner_named (member : b ∈ bindings) (plain : b.directHelper = "") :
    (namesOf bindings).owners.names[idOf bindings b]? = some b.ownerSymbol := by
  rw [idOf, if_pos plain]
  exact Interned.names_id (mem_ownersOf member plain)

theorem ownerCount_of_owner (member : b ∈ bindings) (plain : b.directHelper = "") :
    (namesOf bindings).owners.names ≠ [] ∧ ownerCount bindings = (namesOf bindings).owners.names.length := by
  have some : (namesOf bindings).owners.names ≠ [] := by
    intro bare
    have named := owner_named member plain
    rw [bare] at named
    exact Option.some_ne_none _ named.symm
  exact ⟨some, if_neg some⟩

theorem idOf_owner_lt (member : b ∈ bindings) (plain : b.directHelper = "") : idOf bindings b < ownerCount bindings := by
  rw [(ownerCount_of_owner member plain).2]
  exact (List.getElem?_eq_some_iff.mp (owner_named member plain)).1

theorem helper_named (member : b ∈ bindings) (direct : b.directHelper ≠ "") :
    ownerCount bindings ≤ idOf bindings b ∧
      (namesOf bindings).helpers.names[idOf bindings b - ownerCount bindings]? = some b.directHelper := by
  rw [idOf, if_neg direct, Nat.add_sub_cancel_left]
  exact ⟨Nat.le_add_right _ _, Interned.names_id (mem_helpersOf member direct)⟩

theorem idOf_lt (member : b ∈ bindings) :
    idOf bindings b < ownerCount bindings + (namesOf bindings).helpers.names.length := by
  by_cases plain : b.directHelper = ""
  · have lt := idOf_owner_lt member plain
    omega
  · obtain ⟨le, named⟩ := helper_named member plain
    have inside := (List.getElem?_eq_some_iff.mp named).1
    omega

/-- The table of a list that is taken. -/
def tableOf (bindings : List CompiledEntryBinding) : DirectTable := directTable (namesOf bindings) bindings

theorem get_id_mod (bi : bindings[i]? = some b) :
    (tableOf bindings).ownerIds.get i = some (idOf bindings b %
      2 ^ compiledEntryOwnerIdBits (ownerCount bindings + (namesOf bindings).helpers.names.length)) := by
  rw [CArray.get, tableOf, directTable]
  dsimp only
  rw [List.getElem?_map, bi]
  change some (readInteger (toDecimal (idOf bindings b)) % _) = _
  rw [readInteger_toDecimal]
  rfl

theorem get_id (fits : IdsFit bindings) (bi : bindings[i]? = some b) :
    (tableOf bindings).ownerIds.get i = some (idOf bindings b) := by
  rw [get_id_mod bi, id_lt_width (idOf_lt (List.mem_of_getElem? bi)) fits]

theorem readInteger_ownerBound : readInteger (tableOf bindings).ownerBound = ownerCount bindings :=
  readInteger_decimal (ownerCount bindings) rfl (by decide)

theorem owner_slot (member : b ∈ bindings) (plain : b.directHelper = "") :
    (tableOf bindings).owners[idOf bindings b]? = some (some b.ownerSymbol) := by
  rw [tableOf, directTable]
  dsimp only
  rw [if_neg (ownerCount_of_owner member plain).1, List.nil_append, List.getElem?_map, owner_named member plain]
  rfl

theorem addresses_tableOf : (tableOf bindings).addresses = addressArray ['u'] bindings := rfl

/-! ## Lookup -/

theorem closes_u : Closes isHexDigit ['u'] := rfl

/-- What a lookup gives for a binding: its owner, or the stub that every direct entry is entered by. -/
def entryOf (b : CompiledEntryBinding) : String := if b.directHelper = "" then b.ownerSymbol else stub

theorem find_of_bound (ascending : Ascending bindings) (found : bound bindings address = some b) :
    ∃ index, (tableOf bindings).find address = some index ∧ bindings[index]? = some b := by
  have row := bound_row closes_u ascending found
  refine ⟨_, ?_, row⟩
  rw [DirectTable.find, addresses_tableOf]
  rw [if_pos ((hit_iff closes_u ascending).mpr ⟨b, row, found⟩)]

theorem find_of_unbound (ascending : Ascending bindings) (missing : bound bindings address = none) :
    (tableOf bindings).find address = none := by
  rw [DirectTable.find, addresses_tableOf]
  rw [if_neg]
  rw [hit_iff closes_u ascending, missing]
  rintro ⟨b, -, is⟩
  exact Option.some_ne_none b is.symm

theorem direct_lookup (ascending : Ascending bindings) (fits : IdsFit bindings) (address : BitVec 32) :
    (tableOf bindings).lookup address = some ((bound bindings address).map entryOf) := by
  rw [DirectTable.lookup]
  cases found : bound bindings address with
  | none =>
      rw [find_of_unbound ascending found]
      rfl
  | some b =>
      obtain ⟨index, row, bi⟩ := find_of_bound ascending found
      have member := List.mem_of_getElem? bi
      rw [row]
      dsimp only
      rw [get_id fits bi, Option.bind_eq_bind, Option.bind_some, readInteger_ownerBound, Option.map_some, entryOf]
      by_cases plain : b.directHelper = ""
      · rw [if_pos (idOf_owner_lt member plain), owner_slot member plain, if_pos plain]
      · rw [if_neg (Nat.not_lt_of_le (helper_named member plain).1), if_neg plain]
        rfl

/-! ## Provenance -/

/-- The source an entry's own instruction has. -/
def InstructionProvenance.source (p : InstructionProvenance) : InstructionSource where
  address := p.sourceAddress
  imageOffset := p.imageOffset
  first := p.bytes.1
  second := p.bytes.2
  length := p.length

/-- The packed word. -/
def packed (p : InstructionProvenance) : BitVec 64 :=
  (p.imageOffset <<< 24) ||| (p.bytes.2.setWidth 64 <<< 16) ||| (p.bytes.1.setWidth 64 <<< 8) ||| p.length.setWidth 64

theorem or_eq_add {a b n : ℕ} (lt : b < 2 ^ n) : a <<< n ||| b = a * 2 ^ n + b := by
  rw [← Nat.shiftLeft_add_eq_or_of_lt lt, Nat.shiftLeft_eq]

theorem toNat_packed {p : InstructionProvenance} (short : p.length.toNat < 2 ^ 8)
    (low : p.imageOffset.toNat < 2 ^ 40) :
    (packed p).toNat = p.imageOffset.toNat * 2 ^ 24 + (p.bytes.2.toNat * 2 ^ 16 + (p.bytes.1.toNat * 2 ^ 8 + p.length.toNat)) := by
  have first := p.bytes.1.isLt
  have second := p.bytes.2.isLt
  have offset : p.imageOffset.toNat <<< 24 % 2 ^ 64 = p.imageOffset.toNat <<< 24 := by
    rw [Nat.shiftLeft_eq]
    omega
  have high : (p.bytes.2.toNat % 2 ^ 64) <<< 16 % 2 ^ 64 = p.bytes.2.toNat <<< 16 := by
    rw [Nat.shiftLeft_eq, Nat.shiftLeft_eq]
    omega
  have middle : (p.bytes.1.toNat % 2 ^ 64) <<< 8 % 2 ^ 64 = p.bytes.1.toNat <<< 8 := by
    rw [Nat.shiftLeft_eq, Nat.shiftLeft_eq]
    omega
  have rest : p.length.toNat % 2 ^ 64 = p.length.toNat := by omega
  rw [packed]
  simp only [BitVec.toNat_or, BitVec.toNat_shiftLeft, BitVec.toNat_setWidth]
  rw [offset, high, middle, rest, Nat.or_assoc, Nat.or_assoc, or_eq_add short,
    @or_eq_add p.bytes.2.toNat _ 16 (by omega), or_eq_add (by omega)]

/-- The fields that a row's word is taken apart into are those it was put together from. -/
theorem unpack_packed {p : InstructionProvenance} (short : p.length.toNat < 2 ^ 8)
    (low : p.imageOffset.toNat < 2 ^ 40) :
    packed p >>> 24 = p.imageOffset ∧ (packed p >>> 8).setWidth 8 = p.bytes.1 ∧
      (packed p >>> 16).setWidth 8 = p.bytes.2 ∧ (packed p &&& 0xFF).setWidth 32 = p.length := by
  have word := toNat_packed short low
  have first := p.bytes.1.isLt
  have second := p.bytes.2.isLt
  refine ⟨?_, ?_, ?_, ?_⟩
  · apply BitVec.eq_of_toNat_eq
    rw [BitVec.toNat_ushiftRight, Nat.shiftRight_eq_div_pow]
    omega
  · apply BitVec.eq_of_toNat_eq
    rw [BitVec.toNat_setWidth, BitVec.toNat_ushiftRight, Nat.shiftRight_eq_div_pow]
    omega
  · apply BitVec.eq_of_toNat_eq
    rw [BitVec.toNat_setWidth, BitVec.toNat_ushiftRight, Nat.shiftRight_eq_div_pow]
    omega
  · apply BitVec.eq_of_toNat_eq
    have mask : (0xFF : BitVec 64).toNat = 2 ^ 8 - 1 := rfl
    rw [BitVec.toNat_setWidth, BitVec.toNat_and, mask, Nat.and_two_pow_sub_one_eq_mod]
    omega

theorem get_provenance {p : InstructionProvenance} (bi : bindings[i]? = some b) (direct : b.directHelper ≠ "")
    (row : provenanceRow b.address p = .ok b.directProvenance) :
    (tableOf bindings).provenance.get i = some (packed p).toNat := by
  rw [provenanceRow] at row
  split_ifs at row
  have text : hex16 (packed p) ++ "ULL".toList = b.directProvenance := Except.ok.inj row
  have closes : Closes isHexDigit "ULL".toList := rfl
  have read : readInteger (hex16 (packed p) ++ "ULL".toList) = (packed p).toNat := by
    rw [hex16, readInteger_hex 16 _ closes]
    exact Nat.mod_eq_of_lt (packed p).isLt
  rw [CArray.get, tableOf, directTable]
  dsimp only
  rw [List.getElem?_map, bi, Option.map_some, if_neg direct, ← text, Option.map_some, read,
    Nat.mod_eq_of_lt (packed p).isLt]

theorem invoke_owner (fits : IdsFit bindings) (bi : bindings[i]? = some b) (plain : b.directHelper = "")
    (pc : BitVec 32) : (tableOf bindings).invoke pc i = some (.owner (some b.ownerSymbol)) := by
  have member := List.mem_of_getElem? bi
  rw [DirectTable.invoke, get_id fits bi, Option.bind_eq_bind, Option.bind_some, readInteger_ownerBound,
    if_pos (idOf_owner_lt member plain), owner_slot member plain]
  rfl

theorem invoke_helper (fits : IdsFit bindings) (bi : bindings[i]? = some b) (direct : b.directHelper ≠ "")
    {p : InstructionProvenance} (row : provenanceRow b.address p = .ok b.directProvenance) :
    (tableOf bindings).invoke b.address i = some (.helper b.directHelper p.source) := by
  have member := List.mem_of_getElem? bi
  obtain ⟨le, named⟩ := helper_named member direct
  have helper : (tableOf bindings).helpers[idOf bindings b - ownerCount bindings]? = some b.directHelper := named
  have word := get_provenance bi direct row
  rw [provenanceRow] at row
  split_ifs at row with bad
  have short : p.length.toNat < 2 ^ 8 := by omega
  have low : p.imageOffset.toNat < 2 ^ 40 := by omega
  have address : p.sourceAddress = b.address := by
    by_contra other
    exact bad (.inr (.inr other))
  obtain ⟨offset, first, second, length⟩ := unpack_packed short low
  rw [DirectTable.invoke, get_id fits bi, Option.bind_eq_bind, Option.bind_some, readInteger_ownerBound,
    if_neg (Nat.not_lt_of_le le), word, Option.bind_eq_bind, Option.bind_some, helper]
  dsimp only
  rw [Option.bind_some, BitVec.ofNat_toNat, BitVec.setWidth_eq, offset, first, second, length, ← address]
  rfl

end Segarecomp.Codegen

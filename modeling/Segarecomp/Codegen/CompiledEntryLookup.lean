import Segarecomp.Codegen.CompiledEntryTable

/-! The emitted lookups as partial maps: one table and its chunks find what the list of bindings binds. -/

namespace Segarecomp.Codegen

open Bisect IntegerText Interning

/-- The binding of an address. -/
def bound (bindings : List CompiledEntryBinding) (address : BitVec 32) : Option CompiledEntryBinding :=
  bindings.find? fun binding => binding.address = address

variable {bindings : List CompiledEntryBinding} {b c : CompiledEntryBinding} {i j : ℕ} {address : BitVec 32}

/-! ## Ascending lists -/

theorem Ascending.lt (ascending : Ascending bindings) (bi : bindings[i]? = some b) (cj : bindings[j]? = some c)
    (lt : i < j) : b.address.toNat < c.address.toNat := by
  have pairs : bindings.Pairwise fun a b => a.address < b.address :=
    List.isChain_iff_pairwise.mp ascending
  obtain ⟨inside_i, is_b⟩ := List.getElem?_eq_some_iff.mp bi
  obtain ⟨inside_j, is_c⟩ := List.getElem?_eq_some_iff.mp cj
  rw [← is_b, ← is_c]
  exact List.pairwise_iff_getElem.mp pairs i j inside_i inside_j lt

theorem Ascending.sublist {chunk : List CompiledEntryBinding} (ascending : Ascending bindings)
    (part : chunk.Sublist bindings) : Ascending chunk := by
  have pairs : bindings.Pairwise fun a b => a.address < b.address :=
    List.isChain_iff_pairwise.mp ascending
  exact List.isChain_iff_pairwise.mpr (pairs.sublist part)

theorem Ascending.index_le (ascending : Ascending bindings) (bi : bindings[i]? = some b) : i ≤ b.address.toNat := by
  induction i generalizing b with
  | zero => exact Nat.zero_le _
  | succ i ih =>
      have inside := (List.getElem?_eq_some_iff.mp bi).1
      have before : bindings[i]? = some bindings[i] := List.getElem?_eq_getElem (by omega)
      calc i + 1 ≤ bindings[i].address.toNat + 1 := Nat.succ_le_succ (ih before)
        _ ≤ b.address.toNat := ascending.lt before bi (Nat.lt_succ_self i)

/-- Addresses of 32 bits leave no room for more bindings. -/
theorem Ascending.length_le (ascending : Ascending bindings) : bindings.length ≤ 2 ^ 32 := by
  rcases Nat.eq_zero_or_pos bindings.length with none | more
  · omega
  · have last : bindings[bindings.length - 1]? = some bindings[bindings.length - 1] :=
      List.getElem?_eq_getElem (by omega)
    have le := ascending.index_le last
    have lt := bindings[bindings.length - 1].address.isLt
    omega

theorem Ascending.bound_iff (ascending : Ascending bindings) :
    bound bindings address = some b ↔ b ∈ bindings ∧ b.address = address := by
  constructor
  · intro is
    have found := List.find?_some is
    exact ⟨List.mem_of_find?_eq_some is, of_decide_eq_true found⟩
  · rintro ⟨member, is⟩
    cases other : bound bindings address with
    | none =>
        have none := List.find?_eq_none.mp other b member
        exact absurd (decide_eq_true is) none
    | some c =>
        have found := List.find?_some other
        have same : c.address = address := of_decide_eq_true found
        obtain ⟨i, bi⟩ := List.mem_iff_getElem?.mp member
        obtain ⟨j, cj⟩ := List.mem_iff_getElem?.mp (List.mem_of_find?_eq_some other)
        have equal : b.address.toNat = c.address.toNat := by rw [is, same]
        rcases lt_trichotomy i j with lt | rfl | lt
        · exact absurd (ascending.lt bi cj lt) (by omega)
        · rw [← cj, bi]
        · exact absurd (ascending.lt cj bi lt) (by omega)

/-! ## Arrays -/

theorem value_of_get {a : CArray} {v : ℕ} (get : a.get i = some v) : a.value i = v := by
  rw [CArray.value, get]
  rfl

theorem readInteger_hex8 (address : BitVec 32) {suffix : Text} (closes : Closes isHexDigit suffix) :
    readInteger (hex8 address ++ suffix) = address.toNat := by
  have lt := address.isLt
  rw [hex8, readInteger_hex 8 _ closes]
  omega

/-- The addresses of a table, with what the emitter puts after each constant. -/
def addressArray (suffix : Text) (bindings : List CompiledEntryBinding) : CArray :=
  ⟨32, bindings.map fun binding => hex8 binding.address ++ suffix⟩

theorem get_addressArray {suffix : Text} (closes : Closes isHexDigit suffix) (bi : bindings[i]? = some b) :
    (addressArray suffix bindings).get i = some b.address.toNat := by
  rw [CArray.get, addressArray, List.getElem?_map, bi]
  change some (readInteger (hex8 b.address ++ suffix) % 2 ^ 32) = _
  rw [readInteger_hex8 b.address closes, Nat.mod_eq_of_lt b.address.isLt]

theorem sorted_addressArray {suffix : Text} (closes : Closes isHexDigit suffix) (ascending : Ascending bindings) :
    Sorted (addressArray suffix bindings).value bindings.length := by
  intro i j lt inside
  have bi : bindings[i]? = some bindings[i] := List.getElem?_eq_getElem (by omega)
  have bj : bindings[j]? = some bindings[j] := List.getElem?_eq_getElem inside
  rw [value_of_get (get_addressArray closes bi), value_of_get (get_addressArray closes bj)]
  exact ascending.lt bi bj lt

theorem count_addressArray (suffix : Text) : (addressArray suffix bindings).count = bindings.length := by
  rw [CArray.count, addressArray, List.length_map]

/-- The row the emitted search tests is that of the address if it has one. -/
theorem lowerBound_addressArray {suffix : Text} (closes : Closes isHexDigit suffix) (ascending : Ascending bindings)
    (bi : bindings[i]? = some b) : lowerBound (addressArray suffix bindings) b.address = i := by
  have inside := (List.getElem?_eq_some_iff.mp bi).1
  rw [lowerBound, count_addressArray]
  exact (sorted_addressArray closes ascending).lowerBound_eq inside (value_of_get (get_addressArray closes bi))

/-- The test after the search: it is passed exactly by the addresses that are bound. -/
theorem hit_iff {suffix : Text} (closes : Closes isHexDigit suffix) (ascending : Ascending bindings) :
    (lowerBound (addressArray suffix bindings) address < (addressArray suffix bindings).count ∧
      (addressArray suffix bindings).value (lowerBound (addressArray suffix bindings) address) = address.toNat) ↔
    ∃ b, bindings[lowerBound (addressArray suffix bindings) address]? = some b ∧ bound bindings address = some b := by
  generalize is : lowerBound (addressArray suffix bindings) address = low
  rw [count_addressArray]
  constructor
  · rintro ⟨inside, same⟩
    have bi : bindings[low]? = some bindings[low] := List.getElem?_eq_getElem inside
    rw [value_of_get (get_addressArray closes bi)] at same
    exact ⟨bindings[low], bi, ascending.bound_iff.mpr ⟨List.getElem_mem inside, BitVec.eq_of_toNat_eq same⟩⟩
  · rintro ⟨b, bi, found⟩
    refine ⟨(List.getElem?_eq_some_iff.mp bi).1, ?_⟩
    rw [value_of_get (get_addressArray closes bi), (ascending.bound_iff.mp found).2]

theorem bound_row {suffix : Text} (closes : Closes isHexDigit suffix) (ascending : Ascending bindings)
    (found : bound bindings address = some b) :
    bindings[lowerBound (addressArray suffix bindings) address]? = some b := by
  obtain ⟨member, rfl⟩ := ascending.bound_iff.mp found
  obtain ⟨i, bi⟩ := List.mem_iff_getElem?.mp member
  rw [lowerBound_addressArray closes ascending bi, bi]

/-! ## Ids -/

theorem id_lt_width {id count : ℕ} (lt : id < count) (fits : count ≤ 2 ^ 32) :
    id % 2 ^ compiledEntryOwnerIdBits count = id := by
  apply Nat.mod_eq_of_lt
  rw [compiledEntryOwnerIdBits]
  split_ifs <;> omega

theorem readInteger_toDecimal (value : ℕ) : readInteger (toDecimal value) = value := by
  have read := @readInteger_decimal value [] rfl (Option.some_ne_none 'x').symm
  rwa [List.append_nil] at read

/-! ## One table -/

theorem entryTable_eq (bindings : List CompiledEntryBinding) :
    entryTable bindings =
      let interned := Interned.empty.all (bindings.map CompiledEntryBinding.ownerSymbol)
      { addresses := addressArray [] bindings
        ownerIds := ⟨compiledEntryOwnerIdBits interned.names.length,
          bindings.map fun binding => toDecimal (interned.id binding.ownerSymbol)⟩
        owners := interned.names } := by
  simp only [entryTable, Interned.numbers_eq, addressArray, List.append_nil, List.map_map, Function.comp_def]

theorem entryTable_lookup (ascending : Ascending bindings) (address : BitVec 32) :
    (entryTable bindings).lookup address = some ((bound bindings address).map CompiledEntryBinding.ownerSymbol) := by
  have closes : Closes isHexDigit [] := rfl
  rw [EntryTable.lookup, entryTable_eq]
  dsimp only
  cases found : bound bindings address with
  | none =>
      rw [if_neg]
      · rfl
      · rw [hit_iff closes ascending, found]
        rintro ⟨b, -, is⟩
        exact Option.some_ne_none b is.symm
  | some b =>
      have row := bound_row closes ascending found
      have member : b.ownerSymbol ∈ bindings.map CompiledEntryBinding.ownerSymbol :=
        List.mem_map_of_mem (ascending.bound_iff.mp found).1
      have named := Interned.names_id member
      have inside := (List.getElem?_eq_some_iff.mp named).1
      have few : (Interned.empty.all (bindings.map CompiledEntryBinding.ownerSymbol)).names.length ≤ 2 ^ 32 := by
        have most := Interned.length_names_le (bindings.map CompiledEntryBinding.ownerSymbol)
        rw [List.length_map] at most
        exact most.trans ascending.length_le
      rw [if_pos ((hit_iff closes ascending).mpr ⟨b, row, found⟩), CArray.get, List.getElem?_map, row]
      change (some (readInteger (toDecimal _) % _)).bind _ = _
      rw [readInteger_toDecimal, id_lt_width inside few, Option.bind_some, named]
      rfl

theorem entryTable_initialized (filled : bindings ≠ []) : (entryTable bindings).Initialized := by
  rw [entryTable_eq]
  refine ⟨?_, ?_, ?_⟩
  · exact mt List.map_eq_nil_iff.mp filled
  · exact mt List.map_eq_nil_iff.mp filled
  · intro bare
    dsimp only at bare
    obtain ⟨b, member⟩ := List.exists_mem_of_ne_nil bindings filled
    have named := Interned.names_id (List.mem_map_of_mem (f := CompiledEntryBinding.ownerSymbol) member)
    rw [bare] at named
    exact Option.some_ne_none _ named.symm

/-! ## Chunks -/

theorem get_chunkOf {size k : ℕ} (lt : j < size) : (chunkOf bindings size k)[j]? = bindings[k * size + j]? := by
  rw [chunkOf, List.getElem?_take_of_lt lt, List.getElem?_drop]

theorem mem_chunkOf {size k : ℕ} (bi : bindings[i]? = some b) (is : i / size = k) (positive : 0 < size) :
    b ∈ chunkOf bindings size k := by
  have lt := Nat.mod_lt i positive
  have split : k * size + i % size = i := by rw [← is, Nat.div_add_mod' i size]
  apply List.mem_of_getElem? (i := i % size)
  rw [get_chunkOf lt, split, bi]

theorem Ascending.chunkOf (ascending : Ascending bindings) (size k : ℕ) : Ascending (chunkOf bindings size k) :=
  ascending.sublist ((List.take_sublist _ _).trans (List.drop_sublist _ _))

/-- Chunk `k` exists exactly when its first row does. -/
theorem lt_chunkCount_iff {size k : ℕ} (positive : 0 < size) :
    k < compiledEntryChunkCount bindings.length size ↔ k * size < bindings.length := by
  rw [compiledEntryChunkCount, if_neg (by omega), Nat.lt_iff_add_one_le, Nat.le_div_iff_mul_le positive, Nat.succ_mul]
  omega

theorem firstAddress_chunkOf {size k : ℕ} (positive : 0 < size) (first : bindings[k * size]? = some b) :
    firstAddress (chunkOf bindings size k) = b.address := by
  have head : (chunkOf bindings size k)[0]? = some b := by rw [get_chunkOf positive, Nat.add_zero, first]
  cases rows : chunkOf bindings size k with
  | nil =>
      rw [rows] at head
      exact absurd head.symm (Option.some_ne_none b)
  | cons c rest =>
      rw [rows] at head
      rw [firstAddress, ← Option.some.inj head]

/-- The chunks of a list. -/
def chunksOf (bindings : List CompiledEntryBinding) (size : ℕ) : List (List CompiledEntryBinding) :=
  (List.range (compiledEntryChunkCount bindings.length size)).map (chunkOf bindings size)

/-- The directory of their first addresses. -/
def directory (bindings : List CompiledEntryBinding) (size : ℕ) : CArray :=
  ⟨32, (chunksOf bindings size).map fun chunk => hex8 (firstAddress chunk)⟩

theorem count_directory (size : ℕ) :
    (directory bindings size).count = compiledEntryChunkCount bindings.length size := by
  rw [CArray.count, directory, chunksOf, List.length_map, List.length_map, List.length_range]

theorem value_directory {size k : ℕ} (positive : 0 < size) (first : bindings[k * size]? = some b) :
    (directory bindings size).value k = b.address.toNat := by
  have inside : k < compiledEntryChunkCount bindings.length size :=
    (lt_chunkCount_iff positive).mpr (List.getElem?_eq_some_iff.mp first).1
  apply value_of_get
  rw [CArray.get, directory, chunksOf, List.map_map, List.getElem?_map, List.getElem?_range inside]
  change some (readInteger (hex8 (firstAddress (chunkOf bindings size k))) % 2 ^ 32) = _
  have read := @readInteger_hex8 (firstAddress (chunkOf bindings size k)) [] rfl
  rw [List.append_nil] at read
  rw [read, Nat.mod_eq_of_lt (BitVec.isLt _), firstAddress_chunkOf positive first]

theorem firstRow {size k : ℕ} (positive : 0 < size) (inside : k < compiledEntryChunkCount bindings.length size) :
    ∃ b, bindings[k * size]? = some b :=
  ⟨_, List.getElem?_eq_getElem ((lt_chunkCount_iff positive).mp inside)⟩

theorem sorted_directory {size : ℕ} (positive : 0 < size) (ascending : Ascending bindings) :
    Sorted (directory bindings size).value (compiledEntryChunkCount bindings.length size) := by
  intro i j lt inside
  obtain ⟨b, bi⟩ := firstRow positive (lt.trans inside)
  obtain ⟨c, cj⟩ := firstRow positive inside
  rw [value_directory positive bi, value_directory positive cj]
  exact ascending.lt bi cj (Nat.mul_lt_mul_of_pos_right lt positive)

/-- A bound address is at or above the first address of a chunk exactly when its row is. -/
theorem first_le_iff {size k : ℕ} (positive : 0 < size) (ascending : Ascending bindings)
    (inside : k < compiledEntryChunkCount bindings.length size) (bi : bindings[i]? = some b) :
    (directory bindings size).value k ≤ b.address.toNat ↔ k ≤ i / size := by
  obtain ⟨c, first⟩ := firstRow positive inside
  rw [value_directory positive first, Nat.le_div_iff_mul_le positive]
  constructor
  · intro le
    by_contra later
    have lt := ascending.lt bi first (by omega)
    omega
  · intro le
    rcases Nat.eq_or_lt_of_le le with same | lt
    · rw [same, bi] at first
      rw [Option.some.inj first]
    · exact (ascending.lt first bi lt).le

/-- The upper-bound search over the directory ends just past the chunk of a bound address. -/
theorem directory_search {size : ℕ} (positive : 0 < size) (ascending : Ascending bindings)
    (bi : bindings[i]? = some b) :
    bisect (fun middle => decide ((directory bindings size).value middle ≤ b.address.toNat)) 0
        (directory bindings size).count = i / size + 1 := by
  have sorted := sorted_directory positive ascending
  rw [count_directory]
  have own : i / size < compiledEntryChunkCount bindings.length size := by
    rw [lt_chunkCount_iff positive]
    exact Nat.lt_of_le_of_lt (Nat.div_mul_le_self i size) (List.getElem?_eq_some_iff.mp bi).1
  have past := (sorted.lt_upperBound_iff own).mpr ((first_le_iff positive ascending own bi).mpr le_rfl)
  by_contra other
  have next : i / size + 1 < bisect (fun middle => decide ((directory bindings size).value middle ≤ b.address.toNat)) 0
      (compiledEntryChunkCount bindings.length size) := by omega
  have inside := Nat.lt_of_lt_of_le next (bisect_le _ _)
  have le := (first_le_iff positive ascending inside bi).mp ((sorted.lt_upperBound_iff inside).mp next)
  omega

theorem chunked_lookup {size : ℕ} (positive : 0 < size) (ascending : Ascending bindings) (address : BitVec 32) :
    (EntryCode.chunked (directory bindings size) ((chunksOf bindings size).map entryTable)).lookup address =
      some ((bound bindings address).map CompiledEntryBinding.ownerSymbol) := by
  rw [EntryCode.lookup]
  generalize is : bisect (fun middle => decide ((directory bindings size).value middle ≤ address.toNat)) 0
    (directory bindings size).count = low
  have low_le : low ≤ compiledEntryChunkCount bindings.length size := by
    rw [← is, ← count_directory]
    exact bisect_le _ _
  split_ifs with zero
  · -- below the first address of all
    cases found : bound bindings address with
    | none => rfl
    | some b =>
        obtain ⟨member, rfl⟩ := ascending.bound_iff.mp found
        obtain ⟨i, bi⟩ := List.mem_iff_getElem?.mp member
        rw [directory_search positive ascending bi] at is
        exact absurd (is.trans zero) (Nat.succ_ne_zero _)
  · have inside : low - 1 < compiledEntryChunkCount bindings.length size := by omega
    have chunk : ((chunksOf bindings size).map entryTable)[low - 1]? =
        some (entryTable (chunkOf bindings size (low - 1))) := by
      rw [chunksOf, List.map_map, List.getElem?_map, List.getElem?_range inside]
      rfl
    have part : ∀ b, bound (chunkOf bindings size (low - 1)) address = some b ↔ bound bindings address = some b := by
      intro b
      rw [(ascending.chunkOf size (low - 1)).bound_iff, ascending.bound_iff]
      constructor
      · rintro ⟨member, same⟩
        exact ⟨List.mem_of_mem_drop (List.mem_of_mem_take member), same⟩
      · rintro ⟨member, rfl⟩
        obtain ⟨i, bi⟩ := List.mem_iff_getElem?.mp member
        rw [directory_search positive ascending bi] at is
        exact ⟨mem_chunkOf bi (Nat.eq_sub_of_add_eq is) positive, rfl⟩
    rw [chunk, Option.bind_eq_bind, Option.bind_some, entryTable_lookup (ascending.chunkOf size (low - 1)) address,
      Option.ext part]

end Segarecomp.Codegen

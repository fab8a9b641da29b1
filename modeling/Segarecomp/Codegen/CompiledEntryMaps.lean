import Segarecomp.Codegen.CompiledEntryDirect

/-! The three compiled-entry tables are one partial map. -/

namespace Segarecomp.Codegen

open Bisect IntegerText Interning

variable {bindings : List CompiledEntryBinding}

theorem emitCompiledEntryTable_spec (ascending : Ascending bindings) :
    ∃ code, emitCompiledEntryTable bindings = .ok code ∧ code.Initialized ∧
      ∀ address, code.lookup address = some ((bound bindings address).map CompiledEntryBinding.ownerSymbol) := by
  rw [emitCompiledEntryTable, if_pos ascending]
  by_cases bare : bindings = []
  · subst bare
    exact ⟨.empty, rfl, trivial, fun address => rfl⟩
  · refine ⟨.flat (entryTable bindings), if_neg bare, entryTable_initialized bare, ?_⟩
    exact entryTable_lookup ascending

theorem chunks_initialized {size : ℕ} (positive : 0 < size) (filled : bindings ≠ []) :
    (EntryCode.chunked (directory bindings size) ((chunksOf bindings size).map entryTable)).Initialized := by
  have first : 0 < compiledEntryChunkCount bindings.length size := by
    rw [lt_chunkCount_iff positive, Nat.zero_mul]
    exact List.length_pos_iff.mpr filled
  have some : chunksOf bindings size ≠ [] := by
    apply List.ne_nil_of_length_pos
    rwa [chunksOf, List.length_map, List.length_range]
  refine ⟨mt List.map_eq_nil_iff.mp some, mt List.map_eq_nil_iff.mp some, ?_⟩
  intro table is
  obtain ⟨chunk, member, rfl⟩ := List.mem_map.mp is
  obtain ⟨k, inside, rfl⟩ := List.mem_map.mp member
  obtain ⟨b, row⟩ := firstRow positive (List.mem_range.mp inside)
  apply entryTable_initialized
  apply List.ne_nil_of_mem (a := b)
  apply List.mem_of_getElem? (i := 0)
  rw [get_chunkOf positive, Nat.add_zero, row]

theorem emitCompiledEntryTableChunked_spec (sharded : Bool) (size : ℕ) (ascending : Ascending bindings) :
    ∃ code, emitCompiledEntryTableChunked sharded size bindings = .ok code ∧ code.Initialized ∧
      ∀ address, code.lookup address = some ((bound bindings address).map CompiledEntryBinding.ownerSymbol) := by
  rw [emitCompiledEntryTableChunked]
  split_ifs with chunked
  · obtain ⟨some, more, -⟩ := chunked
    have positive : 0 < size := Nat.pos_of_ne_zero some
    have filled : bindings ≠ [] := List.ne_nil_of_length_pos (by omega)
    exact ⟨_, rfl, chunks_initialized positive filled, chunked_lookup positive ascending⟩
  · exact emitCompiledEntryTable_spec ascending

theorem emitCompiledEntryTableDirect_spec (ascending : Ascending bindings) (formed : ∀ b ∈ bindings, b.WellFormed)
    {b : CompiledEntryBinding} (member : b ∈ bindings) (direct : b.directHelper ≠ "") :
    emitCompiledEntryTableDirect bindings = .ok (tableOf bindings) ∧ (tableOf bindings).Initialized := by
  have filled : bindings ≠ [] := List.ne_nil_of_mem member
  constructor
  · rw [emitCompiledEntryTableDirect, if_neg filled, if_pos ascending, addAll_eq formed]
    rfl
  · refine ⟨mt List.map_eq_nil_iff.mp filled, mt List.map_eq_nil_iff.mp filled, ?_, ?_,
      mt List.map_eq_nil_iff.mp filled⟩
    · rw [tableOf, directTable]
      dsimp only
      split_ifs with bare
      · exact List.cons_ne_nil _ _
      · rw [List.nil_append]
        exact mt List.map_eq_nil_iff.mp bare
    · intro bare
      have named := (helper_named member direct).2
      have none : (namesOf bindings).helpers.names = [] := bare
      rw [none] at named
      exact Option.some_ne_none _ named.symm

theorem rejected_of_not_ascending (sharded : Bool) (size : ℕ) (out : ¬ Ascending bindings) :
    emitCompiledEntryTable bindings = .error notAscending ∧
      emitCompiledEntryTableChunked sharded size bindings = .error notAscending ∧
      emitCompiledEntryTableDirect bindings = .error notAscending := by
  have flat : emitCompiledEntryTable bindings = .error notAscending := if_neg out
  have filled : bindings ≠ [] := by
    rintro rfl
    exact out List.IsChain.nil
  refine ⟨flat, ?_, ?_⟩
  · rw [emitCompiledEntryTableChunked, flat, if_neg out, ite_self]
  · rw [emitCompiledEntryTableDirect, if_neg filled, if_neg out]

theorem rejected_of_malformed {b : CompiledEntryBinding} (member : b ∈ bindings) (malformed : ¬ b.WellFormed) :
    ∃ text, emitCompiledEntryTableDirect bindings = .error text := by
  rw [emitCompiledEntryTableDirect, if_neg (List.ne_nil_of_mem member)]
  split_ifs
  · cases read : DirectNames.addAll ⟨Interned.empty, Interned.empty⟩ bindings with
    | error text => exact ⟨text, rfl⟩
    | ok names => exact absurd (wellFormed_of_addAll read b member) malformed
  · exact ⟨_, rfl⟩

/-- A list of bindings that does not ascend is rejected by every emitter. For one that does, the flat and
the chunked lookup return the owner of the binding of an address, and so does the direct lookup, which
takes lists with a direct entry: such an entry is looked up as the stub, and its row calls its helper
with the fields its provenance word was packed from. -/
theorem compiled_entry_tables (bindings : List CompiledEntryBinding) (sharded : Bool) (size : ℕ) :
    (¬ Ascending bindings →
      emitCompiledEntryTable bindings = .error notAscending ∧
        emitCompiledEntryTableChunked sharded size bindings = .error notAscending ∧
        emitCompiledEntryTableDirect bindings = .error notAscending) ∧
    (Ascending bindings → ∃ flat chunked,
      emitCompiledEntryTable bindings = .ok flat ∧ flat.Initialized ∧
        emitCompiledEntryTableChunked sharded size bindings = .ok chunked ∧ chunked.Initialized ∧
        ∀ address,
          flat.lookup address = some ((bound bindings address).map CompiledEntryBinding.ownerSymbol) ∧
            chunked.lookup address = flat.lookup address) ∧
    ((∃ b ∈ bindings, ¬ b.WellFormed) → ∃ text, emitCompiledEntryTableDirect bindings = .error text) ∧
    (Ascending bindings → (∀ b ∈ bindings, b.WellFormed) → (∃ b ∈ bindings, b.directHelper ≠ "") →
      IdsFit bindings → ∃ direct, emitCompiledEntryTableDirect bindings = .ok direct ∧ direct.Initialized ∧
        ∀ address,
          direct.lookup address = some ((bound bindings address).map entryOf) ∧
            (bound bindings address = none → direct.find address = none) ∧
            ∀ b, bound bindings address = some b → ∃ row, direct.find address = some row ∧
              (b.directHelper = "" → direct.invoke address row = some (.owner (some b.ownerSymbol))) ∧
              ∀ p, b.directHelper ≠ "" → provenanceRow address p = .ok b.directProvenance →
                direct.invoke address row = some (.helper b.directHelper p.source)) := by
  refine ⟨rejected_of_not_ascending sharded size, ?_, ?_, ?_⟩
  · intro ascending
    obtain ⟨flat, is_flat, flat_filled, flat_lookup⟩ := emitCompiledEntryTable_spec ascending
    obtain ⟨chunked, is_chunked, chunked_filled, chunked_lookup⟩ :=
      emitCompiledEntryTableChunked_spec sharded size ascending
    refine ⟨flat, chunked, is_flat, flat_filled, is_chunked, chunked_filled, fun address => ⟨flat_lookup address, ?_⟩⟩
    rw [chunked_lookup, flat_lookup]
  · rintro ⟨b, member, malformed⟩
    exact rejected_of_malformed member malformed
  · rintro ascending formed ⟨b, member, direct⟩ fits
    obtain ⟨is_direct, filled⟩ := emitCompiledEntryTableDirect_spec ascending formed member direct
    refine ⟨tableOf bindings, is_direct, filled, fun address =>
      ⟨direct_lookup ascending fits address, find_of_unbound ascending, ?_⟩⟩
    intro c found
    obtain ⟨row, is_row, row_c⟩ := find_of_bound ascending found
    refine ⟨row, is_row, fun plain => invoke_owner fits row_c plain address, ?_⟩
    intro p helper packed
    obtain ⟨-, rfl⟩ := ascending.bound_iff.mp found
    exact invoke_helper fits row_c helper packed

/-! ## Where the direct form is no table -/

/-- A helper of its own for each of the addresses below `n`. -/
def helperAt (i : ℕ) : CompiledEntryBinding :=
  ⟨BitVec.ofNat 32 i, "", String.ofList ('h' :: toDecimal i), "0ULL".toList⟩

def everyHelper (n : ℕ) : List CompiledEntryBinding := (List.range n).map helperAt

theorem helperName_ne (i : ℕ) : (helperAt i).directHelper ≠ "" := by
  intro bare
  have letters := congrArg String.toList bare
  rw [helperAt, String.toList_ofList] at letters
  exact List.cons_ne_nil _ _ letters

theorem helperName_injective {i j : ℕ} (same : (helperAt i).directHelper = (helperAt j).directHelper) : i = j := by
  have letters := congrArg String.toList same
  rw [helperAt, helperAt, String.toList_ofList, String.toList_ofList] at letters
  have read := congrArg readInteger (List.cons.inj letters).2
  rwa [readInteger_toDecimal, readInteger_toDecimal] at read

section

variable {n : ℕ}

theorem get_everyHelper {i : ℕ} (lt : i < n) : (everyHelper n)[i]? = some (helperAt i) := by
  rw [everyHelper, List.getElem?_map, List.getElem?_range lt, Option.map_some]

theorem ascending_everyHelper (le : n ≤ 2 ^ 32) : Ascending (everyHelper n) := by
  have pairs : (everyHelper n).Pairwise fun a b => a.address < b.address := by
    rw [everyHelper, List.pairwise_map]
    refine List.Pairwise.imp_of_mem ?_ List.pairwise_lt_range
    intro i j inside_i inside_j lt
    have small := List.mem_range.mp inside_j
    rw [BitVec.lt_def, helperAt, helperAt, BitVec.toNat_ofNat, BitVec.toNat_ofNat, Nat.mod_eq_of_lt (by omega),
      Nat.mod_eq_of_lt (by omega)]
    exact lt
  exact List.isChain_iff_pairwise.mpr pairs

theorem formed_everyHelper : ∀ b ∈ everyHelper n, b.WellFormed := by
  intro b is
  obtain ⟨i, -, rfl⟩ := List.mem_map.mp is
  exact .inr ⟨helperName_ne i, rfl, List.cons_ne_nil _ _⟩

theorem owners_everyHelper : (namesOf (everyHelper n)).owners.names = [] := by
  have none : ownersOf (everyHelper n) = [] := by
    rw [ownersOf, List.map_eq_nil_iff, List.filter_eq_nil_iff]
    intro b is
    obtain ⟨i, -, rfl⟩ := List.mem_map.mp is
    simpa using helperName_ne i
  rw [namesOf, none]
  rfl

theorem helpersOf_everyHelper :
    helpersOf (everyHelper n) = (List.range n).map fun i => (helperAt i).directHelper := by
  have all : (everyHelper n).filter (fun b => b.directHelper ≠ "") = everyHelper n := by
    apply List.filter_eq_self.mpr
    intro b is
    obtain ⟨i, -, rfl⟩ := List.mem_map.mp is
    exact decide_eq_true (helperName_ne i)
  rw [helpersOf, all, everyHelper, List.map_map]
  rfl

theorem different_everyHelper : (helpersOf (everyHelper n)).Nodup := by
  rw [helpersOf_everyHelper]
  exact List.nodup_range.map fun i j same => helperName_injective same

theorem idOf_everyHelper {i : ℕ} (lt : i < n) : idOf (everyHelper n) (helperAt i) = 1 + i := by
  have row : (helpersOf (everyHelper n))[i]? = some (helperAt i).directHelper := by
    rw [helpersOf_everyHelper, List.getElem?_map, List.getElem?_range lt, Option.map_some]
  rw [idOf, if_neg (helperName_ne i), ownerCount, if_pos owners_everyHelper]
  exact congrArg (1 + ·) (Interned.id_of_nodup different_everyHelper row)

theorem names_everyHelper : (namesOf (everyHelper n)).helpers.names.length = n := by
  have names : (namesOf (everyHelper n)).helpers.names = helpersOf (everyHelper n) :=
    Interned.names_all_of_nodup different_everyHelper fun _ _ => rfl
  rw [names, helpersOf_everyHelper, List.length_map, List.length_range]

end

/-- With a helper of its own for every address the last id is 2^32, which the id array holds as that of
the placeholder. -/
theorem lookup_everyHelper {n : ℕ} (all : n = 2 ^ 32) :
    (tableOf (everyHelper n)).lookup (BitVec.ofNat 32 (n - 1)) = some none := by
  have lt : n - 1 < n := by omega
  have ascending := ascending_everyHelper all.le
  have member : helperAt (n - 1) ∈ everyHelper n := List.mem_of_getElem? (get_everyHelper lt)
  have found : bound (everyHelper n) (BitVec.ofNat 32 (n - 1)) = some (helperAt (n - 1)) :=
    ascending.bound_iff.mpr ⟨member, rfl⟩
  obtain ⟨row, is_row, row_last⟩ := find_of_bound ascending found
  have count : ownerCount (everyHelper n) = 1 := by rw [ownerCount, if_pos owners_everyHelper]
  have id : (tableOf (everyHelper n)).ownerIds.get row = some 0 := by
    rw [get_id_mod row_last, idOf_everyHelper lt, count, names_everyHelper, all]
    rfl
  have slot : (tableOf (everyHelper n)).owners[0]? = some none := by
    rw [tableOf, directTable]
    dsimp only
    rw [if_pos owners_everyHelper]
    rfl
  rw [DirectTable.lookup, is_row]
  dsimp only
  rw [id, Option.bind_eq_bind, Option.bind_some, readInteger_ownerBound, count, if_pos (by decide), slot]

/-- The direct form takes no empty list, has an empty helper array for one without a direct entry, and
misses the last of 2^32 helpers. -/
theorem direct_entry_limits :
    (Ascending [] ∧ emitCompiledEntryTableDirect [] =
      .error "/* translation rejected: direct entry table requires entries */\n") ∧
    (Ascending [⟨4, "owner", "", []⟩] ∧ ∃ direct,
      emitCompiledEntryTableDirect [⟨4, "owner", "", []⟩] = .ok direct ∧ direct.helpers = []) ∧
    ∃ bindings address direct, Ascending bindings ∧ emitCompiledEntryTableDirect bindings = .ok direct ∧
      bound bindings address ≠ none ∧ direct.lookup address = some none := by
  refine ⟨⟨by decide, rfl⟩, ⟨by decide, _, rfl, rfl⟩, ?_⟩
  obtain ⟨n, all⟩ : ∃ n, n = 2 ^ 32 := ⟨_, rfl⟩
  have ascending := ascending_everyHelper all.le
  have lt : n - 1 < n := by omega
  have member : helperAt (n - 1) ∈ everyHelper n := List.mem_of_getElem? (get_everyHelper lt)
  refine ⟨everyHelper n, BitVec.ofNat 32 (n - 1), tableOf (everyHelper n), ascending,
    (emitCompiledEntryTableDirect_spec ascending formed_everyHelper member (helperName_ne _)).1, ?_,
    lookup_everyHelper all⟩
  have found : bound (everyHelper n) (BitVec.ofNat 32 (n - 1)) = some (helperAt (n - 1)) :=
    ascending.bound_iff.mpr ⟨member, rfl⟩
  rw [found]
  exact Option.some_ne_none _

end Segarecomp.Codegen

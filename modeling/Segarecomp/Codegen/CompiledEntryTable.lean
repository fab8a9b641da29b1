import Segarecomp.Lib.Bisect
import Segarecomp.Lib.IntegerText
import Segarecomp.Lib.Interning

/-! The compiled-entry tables: what the emitters write for a list of bindings, in one table or in
chunks with a directory, and what the emitted lookups return. -/

namespace Segarecomp.Codegen

open Bisect IntegerText Interning

structure CompiledEntryBinding where
  address : BitVec 32
  ownerSymbol : String
  directHelper : String := ""
  directProvenance : Text := []

def compiledEntryOwnerIdBits (count : ℕ) : ℕ :=
  if count ≤ 0x100 then 8 else if count ≤ 0x10000 then 16 else 32

/-- No binding has an address at or above that of the next. -/
def Ascending (bindings : List CompiledEntryBinding) : Prop := bindings.IsChain fun a b => a.address < b.address

instance (bindings : List CompiledEntryBinding) : Decidable (Ascending bindings) :=
  inferInstanceAs (Decidable (List.IsChain _ _))

def notAscending : String := "/* translation rejected: compiled entry addresses are not strictly ascending */\n"

def hex8 (value : BitVec 32) : Text := '0' :: 'x' :: hexText 8 value.toNat

def toDecimal (value : ℕ) : Text := Nat.toDigits 10 value

/-! ## The emitted C -/

/-- An array of unsigned integers by the constants of its initializer; the `UINTn_C` around a constant
is left out. -/
structure CArray where
  bits : ℕ
  rows : List Text

namespace CArray

def count (a : CArray) : ℕ := a.rows.length

/-- The element at an index; `none` past the end. -/
def get (a : CArray) (i : ℕ) : Option ℕ := a.rows[i]?.map fun row => readInteger row % 2 ^ a.bits

def value (a : CArray) (i : ℕ) : ℕ := (a.get i).getD 0

end CArray

/-- The address, owner-id and owner arrays of one table. -/
structure EntryTable where
  addresses : CArray
  ownerIds : CArray
  owners : List String

/-- An owner or `NULL`; `none` when the C reads past an array. -/
abbrev Lookup := Option (Option String)

/-- The first row whose address is not below `address`. -/
def lowerBound (addresses : CArray) (address : BitVec 32) : ℕ :=
  bisect (fun middle => decide (addresses.value middle < address.toNat)) 0 addresses.count

def EntryTable.lookup (t : EntryTable) (address : BitVec 32) : Lookup :=
  let low := lowerBound t.addresses address
  if low < t.addresses.count ∧ t.addresses.value low = address.toNat then do
    let id ← t.ownerIds.get low
    let owner ← t.owners[id]?
    pure (some owner)
  else pure none

/-- No array has an empty initializer. -/
def EntryTable.Initialized (t : EntryTable) : Prop :=
  t.addresses.rows ≠ [] ∧ t.ownerIds.rows ≠ [] ∧ t.owners ≠ []

/-- What is emitted for a lookup: a function that returns `NULL`, one table, or chunk tables with the
directory of their first addresses. -/
inductive EntryCode where
  | empty
  | flat (table : EntryTable)
  | chunked (firsts : CArray) (chunks : List EntryTable)

namespace EntryCode

def lookup : EntryCode → BitVec 32 → Lookup
  | empty, _ => some none
  | flat table, address => table.lookup address
  | chunked firsts chunks, address =>
      let low := bisect (fun middle => decide (firsts.value middle ≤ address.toNat)) 0 firsts.count
      if low = 0 then some none
      else do
        let chunk ← chunks[low - 1]?
        chunk.lookup address

def Initialized : EntryCode → Prop
  | empty => True
  | flat table => table.Initialized
  | chunked firsts chunks => firsts.rows ≠ [] ∧ chunks ≠ [] ∧ ∀ chunk ∈ chunks, chunk.Initialized

end EntryCode

/-! ## The emitters -/

/-- The arrays of the bindings of one table: owners are numbered as they first appear. -/
def entryTable (bindings : List CompiledEntryBinding) : EntryTable :=
  let numbered := Interned.empty.numbers (bindings.map CompiledEntryBinding.ownerSymbol)
  { addresses := ⟨32, bindings.map fun binding => hex8 binding.address⟩
    ownerIds := ⟨compiledEntryOwnerIdBits numbered.1.names.length, numbered.2.map toDecimal⟩
    owners := numbered.1.names }

def emitCompiledEntryTable (bindings : List CompiledEntryBinding) : Except String EntryCode :=
  if Ascending bindings then
    if bindings = [] then .ok .empty else .ok (.flat (entryTable bindings))
  else .error notAscending

def compiledEntryChunkCount (entries chunkEntries : ℕ) : ℕ :=
  if chunkEntries = 0 then 1 else (entries + chunkEntries - 1) / chunkEntries

/-- The bindings of a chunk. -/
def chunkOf (bindings : List CompiledEntryBinding) (chunkEntries chunk : ℕ) : List CompiledEntryBinding :=
  (bindings.drop (chunk * chunkEntries)).take chunkEntries

def firstAddress (bindings : List CompiledEntryBinding) : BitVec 32 :=
  match bindings with
  | [] => 0
  | binding :: _ => binding.address

/-- The chunked form; `shardingActive` tells whether the output takes units. -/
def emitCompiledEntryTableChunked (shardingActive : Bool) (chunkEntries : ℕ)
    (bindings : List CompiledEntryBinding) : Except String EntryCode :=
  if chunkEntries ≠ 0 ∧ chunkEntries < bindings.length ∧ shardingActive = true then
    if Ascending bindings then
      let chunks := (List.range (compiledEntryChunkCount bindings.length chunkEntries)).map
        (chunkOf bindings chunkEntries)
      .ok (.chunked ⟨32, chunks.map fun chunk => hex8 (firstAddress chunk)⟩ (chunks.map entryTable))
    else .error notAscending
  else emitCompiledEntryTable bindings

/-! ## The direct form -/

/-- An owner slot, `none` for the `NULL` placeholder; helpers; and a packed word for each address. -/
structure DirectTable where
  addresses : CArray
  ownerIds : CArray
  ownerBound : Text
  owners : List (Option String)
  helpers : List String
  provenance : CArray

/-- The source a helper is called with, short of the constant CPU variant. -/
structure InstructionSource where
  address : BitVec 32
  imageOffset : BitVec 64
  first : BitVec 8
  second : BitVec 8
  length : BitVec 32
deriving DecidableEq

inductive Invoked where
  | owner (symbol : Option String)
  | helper (symbol : String) (source : InstructionSource)
deriving DecidableEq

def stub : String := "genesis_direct_entry_stub"

namespace DirectTable

/-- The row of an address; `none` for `GENESIS_NO_COMPILED_ENTRY`. -/
def find (t : DirectTable) (address : BitVec 32) : Option ℕ :=
  let low := lowerBound t.addresses address
  if low < t.addresses.count ∧ t.addresses.value low = address.toNat then some low else none

def lookup (t : DirectTable) (address : BitVec 32) : Lookup :=
  match t.find address with
  | none => some none
  | some index => do
      let id ← t.ownerIds.get index
      if id < readInteger t.ownerBound then t.owners[id]? else pure (some stub)

/-- What a row calls, for a runtime at `pc`. -/
def invoke (t : DirectTable) (pc : BitVec 32) (index : ℕ) : Option Invoked := do
  let id ← t.ownerIds.get index
  if id < readInteger t.ownerBound then
    let owner ← t.owners[id]?
    pure (.owner owner)
  else
    let word ← t.provenance.get index
    let provenance := BitVec.ofNat 64 word
    let helper ← t.helpers[id - readInteger t.ownerBound]?
    pure (.helper helper {
      address := pc
      imageOffset := provenance >>> 24
      first := (provenance >>> 8).setWidth 8
      second := (provenance >>> 16).setWidth 8
      length := (provenance &&& 0xFF).setWidth 32 })

def Initialized (t : DirectTable) : Prop :=
  t.addresses.rows ≠ [] ∧ t.ownerIds.rows ≠ [] ∧ t.owners ≠ [] ∧ t.helpers ≠ [] ∧ t.provenance.rows ≠ []

end DirectTable

/-- The owner and helper names while the bindings are read. -/
structure DirectNames where
  owners : Interned String
  helpers : Interned String

def DirectNames.add (names : DirectNames) (binding : CompiledEntryBinding) : Except String DirectNames :=
  if (binding.directHelper ≠ "") ≠ (binding.ownerSymbol = "") then
    .error "/* translation rejected: compiled entry must be exactly one of owner or direct helper */\n"
  else if binding.directHelper = "" then .ok { names with owners := names.owners.emplace binding.ownerSymbol }
  else if binding.directProvenance = [] then
    .error "/* translation rejected: direct compiled entry lacks a provenance word */\n"
  else .ok { names with helpers := names.helpers.emplace binding.directHelper }

def DirectNames.addAll (names : DirectNames) : List CompiledEntryBinding → Except String DirectNames
  | [] => .ok names
  | binding :: rest => do (← names.add binding).addAll rest

def directTable (names : DirectNames) (bindings : List CompiledEntryBinding) : DirectTable :=
  let ownerCount := if names.owners.names = [] then 1 else names.owners.names.length
  { addresses := ⟨32, bindings.map fun binding => hex8 binding.address ++ ['u']⟩
    ownerIds := ⟨compiledEntryOwnerIdBits (ownerCount + names.helpers.names.length),
      bindings.map fun binding =>
        toDecimal (if binding.directHelper = "" then names.owners.id binding.ownerSymbol
          else ownerCount + names.helpers.id binding.directHelper)⟩
    ownerBound := toDecimal ownerCount ++ ['U']
    owners := (if names.owners.names = [] then [none] else []) ++ names.owners.names.map some
    helpers := names.helpers.names
    provenance := ⟨64, bindings.map fun binding =>
      if binding.directHelper = "" then "0ULL".toList else binding.directProvenance⟩ }

def emitCompiledEntryTableDirect (bindings : List CompiledEntryBinding) : Except String DirectTable :=
  if bindings = [] then .error "/* translation rejected: direct entry table requires entries */\n"
  else if Ascending bindings then do
    let names ← DirectNames.addAll ⟨Interned.empty, Interned.empty⟩ bindings
    pure (directTable names bindings)
  else .error notAscending

/-! ## Packing -/

/-- The provenance of a generated instruction, as far as a row holds it. -/
structure InstructionProvenance where
  sourceAddress : BitVec 32
  imageOffset : BitVec 64
  bytes : BitVec 8 × BitVec 8
  length : BitVec 32

def hex16 (word : BitVec 64) : Text := '0' :: 'x' :: hexText 16 word.toNat

/-- The row of a direct entry whose helper reads its source. -/
def provenanceRow (address : BitVec 32) (provenance : InstructionProvenance) : Except String Text :=
  if 0xFF < provenance.length.toNat ∨ 2 ^ 40 ≤ provenance.imageOffset.toNat ∨ provenance.sourceAddress ≠ address then
    .error "/* translation rejected: direct entry provenance is not representable */\n"
  else
    let word := (provenance.imageOffset <<< 24) ||| (provenance.bytes.2.setWidth 64 <<< 16) |||
      (provenance.bytes.1.setWidth 64 <<< 8) ||| provenance.length.setWidth 64
    .ok (hex16 word ++ "ULL".toList)

end Segarecomp.Codegen

import Segarecomp.Media.Sha256

/-! The SHA-256 of the generated runtime, which is written apart from the build's, and what the two have in common:
a digest does not depend on how its data was cut. -/

namespace Segarecomp.Genesis.Sha256

open Lib.Absorb Media.Sha256

def genesisK : List Word :=
  [0x428a2f98, 0x71374491, 0xb5c0fbcf, 0xe9b5dba5, 0x3956c25b, 0x59f111f1, 0x923f82a4, 0xab1c5ed5,
    0xd807aa98, 0x12835b01, 0x243185be, 0x550c7dc3, 0x72be5d74, 0x80deb1fe, 0x9bdc06a7, 0xc19bf174,
    0xe49b69c1, 0xefbe4786, 0x0fc19dc6, 0x240ca1cc, 0x2de92c6f, 0x4a7484aa, 0x5cb0a9dc, 0x76f988da,
    0x983e5152, 0xa831c66d, 0xb00327c8, 0xbf597fc7, 0xc6e00bf3, 0xd5a79147, 0x06ca6351, 0x14292967,
    0x27b70a85, 0x2e1b2138, 0x4d2c6dfc, 0x53380d13, 0x650a7354, 0x766a0abb, 0x81c2c92e, 0x92722c85,
    0xa2bfe8a1, 0xa81a664b, 0xc24b8b70, 0xc76c51a3, 0xd192e819, 0xd6990624, 0xf40e3585, 0x106aa070,
    0x19a4c116, 0x1e376c08, 0x2748774c, 0x34b0bcb5, 0x391c0cb3, 0x4ed8aa4a, 0x5b9cca4f, 0x682e6ff3,
    0x748f82ee, 0x78a5636f, 0x84c87814, 0x8cc70208, 0x90befffa, 0xa4506ceb, 0xbef9a3f7, 0xc67178f2]

def genesisRor32 (value : Word) (count : ℕ) : Word := (value >>> count) ||| (value <<< (32 - count))

structure Registers where
  a : Word
  b : Word
  c : Word
  d : Word
  e : Word
  f : Word
  g : Word
  h : Word

def genesisLoad (block : List Byte) (i : ℕ) : Word :=
  ((block.getD (i * 4) 0).setWidth 32 <<< 24) ||| ((block.getD (i * 4 + 1) 0).setWidth 32 <<< 16) |||
    ((block.getD (i * 4 + 2) 0).setWidth 32 <<< 8) ||| (block.getD (i * 4 + 3) 0).setWidth 32

def genesisExtend (w : List Word) (i : ℕ) : List Word :=
  w ++ [w.getD (i - 16) 0 +
    (genesisRor32 (w.getD (i - 15) 0) 7 ^^^ genesisRor32 (w.getD (i - 15) 0) 18 ^^^ (w.getD (i - 15) 0 >>> 3)) +
    w.getD (i - 7) 0 +
    (genesisRor32 (w.getD (i - 2) 0) 17 ^^^ genesisRor32 (w.getD (i - 2) 0) 19 ^^^ (w.getD (i - 2) 0 >>> 10))]

def genesisRound (w : List Word) (r : Registers) (i : ℕ) : Registers :=
  let t1 := r.h + (genesisRor32 r.e 6 ^^^ genesisRor32 r.e 11 ^^^ genesisRor32 r.e 25) +
    ((r.e &&& r.f) ^^^ (~~~r.e &&& r.g)) + genesisK.getD i 0 + w.getD i 0
  let t2 := (genesisRor32 r.a 2 ^^^ genesisRor32 r.a 13 ^^^ genesisRor32 r.a 22) +
    ((r.a &&& r.b) ^^^ (r.a &&& r.c) ^^^ (r.b &&& r.c))
  { h := r.g, g := r.f, f := r.e, e := r.d + t1, d := r.c, c := r.b, b := r.a, a := t1 + t2 }

/-- The variables a to h before the first round. -/
def working (h : State) : Registers where
  a := word h 0
  b := word h 1
  c := word h 2
  d := word h 3
  e := word h 4
  f := word h 5
  g := word h 6
  h := word h 7

def genesisSha256Block (h : State) (block : List Byte) : State :=
  let w := (List.range' 16 48).foldl genesisExtend ((List.range 16).map (genesisLoad block))
  let r := (List.range 64).foldl (genesisRound w) (working h)
  #v[word h 0 + r.a, word h 1 + r.b, word h 2 + r.c, word h 3 + r.d, word h 4 + r.e, word h 5 + r.f, word h 6 + r.g,
    word h 7 + r.h]

theorem empty_room : 0 < 64 := by decide

/-- Between two calls the block is never full. -/
structure GenesisSha256 where
  h : State
  length : BitVec 64
  block : ℕ → Byte
  used : ℕ
  room : used < 64

def initialWords : Array (BitVec 32) :=
  #[0x6a09e667, 0xbb67ae85, 0x3c6ef372, 0xa54ff53a, 0x510e527f, 0x9b05688c, 0x1f83d9ab, 0x5be0cd19]

theorem initialWords_size : initialWords.size = 8 := rfl

def genesisSha256Init : GenesisSha256 where
  h := ⟨initialWords, initialWords_size⟩
  length := 0
  block := fun _ => 0
  used := 0
  room := empty_room

/-- The first `count` bytes of a buffer. -/
def contents (block : ℕ → Byte) (count : ℕ) : List Byte := (List.range count).map block

def memcpy (block : ℕ → Byte) (start : ℕ) (data : List Byte) (take : ℕ) : ℕ → Byte :=
  fun i => if start ≤ i ∧ i < start + take then data.getD (i - start) 0 else block i

/-- One turn of the loop of `genesis_sha256_update`. -/
def GenesisSha256.take (st : GenesisSha256) (data : List Byte) (take : ℕ) (fits : st.used + take ≤ 64) :
    GenesisSha256 :=
  let block := memcpy st.block st.used data take
  if full : st.used + take = 64 then
    { h := genesisSha256Block st.h (contents block 64), length := st.length + BitVec.ofNat 64 take, block := block
      used := 0, room := empty_room }
  else
    { h := st.h, length := st.length + BitVec.ofNat 64 take, block := block
      used := st.used + take, room := Nat.lt_of_le_of_ne fits full }

theorem take_fits (st : GenesisSha256) (count : ℕ) : st.used + min (64 - st.used) count ≤ 64 := by
  have room := st.room
  omega

def updateLoop (st : GenesisSha256) (data : List Byte) (count : ℕ) : GenesisSha256 :=
  if count = 0 then st
  else
    let take := min (64 - st.used) count
    updateLoop (st.take data take (take_fits st count)) (data.drop take) (count - take)
termination_by count
decreasing_by
  have room := st.room
  omega

/-- The count is passed as a 32-bit number. -/
def genesisSha256Update (st : GenesisSha256) (data : List Byte) : GenesisSha256 :=
  updateLoop st data (data.length % 2 ^ 32)

/-- Zeros from `used` up to `limit`. -/
def zeroFill (block : ℕ → Byte) (used limit : ℕ) : ℕ → Byte :=
  (List.range (limit - used)).foldl (fun block i => Function.update block (used + i) 0) block

def writeBits (block : ℕ → Byte) (bits : BitVec 64) : ℕ → Byte :=
  (List.range 8).foldl (fun block i => Function.update block (63 - i) ((bits >>> (i * 8)).setWidth 8)) block

def genesisSha256Final (st : GenesisSha256) : List Byte :=
  let block := Function.update st.block st.used 0x80
  let used := st.used + 1
  let (h, block, used) :=
    if 56 < used then
      let block := zeroFill block used 64
      (genesisSha256Block st.h (contents block 64), block, 0)
    else (st.h, block, used)
  let block := writeBits (zeroFill block used 56) (st.length * 8)
  let h := genesisSha256Block h (contents block 64)
  h.toList.flatMap fun word => [24, 16, 8, 0].map fun shift => (word >>> shift).setWidth 8

/-! ## One compression -/

def Registers.toState (r : Registers) : State := #v[r.a, r.b, r.c, r.d, r.e, r.f, r.g, r.h]

theorem genesisRound_eq (w : List Word) (r : Registers) (i : ℕ) :
    round w r.toState i = (genesisRound w r i).toState := rfl

theorem toState_get (h : State) : (working h).toState = h := by
  apply Vector.ext
  intro i bound
  interval_cases i <;> exact word_of_lt h _ bound

theorem foldl_round (w : List Word) (rounds : List ℕ) (r : Registers) :
    rounds.foldl (round w) r.toState = (rounds.foldl (genesisRound w) r).toState := by
  induction rounds generalizing r with
  | nil => rfl
  | cons i rounds ih =>
      rw [List.foldl_cons, List.foldl_cons, genesisRound_eq]
      exact ih (genesisRound w r i)

theorem zipWith_toState (h : State) (r : Registers) : h.zipWith (· + ·) r.toState =
    #v[word h 0 + r.a, word h 1 + r.b, word h 2 + r.c, word h 3 + r.d, word h 4 + r.e, word h 5 + r.f, word h 6 + r.g,
    word h 7 + r.h] := by
  apply Vector.ext
  intro i bound
  rw [Vector.getElem_zipWith, ← word_of_lt h i bound]
  interval_cases i <;> rfl

theorem genesisLoad_eq : genesisLoad = loadWord := rfl

theorem genesisExtend_eq : genesisExtend = scheduleStep := rfl

theorem genesisSchedule_eq (block : List Byte) :
    (List.range' 16 48).foldl genesisExtend ((List.range 16).map (genesisLoad block)) = schedule block := by
  unfold schedule
  rw [genesisLoad_eq, genesisExtend_eq]

theorem genesisSha256Block_unfold (h : State) (block : List Byte) : genesisSha256Block h block =
    h.zipWith (· + ·) ((List.range 64).foldl
      (genesisRound ((List.range' 16 48).foldl genesisExtend ((List.range 16).map (genesisLoad block))))
      (working h)).toState := by
  rw [zipWith_toState]
  unfold genesisSha256Block
  with_reducible rfl

theorem compress_unfold (h : State) (block : List Byte) :
    compress h block = h.zipWith (· + ·) ((List.range 64).foldl (round (schedule block)) h) := by
  unfold compress
  with_reducible rfl

theorem genesisSha256Block_eq (h : State) (block : List Byte) : genesisSha256Block h block = compress h block := by
  have rounds := foldl_round (schedule block) (List.range 64) (working h)
  rw [toState_get] at rounds
  rw [genesisSha256Block_unfold, genesisSchedule_eq, ← rounds, compress_unfold]

/-! ## The update -/

theorem contents_length (block : ℕ → Byte) (count : ℕ) : (contents block count).length = count := by
  rw [contents, List.length_map, List.length_range]

theorem contents_append {before after : ℕ → Byte} {m : ℕ} {bytes : List Byte} (kept : ∀ i < m, after i = before i)
    (filled : ∀ i < bytes.length, some (after (m + i)) = bytes[i]?) :
    contents after (m + bytes.length) = contents before m ++ bytes := by
  apply List.ext_getElem?
  intro i
  rcases Nat.lt_or_ge i m with early | late
  · rw [List.getElem?_append_left (by rw [contents_length]; exact early)]
    simp only [contents, List.getElem?_map, List.getElem?_range early,
      List.getElem?_range (Nat.lt_of_lt_of_le early (Nat.le_add_right m _)), Option.map_some, kept i early]
  · rw [List.getElem?_append_right (by rw [contents_length]; exact late), contents_length]
    rcases Nat.lt_or_ge i (m + bytes.length) with inside | beyond
    · have value := filled (i - m) (by omega)
      rw [Nat.add_sub_cancel' late] at value
      simp only [contents, List.getElem?_map, List.getElem?_range inside, Option.map_some, value]
    · rw [List.getElem?_eq_none (by rw [contents_length]; exact beyond), List.getElem?_eq_none (by omega)]

theorem contents_memcpy (block : ℕ → Byte) (start : ℕ) {data : List Byte} {take : ℕ} (there : take ≤ data.length) :
    contents (memcpy block start data take) (start + take) = contents block start ++ data.take take := by
  have length : (data.take take).length = take := List.length_take_of_le there
  have kept : ∀ i < start, memcpy block start data take i = block i := by
    intro i below
    rw [memcpy, if_neg (by omega)]
  have filled : ∀ i < (data.take take).length, some (memcpy block start data take (start + i)) = (data.take take)[i]? := by
    intro i below
    rw [length] at below
    rw [memcpy, if_pos (by omega), Nat.add_sub_cancel_left, List.getElem?_take_of_lt below, List.getD_eq_getElem?_getD,
      List.getElem?_eq_getElem (by omega), Option.getD_some]
  have all := contents_append kept filled
  rw [length] at all
  exact all

/-- A state that has absorbed `message`. -/
structure Absorbed (message : List Byte) (st : GenesisSha256) : Prop where
  through : Through compress 64 initial message st.h (contents st.block st.used)
  length : st.length = BitVec.ofNat 64 message.length

theorem Absorbed.take {message data : List Byte} {st : GenesisSha256} (absorbed : Absorbed message st) {take : ℕ}
    (fits : st.used + take ≤ 64) (there : take ≤ data.length) :
    Absorbed (message ++ data.take take) (st.take data take fits) := by
  have through := absorbed.through.append (data.take take)
  rw [← contents_memcpy st.block st.used there] at through
  have length : st.length + BitVec.ofNat 64 take = BitVec.ofNat 64 (message ++ data.take take).length := by
    rw [absorbed.length, List.length_append, List.length_take_of_le there, BitVec.ofNat_add]
  unfold GenesisSha256.take
  by_cases full : st.used + take = 64
  · rw [dif_pos full]
    constructor
    · rw [full, ← List.append_nil (contents _ 64)] at through
      have whole := through.block (contents_length _ 64)
      rw [← genesisSha256Block_eq] at whole
      exact whole
    · exact length
  · rw [dif_neg full]
    exact ⟨through, length⟩

theorem Absorbed.loop {message data : List Byte} {st : GenesisSha256} (absorbed : Absorbed message st) (count : ℕ)
    (there : count ≤ data.length) : Absorbed (message ++ data.take count) (updateLoop st data count) := by
  induction count using Nat.strong_induction_on generalizing message data st with
  | _ count ih =>
      rw [updateLoop]
      by_cases none : count = 0
      · rw [if_pos none, none, List.take_zero, List.append_nil]
        exact absorbed
      · have room := st.room
        have within : min (64 - st.used) count ≤ count := Nat.min_le_right _ _
        have next := absorbed.take (take_fits st count) (within.trans there)
        have rest := ih (count - min (64 - st.used) count) (by omega) next
          (by rw [List.length_drop]; exact Nat.sub_le_sub_right there _)
        have parts : data.take count = data.take (min (64 - st.used) count) ++
            (data.drop (min (64 - st.used) count)).take (count - min (64 - st.used) count) := by
          rw [← List.take_add, Nat.add_sub_cancel' within]
        rw [if_neg none, parts, ← List.append_assoc]
        exact rest

theorem Absorbed.update {message data : List Byte} {st : GenesisSha256} (absorbed : Absorbed message st)
    (narrow : data.length < 2 ^ 32) : Absorbed (message ++ data) (genesisSha256Update st data) := by
  have all := absorbed.loop (data.length % 2 ^ 32) (Nat.mod_le _ _)
  rw [Nat.mod_eq_of_lt narrow, List.take_length] at all
  rw [genesisSha256Update, Nat.mod_eq_of_lt narrow]
  exact all

theorem absorbed_init : Absorbed [] genesisSha256Init := by
  constructor
  · exact .none compress 64 initial []
  · rfl

theorem absorbed_chunks {chunks : List (List Byte)} (narrow : ∀ chunk ∈ chunks, chunk.length < 2 ^ 32) :
    Absorbed chunks.flatten (chunks.foldl genesisSha256Update genesisSha256Init) := by
  have grow : ∀ message st, Absorbed message st →
      Absorbed (message ++ chunks.flatten) (chunks.foldl genesisSha256Update st) := by
    induction chunks with
    | nil =>
        intro message st absorbed
        rw [List.flatten_nil, List.append_nil]
        exact absorbed
    | cons chunk chunks ih =>
        intro message st absorbed
        rw [List.flatten_cons, ← List.append_assoc, List.foldl_cons]
        apply ih
        · exact fun later member => narrow later (List.mem_cons_of_mem _ member)
        · exact absorbed.update (narrow chunk List.mem_cons_self)
  exact grow [] genesisSha256Init absorbed_init

/-! ## The end -/

theorem contents_zeroFill (block : ℕ → Byte) {used limit : ℕ} (le : used ≤ limit) :
    contents (zeroFill block used limit) limit = contents block used ++ List.replicate (limit - used) 0 := by
  have each : ∀ count i, (List.range count).foldl (fun block i => Function.update block (used + i) 0) block i =
      if used ≤ i ∧ i < used + count then 0 else block i := by
    intro count i
    induction count with
    | zero => rw [if_neg (by omega)]; rfl
    | succ count ih =>
        rw [List.range_succ, List.foldl_append, List.foldl_cons, List.foldl_nil]
        by_cases here : i = used + count
        · rw [here, Function.update_self, if_pos (by omega)]
        · rw [Function.update_of_ne here, ih]
          have same : (used ≤ i ∧ i < used + count) ↔ (used ≤ i ∧ i < used + (count + 1)) := by omega
          simp only [same]
  have kept : ∀ i < used, zeroFill block used limit i = block i := by
    intro i below
    rw [zeroFill, each, if_neg (by omega)]
  have filled : ∀ i < (List.replicate (limit - used) (0 : Byte)).length,
      some (zeroFill block used limit (used + i)) = (List.replicate (limit - used) (0 : Byte))[i]? := by
    intro i below
    rw [List.length_replicate] at below
    rw [zeroFill, each, if_pos (by omega), List.getElem?_replicate, if_pos below]
  have all := contents_append kept filled
  rw [List.length_replicate, Nat.add_sub_cancel' le] at all
  exact all

theorem contents_writeBits (block : ℕ → Byte) (bits : BitVec 64) :
    contents (writeBits block bits) 64 = contents block 56 ++ bitBytes bits := by
  have kept : ∀ i < 56, writeBits block bits i = block i := by
    intro i below
    simp only [writeBits, List.range_succ, List.range_zero, List.nil_append, List.foldl_append, List.foldl_cons,
      List.foldl_nil]
    repeat rw [Function.update_of_ne (by omega)]
  have filled : ∀ i < (bitBytes bits).length, some (writeBits block bits (56 + i)) = (bitBytes bits)[i]? := by
    intro i below
    have few : i < 8 := below
    interval_cases i <;> rfl
  exact contents_append kept filled

theorem contents_push (block : ℕ → Byte) (used : ℕ) (byte : Byte) :
    contents (Function.update block used byte) (used + 1) = contents block used ++ [byte] := by
  have kept : ∀ i < used, Function.update block used byte i = block i := by
    intro i below
    exact Function.update_of_ne (Nat.ne_of_lt below) _ _
  have filled : ∀ i < [byte].length, some (Function.update block used byte (used + i)) = [byte][i]? := by
    intro i below
    have zero : i = 0 := Nat.lt_one_iff.mp below
    rw [zero, Nat.add_zero, Function.update_self]
    rfl
  exact contents_append kept filled

/-- The big-endian bytes of the words. -/
def digestBytes (h : State) : List Byte :=
  h.toList.flatMap fun word => [24, 16, 8, 0].map fun shift => (word >>> shift).setWidth 8

theorem tailBlocks_last (state : State) {block : List Byte} (full : block.length = 64) :
    tailBlocks state block = compress state block := by
  have one : tailBlocks state (block ++ []) = tailBlocks (compress state block) [] := tailBlocks_cons state full
  rw [List.append_nil, tailBlocks_nil] at one
  exact one

theorem bitBytes_length (bits : BitVec 64) : (bitBytes bits).length = 8 := rfl

theorem contents_zero (block : ℕ → Byte) : contents block 0 = [] := rfl

section Final

variable {pending : List Byte} (bits : BitVec 64)

theorem padded_short (short : pending.length ≤ 55) :
    padded pending bits = pending ++ [0x80] ++ List.replicate (55 - pending.length) 0 ++ bitBytes bits := by
  have zeros : padZeros (pending ++ [0x80]) 64 = pending ++ [0x80] ++ List.replicate (55 - pending.length) 0 := by
    apply padZeros_eq
    · omega
    · intro j below
      rw [List.length_append, List.length_singleton]
      omega
    · rw [List.length_append, List.length_singleton]
      omega
  rw [padded, zeros]

theorem padded_long (long : 55 < pending.length) (within : pending.length < 64) :
    padded pending bits = pending ++ [0x80] ++ List.replicate (63 - pending.length) 0 ++
      (List.replicate 56 0 ++ bitBytes bits) := by
  have zeros : padZeros (pending ++ [0x80]) 64 = pending ++ [0x80] ++ List.replicate (119 - pending.length) 0 := by
    apply padZeros_eq
    · omega
    · intro j below
      rw [List.length_append, List.length_singleton]
      omega
    · rw [List.length_append, List.length_singleton]
      omega
  have parts : List.replicate (119 - pending.length) (0 : Byte) =
      List.replicate (63 - pending.length) 0 ++ List.replicate 56 0 := by
    rw [List.replicate_append_replicate]
    congr 1
    omega
  rw [padded, zeros, parts]
  simp only [List.append_assoc]

end Final

/-- The runtime pads a message as the build does. -/
theorem genesisSha256Final_eq (st : GenesisSha256) :
    genesisSha256Final st =
      digestBytes (tailBlocks st.h (padded (contents st.block st.used) (st.length * 8))) := by
  have room := st.room
  have length := contents_length st.block st.used
  have pushed := contents_push st.block st.used 0x80
  unfold genesisSha256Final
  by_cases spill : 56 < st.used + 1
  · have first := contents_zeroFill (Function.update st.block st.used 0x80) (show st.used + 1 ≤ 64 by omega)
    have rest : 64 - (st.used + 1) = 63 - st.used := by omega
    rw [pushed, rest] at first
    rw [padded_long _ (by omega) (by omega), length, tailBlocks_cons, tailBlocks_last]
    · simp only [if_pos spill, contents_writeBits, first, contents_zeroFill _ (Nat.zero_le 56), contents_zero,
        List.nil_append, genesisSha256Block_eq]
      rfl
    · rw [List.length_append, List.length_replicate, bitBytes_length]
    · simp only [List.length_append, List.length_replicate, List.length_singleton, length]
      omega
  · have first := contents_zeroFill (Function.update st.block st.used 0x80) (Nat.le_of_not_lt spill)
    have rest : 56 - (st.used + 1) = 55 - st.used := by omega
    rw [pushed, rest] at first
    rw [padded_short _ (by omega), length, tailBlocks_last]
    · simp only [if_neg spill, contents_writeBits, first, genesisSha256Block_eq]
      rfl
    · simp only [List.length_append, List.length_replicate, List.length_singleton, length, bitBytes_length]
      omega

/-! ## One digest -/

def byteText (byte : Byte) : List Char := [digit (byte >>> 4).toNat, digit (byte &&& 0xF).toNat]

theorem and_15 {w : ℕ} (v : BitVec w) (wide : 4 ≤ w) : (v &&& 0xF).toNat = v.toNat % 16 := by
  have mask : (0xF : BitVec w).toNat = 2 ^ 4 - 1 := by
    have small : 15 < 2 ^ w := lt_of_lt_of_le (by decide) (Nat.pow_le_pow_right (by decide) wide)
    exact Nat.mod_eq_of_lt small
  rw [BitVec.toNat_and, mask, Nat.and_two_pow_sub_one_eq_mod]

theorem high_nibble (word : Word) (shift : ℕ) :
    (((word >>> shift).setWidth 8 : Byte) >>> 4).toNat = ((word >>> (shift + 4)) &&& 0xF).toNat := by
  rw [and_15 _ (by decide), BitVec.toNat_ushiftRight, BitVec.toNat_setWidth, BitVec.toNat_ushiftRight,
    BitVec.toNat_ushiftRight, Nat.shiftRight_eq_div_pow, Nat.shiftRight_eq_div_pow, Nat.shiftRight_eq_div_pow,
    Nat.pow_add, ← Nat.div_div_eq_div_mul]
  omega

theorem low_nibble (word : Word) (shift : ℕ) :
    (((word >>> shift).setWidth 8 : Byte) &&& 0xF).toNat = ((word >>> shift) &&& 0xF).toNat := by
  rw [and_15 _ (by decide), and_15 _ (by decide), BitVec.toNat_setWidth]
  omega

theorem digestBytes_text (h : State) : (digestBytes h).flatMap byteText = hexText h := by
  rw [digestBytes, hexText, List.flatMap_assoc]
  congr 1
  funext word
  simp only [List.map_cons, List.map_nil, List.flatMap_cons, List.flatMap_nil, byteText, high_nibble, low_nibble,
    List.append_nil, List.cons_append, List.nil_append]

theorem final_text {message : List Byte} {st : GenesisSha256} (absorbed : Absorbed message st) :
    (genesisSha256Final st).flatMap byteText = sha256Hex message := by
  have short : (contents st.block st.used).length < 64 := by
    rw [contents_length]
    exact st.room
  rw [sha256Hex_of_through absorbed.through short, genesisSha256Final_eq, digestBytes_text, absorbed.length]

/-- However the data is cut, the stream and the runtime give the digest of the whole string. -/
theorem sha256_cut (chunks : List (List Byte)) :
    (chunks.foldl Sha256Stream.update {}).finishHex = sha256Hex chunks.flatten ∧
      ((∀ chunk ∈ chunks, chunk.length < 2 ^ 32) →
        (genesisSha256Final (chunks.foldl genesisSha256Update genesisSha256Init)).flatMap byteText =
          sha256Hex chunks.flatten) := by
  constructor
  · exact finishHex_eq chunks
  · exact fun narrow => final_text (absorbed_chunks narrow)

end Segarecomp.Genesis.Sha256

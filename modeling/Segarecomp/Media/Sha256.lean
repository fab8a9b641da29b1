import Segarecomp.Lib.Absorb

/-! SHA-256 as the build uses it, over a whole byte string and over data supplied in pieces. -/

namespace Segarecomp.Media.Sha256

open Lib.Absorb

abbrev Byte := BitVec 8
abbrev Word := BitVec 32
abbrev State := Vector Word 8

def k : List Word :=
  [0x428a2f98, 0x71374491, 0xb5c0fbcf, 0xe9b5dba5, 0x3956c25b, 0x59f111f1, 0x923f82a4, 0xab1c5ed5,
    0xd807aa98, 0x12835b01, 0x243185be, 0x550c7dc3, 0x72be5d74, 0x80deb1fe, 0x9bdc06a7, 0xc19bf174,
    0xe49b69c1, 0xefbe4786, 0x0fc19dc6, 0x240ca1cc, 0x2de92c6f, 0x4a7484aa, 0x5cb0a9dc, 0x76f988da,
    0x983e5152, 0xa831c66d, 0xb00327c8, 0xbf597fc7, 0xc6e00bf3, 0xd5a79147, 0x06ca6351, 0x14292967,
    0x27b70a85, 0x2e1b2138, 0x4d2c6dfc, 0x53380d13, 0x650a7354, 0x766a0abb, 0x81c2c92e, 0x92722c85,
    0xa2bfe8a1, 0xa81a664b, 0xc24b8b70, 0xc76c51a3, 0xd192e819, 0xd6990624, 0xf40e3585, 0x106aa070,
    0x19a4c116, 0x1e376c08, 0x2748774c, 0x34b0bcb5, 0x391c0cb3, 0x4ed8aa4a, 0x5b9cca4f, 0x682e6ff3,
    0x748f82ee, 0x78a5636f, 0x84c87814, 0x8cc70208, 0x90befffa, 0xa4506ceb, 0xbef9a3f7, 0xc67178f2]

def rotr (value : Word) (amount : ℕ) : Word := (value >>> amount) ||| (value <<< (32 - amount))

/-- Word `i` of a block, the highest byte first. -/
def loadWord (block : List Byte) (i : ℕ) : Word :=
  ((block.getD (i * 4) 0).setWidth 32 <<< 24) ||| ((block.getD (i * 4 + 1) 0).setWidth 32 <<< 16) |||
    ((block.getD (i * 4 + 2) 0).setWidth 32 <<< 8) ||| (block.getD (i * 4 + 3) 0).setWidth 32

def scheduleStep (w : List Word) (i : ℕ) : List Word :=
  let s0 := rotr (w.getD (i - 15) 0) 7 ^^^ rotr (w.getD (i - 15) 0) 18 ^^^ (w.getD (i - 15) 0 >>> 3)
  let s1 := rotr (w.getD (i - 2) 0) 17 ^^^ rotr (w.getD (i - 2) 0) 19 ^^^ (w.getD (i - 2) 0 >>> 10)
  w ++ [w.getD (i - 16) 0 + s0 + w.getD (i - 7) 0 + s1]

def schedule (block : List Byte) : List Word :=
  (List.range' 16 48).foldl scheduleStep ((List.range 16).map (loadWord block))

/-- Word `i` of a state. -/
def word (v : State) (i : ℕ) : Word := v.toList.getD i 0

theorem word_of_lt (v : State) (i : ℕ) (bound : i < 8) : word v i = v[i] := by
  simp [word, bound]

def round (w : List Word) (v : State) (i : ℕ) : State :=
  let s1 := rotr (word v 4) 6 ^^^ rotr (word v 4) 11 ^^^ rotr (word v 4) 25
  let ch := (word v 4 &&& word v 5) ^^^ (~~~word v 4 &&& word v 6)
  let t1 := word v 7 + s1 + ch + k.getD i 0 + w.getD i 0
  let s0 := rotr (word v 0) 2 ^^^ rotr (word v 0) 13 ^^^ rotr (word v 0) 22
  let maj := (word v 0 &&& word v 1) ^^^ (word v 0 &&& word v 2) ^^^ (word v 1 &&& word v 2)
  let t2 := s0 + maj
  #v[t1 + t2, word v 0, word v 1, word v 2, word v 3 + t1, word v 4, word v 5, word v 6]

/-- `block` holds the 64 bytes at the pointer. -/
def compress (state : State) (block : List Byte) : State :=
  let w := schedule block
  let v := (List.range 64).foldl (round w) state
  state.zipWith (· + ·) v

def initial : State :=
  #v[0x6a09e667, 0xbb67ae85, 0x3c6ef372, 0xa54ff53a, 0x510e527f, 0x9b05688c, 0x1f83d9ab, 0x5be0cd19]

/-! ## The end of a message -/

/-- Zeros until the length leaves room for the bit count; the second argument bounds the loop. -/
def padZeros : List Byte → ℕ → List Byte
  | tail, 0 => tail
  | tail, fuel + 1 => if tail.length % 64 ≠ 56 then padZeros (tail ++ [0]) fuel else tail

/-- The bit count, the highest byte first. -/
def bitBytes (bits : BitVec 64) : List Byte :=
  [56, 48, 40, 32, 24, 16, 8, 0].map fun shift => (bits >>> shift).setWidth 8

def padded (tail : List Byte) (bits : BitVec 64) : List Byte := padZeros (tail ++ [0x80]) 64 ++ bitBytes bits

/-- The blocks of a padded tail. -/
def tailBlocks (state : State) (tail : List Byte) : State :=
  if tail = [] then state else tailBlocks (compress state (tail.take 64)) (tail.drop 64)
termination_by tail.length
decreasing_by
  rename_i some
  have positive := List.length_pos_of_ne_nil some
  rw [List.length_drop]
  omega

def digit (value : ℕ) : Char := "0123456789abcdef".toList.getD value '0'

def hexText (state : State) : List Char :=
  state.toList.flatMap fun word => [28, 24, 20, 16, 12, 8, 4, 0].map fun shift => digit ((word >>> shift) &&& 0xF).toNat

/-! ## The whole string -/

def sha256Hex (bytes : List Byte) : List Char :=
  let full := bytes.length / 64
  let state := (List.range full).foldl (fun state i => compress state ((bytes.drop (i * 64)).take 64)) initial
  let tail := bytes.drop (full * 64)
  let bits : BitVec 64 := BitVec.ofNat 64 bytes.length * 8
  hexText (tailBlocks state (padded tail bits))

/-! ## Data in pieces -/

structure Sha256Stream where
  state : State := initial
  block : ℕ → Byte := fun _ => 0
  blockUsed : ℕ := 0
  totalBytes : BitVec 64 := 0

/-- The bytes in use. -/
def Sha256Stream.pending (st : Sha256Stream) : List Byte := (List.range st.blockUsed).map st.block

def Sha256Stream.push (st : Sha256Stream) (byte : Byte) : Sha256Stream :=
  { st with block := Function.update st.block st.blockUsed byte, blockUsed := st.blockUsed + 1 }

/-- Bytes go into the block until it is full; what is left over is returned. -/
def Sha256Stream.fill : Sha256Stream → List Byte → Sha256Stream × List Byte
  | st, [] => (st, [])
  | st, byte :: rest => if st.blockUsed < 64 then (st.push byte).fill rest else (st, byte :: rest)

/-- Full blocks, straight from the argument. -/
def directBlocks (state : State) (bytes : List Byte) : State × List Byte :=
  if 64 ≤ bytes.length then directBlocks (compress state (bytes.take 64)) (bytes.drop 64) else (state, bytes)
termination_by bytes.length
decreasing_by
  rw [List.length_drop]
  omega

def Sha256Stream.absorb (st : Sha256Stream) (bytes : List Byte) : Sha256Stream :=
  let (state, rest) := directBlocks st.state bytes
  rest.foldl Sha256Stream.push { st with state := state }

def Sha256Stream.update (st : Sha256Stream) (bytes : List Byte) : Sha256Stream :=
  let st := { st with totalBytes := st.totalBytes + BitVec.ofNat 64 bytes.length }
  if st.blockUsed ≠ 0 then
    let (st, rest) := st.fill bytes
    if st.blockUsed < 64 then st
    else { st with state := compress st.state st.pending, blockUsed := 0 }.absorb rest
  else st.absorb bytes

def Sha256Stream.finishHex (st : Sha256Stream) : List Char :=
  let bits := st.totalBytes * 8
  hexText (tailBlocks st.state (padded st.pending bits))

/-! ## What a stream has absorbed -/

theorem tailBlocks_cons (state : State) {block rest : List Byte} (full : block.length = 64) :
    tailBlocks state (block ++ rest) = tailBlocks (compress state block) rest := by
  have some : block ++ rest ≠ [] := by
    intro none
    have length := congrArg List.length none
    rw [List.length_append, full, List.length_nil] at length
    omega
  rw [tailBlocks, if_neg some, List.take_left' full, List.drop_left' full]

theorem tailBlocks_nil (state : State) : tailBlocks state [] = state := by
  rw [tailBlocks, if_pos rfl]

/-- As many zeros as the length is short of 56, modulo 64. -/
theorem padZeros_eq (tail : List Byte) (zeros fuel : ℕ) (enough : zeros ≤ fuel)
    (before : ∀ j < zeros, (tail.length + j) % 64 ≠ 56) (reached : (tail.length + zeros) % 64 = 56) :
    padZeros tail fuel = tail ++ List.replicate zeros 0 := by
  induction zeros generalizing tail fuel with
  | zero =>
      rw [Nat.add_zero] at reached
      cases fuel with
      | zero => rw [padZeros, List.replicate_zero, List.append_nil]
      | succ fuel => rw [padZeros, if_neg (not_not.mpr reached), List.replicate_zero, List.append_nil]
  | succ zeros ih =>
      obtain ⟨fuel, rfl⟩ := Nat.exists_eq_add_of_le' (Nat.one_le_of_lt enough)
      have short : tail.length % 64 ≠ 56 := before 0 (Nat.succ_pos zeros)
      have next := ih (tail ++ [0]) fuel (by omega)
        (fun j below => by
          have later := before (j + 1) (by omega)
          rw [List.length_append, List.length_singleton]
          intro same
          exact later (by rw [← same]; congr 1; omega))
        (by rw [List.length_append, List.length_singleton, ← reached]; congr 1; omega)
      rw [padZeros, if_pos short, next, List.append_assoc, List.singleton_append, ← List.replicate_succ]

theorem through_whole (bytes : List Byte) (full : ℕ) (within : full * 64 ≤ bytes.length) :
    Through compress 64 initial bytes
      ((List.range full).foldl (fun state i => compress state ((bytes.drop (i * 64)).take 64)) initial)
      (bytes.drop (full * 64)) := by
  induction full with
  | zero =>
      rw [Nat.zero_mul, List.drop_zero]
      exact .none compress 64 initial bytes
  | succ full ih =>
      have before := ih (by omega)
      rw [← List.take_append_drop 64 (bytes.drop (full * 64))] at before
      have next := before.block (by rw [List.length_take, List.length_drop]; omega)
      rw [List.drop_drop] at next
      rw [List.range_succ, List.foldl_append, Nat.succ_mul]
      exact next

/-- A stream that has absorbed `message`. -/
structure Streamed (message : List Byte) (st : Sha256Stream) : Prop where
  through : Through compress 64 initial message st.state st.pending
  used : st.blockUsed < 64
  total : st.totalBytes = BitVec.ofNat 64 message.length

theorem pending_length (st : Sha256Stream) : st.pending.length = st.blockUsed := by
  rw [Sha256Stream.pending, List.length_map, List.length_range]

theorem push_pending (st : Sha256Stream) (byte : Byte) : (st.push byte).pending = st.pending ++ [byte] := by
  simp only [Sha256Stream.pending, Sha256Stream.push, List.range_succ, List.map_append, List.map_singleton,
    Function.update_self]
  congr 1
  apply List.map_congr_left
  intro i member
  exact Function.update_of_ne (Nat.ne_of_lt (List.mem_range.mp member)) _ _

/-- Bytes go in one after the other, and nothing else changes. -/
structure Pushed (st : Sha256Stream) (bytes : List Byte) (after : Sha256Stream) : Prop where
  pending : after.pending = st.pending ++ bytes
  used : after.blockUsed = st.blockUsed + bytes.length
  state : after.state = st.state
  total : after.totalBytes = st.totalBytes

theorem Pushed.cons {st after : Sha256Stream} {byte : Byte} {bytes : List Byte} (pushed : Pushed (st.push byte) bytes after) :
    Pushed st (byte :: bytes) after where
  pending := by rw [pushed.pending, push_pending, List.append_assoc, List.singleton_append]
  used := by
    rw [pushed.used, List.length_cons]
    simp only [Sha256Stream.push]
    omega
  state := pushed.state
  total := pushed.total

theorem Pushed.nil (st : Sha256Stream) : Pushed st [] st :=
  ⟨(List.append_nil _).symm, rfl, rfl, rfl⟩

theorem foldl_push (st : Sha256Stream) (bytes : List Byte) : Pushed st bytes (bytes.foldl Sha256Stream.push st) := by
  induction bytes generalizing st with
  | nil => exact .nil st
  | cons byte bytes ih => exact (ih (st.push byte)).cons

theorem fill_spec (st : Sha256Stream) (bytes : List Byte) (room : st.blockUsed ≤ 64) :
    ∃ taken, bytes = taken ++ (st.fill bytes).2 ∧ Pushed st taken (st.fill bytes).1 ∧
      (st.fill bytes).1.blockUsed ≤ 64 ∧ ((st.fill bytes).1.blockUsed < 64 → (st.fill bytes).2 = []) := by
  induction bytes generalizing st with
  | nil => exact ⟨[], rfl, .nil st, room, fun _ => rfl⟩
  | cons byte bytes ih =>
      by_cases space : st.blockUsed < 64
      · obtain ⟨taken, split, pushed, bound, rest⟩ := ih (st.push byte) space
        rw [Sha256Stream.fill, if_pos space]
        refine ⟨byte :: taken, ?_, pushed.cons, bound, rest⟩
        rw [List.cons_append, ← split]
      · rw [Sha256Stream.fill, if_neg space]
        exact ⟨[], rfl, .nil st, room, fun short => absurd short space⟩

theorem directBlocks_spec {message : List Byte} (state : State) (bytes : List Byte)
    (through : Through compress 64 initial message state bytes) :
    Through compress 64 initial message (directBlocks state bytes).1 (directBlocks state bytes).2 ∧
      (directBlocks state bytes).2.length < 64 := by
  induction state, bytes using directBlocks.induct with
  | case1 state bytes full ih =>
      rw [directBlocks, if_pos full]
      apply ih
      apply Through.block
      · rw [List.take_append_drop]
        exact through
      · rw [List.length_take]
        omega
  | case2 state bytes short =>
      rw [directBlocks, if_neg short]
      exact ⟨through, Nat.lt_of_not_le short⟩

theorem absorb_spec {message : List Byte} (st : Sha256Stream) (bytes : List Byte) (empty : st.blockUsed = 0)
    (through : Through compress 64 initial message st.state bytes)
    (total : st.totalBytes = BitVec.ofNat 64 message.length) : Streamed message (st.absorb bytes) := by
  obtain ⟨direct, short⟩ := directBlocks_spec st.state bytes through
  have pushed := foldl_push { st with state := (directBlocks st.state bytes).1 } (directBlocks st.state bytes).2
  have none : st.pending = [] := by
    rw [Sha256Stream.pending, empty]
    rfl
  constructor
  · have pending : (st.absorb bytes).pending = (directBlocks st.state bytes).2 := by
      rw [Sha256Stream.absorb, pushed.pending]
      change st.pending ++ _ = _
      rw [none, List.nil_append]
    rw [pending]
    have state : (st.absorb bytes).state = (directBlocks st.state bytes).1 := pushed.state
    rw [state]
    exact direct
  · have used : (st.absorb bytes).blockUsed = st.blockUsed + (directBlocks st.state bytes).2.length := pushed.used
    omega
  · exact pushed.total.trans total

theorem Streamed.update {message : List Byte} {st : Sha256Stream} (streamed : Streamed message st) (bytes : List Byte) :
    Streamed (message ++ bytes) (st.update bytes) := by
  have through := streamed.through.append bytes
  have total : st.totalBytes + BitVec.ofNat 64 bytes.length = BitVec.ofNat 64 (message ++ bytes).length := by
    rw [streamed.total, List.length_append, BitVec.ofNat_add]
  unfold Sha256Stream.update
  generalize counted : { st with totalBytes := st.totalBytes + BitVec.ofNat 64 bytes.length } = later
  have pending : later.pending = st.pending := by rw [← counted]; rfl
  have used : later.blockUsed = st.blockUsed := by rw [← counted]
  have state : later.state = st.state := by rw [← counted]
  have sum : later.totalBytes = BitVec.ofNat 64 (message ++ bytes).length := by rw [← counted, ← total]
  rw [← state, ← pending] at through
  by_cases empty : later.blockUsed = 0
  · have none : later.pending = [] := by
      rw [Sha256Stream.pending, empty]
      rfl
    rw [none, List.nil_append] at through
    rw [if_neg (not_not.mpr empty)]
    exact absorb_spec later bytes empty through sum
  · obtain ⟨taken, split, pushed, bound, rest⟩ := fill_spec later bytes (used ▸ streamed.used.le)
    have all : later.pending ++ bytes = (later.fill bytes).1.pending ++ (later.fill bytes).2 := by
      rw [pushed.pending, List.append_assoc, ← split]
    rw [all, ← pushed.state] at through
    rw [if_pos empty]
    by_cases short : (later.fill bytes).1.blockUsed < 64
    · simp only [if_pos short]
      rw [rest short, List.append_nil] at through
      exact ⟨through, short, pushed.total.trans sum⟩
    · simp only [if_neg short]
      apply absorb_spec _ _ rfl
      · apply through.block
        rw [pending_length]
        omega
      · exact pushed.total.trans sum

theorem Streamed.start : Streamed [] {} := by
  constructor
  · exact .none compress 64 initial []
  · decide
  · rfl

theorem streamed_chunks (chunks : List (List Byte)) : Streamed chunks.flatten (chunks.foldl Sha256Stream.update {}) := by
  have grow : ∀ message st, Streamed message st →
      Streamed (message ++ chunks.flatten) (chunks.foldl Sha256Stream.update st) := by
    induction chunks with
    | nil =>
        intro message st streamed
        rw [List.flatten_nil, List.append_nil]
        exact streamed
    | cons chunk chunks ih =>
        intro message st streamed
        rw [List.flatten_cons, ← List.append_assoc, List.foldl_cons]
        exact ih _ _ (streamed.update chunk)
  exact grow [] {} .start

/-- The digest of a message is that of the state and the rest it is absorbed to. -/
theorem sha256Hex_of_through {message rest : List Byte} {state : State}
    (through : Through compress 64 initial message state rest) (short : rest.length < 64) :
    sha256Hex message = hexText (tailBlocks state (padded rest (BitVec.ofNat 64 message.length * 8))) := by
  have whole := through_whole message (message.length / 64) (Nat.div_mul_le_self _ _)
  have less : (message.drop (message.length / 64 * 64)).length < 64 := by
    rw [List.length_drop]
    omega
  obtain ⟨same, tail⟩ := whole.unique less through short
  rw [sha256Hex, same, tail]

theorem finishHex_eq (chunks : List (List Byte)) :
    (chunks.foldl Sha256Stream.update {}).finishHex = sha256Hex chunks.flatten := by
  have streamed := streamed_chunks chunks
  have short : (chunks.foldl Sha256Stream.update {}).pending.length < 64 := by
    rw [pending_length]
    exact streamed.used
  rw [sha256Hex_of_through streamed.through short, Sha256Stream.finishHex, streamed.total]

end Segarecomp.Media.Sha256

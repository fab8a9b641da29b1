import Segarecomp.Lib.Base64
import Segarecomp.Lib.Fallible

/-! The base 64 text of a report. The writer's index is a `uint32_t`, as is the length of its buffer. -/

namespace Segarecomp.Genesis.Base64

open Lib.Base64 Lib.Fallible

/-- What ends a write early: the file takes no more, or an access is outside its array. -/
inductive Fault
  | eof
  | outside
  deriving DecidableEq, Repr

/-- Whether a file takes a character behind those it has. -/
abbrev File := List Char → Char → Bool

def fputc (output : File) (c : Char) (written : List Char) : Except Fault (List Char) :=
  if output written c then .ok (written ++ [c]) else .error .eof

def fputs (output : File) : List Char → List Char → Except Fault (List Char)
  | [], written => .ok written
  | c :: text, written => do
      let written ← fputc output c written
      fputs output text written

/-- `narrow` since the length is passed as a `uint32_t`. -/
structure Buffer where
  bytes : List Byte
  narrow : bytes.length < 2 ^ 32

def Buffer.count (buffer : Buffer) : BitVec 32 := BitVec.ofNat 32 buffer.bytes.length

def Buffer.byteAt (buffer : Buffer) (index : BitVec 32) : Except Fault ℕ :=
  match buffer.bytes[index.toNat]? with
  | some byte => .ok byte.toNat
  | none => .error .outside

def table : List Char := "ABCDEFGHIJKLMNOPQRSTUVWXYZabcdefghijklmnopqrstuvwxyz0123456789+/".toList

def tableAt (index : ℕ) : Except Fault Char :=
  match table[index]? with
  | some c => .ok c
  | none => .error .outside

/-- A round of the loop. -/
def genesisBase64Group (output : File) (buffer : Buffer) (index : BitVec 32) (written : List Char) :
    Except Fault (List Char) := do
  let written ← fputc output (← tableAt ((← buffer.byteAt index) >>> 2)) written
  let written ← fputc output
    (← tableAt ((((← buffer.byteAt index) &&& 3) <<< 4) ||| ((← buffer.byteAt (index + 1)) >>> 4))) written
  let written ← fputc output
    (← tableAt ((((← buffer.byteAt (index + 1)) &&& 15) <<< 2) ||| ((← buffer.byteAt (index + 2)) >>> 6))) written
  fputc output (← tableAt ((← buffer.byteAt (index + 2)) &&& 63)) written

/-- Behind the loop. -/
def genesisBase64Tail (output : File) (buffer : Buffer) (index : BitVec 32) (written : List Char) :
    Except Fault (List Char) :=
  if index < buffer.count then do
    let written ← fputc output (← tableAt ((← buffer.byteAt index) >>> 2)) written
    let written ← fputc output (← tableAt (((← buffer.byteAt index) &&& 3) <<< 4)) written
    if index + 1 = buffer.count then fputs output ['=', '='] written
    else
      let written ← fputc output (← tableAt (((← buffer.byteAt (index + 1)) &&& 15) <<< 2)) written
      fputc output '=' written
  else .ok written

theorem byteAt_inside {buffer : Buffer} {index : BitVec 32} {value : ℕ} (read : buffer.byteAt index = .ok value) :
    index.toNat < buffer.bytes.length := by
  unfold Buffer.byteAt at read
  split at read
  next byte present => exact (List.getElem?_eq_some_iff.mp present).1
  next => cases read

theorem group_reads {output : File} {buffer : Buffer} {index : BitVec 32} {written after : List Char}
    (went : genesisBase64Group output buffer index written = .ok after) :
    ∃ a b c, buffer.byteAt index = .ok a ∧ buffer.byteAt (index + 1) = .ok b ∧ buffer.byteAt (index + 2) = .ok c := by
  rcases bind_ok_iff.mp went with ⟨a, first, went⟩
  rcases bind_ok_iff.mp went with ⟨_, _, went⟩
  rcases bind_ok_iff.mp went with ⟨_, _, went⟩
  rcases bind_ok_iff.mp went with ⟨_, _, went⟩
  rcases bind_ok_iff.mp went with ⟨b, second, went⟩
  rcases bind_ok_iff.mp went with ⟨_, _, went⟩
  rcases bind_ok_iff.mp went with ⟨_, _, went⟩
  rcases bind_ok_iff.mp went with ⟨_, _, went⟩
  rcases bind_ok_iff.mp went with ⟨c, third, _⟩
  exact ⟨a, b, c, first, second, third⟩

/-- A round that ends has read three bytes, and so the index does not wrap. -/
theorem group_inside {output : File} {buffer : Buffer} {index : BitVec 32} {written after : List Char}
    (went : genesisBase64Group output buffer index written = .ok after) :
    (index + 3).toNat = index.toNat + 3 ∧ index.toNat < buffer.bytes.length := by
  have narrow := buffer.narrow
  rcases group_reads went with ⟨a, b, c, first, second, third⟩
  have inside := byteAt_inside first
  have inside' := byteAt_inside second
  have inside'' := byteAt_inside third
  bv_omega

def genesisBase64From (output : File) (buffer : Buffer) (index : BitVec 32) (written : List Char) :
    Except Fault (List Char) :=
  if index + 2 < buffer.count then
    match went : genesisBase64Group output buffer index written with
    | .ok after => genesisBase64From output buffer (index + 3) after
    | .error fault => .error fault
  else genesisBase64Tail output buffer index written
termination_by buffer.bytes.length - index.toNat
decreasing_by
  have inside := group_inside went
  omega

/-- The text of a call that returns 0. A call that returns 1 is an `eof`. -/
def genesisBase64 (output : File) (buffer : Buffer) : Except Fault (List Char) :=
  genesisBase64From output buffer 0 []

/-! ## What is written -/

variable {output : File} {buffer : Buffer} {index : BitVec 32} {written : List Char}

/-- The bytes whose encoding is written. The second letter of a last group of two is that of a group of one, without
the high bits of the second byte. -/
def shown : List Byte → List Byte
  | [] => []
  | [a] => [a]
  | [a, b] => [a, b &&& 15]
  | a :: b :: c :: rest => a :: b :: c :: shown rest

/-- A file that is never full. -/
def roomy : File := fun _ _ => true

theorem fputs_append (text more : List Char) :
    fputs output (text ++ more) written = fputs output text written >>= fputs output more := by
  induction text generalizing written with
  | nil => rfl
  | cons c text ih =>
      rw [List.cons_append, fputs, fputs]
      cases fputc output c written with
      | error fault => rfl
      | ok after => exact ih

theorem fputs_single (c : Char) : fputs output [c] written = fputc output c written := by
  rw [fputs]
  cases fputc output c written with
  | error fault => rfl
  | ok after => rfl

theorem fputs_cons (c d : Char) (text : List Char) :
    fputs output (c :: d :: text) written = (fputc output c written >>= fun w => fputs output (d :: text) w) := rfl

theorem fputs_roomy (text : List Char) : fputs roomy text written = .ok (written ++ text) := by
  induction text generalizing written with
  | nil => rw [fputs, List.append_nil]
  | cons c text ih =>
      calc fputs roomy (c :: text) written = fputs roomy text (written ++ [c]) := rfl
        _ = .ok (written ++ (c :: text)) := by rw [ih, List.append_assoc, List.singleton_append]

theorem fputs_cases (text : List Char) :
    fputs output text written = .ok (written ++ text) ∨ fputs output text written = .error .eof := by
  induction text generalizing written with
  | nil =>
      left
      rw [fputs, List.append_nil]
  | cons c text ih =>
      rw [fputs, fputc]
      split_ifs
      · have next := @ih (written ++ [c])
        rw [List.append_assoc, List.singleton_append] at next
        exact next
      · exact .inr rfl

theorem table_eq : table = alphabet := rfl

theorem tableAt_letter {value : ℕ} (small : value < 64) : tableAt value = .ok (letter value) := by
  have inside : value < alphabet.length := by rwa [alphabet_length]
  rw [tableAt, table_eq, letter_eq inside, List.getElem?_eq_getElem inside]

theorem shifted_or (high low width : ℕ) (small : low < 2 ^ width) : high <<< width ||| low = high * 2 ^ width + low := by
  rw [← Nat.shiftLeft_add_eq_or_of_lt small, Nat.shiftLeft_eq]

theorem indices (a b c : Byte) :
    a.toNat >>> 2 = a.toNat / 4 ∧ (a.toNat &&& 3) <<< 4 = a.toNat % 4 * 16 ∧
      (a.toNat &&& 3) <<< 4 ||| b.toNat >>> 4 = a.toNat % 4 * 16 + b.toNat / 16 ∧
      (b.toNat &&& 15) <<< 2 ||| c.toNat >>> 6 = b.toNat % 16 * 4 + c.toNat / 64 ∧
      (b.toNat &&& 15) <<< 2 = b.toNat % 16 * 4 ∧ c.toNat &&& 63 = c.toNat % 64 := by
  have two : a.toNat &&& 3 = a.toNat % 4 := Nat.and_two_pow_sub_one_eq_mod _ 2
  have four : b.toNat &&& 15 = b.toNat % 16 := Nat.and_two_pow_sub_one_eq_mod _ 4
  have six : c.toNat &&& 63 = c.toNat % 64 := Nat.and_two_pow_sub_one_eq_mod _ 6
  have second : b.toNat >>> 4 = b.toNat / 16 := Nat.shiftRight_eq_div_pow _ 4
  have third : c.toNat >>> 6 = c.toNat / 64 := Nat.shiftRight_eq_div_pow _ 6
  refine ⟨Nat.shiftRight_eq_div_pow _ 2, ?_, ?_, ?_, ?_, six⟩
  · rw [two, Nat.shiftLeft_eq]
  · rw [two, second]
    exact shifted_or _ _ 4 (by omega)
  · rw [four, third]
    exact shifted_or _ _ 2 (by omega)
  · rw [four, Nat.shiftLeft_eq]

theorem group_eq {a b c : Byte} (first : buffer.byteAt index = .ok a.toNat)
    (second : buffer.byteAt (index + 1) = .ok b.toNat) (third : buffer.byteAt (index + 2) = .ok c.toNat) :
    genesisBase64Group output buffer index written = fputs output (encode [a, b, c]) written := by
  rcases indices a b c with ⟨one, -, two, three, -, four⟩
  have letters : encode [a, b, c] = letter (a.toNat / 4) :: letter (a.toNat % 4 * 16 + b.toNat / 16) ::
      letter (b.toNat % 16 * 4 + c.toNat / 64) :: [letter (c.toNat % 64)] := rfl
  rw [letters, genesisBase64Group, first, second, third]
  simp only [ok_bind, one, two, three, four]
  rw [tableAt_letter (by omega), tableAt_letter (by omega), tableAt_letter (by omega), tableAt_letter (by omega)]
  simp only [ok_bind, fputs_cons, fputs_single]

/-! ## The loop -/

theorem byteAt_place {front rest : List Byte} (whole : buffer.bytes = front ++ rest) {k : ℕ} (inside : k < rest.length) :
    buffer.byteAt (BitVec.ofNat 32 (front.length + k)) = .ok rest[k].toNat := by
  have narrow := buffer.narrow
  rw [whole, List.length_append] at narrow
  have place : (BitVec.ofNat 32 (front.length + k)).toNat = front.length + k := Nat.mod_eq_of_lt (by omega)
  have byte : buffer.bytes[front.length + k]? = some rest[k] := by
    rw [whole, List.getElem?_append_right (Nat.le_add_right _ _), Nat.add_sub_cancel_left,
      List.getElem?_eq_getElem inside]
  rw [Buffer.byteAt, place, byte]

theorem byteAt_group {front rest : List Byte} {a b c : Byte} (whole : buffer.bytes = front ++ a :: b :: c :: rest) :
    buffer.byteAt (BitVec.ofNat 32 front.length) = .ok a.toNat ∧
      buffer.byteAt (BitVec.ofNat 32 front.length + 1) = .ok b.toNat ∧
      buffer.byteAt (BitVec.ofNat 32 front.length + 2) = .ok c.toNat := by
  have one : BitVec.ofNat 32 front.length + 1 = BitVec.ofNat 32 (front.length + 1) := (BitVec.ofNat_add _ _).symm
  have two : BitVec.ofNat 32 front.length + 2 = BitVec.ofNat 32 (front.length + 2) := (BitVec.ofNat_add _ _).symm
  rw [one, two]
  exact ⟨byteAt_place whole (k := 0) (by simp), byteAt_place whole (k := 1) (by simp),
    byteAt_place whole (k := 2) (by simp)⟩

/-- The guard of the loop, at the beginning of a group of a buffer that is not the longest. -/
theorem guard_iff {n : ℕ} (within : n ≤ buffer.bytes.length) (aligned : n % 3 = 0)
    (below : buffer.bytes.length + 1 ≠ 2 ^ 32) :
    BitVec.ofNat 32 n + 2 < buffer.count ↔ n + 2 < buffer.bytes.length := by
  have narrow := buffer.narrow
  have two : (2 : BitVec 32).toNat = 2 := rfl
  rw [BitVec.lt_def, Buffer.count, BitVec.toNat_add, BitVec.toNat_ofNat, BitVec.toNat_ofNat, two]
  omega

/-- In the longest buffer it holds at every beginning of a group, and at the end. -/
theorem guard_longest {n : ℕ} (within : n ≤ buffer.bytes.length) (aligned : n % 3 = 0)
    (longest : buffer.bytes.length + 1 = 2 ^ 32) : BitVec.ofNat 32 n + 2 < buffer.count := by
  have two : (2 : BitVec 32).toNat = 2 := rfl
  have place : n % 2 ^ 32 = n := Nat.mod_eq_of_lt (by omega)
  rw [BitVec.lt_def, Buffer.count, BitVec.toNat_add, BitVec.toNat_ofNat, BitVec.toNat_ofNat, two, place]
  by_cases wraps : 2 ^ 32 ≤ n + 2
  · omega
  · rw [Nat.mod_eq_of_lt (Nat.lt_of_not_le wraps)]
    omega

theorem place_lt {n : ℕ} (inside : n < buffer.bytes.length) : BitVec.ofNat 32 n < buffer.count := by
  have narrow := buffer.narrow
  rw [BitVec.lt_def, Buffer.count, BitVec.toNat_ofNat, BitVec.toNat_ofNat]
  omega

theorem from_round (guard : index + 2 < buffer.count) :
    genesisBase64From output buffer index written =
      (genesisBase64Group output buffer index written >>= fun after =>
        genesisBase64From output buffer (index + 3) after) := by
  rw [genesisBase64From, if_pos guard]
  split
  next after went =>
    rw [went]
    rfl
  next fault went =>
    rw [went]
    rfl

theorem tail_one {a : Byte} (inside : index < buffer.count) (first : buffer.byteAt index = .ok a.toNat)
    (last : index + 1 = buffer.count) :
    genesisBase64Tail output buffer index written = fputs output (encode [a]) written := by
  rcases indices a 0 0 with ⟨one, two, -⟩
  have letters : encode [a] = letter (a.toNat / 4) :: letter (a.toNat % 4 * 16) :: pad :: [pad] := rfl
  rw [letters, genesisBase64Tail, if_pos inside, first]
  simp only [ok_bind, if_pos last, one, two]
  rw [tableAt_letter (by omega), tableAt_letter (by omega)]
  simp only [ok_bind, fputs_cons, fputs_single]
  rfl

theorem tail_two {a b : Byte} (inside : index < buffer.count) (first : buffer.byteAt index = .ok a.toNat)
    (second : buffer.byteAt (index + 1) = .ok b.toNat) (more : index + 1 ≠ buffer.count) :
    genesisBase64Tail output buffer index written = fputs output (encode [a, b &&& 15]) written := by
  rcases indices a 0 0 with ⟨one, two, -⟩
  rcases indices 0 b 0 with ⟨-, -, -, -, three, -⟩
  have low : (b &&& 15).toNat = b.toNat % 16 := Nat.and_two_pow_sub_one_eq_mod _ 4
  have letters : encode [a, b &&& 15] =
      letter (a.toNat / 4) :: letter (a.toNat % 4 * 16) :: letter (b.toNat % 16 * 4) :: [pad] := by
    rw [encode, low, Nat.mod_mod, Nat.div_eq_of_lt (Nat.mod_lt _ (by decide)), Nat.add_zero]
  rw [letters, genesisBase64Tail, if_pos inside, first, second]
  simp only [ok_bind, if_neg more, one, two, three]
  rw [tableAt_letter (by omega), tableAt_letter (by omega), tableAt_letter (by omega)]
  simp only [ok_bind, fputs_cons, fputs_single]
  rfl

theorem next_place (front : List Byte) (a b c : Byte) :
    BitVec.ofNat 32 front.length + 3 = BitVec.ofNat 32 (front ++ [a, b, c]).length := by
  rw [List.length_append]
  exact (BitVec.ofNat_add _ _).symm

theorem from_eq {front rest : List Byte} (whole : buffer.bytes = front ++ rest) (aligned : front.length % 3 = 0)
    (below : buffer.bytes.length + 1 ≠ 2 ^ 32) :
    genesisBase64From output buffer (BitVec.ofNat 32 front.length) written =
      fputs output (encode (shown rest)) written := by
  have length := congrArg List.length whole
  rw [List.length_append] at length
  have guard := guard_iff (n := front.length) (by omega) aligned below
  have narrow := buffer.narrow
  induction rest using encode.induct generalizing front written with
  | case1 =>
      have outside : ¬BitVec.ofNat 32 front.length < buffer.count := by
        rw [BitVec.lt_def, Buffer.count, length]
        exact lt_irrefl _
      rw [genesisBase64From, if_neg (by rw [guard, length]; simp), genesisBase64Tail, if_neg outside]
      rfl
  | case2 a =>
      have first := byteAt_place whole (k := 0) Nat.zero_lt_one
      have last : BitVec.ofNat 32 front.length + 1 = buffer.count := by
        rw [Buffer.count, length]
        exact (BitVec.ofNat_add _ _).symm
      have inside : BitVec.ofNat 32 front.length < buffer.count := place_lt (by rw [length]; simp)
      rw [genesisBase64From, if_neg (by rw [guard, length]; simp)]
      exact tail_one inside first last
  | case3 a b =>
      have first := byteAt_place whole (k := 0) Nat.zero_lt_two
      have second := byteAt_place whole (k := 1) Nat.one_lt_two
      have next : BitVec.ofNat 32 front.length + 1 = BitVec.ofNat 32 (front.length + 1) := (BitVec.ofNat_add _ _).symm
      have inside : BitVec.ofNat 32 front.length < buffer.count := place_lt (by rw [length]; simp)
      have more : BitVec.ofNat 32 front.length + 1 ≠ buffer.count := by
        have below : BitVec.ofNat 32 (front.length + 1) < buffer.count := place_lt (by rw [length]; simp)
        rw [next]
        exact BitVec.ne_of_lt below
      rw [genesisBase64From, if_neg (by rw [guard, length]; simp)]
      exact tail_two inside first (next ▸ second) more
  | case4 a b c rest ih =>
      rcases byteAt_group whole with ⟨first, second, third⟩
      have whole' : buffer.bytes = (front ++ [a, b, c]) ++ rest := by rw [whole, List.append_assoc]; rfl
      have length' := congrArg List.length whole'
      rw [List.length_append] at length'
      have aligned' : (front ++ [a, b, c]).length % 3 = 0 := by rw [List.length_append]; simpa using aligned
      have letters : encode (shown (a :: b :: c :: rest)) = encode [a, b, c] ++ encode (shown rest) := rfl
      rw [from_round (guard.mpr (by rw [length]; simp)), group_eq first second third, next_place front a b c, letters,
        fputs_append]
      congr 1
      funext after
      exact ih whole' aligned' length' (guard_iff (by omega) aligned' below)

/-- The longest buffer is read past its end. -/
theorem from_longest {front rest : List Byte} (whole : buffer.bytes = front ++ rest) (aligned : front.length % 3 = 0)
    (longest : buffer.bytes.length + 1 = 2 ^ 32) :
    genesisBase64From roomy buffer (BitVec.ofNat 32 front.length) written = .error .outside := by
  have length := congrArg List.length whole
  rw [List.length_append] at length
  have guard := guard_longest (n := front.length) (by omega) aligned longest
  induction rest using encode.induct generalizing front written with
  | case1 =>
      have place : (BitVec.ofNat 32 front.length).toNat = buffer.bytes.length := by
        rw [BitVec.toNat_ofNat]
        simp only [List.length_nil] at length
        omega
      have first : buffer.byteAt (BitVec.ofNat 32 front.length) = .error .outside := by
        rw [Buffer.byteAt, place, List.getElem?_eq_none le_rfl]
      rw [from_round guard, genesisBase64Group, first]
      rfl
  | case2 a =>
      simp only [List.length_singleton] at length
      omega
  | case3 a b =>
      simp only [List.length_cons, List.length_nil] at length
      omega
  | case4 a b c rest ih =>
      rcases byteAt_group whole with ⟨first, second, third⟩
      have whole' : buffer.bytes = (front ++ [a, b, c]) ++ rest := by rw [whole, List.append_assoc]; rfl
      have length' := congrArg List.length whole'
      rw [List.length_append] at length'
      have aligned' : (front ++ [a, b, c]).length % 3 = 0 := by rw [List.length_append]; simpa using aligned
      rw [from_round guard, group_eq first second third, next_place front a b c, fputs_roomy, ok_bind]
      exact ih whole' aligned' length' (guard_longest (by omega) aligned' longest)

/-! ## The text of a buffer -/

/-- A byte of which four bits are taken is shown when it has no more. -/
theorem shown_eq_iff (bytes : List Byte) :
    shown bytes = bytes ↔ (bytes.length % 3 = 2 → ∀ last ∈ bytes.getLast?, last.toNat < 16) := by
  induction bytes using shown.induct with
  | case1 => simp [shown]
  | case2 a => simp [shown]
  | case3 a b =>
      have low : (b &&& 15).toNat = b.toNat % 16 := Nat.and_two_pow_sub_one_eq_mod _ 4
      have same : b &&& 15 = b ↔ b.toNat < 16 := by
        rw [← BitVec.toNat_inj, low]
        omega
      simp only [shown, List.cons.injEq, true_and, and_true, same]
      simp
  | case4 a b c rest ih =>
      have group : shown (a :: b :: c :: rest) = a :: b :: c :: rest ↔ shown rest = rest := by simp [shown]
      have length : (a :: b :: c :: rest).length % 3 = rest.length % 3 := Nat.add_mod_right _ 3
      rw [group, ih, length]
      cases rest with
      | nil => simp
      | cons d rest => simp only [List.getLast?_cons_cons]

/-- The text decodes to the buffer, with the padding of its length; a file that does not take it whole is the only
failure. -/
def WritesBase64 (buffer : Buffer) : Prop :=
  ∃ text, genesisBase64 roomy buffer = .ok text ∧
    (∀ output, genesisBase64 output buffer = .ok text ∨ genesisBase64 output buffer = .error .eof) ∧
    decode text = some buffer.bytes ∧
    ∃ letters, pad ∉ letters ∧ text = letters ++ List.replicate (padding buffer.bytes.length) pad

theorem genesisBase64_eq (below : buffer.bytes.length + 1 ≠ 2 ^ 32) (output : File) :
    genesisBase64 output buffer = fputs output (encode (shown buffer.bytes)) [] := by
  have whole : buffer.bytes = [] ++ buffer.bytes := rfl
  exact from_eq whole rfl below

theorem genesisBase64_longest (longest : buffer.bytes.length + 1 = 2 ^ 32) :
    genesisBase64 roomy buffer = .error .outside := by
  have whole : buffer.bytes = [] ++ buffer.bytes := rfl
  exact from_longest whole rfl longest

theorem writesBase64_iff_shown (buffer : Buffer) :
    WritesBase64 buffer ↔ buffer.bytes.length + 1 ≠ 2 ^ 32 ∧ shown buffer.bytes = buffer.bytes := by
  constructor
  · rintro ⟨text, wrote, -, decodes, -⟩
    have below : buffer.bytes.length + 1 ≠ 2 ^ 32 := by
      intro longest
      rw [genesisBase64_longest longest] at wrote
      cases wrote
    rw [genesisBase64_eq below, fputs_roomy, List.nil_append] at wrote
    rw [← Except.ok.inj wrote, decode_encode] at decodes
    exact ⟨below, Option.some.inj decodes⟩
  · rintro ⟨below, same⟩
    rcases encode_padding buffer.bytes with ⟨letters, known, text⟩
    refine ⟨encode buffer.bytes, ?_, fun output => ?_, decode_encode _, letters, ?_, text⟩
    · rw [genesisBase64_eq below, fputs_roomy, same, List.nil_append]
    · rw [genesisBase64_eq below, same]
      exact fputs_cases _
    · intro inside
      rcases known pad inside with ⟨value, small, same⟩
      exact letter_ne_pad small same.symm

/-- What a report shows is its buffer, except where a last group of two bytes has high bits in the second, and in
the longest buffer. -/
theorem writesBase64_iff (buffer : Buffer) :
    WritesBase64 buffer ↔ buffer.bytes.length ≠ 2 ^ 32 - 1 ∧
      (buffer.bytes.length % 3 = 2 → ∀ last ∈ buffer.bytes.getLast?, last.toNat < 16) := by
  have below : buffer.bytes.length + 1 ≠ 2 ^ 32 ↔ buffer.bytes.length ≠ 2 ^ 32 - 1 := by omega
  rw [writesBase64_iff_shown, shown_eq_iff, below]

/-- 0, 16 is written as `AAA=`. -/
theorem not_writesBase64_two : ¬WritesBase64 ⟨[0, 16], by decide⟩ := by
  intro writes
  have same := ((writesBase64_iff_shown _).mp writes).2
  exact absurd same (by decide)

end Segarecomp.Genesis.Base64

import Mathlib.Data.List.Basic
import Mathlib.Tactic

/-! Base 64 after RFC 4648: the encoding of a byte string, and the strict decoder, which takes padding and the
bits under it in one way only. -/

namespace Segarecomp.Lib.Base64

abbrev Byte := BitVec 8

def alphabet : List Char := "ABCDEFGHIJKLMNOPQRSTUVWXYZabcdefghijklmnopqrstuvwxyz0123456789+/".toList

def pad : Char := '='

def letter (value : ℕ) : Char := alphabet.getD value pad

def letterValue (c : Char) : Option ℕ := alphabet.findIdx? (· == c)

def encode : List Byte → List Char
  | [] => []
  | [a] => [letter (a.toNat / 4), letter (a.toNat % 4 * 16), pad, pad]
  | [a, b] => [letter (a.toNat / 4), letter (a.toNat % 4 * 16 + b.toNat / 16), letter (b.toNat % 16 * 4), pad]
  | a :: b :: c :: rest =>
      letter (a.toNat / 4) :: letter (a.toNat % 4 * 16 + b.toNat / 16) ::
        letter (b.toNat % 16 * 4 + c.toNat / 64) :: letter (c.toNat % 64) :: encode rest

def padding (length : ℕ) : ℕ := (3 - length % 3) % 3

/-- The bits of a last group that stand for no byte have to be zero. -/
def decodeLast (w x y z : Char) : Option (List Byte) :=
  if z ≠ pad then do
    let p ← letterValue w
    let q ← letterValue x
    let r ← letterValue y
    let s ← letterValue z
    some [BitVec.ofNat 8 (p * 4 + q / 16), BitVec.ofNat 8 (q % 16 * 16 + r / 4), BitVec.ofNat 8 (r % 4 * 64 + s)]
  else if y ≠ pad then do
    let p ← letterValue w
    let q ← letterValue x
    let r ← letterValue y
    if r % 4 = 0 then some [BitVec.ofNat 8 (p * 4 + q / 16), BitVec.ofNat 8 (q % 16 * 16 + r / 4)] else none
  else do
    let p ← letterValue w
    let q ← letterValue x
    if q % 16 = 0 then some [BitVec.ofNat 8 (p * 4 + q / 16)] else none

def decode : List Char → Option (List Byte)
  | [] => some []
  | [w, x, y, z] => decodeLast w x y z
  | w :: x :: y :: z :: rest => do
      let p ← letterValue w
      let q ← letterValue x
      let r ← letterValue y
      let s ← letterValue z
      let bytes ← decode rest
      some (BitVec.ofNat 8 (p * 4 + q / 16) :: BitVec.ofNat 8 (q % 16 * 16 + r / 4) ::
        BitVec.ofNat 8 (r % 4 * 64 + s) :: bytes)
  | _ => none

/-! ## Letters -/

/-- The place in the alphabet of the letter with this code. -/
def place (code : ℕ) : ℕ :=
  if 97 ≤ code then code - 71
  else if 65 ≤ code then code - 65
  else if 48 ≤ code then code + 4
  else if code = 43 then 62 else 63

theorem alphabet_places : alphabet.map (fun c => place c.toNat) = List.range 64 := by decide

theorem alphabet_length : alphabet.length = 64 := by
  rw [← List.length_map (fun c => place c.toNat), alphabet_places, List.length_range]

theorem alphabet_nodup : alphabet.Nodup := by
  apply List.Nodup.of_map (fun c => place c.toNat)
  rw [alphabet_places]
  exact List.nodup_range

theorem pad_not_mem : pad ∉ alphabet := by
  intro padded
  have placed := List.mem_map_of_mem (f := fun c : Char => place c.toNat) padded
  rw [alphabet_places, List.mem_range] at placed
  exact absurd placed (by decide)

theorem letter_eq {value : ℕ} (inside : value < alphabet.length) : letter value = alphabet[value] := by
  rw [letter, List.getD_eq_getElem?_getD, List.getElem?_eq_getElem inside, Option.getD_some]

theorem letterValue_letter {value : ℕ} (small : value < 64) : letterValue (letter value) = some value := by
  have inside : value < alphabet.length := by rwa [alphabet_length]
  rw [letter_eq inside, letterValue, List.findIdx?_eq_some_iff_getElem]
  refine ⟨inside, beq_self_eq_true _, fun earlier lt => ?_⟩
  rw [beq_iff_eq, alphabet_nodup.getElem_inj_iff]
  exact lt.ne

theorem letter_ne_pad {value : ℕ} (small : value < 64) : letter value ≠ pad := by
  have inside : value < alphabet.length := by rwa [alphabet_length]
  rw [letter_eq inside]
  exact fun same => pad_not_mem (same ▸ List.getElem_mem inside)

/-! ## The round trip -/

variable (a b c : Byte) (rest : List Byte)

theorem first_byte : BitVec.ofNat 8 (a.toNat / 4 * 4 + (a.toNat % 4 * 16 + b.toNat / 16) / 16) = a := by
  have joined : a.toNat / 4 * 4 + (a.toNat % 4 * 16 + b.toNat / 16) / 16 = a.toNat := by omega
  rw [joined, BitVec.ofNat_toNat, BitVec.setWidth_eq]

theorem second_byte :
    BitVec.ofNat 8 ((a.toNat % 4 * 16 + b.toNat / 16) % 16 * 16 + (b.toNat % 16 * 4 + c.toNat / 64) / 4) = b := by
  have joined : (a.toNat % 4 * 16 + b.toNat / 16) % 16 * 16 + (b.toNat % 16 * 4 + c.toNat / 64) / 4 = b.toNat := by
    omega
  rw [joined, BitVec.ofNat_toNat, BitVec.setWidth_eq]

theorem third_byte : BitVec.ofNat 8 ((b.toNat % 16 * 4 + c.toNat / 64) % 4 * 64 + c.toNat % 64) = c := by
  have joined : (b.toNat % 16 * 4 + c.toNat / 64) % 4 * 64 + c.toNat % 64 = c.toNat := by omega
  rw [joined, BitVec.ofNat_toNat, BitVec.setWidth_eq]

theorem values :
    letterValue (letter (a.toNat / 4)) = some (a.toNat / 4) ∧
      letterValue (letter (a.toNat % 4 * 16 + b.toNat / 16)) = some (a.toNat % 4 * 16 + b.toNat / 16) ∧
      letterValue (letter (b.toNat % 16 * 4 + c.toNat / 64)) = some (b.toNat % 16 * 4 + c.toNat / 64) ∧
      letterValue (letter (c.toNat % 64)) = some (c.toNat % 64) := by
  refine ⟨letterValue_letter ?_, letterValue_letter ?_, letterValue_letter ?_, letterValue_letter ?_⟩ <;> omega

theorem decodeLast_group :
    decodeLast (letter (a.toNat / 4)) (letter (a.toNat % 4 * 16 + b.toNat / 16))
      (letter (b.toNat % 16 * 4 + c.toNat / 64)) (letter (c.toNat % 64)) = some [a, b, c] := by
  rcases values a b c with ⟨first, second, third, fourth⟩
  rw [decodeLast, if_pos (letter_ne_pad (Nat.mod_lt _ (by decide))), first, second, third, fourth]
  simp only [Option.bind_eq_bind, Option.bind_some, first_byte, second_byte, third_byte]

theorem decodeLast_two :
    decodeLast (letter (a.toNat / 4)) (letter (a.toNat % 4 * 16 + b.toNat / 16)) (letter (b.toNat % 16 * 4)) pad =
      some [a, b] := by
  rcases values a b 0 with ⟨first, second, third, -⟩
  have second' := second_byte a b 0
  have zero : (0 : Byte).toNat / 64 = 0 := rfl
  rw [zero, Nat.add_zero] at third second'
  have clear : b.toNat % 16 * 4 % 4 = 0 := Nat.mul_mod_left _ 4
  rw [decodeLast, if_neg (by simp), if_pos (letter_ne_pad (by omega)), first, second, third]
  simp only [Option.bind_eq_bind, Option.bind_some, if_pos clear, first_byte, second']

theorem decodeLast_one :
    decodeLast (letter (a.toNat / 4)) (letter (a.toNat % 4 * 16)) pad pad = some [a] := by
  rcases values a 0 0 with ⟨first, second, -, -⟩
  have first' := first_byte a 0
  have zero : (0 : Byte).toNat / 16 = 0 := rfl
  rw [zero, Nat.add_zero] at second first'
  have clear : a.toNat % 4 * 16 % 16 = 0 := Nat.mul_mod_left _ 16
  rw [decodeLast, if_neg (by simp), if_neg (by simp), first, second]
  simp only [Option.bind_eq_bind, Option.bind_some, if_pos clear, first']

theorem encode_ne_nil : encode (a :: rest) ≠ [] := by
  match rest with
  | [] => exact List.cons_ne_nil _ _
  | [_] => exact List.cons_ne_nil _ _
  | _ :: _ :: _ => exact List.cons_ne_nil _ _

theorem decode_group {w x y z : Char} {text : List Char} (more : text ≠ []) :
    decode (w :: x :: y :: z :: text) = (do
      let p ← letterValue w
      let q ← letterValue x
      let r ← letterValue y
      let s ← letterValue z
      let bytes ← decode text
      some (BitVec.ofNat 8 (p * 4 + q / 16) :: BitVec.ofNat 8 (q % 16 * 16 + r / 4) ::
        BitVec.ofNat 8 (r % 4 * 64 + s) :: bytes)) := by
  cases text with
  | nil => exact absurd rfl more
  | cons c text => rfl

theorem decode_encode (bytes : List Byte) : decode (encode bytes) = some bytes := by
  induction bytes using encode.induct with
  | case1 => rfl
  | case2 a => exact decodeLast_one a
  | case3 a b => exact decodeLast_two a b
  | case4 a b c rest ih =>
      cases rest with
      | nil => exact decodeLast_group a b c
      | cons d rest =>
          rcases values a b c with ⟨first, second, third, fourth⟩
          rw [encode, decode_group (encode_ne_nil d rest), ih, first, second, third, fourth]
          simp only [Option.bind_eq_bind, Option.bind_some, first_byte, second_byte, third_byte]

/-! ## Padding -/

theorem padding_group (length : ℕ) : padding (length + 3) = padding length := by
  rw [padding, padding, Nat.add_mod_right]

/-- Pads stand behind the letters, as many as the last group is short of bytes. -/
theorem encode_padding (bytes : List Byte) : ∃ letters, (∀ c ∈ letters, ∃ value < 64, c = letter value) ∧
    encode bytes = letters ++ List.replicate (padding bytes.length) pad := by
  induction bytes using encode.induct with
  | case1 => exact ⟨[], by simp, rfl⟩
  | case2 a =>
      refine ⟨[letter (a.toNat / 4), letter (a.toNat % 4 * 16)], ?_, rfl⟩
      simp only [List.forall_mem_cons, List.not_mem_nil, false_implies, implies_true, and_true]
      exact ⟨⟨_, by omega, rfl⟩, ⟨_, by omega, rfl⟩⟩
  | case3 a b =>
      refine ⟨[letter (a.toNat / 4), letter (a.toNat % 4 * 16 + b.toNat / 16), letter (b.toNat % 16 * 4)], ?_, rfl⟩
      simp only [List.forall_mem_cons, List.not_mem_nil, false_implies, implies_true, and_true]
      exact ⟨⟨_, by omega, rfl⟩, ⟨_, by omega, rfl⟩, ⟨_, by omega, rfl⟩⟩
  | case4 a b c rest ih =>
      rcases ih with ⟨letters, known, text⟩
      refine ⟨letter (a.toNat / 4) :: letter (a.toNat % 4 * 16 + b.toNat / 16) ::
        letter (b.toNat % 16 * 4 + c.toNat / 64) :: letter (c.toNat % 64) :: letters, ?_, ?_⟩
      · simp only [List.forall_mem_cons]
        exact ⟨⟨_, by omega, rfl⟩, ⟨_, by omega, rfl⟩, ⟨_, by omega, rfl⟩, ⟨_, by omega, rfl⟩, known⟩
      · rw [encode, text]
        simp only [List.length_cons, padding_group, List.cons_append]

end Segarecomp.Lib.Base64

import Mathlib.Tactic

/-! Integer constants as C source text: how the digits are put out and how a compiler reads them. -/

namespace Segarecomp.IntegerText

abbrev Text := List Char

def hexDigits : Text := ['0', '1', '2', '3', '4', '5', '6', '7', '8', '9', 'A', 'B', 'C', 'D', 'E', 'F']

def hexDigit (nibble : ℕ) : Char := hexDigits.getD nibble '0'

/-- The lowest `digits` hexadecimal digits of a value, highest first. -/
def hexText (digits value : ℕ) : Text := (List.range digits).reverse.map fun i => hexDigit (value / 16 ^ i % 16)

def digitValue (c : Char) : ℕ := if c.isDigit then c.toNat - 48 else c.toNat - 55

def isHexDigit (c : Char) : Bool := hexDigits.contains c

def readHex (text : Text) : ℕ := text.foldl (fun value c => value * 16 + digitValue c) 0

/-- An integer constant without its suffix letters. The only one that starts with `0` and is not
hexadecimal is `0` itself. -/
def readInteger (text : Text) : ℕ :=
  if ['0', 'x'].isPrefixOf text then readHex ((text.drop 2).takeWhile isHexDigit)
  else Nat.ofDigitChars 10 (text.takeWhile Char.isDigit) 0

/-! ## Hexadecimal -/

theorem digitValue_hexDigit {n : ℕ} (lt : n < 16) : digitValue (hexDigit n) = n := by
  revert n
  decide

theorem isHexDigit_hexDigit {n : ℕ} (lt : n < 16) : isHexDigit (hexDigit n) = true := by
  revert n
  decide

theorem hexText_succ (digits value : ℕ) :
    hexText (digits + 1) value = hexDigit (value / 16 ^ digits % 16) :: hexText digits value := by
  rw [hexText, List.range_succ, List.reverse_append, List.map_append]
  rfl

theorem foldl_readHex (text : Text) (value : ℕ) :
    text.foldl (fun value c => value * 16 + digitValue c) value = value * 16 ^ text.length + readHex text := by
  induction text generalizing value with
  | nil => simp [readHex]
  | cons c rest ih =>
      rw [readHex, List.foldl_cons, List.foldl_cons, ih, ih (0 * 16 + digitValue c), List.length_cons, Nat.pow_succ]
      ring

theorem length_hexText (digits value : ℕ) : (hexText digits value).length = digits := by
  rw [hexText, List.length_map, List.length_reverse, List.length_range]

theorem readHex_hexText (digits value : ℕ) : readHex (hexText digits value) = value % 16 ^ digits := by
  induction digits with
  | zero => rw [Nat.pow_zero, Nat.mod_one]; rfl
  | succ digits ih =>
      have first : digitValue (hexDigit (value / 16 ^ digits % 16)) = value / 16 ^ digits % 16 :=
        digitValue_hexDigit (Nat.mod_lt _ (by decide))
      calc readHex (hexText (digits + 1) value)
          = value / 16 ^ digits % 16 * 16 ^ digits + value % 16 ^ digits := by
            rw [hexText_succ, readHex, List.foldl_cons, foldl_readHex, length_hexText, ih, first, Nat.zero_mul,
              Nat.zero_add]
        _ = value % 16 ^ (digits + 1) := by
            rw [Nat.pow_succ, Nat.mod_mul, Nat.mul_comm, Nat.add_comm]

theorem all_hexText (digits value : ℕ) : ∀ c ∈ hexText digits value, isHexDigit c = true := by
  intro c is
  obtain ⟨i, -, rfl⟩ := List.mem_map.mp is
  exact isHexDigit_hexDigit (Nat.mod_lt _ (by decide))

/-- A suffix that does not go on with digits. -/
def Closes (digit : Char → Bool) (suffix : Text) : Prop := suffix.takeWhile digit = []

theorem takeWhile_append {digit : Char → Bool} {text suffix : Text} (all : ∀ c ∈ text, digit c = true)
    (closes : Closes digit suffix) : (text ++ suffix).takeWhile digit = text := by
  rw [List.takeWhile_append_of_pos all, closes, List.append_nil]

theorem readInteger_hex (digits value : ℕ) {suffix : Text} (closes : Closes isHexDigit suffix) :
    readInteger ('0' :: 'x' :: hexText digits value ++ suffix) = value % 16 ^ digits := by
  have hex : ['0', 'x'].isPrefixOf ('0' :: 'x' :: hexText digits value ++ suffix) = true := rfl
  rw [readInteger, if_pos hex]
  change readHex ((hexText digits value ++ suffix).takeWhile isHexDigit) = _
  rw [takeWhile_append (all_hexText digits value) closes, readHex_hexText]

/-! ## Decimal -/

theorem readInteger_decimal (value : ℕ) {suffix : Text} (closes : Closes Char.isDigit suffix)
    (plain : suffix.head? ≠ some 'x') : readInteger (Nat.toDigits 10 value ++ suffix) = value := by
  have digits : ∀ c ∈ Nat.toDigits 10 value, c.isDigit = true :=
    fun c is => Nat.isDigit_of_mem_toDigits (by decide) le_rfl is
  have decimal : ¬ ['0', 'x'].isPrefixOf (Nat.toDigits 10 value ++ suffix) = true := by
    intro hex
    rw [List.isPrefixOf_iff_prefix] at hex
    obtain ⟨rest, is⟩ := hex
    cases text : Nat.toDigits 10 value with
    | nil => exact Nat.toDigits_ne_nil text
    | cons c more =>
        rw [text] at is digits
        cases more with
        | nil =>
            have tail : suffix = 'x' :: rest := (List.cons.inj is).2.symm
            exact plain (by rw [tail]; rfl)
        | cons d more =>
            have letter : 'x' = d := (List.cons.inj (List.cons.inj is).2).1
            have digit := digits d (by simp)
            rw [← letter] at digit
            exact absurd digit (by decide)
  rw [readInteger, if_neg decimal, takeWhile_append digits closes, Nat.ofDigitChars_ten_toDigits]

end Segarecomp.IntegerText

import Mathlib
import Segarecomp.Lib.Words

/-! C source as words and single characters: what an integer constant is worth, and where in the program
a token stands. -/

namespace Segarecomp.CTokens

abbrev Text := List Char

abbrev Token := Words.Token Char

def isWordChar (c : Char) : Bool := c.isAlphanum || c == '_'

/-! ## Integer constants -/

def digit (base : ℕ) (c : Char) : Option ℕ :=
  (if c.isDigit then some (c.toNat - 48)
    else if base = 16 ∧ 'a' ≤ c ∧ c ≤ 'f' then some (10 + (c.toNat - 97))
    else if base = 16 ∧ 'A' ≤ c ∧ c ≤ 'F' then some (10 + (c.toNat - 65))
    else none).filter (· < base)

def isDigitIn (base : ℕ) (c : Char) : Bool := (digit base c).isSome

def isSuffix (c : Char) : Bool := c == 'u' || c == 'U' || c == 'l' || c == 'L'

def digitsValue (base : ℕ) (digits : Text) : ℕ := digits.foldl (fun value c => value * base + (digit base c).getD 0) 0

/-- Digits of a base and a suffix. -/
def constantIn (base : ℕ) (body : Text) : Option ℕ :=
  if body.takeWhile (isDigitIn base) ≠ [] ∧ (body.dropWhile (isDigitIn base)).all isSuffix = true then
    some (digitsValue base (body.takeWhile (isDigitIn base)))
  else none

def isHex (word : Text) : Bool :=
  decide (2 < word.length) && word.head? == some '0' && (word.tail.head? == some 'x' || word.tail.head? == some 'X')

/-- The value of an integer constant: hexadecimal after `0x`, octal after another `0`, else decimal. -/
def constant (word : Text) : Option ℕ :=
  if isHex word then constantIn 16 (word.drop 2)
  else if word.head? = some '0' then constantIn 8 word
  else constantIn 10 word

/-- The value of a constant when a leading zero says nothing. -/
def numeral (word : Text) : Option ℕ := if isHex word then constantIn 16 (word.drop 2) else constantIn 10 word

/-- The digits of a word mean the same in octal and in decimal. -/
def sameInOctal (word : Text) : Bool :=
  (word.takeWhile Char.isDigit).dropLast.all (· == '0') && (word.takeWhile Char.isDigit).getLast?.all (· < '8')

/-- A leading zero that makes no difference. -/
def readable (word : Text) : Bool := isHex word || word.head? != some '0' || sameInOctal word

theorem digitsValue_concat (base : ℕ) (digits : Text) (c : Char) :
    digitsValue base (digits ++ [c]) = digitsValue base digits * base + (digit base c).getD 0 := List.foldl_concat ..

theorem isDigit_bounds {c : Char} (is : c.isDigit = true) : 48 ≤ c.toNat ∧ c.toNat ≤ 57 := by
  simpa [Char.isDigit, UInt32.le_iff_toNat_le] using is

theorem digit_of_isDigit {base : ℕ} {c : Char} (is : c.isDigit = true) :
    digit base c = if c.toNat - 48 < base then some (c.toNat - 48) else none := by
  rw [digit, if_pos is]
  split_ifs with small <;> simp [Option.filter, small]

theorem digit_of_not {base : ℕ} {c : Char} (small : base ≠ 16) (not : ¬ c.isDigit = true) : digit base c = none := by
  rw [digit, if_neg not, if_neg (fun is => small is.1), if_neg (fun is => small is.1)]
  rfl

theorem digit_ten (c : Char) : digit 10 c = if c.isDigit then some (c.toNat - 48) else none := by
  by_cases is : c.isDigit = true
  · have bounds := isDigit_bounds is
    rw [digit_of_isDigit is, if_pos is, if_pos (by omega)]
  · rw [digit_of_not (by decide) is, if_neg is]

theorem digit_eight (c : Char) : digit 8 c = if c.isDigit ∧ c < '8' then some (c.toNat - 48) else none := by
  by_cases is : c.isDigit = true
  · have bounds := isDigit_bounds is
    rw [digit_of_isDigit is]
    have small : c < '8' ↔ c.toNat - 48 < 8 := by
      change c.toNat < 56 ↔ _
      omega
    by_cases octal : c < '8'
    · rw [if_pos (small.mp octal), if_pos ⟨is, octal⟩]
    · rw [if_neg (fun lt => octal (small.mpr lt)), if_neg (fun both => octal both.2)]
  · rw [digit_of_not (by decide) is, if_neg (fun both => is both.1)]

theorem isDigitIn_ten (c : Char) : isDigitIn 10 c = c.isDigit := by
  rw [isDigitIn, digit_ten]
  split_ifs with is <;> simp [is]

theorem isDigitIn_eight (c : Char) : isDigitIn 8 c = (c.isDigit && decide (c < '8')) := by
  rw [isDigitIn, digit_eight]
  split_ifs with is <;> simp_all

/-! ## Octal against decimal -/

theorem digitsValue_ten_zero {digits : Text} (are : ∀ c ∈ digits, c.isDigit = true) (zero : digitsValue 10 digits = 0) :
    ∀ c ∈ digits, c = '0' := by
  induction digits using List.reverseRecOn with
  | nil => exact fun _ is => absurd is List.not_mem_nil
  | append_singleton init d ih =>
      rw [digitsValue_concat] at zero
      have before : digitsValue 10 init = 0 := by omega
      have last : (digit 10 d).getD 0 = 0 := by omega
      have is : d.isDigit = true := are d (by simp)
      have bounds := isDigit_bounds is
      intro c member
      rcases List.mem_append.mp member with old | new
      · exact ih (fun c' is' => are c' (List.mem_append_left _ is')) before c old
      · rw [List.mem_singleton.mp new]
        rw [digit_ten, if_pos is, Option.getD_some] at last
        apply Char.ext
        apply UInt32.toNat_inj.mp
        change d.toNat = 48
        omega

theorem digitsValue_zeros {base : ℕ} {digits : Text} (zeros : ∀ c ∈ digits, c = '0') : digitsValue base digits = 0 := by
  induction digits using List.reverseRecOn with
  | nil => rfl
  | append_singleton init d ih =>
      have first := ih fun c is => zeros c (List.mem_append_left _ is)
      have last : d = '0' := zeros d (by simp)
      rw [digitsValue_concat, first, last, digit_of_isDigit (by decide)]
      split_ifs <;> simp

theorem digit_octal {c : Char} (is : c.isDigit = true) (octal : c < '8') : digit 8 c = digit 10 c := by
  rw [digit_eight, digit_ten, if_pos ⟨is, octal⟩, if_pos is]

theorem digitsValue_eight_le {digits : Text} (are : ∀ c ∈ digits, c.isDigit = true ∧ c < '8') :
    digitsValue 8 digits ≤ digitsValue 10 digits := by
  induction digits using List.reverseRecOn with
  | nil => exact Nat.le_refl _
  | append_singleton init d ih =>
      have first := ih fun c is => are c (List.mem_append_left _ is)
      obtain ⟨is, octal⟩ := are d (by simp)
      rw [digitsValue_concat, digitsValue_concat, digit_octal is octal]
      omega

theorem digitsValue_eight_eq_iff {init : Text} {d : Char} (are : ∀ c ∈ init ++ [d], c.isDigit = true ∧ c < '8') :
    digitsValue 8 (init ++ [d]) = digitsValue 10 (init ++ [d]) ↔ ∀ c ∈ init, c = '0' := by
  obtain ⟨is, octal⟩ := are d (by simp)
  have before : ∀ c ∈ init, c.isDigit = true ∧ c < '8' := fun c is => are c (List.mem_append_left _ is)
  rw [digitsValue_concat, digitsValue_concat, digit_octal is octal]
  constructor
  · intro same
    have le := digitsValue_eight_le before
    apply digitsValue_ten_zero fun c is => (before c is).1
    omega
  · intro zeros
    rw [digitsValue_zeros zeros, digitsValue_zeros zeros]

/-- Octal digits only: the octal reading has the same digits. -/
theorem takeWhile_octal {word : Text} (octal : ∀ c ∈ word.takeWhile Char.isDigit, c < '8') :
    word.takeWhile (isDigitIn 8) = word.takeWhile Char.isDigit ∧
      word.dropWhile (isDigitIn 8) = word.dropWhile Char.isDigit := by
  induction word with
  | nil => exact ⟨rfl, rfl⟩
  | cons c rest ih =>
      by_cases is : c.isDigit = true
      · rw [List.takeWhile_cons_of_pos is] at octal
        have here : isDigitIn 8 c = true := by simp [isDigitIn_eight, is, octal c (by simp)]
        obtain ⟨taken, dropped⟩ := ih fun d member => octal d (List.mem_cons_of_mem _ member)
        rw [List.takeWhile_cons_of_pos is, List.takeWhile_cons_of_pos here, List.dropWhile_cons_of_pos is,
          List.dropWhile_cons_of_pos here, taken, dropped]
        exact ⟨rfl, rfl⟩
      · have here : ¬ isDigitIn 8 c = true := by simp [isDigitIn_eight, is]
        rw [List.takeWhile_cons_of_neg is, List.takeWhile_cons_of_neg here, List.dropWhile_cons_of_neg is,
          List.dropWhile_cons_of_neg here]
        exact ⟨rfl, rfl⟩

/-- An `8` or a `9` ends the octal digits and is no suffix. -/
theorem octal_of_suffix {word : Text} (suffix : (word.dropWhile (isDigitIn 8)).all isSuffix = true) :
    ∀ c ∈ word.takeWhile Char.isDigit, c < '8' := by
  induction word with
  | nil => exact fun _ is => absurd is List.not_mem_nil
  | cons c rest ih =>
      by_cases is : c.isDigit = true
      · by_cases octal : c < '8'
        · have here : isDigitIn 8 c = true := by simp [isDigitIn_eight, is, octal]
          rw [List.dropWhile_cons_of_pos here] at suffix
          rw [List.takeWhile_cons_of_pos is]
          exact List.forall_mem_cons.mpr ⟨octal, ih suffix⟩
        · have here : ¬ isDigitIn 8 c = true := by simp [isDigitIn_eight, octal]
          rw [List.dropWhile_cons_of_neg here, List.all_cons, Bool.and_eq_true] at suffix
          have no : isSuffix c = false := by
            have bounds := isDigit_bounds is
            have apart : ∀ d : Char, 58 ≤ d.toNat → (c == d) = false := by
              intro d large
              rw [beq_eq_false_iff_ne]
              rintro rfl
              omega
            rw [isSuffix, apart 'u' (by decide), apart 'U' (by decide), apart 'l' (by decide), apart 'L' (by decide)]
            rfl
          rw [no] at suffix
          cases suffix.1
      · rw [List.takeWhile_cons_of_neg is]
        exact fun _ is => absurd is List.not_mem_nil

theorem isDigitIn_ten_eq : isDigitIn 10 = Char.isDigit := funext isDigitIn_ten

theorem constantIn_eq_some {base : ℕ} {body : Text} {n : ℕ} (is : constantIn base body = some n) :
    body.takeWhile (isDigitIn base) ≠ [] ∧ (body.dropWhile (isDigitIn base)).all isSuffix = true ∧
      digitsValue base (body.takeWhile (isDigitIn base)) = n := by
  rw [constantIn] at is
  split_ifs at is with both
  exact ⟨both.1, both.2, Option.some.inj is⟩

/-- What a decimal word is worth when it is read as octal. -/
theorem constantIn_eight {word : Text} {v : ℕ} (decimal : constantIn 10 word = some v) :
    (sameInOctal word = true → constantIn 8 word = some v) ∧
      ∀ n, constantIn 8 word = some n → n ≤ v ∧ (n = v → sameInOctal word = true) := by
  obtain ⟨some_digit, suffix, value⟩ := constantIn_eq_some decimal
  rw [isDigitIn_ten_eq] at some_digit suffix value
  have digits : ∀ c ∈ word.takeWhile Char.isDigit, c.isDigit = true := fun c is => List.all_eq_true.mp List.all_takeWhile c is
  obtain ⟨init, d, is⟩ := (List.eq_nil_or_concat' _).resolve_left some_digit
  have same : sameInOctal word = true ↔ (∀ c ∈ init, c = '0') ∧ d < '8' := by
    rw [sameInOctal, is]
    simp
  constructor
  · intro readable
    obtain ⟨zeros, last⟩ := same.mp readable
    have octal : ∀ c ∈ word.takeWhile Char.isDigit, c < '8' := by
      intro c member
      rw [is] at member
      rcases List.mem_append.mp member with old | new
      · rw [zeros c old]
        decide
      · rwa [List.mem_singleton.mp new]
    obtain ⟨taken, dropped⟩ := takeWhile_octal octal
    have equal : digitsValue 8 (init ++ [d]) = digitsValue 10 (init ++ [d]) :=
      (digitsValue_eight_eq_iff fun c member => ⟨digits c (is ▸ member), octal c (is ▸ member)⟩).mpr zeros
    rw [constantIn, taken, dropped, if_pos ⟨some_digit, suffix⟩, is, equal, ← is, value]
  · intro n read
    obtain ⟨-, suffix8, value8⟩ := constantIn_eq_some read
    have octal := octal_of_suffix suffix8
    have both : ∀ c ∈ word.takeWhile Char.isDigit, c.isDigit = true ∧ c < '8' := fun c is => ⟨digits c is, octal c is⟩
    rw [(takeWhile_octal octal).1] at value8
    refine ⟨?_, fun equal => ?_⟩
    · rw [← value8, ← value]
      exact digitsValue_eight_le both
    · rw [← value8, ← value, is] at equal
      rw [is] at both
      exact same.mpr ⟨(digitsValue_eight_eq_iff both).mp equal, (both d (by simp)).2⟩

/-- A leading zero makes no difference to a readable word, and makes the value of another one smaller. -/
theorem constant_of_numeral {word : Text} {v : ℕ} (is : numeral word = some v) :
    (readable word = true → constant word = some v) ∧
      ∀ n, constant word = some n → n ≤ v ∧ (n = v → readable word = true) := by
  rw [numeral] at is
  rw [constant, readable]
  by_cases hex : isHex word = true
  · rw [if_pos hex] at is ⊢
    refine ⟨fun _ => is, fun n same => ?_⟩
    cases is.symm.trans same
    exact ⟨Nat.le_refl _, fun _ => by rw [hex]; rfl⟩
  · rw [if_neg hex] at is ⊢
    by_cases zero : word.head? = some '0'
    · rw [if_pos zero]
      obtain ⟨forward, backward⟩ := constantIn_eight is
      refine ⟨fun readable => forward ?_, fun n read => ⟨(backward n read).1, fun same => ?_⟩⟩
      · simpa [hex, zero] using readable
      · simp [(backward n read).2 same]
    · rw [if_neg zero]
      refine ⟨fun _ => is, fun n same => ?_⟩
      cases is.symm.trans same
      exact ⟨Nat.le_refl _, fun _ => by simp [zero]⟩

/-! ## The letters of a constant -/

/-- Letters of digits, suffixes and the hexadecimal prefix. -/
def isConstantChar (c : Char) : Bool := isDigitIn 16 c || isSuffix c || c == 'x' || c == 'X'

theorem isDigitIn_hex {base : ℕ} {c : Char} (is : isDigitIn base c = true) : isDigitIn 16 c = true := by
  rw [isDigitIn, digit] at is ⊢
  by_cases digit : c.isDigit = true
  · have bounds := isDigit_bounds digit
    have lt : c.toNat - 48 < 16 := by omega
    rw [if_pos digit]
    simp [Option.filter, lt]
  · rw [if_neg digit] at is ⊢
    by_cases same : base = 16
    · rwa [same] at is
    · rw [if_neg (fun both => same both.1), if_neg (fun both => same both.1)] at is
      cases is

theorem constantIn_chars {base : ℕ} {body : Text} {n : ℕ} (is : constantIn base body = some n) :
    ∀ c ∈ body, isConstantChar c = true := by
  obtain ⟨-, suffix, -⟩ := constantIn_eq_some is
  intro c member
  rw [← List.takeWhile_append_dropWhile (p := isDigitIn base) (l := body)] at member
  rw [isConstantChar]
  rcases List.mem_append.mp member with taken | dropped
  · rw [isDigitIn_hex (List.all_eq_true.mp List.all_takeWhile c taken)]
    rfl
  · rw [List.all_eq_true.mp suffix c dropped, Bool.or_true]
    rfl

theorem hex_chars {word : Text} (hex : isHex word = true) (body : ∀ c ∈ word.drop 2, isConstantChar c = true) :
    ∀ c ∈ word, isConstantChar c = true := by
  rcases word with - | ⟨zero, - | ⟨x, rest⟩⟩
  · cases hex
  · cases hex
  · have parts : zero = '0' ∧ (x = 'x' ∨ x = 'X') := by
      simp only [isHex, List.head?_cons, List.tail_cons, Bool.and_eq_true, Bool.or_eq_true, beq_iff_eq,
        Option.some.injEq] at hex
      exact ⟨hex.1.2, hex.2⟩
    obtain ⟨rfl, x_is⟩ := parts
    intro c member
    rcases List.mem_cons.mp member with rfl | later
    · decide
    · rcases List.mem_cons.mp later with rfl | deeper
      · rcases x_is with rfl | rfl <;> decide
      · exact body c deeper

theorem numeral_chars {word : Text} {v : ℕ} (is : numeral word = some v) : ∀ c ∈ word, isConstantChar c = true := by
  rw [numeral] at is
  split_ifs at is with hex
  · exact hex_chars hex (constantIn_chars is)
  · exact constantIn_chars is

theorem constant_chars {word : Text} {v : ℕ} (is : constant word = some v) : ∀ c ∈ word, isConstantChar c = true := by
  rw [constant] at is
  split_ifs at is with hex
  · exact hex_chars hex (constantIn_chars is)
  · exact constantIn_chars is
  · exact constantIn_chars is

theorem constantIn_head {base : ℕ} {word : Text} {n : ℕ} (small : base ≠ 16) (is : constantIn base word = some n) :
    ∃ c rest, word = c :: rest ∧ c.isDigit = true := by
  obtain ⟨some_digit, -, -⟩ := constantIn_eq_some is
  cases word with
  | nil => exact absurd rfl some_digit
  | cons c rest =>
      refine ⟨c, rest, rfl, ?_⟩
      by_contra not
      have here : ¬ isDigitIn base c = true := by
        rw [isDigitIn, digit_of_not small not]
        decide
      exact some_digit (List.takeWhile_cons_of_neg here)

theorem hex_head {word : Text} (hex : isHex word = true) : ∃ c rest, word = c :: rest ∧ c.isDigit = true := by
  cases word with
  | nil => cases hex
  | cons c rest =>
      simp only [isHex, List.head?_cons, Bool.and_eq_true, beq_iff_eq, Option.some.injEq] at hex
      exact ⟨c, rest, rfl, by rw [hex.1.2]; decide⟩

theorem numeral_head {word : Text} {v : ℕ} (is : numeral word = some v) :
    ∃ c rest, word = c :: rest ∧ c.isDigit = true := by
  rw [numeral] at is
  split_ifs at is with hex
  · exact hex_head hex
  · exact constantIn_head (by decide) is

theorem constant_head {word : Text} {v : ℕ} (is : constant word = some v) :
    ∃ c rest, word = c :: rest ∧ c.isDigit = true := by
  rw [constant] at is
  split_ifs at is with hex
  · exact hex_head hex
  · exact constantIn_head (by decide) is
  · exact constantIn_head (by decide) is

theorem isWordChar_of_constant {c : Char} (is : isConstantChar c = true) : isWordChar c = true := by
  simp only [isConstantChar, isDigitIn, digit, isSuffix, Bool.or_eq_true, beq_iff_eq] at is
  rw [isWordChar, Char.isAlphanum, Char.isAlpha]
  rcases is with ((is | ((rfl | rfl) | rfl) | rfl) | rfl) | rfl
  · by_cases first : c.isDigit = true
    · simp [first]
    · rw [if_neg first] at is
      by_cases lower : 'a' ≤ c ∧ c ≤ 'f'
      · have : c.isLower = true := by
          have low : (97 : UInt32) ≤ c.val := lower.1
          have high : c.val ≤ (102 : UInt32) := lower.2
          simp only [Char.isLower, Bool.and_eq_true, decide_eq_true_eq]
          exact ⟨low, UInt32.le_trans high (by decide)⟩
        simp [this]
      · rw [if_neg (fun all => lower all.2)] at is
        by_cases upper : 'A' ≤ c ∧ c ≤ 'F'
        · have : c.isUpper = true := by
            have low : (65 : UInt32) ≤ c.val := upper.1
            have high : c.val ≤ (70 : UInt32) := upper.2
            simp only [Char.isUpper, decide_eq_true_eq]
            exact ⟨low, UInt32.le_trans high (by decide)⟩
          simp [this]
        · rw [if_neg (fun all => upper all.2)] at is
          cases is
  all_goals decide

/-! ## Where a token stands -/

inductive Mode where
  | code | slash | string | stringEscape | character | characterEscape | lineComment | blockComment | blockStar
deriving DecidableEq

/-- Inside or outside of strings and comments, the operators `?` that wait in a case label, and whether the
last token is a point. -/
structure Place where
  mode : Mode
  label : Option ℕ
  dot : Bool

def quotation : Char := Char.ofNat 34

def apostrophe : Char := Char.ofNat 39

def backslash : Char := Char.ofNat 92

def newline : Char := Char.ofNat 10

/-- A character of the program itself. -/
def Mode.opening (c : Char) : Mode :=
  if c = quotation then .string else if c = apostrophe then .character else if c = '/' then .slash else .code

def Mode.letter : Mode → Char → Mode
  | .code, c => Mode.opening c
  | .slash, c => if c = '/' then .lineComment else if c = '*' then .blockComment else Mode.opening c
  | .string, c => if c = quotation then .code else if c = backslash then .stringEscape else .string
  | .stringEscape, _ => .string
  | .character, c => if c = apostrophe then .code else if c = backslash then .characterEscape else .character
  | .characterEscape, _ => .character
  | .lineComment, c => if c = newline then .code else .lineComment
  | .blockComment, c => if c = '*' then .blockStar else .blockComment
  | .blockStar, c => if c = '/' then .code else if c = '*' then .blockStar else .blockComment

def Mode.word : Mode → Mode
  | .slash => .code
  | .stringEscape => .string
  | .characterEscape => .character
  | .blockStar => .blockComment
  | mode => mode

def Mode.program (mode : Mode) : Bool := mode == .code || mode == .slash

namespace Place

def start : Place := ⟨.code, none, false⟩

def caseWord : Text := ['c', 'a', 's', 'e']

def word (place : Place) (w : Text) : Place :=
  ⟨place.mode.word, if place.mode.program && w == caseWord then some 0 else place.label, false⟩

/-- The label after a character of the program: a `:` ends it unless a `?` waits for one. -/
def labelAfter (label : Option ℕ) (c : Char) : Option ℕ :=
  if c = '?' then label.map (· + 1)
  else if c = ':' then label.bind fun waiting => if waiting = 0 then none else some (waiting - 1)
  else label

def letter (place : Place) (c : Char) : Place :=
  ⟨place.mode.letter c, if place.mode.program then labelAfter place.label c else place.label, c == '.'⟩

def read (place : Place) (t : Token) : Place := if t.word then place.word t.text else t.text.foldl letter place

/-- A whole constant may stand here, and an expression may stand in for it. -/
def free (place : Place) : Bool := place.mode.program && place.label.isNone && !place.dot

end Place

end Segarecomp.CTokens

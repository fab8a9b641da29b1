import Mathlib.Tactic

/-! A strict sequential reader: every literal and number is where it is expected, or the text is refused. -/

namespace Segarecomp.Lib.Cursor

/-- Takes something off the front of a text. A refused text stays refused. -/
abbrev Reader (α : Type) := StateT (List Char) Option α

def expect (literal : List Char) : Reader Unit := fun text =>
  if literal <+: text then some ((), text.drop literal.length) else none

def require (condition : Prop) [Decidable condition] : Reader Unit := fun text =>
  if condition then some ((), text) else none

/-- The longest run of characters of a kind. -/
def run (kind : Char → Bool) : Reader (List Char) := fun text => some (text.takeWhile kind, text.dropWhile kind)

/-- The digits of a number whose first digits have `value`. -/
def digits (limit value : ℕ) : Reader ℕ
  | [] => some (value, [])
  | c :: text =>
    if c.isDigit = false then some (value, c :: text)
    else if limit < value * 10 + (c.toNat - 48) then none
    else digits limit (value * 10 + (c.toNat - 48)) text

def StartsDigit (text : List Char) : Prop := ∃ c ∈ text.head?, c.isDigit = true

instance (text : List Char) : Decidable (StartsDigit text) := by
  unfold StartsDigit
  cases text with
  | nil => exact isFalse fun ⟨c, is, _⟩ => Option.not_mem_none c is
  | cons c text => exact decidable_of_iff (c.isDigit = true) (by simp)

/-- At least one digit, and no leading zeros. -/
def decimal (limit : ℕ) : Reader ℕ := fun text =>
  if StartsDigit text ∧ ¬(text.head? = some '0' ∧ StartsDigit text.tail) then digits limit 0 text else none

/-- The text from the first occurrence of the needle. -/
def find (needle : List Char) : List Char → Option (List Char)
  | [] => if needle = [] then some [] else none
  | c :: text => if needle <+: c :: text then some (c :: text) else find needle text

variable {α β : Type} {p : Reader α} {f : α → Reader β} {a : α} {text rest literal : List Char} {limit value n : ℕ}

/-! ## Steps -/

theorem bind_some (taken : p text = some (a, rest)) : (p >>= f) text = f a rest := by
  change (p text >>= fun step => f step.1 step.2) = _
  rw [taken]
  rfl

theorem bind_none (refused : p text = none) : (p >>= f) text = none := by
  change (p text >>= fun step => f step.1 step.2) = _
  rw [refused]
  rfl

theorem expect_append (literal rest : List Char) : expect literal (literal ++ rest) = some ((), rest) := by
  rw [expect, if_pos (List.prefix_append _ _), List.drop_left]

theorem require_pos {condition : Prop} [Decidable condition] (holds : condition) :
    require condition text = some ((), text) :=
  if_pos holds

theorem require_neg {condition : Prop} [Decidable condition] (fails : ¬condition) :
    require condition text = none :=
  if_neg fails

theorem run_append {kind : Char → Bool} (all : ∀ c ∈ text, kind c = true) (ends : ∀ c ∈ rest.head?, kind c = false) :
    run kind (text ++ rest) = some (text, rest) := by
  have stops : rest.takeWhile kind = [] ∧ rest.dropWhile kind = rest := by
    cases rest with
    | nil => exact ⟨rfl, rfl⟩
    | cons c rest =>
        have other := ends c rfl
        rw [List.takeWhile_cons, List.dropWhile_cons, other]
        exact ⟨rfl, rfl⟩
  rw [run, List.takeWhile_append_of_pos all, List.dropWhile_append_of_pos all, stops.1, stops.2, List.append_nil]

/-! ## Numbers -/

theorem not_startsDigit_append (head : literal.head? = some ',') : ¬StartsDigit (literal ++ rest) := by
  rintro ⟨c, first, digit⟩
  rw [List.head?_append, head, Option.some_or] at first
  rw [← Option.some.inj first] at digit
  cases digit

theorem digits_ends (ends : ¬StartsDigit rest) : digits limit value rest = some (value, rest) := by
  cases rest with
  | nil => rfl
  | cons c rest =>
      have other : c.isDigit = false := Bool.eq_false_of_not_eq_true fun digit => ends ⟨c, rfl, digit⟩
      rw [digits, if_pos other]

theorem digits_digitChar {d : ℕ} (small : d < 10) (text : List Char) :
    digits limit value (d.digitChar :: text) =
      if limit < value * 10 + d then none else digits limit (value * 10 + d) text := by
  have digit : d.digitChar.isDigit ≠ false := by
    rw [Nat.isDigit_digitChar, decide_eq_true small]
    decide
  rw [digits, if_neg digit, Nat.toNat_digitChar_sub_48_of_lt_ten small]

/-- The digits of a number within the limit are taken, and of no other. -/
theorem digits_toDigits (n : ℕ) (text : List Char) :
    digits limit 0 (Nat.toDigits 10 n ++ text) = if limit < n then none else digits limit n text := by
  induction n using Nat.strong_induction_on generalizing text with
  | _ n ih =>
      rcases Nat.lt_or_ge n 10 with small | large
      · rw [Nat.toDigits_of_lt_base small, List.singleton_append, digits_digitChar small, Nat.zero_mul, Nat.zero_add]
      · have low := Nat.mod_lt n (by decide : 0 < 10)
        have whole := Nat.div_add_mod' n 10
        rw [Nat.toDigits_of_base_le (by decide) large, List.append_assoc, ih (n / 10) (by omega), List.singleton_append,
          digits_digitChar low, whole]
        by_cases high : limit < n / 10
        · rw [if_pos high, if_pos (by omega)]
        · rw [if_neg high]

theorem toDigits_head (n : ℕ) (text : List Char) :
    StartsDigit (Nat.toDigits 10 n ++ text) ∧
      ((Nat.toDigits 10 n ++ text).head? = some '0' → (Nat.toDigits 10 n ++ text).tail = text) := by
  induction n using Nat.strong_induction_on generalizing text with
  | _ n ih =>
      rcases Nat.lt_or_ge n 10 with small | large
      · rw [Nat.toDigits_of_lt_base small, List.singleton_append]
        constructor
        · exact ⟨_, rfl, by rw [Nat.isDigit_digitChar, decide_eq_true small]⟩
        · exact fun _ => rfl
      · have high := ih (n / 10) (by omega) ([(n % 10).digitChar] ++ text)
        rw [Nat.toDigits_of_base_le (by decide) large, List.append_assoc]
        exact ⟨high.1, fun zero => absurd zero (head_ne_zero (by omega) _)⟩
where
  head_ne_zero {n : ℕ} (positive : 0 < n) (text : List Char) : (Nat.toDigits 10 n ++ text).head? ≠ some '0' := by
    induction n using Nat.strong_induction_on generalizing text with
    | _ n ih =>
        rcases Nat.lt_or_ge n 10 with small | large
        · rw [Nat.toDigits_of_lt_base small, List.singleton_append, List.head?_cons]
          intro zero
          rw [Option.some.injEq, Nat.digitChar_eq_zero] at zero
          omega
        · rw [Nat.toDigits_of_base_le (by decide) large, List.append_assoc]
          exact ih (n / 10) (by omega) (by omega) _

theorem decimal_toDigits (n : ℕ) (ends : ¬StartsDigit rest) :
    decimal limit (Nat.toDigits 10 n ++ rest) = if limit < n then none else some (n, rest) := by
  have head := toDigits_head n rest
  rw [decimal, if_pos ⟨head.1, fun zero => ends (head.2 zero.1 ▸ zero.2)⟩, digits_toDigits, digits_ends ends]

theorem decimal_append (fits : n ≤ limit) (ends : ¬StartsDigit rest) :
    decimal limit (Nat.toDigits 10 n ++ rest) = some (n, rest) := by
  rw [decimal_toDigits n ends, if_neg (Nat.not_lt.mpr fits)]

/-! ## Search -/

/-- A needle is not found ahead of itself when one of its characters does not occur there. -/
theorem find_append {before after head : List Char} {c : Char} (first : c ∉ before) (clean : c ∉ head) :
    find (before ++ c :: after) (head ++ (before ++ c :: after ++ rest)) = some (before ++ c :: after ++ rest) := by
  induction head with
  | nil =>
      cases found : before ++ c :: after ++ rest with
      | nil =>
          rw [List.append_assoc, List.append_eq_nil_iff] at found
          cases found.2
      | cons d text =>
          have is : before ++ c :: after <+: d :: text := found ▸ List.prefix_append _ _
          rw [List.nil_append, find, if_pos is]
  | cons d head ih =>
      have later := ih fun other => clean (List.mem_cons_of_mem _ other)
      have misses : ¬before ++ c :: after <+: d :: (head ++ (before ++ c :: after ++ rest)) := by
        rintro ⟨rest', same⟩
        -- the character stands at one place of both texts, which is ahead of the needle in one
        have place : (before ++ c :: after ++ rest')[before.length]? = some c := by simp
        rw [same, List.append_assoc before, ← List.append_assoc, ← List.cons_append, List.getElem?_append_left (by simp)] at place
        have here := List.mem_of_getElem? place
        rw [List.mem_cons, List.mem_append] at here
        rcases here with now | past | early
        · exact clean (now ▸ List.mem_cons_self)
        · exact clean (List.mem_cons_of_mem _ past)
        · exact first early
      rw [List.cons_append, find, if_neg misses]
      exact later

end Segarecomp.Lib.Cursor

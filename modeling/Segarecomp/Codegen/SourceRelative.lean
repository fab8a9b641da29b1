import Segarecomp.Lib.CTokens
import Segarecomp.Lib.IntegerText

/-! Source-relative text: three lowerings of one instruction are walked token by token, and a literal that
moves with the program counter becomes an offset from it. -/

namespace Segarecomp.SourceRelative

open CTokens (Text Token isWordChar isHex isSuffix digit)

inductive Status where
  | ok | token_structure | literal_not_linear | literal_suffix | constant_context
deriving DecidableEq

structure SourceRelativeText where
  status : Status
  text : Text
  relativeLiterals : ℕ
deriving DecidableEq

/-- The three lowerings; the first is the base text. -/
inductive Probe where
  | first | second | third
deriving DecidableEq

/-- A token carries its characters; its offset is the length of the tokens before it. -/
def tokenize (text : Text) : List Token := Words.tokenize isWordChar text

/-! ## Literals -/

structure Literal where
  value : ℕ
  suffix : Text
deriving DecidableEq

/-- The digits of a word and what follows them; `none` when the value is wider than a guest address. -/
def readDigits (base : ℕ) : ℕ → Text → Option (ℕ × Text)
  | value, [] => some (value, [])
  | value, c :: rest =>
      (digit base c).elim (some (value, c :: rest)) fun d =>
        if 0xFFFFFFFF < value * base + d then none else readDigits base (value * base + d) rest

/-- A decimal or hexadecimal literal with an integer suffix. -/
def parseLiteral (word : Text) : Option Literal :=
  if word.head?.any Char.isDigit = false then none
  else
    let base := if isHex word then 16 else 10
    let body := if isHex word then word.drop 2 else word
    (readDigits base 0 body).bind fun read =>
      if read.2.length = body.length then none
      else if read.2.all isSuffix then some ⟨read.1, read.2⟩
      else none

def Literal.word (literal : Literal) : BitVec 32 := BitVec.ofNat 32 literal.value

/-! ## The walk -/

def endsWith (text : Text) (offset : ℕ) (tail : Text) : Bool :=
  decide (tail.length ≤ offset) && ((text.drop (offset - tail.length)).take tail.length == tail)

def macroName : Text := ['U', 'I', 'N', 'T', '3', '2', '_', 'C']

def macroCall : Text := macroName ++ ['(']

def caseBlank : Text := CTokens.Place.caseWord ++ [' ']

def caseTab : Text := CTokens.Place.caseWord ++ ['\t']

def hex8 (v : BitVec 32) : Text := IntegerText.hexText 8 v.toNat

/-- `(uint32_t)(<symbol> + UINT32_C(0x<delta>))` -/
def expression (symbol : Text) (delta : BitVec 32) : Text :=
  ['(', 'u', 'i', 'n', 't', '3', '2', '_', 't', ')', '('] ++ symbol ++ [' ', '+', ' '] ++ macroCall ++ ['0', 'x'] ++
    hex8 delta ++ [')', ')']

/-- The tokens at one place of the three texts: they agree, or they are literals that move with the program
counter and keep their suffix, or the walk ends. -/
def judge (pcs : Probe → BitVec 32) (t : Probe → Token) : Except Status (Option (BitVec 32)) :=
  let a := t .first
  let b := t .second
  let c := t .third
  if a.word ≠ b.word ∨ a.word ≠ c.word then .error .token_structure
  else if a.word = false then
    if a.text ≠ b.text ∨ a.text ≠ c.text then .error .token_structure else .ok none
  else if a.text = b.text ∧ a.text = c.text then .ok none
  else
    match parseLiteral a.text, parseLiteral b.text, parseLiteral c.text with
    | some la, some lb, some lc =>
        if la.suffix ≠ lb.suffix ∨ la.suffix ≠ lc.suffix then .error .literal_suffix
        else if lb.word - la.word ≠ pcs .second - pcs .first ∨ lc.word - la.word ≠ pcs .third - pcs .first then
          .error .literal_not_linear
        else .ok (some (la.word - pcs .first))
    | _, _, _ => .error .token_structure

/-- What is replaced for the literal of the base text from `start` to `stop`: a macro call as a whole. -/
def replaced (base : Text) (start stop : ℕ) : ℕ × ℕ :=
  if endsWith base start macroCall && base[stop]? == some ')' then (start - macroCall.length, stop + 1)
  else (start, stop)

def fail (status : Status) (count : ℕ) : SourceRelativeText := ⟨status, [], count⟩

/-- `offset` is where the next token begins in the base text, of which the part before `copied` is in `out`. -/
def walk (base : Text) (pcs : Probe → BitVec 32) (symbol : Text) :
    List (Probe → Token) → ℕ → ℕ → Text → ℕ → SourceRelativeText
  | [], _, copied, out, count => ⟨.ok, out ++ base.drop copied, count⟩
  | t :: rest, offset, copied, out, count =>
      let stop := offset + (t .first).text.length
      match judge pcs t with
      | .error status => fail status count
      | .ok none => walk base pcs symbol rest stop copied out count
      | .ok (some delta) =>
          let span := replaced base offset stop
          if endsWith base span.1 caseBlank || endsWith base span.1 caseTab then fail .constant_context count
          else if span.1 < copied then fail .token_structure count
          else
            walk base pcs symbol rest stop span.2
              (out ++ (base.drop copied).take (span.1 - copied) ++ expression symbol delta) (count + 1)

/-- The tokens at place `i`. -/
def column (tokens : Probe → List Token) (i : ℕ) : Probe → Token := fun p => (tokens p).getD i ⟨[], false⟩

def columns (tokens : Probe → List Token) : List (Probe → Token) :=
  (List.range (tokens .first).length).map (column tokens)

def deriveSourceRelativeText (texts : Probe → Text) (pcs : Probe → BitVec 32) (symbol : Text) : SourceRelativeText :=
  let tokens := fun p => tokenize (texts p)
  if (tokens .first).length ≠ (tokens .second).length ∨ (tokens .first).length ≠ (tokens .third).length then
    fail .token_structure 0
  else walk (texts .first) pcs symbol (columns tokens) 0 0 [] 0

/-! ## The verdict on a place -/

/-- The tokens are literals that move by the difference of the program counters. -/
structure Moves (pcs : Probe → BitVec 32) (t : Probe → Token) (delta : BitVec 32) : Prop where
  word : ∀ p, (t p).word = true
  different : ∃ p q, (t p).text ≠ (t q).text
  literal : ∃ suffix, ∀ p, ∃ value, parseLiteral (t p).text = some ⟨value, suffix⟩ ∧ BitVec.ofNat 32 value = pcs p + delta

/-- The tokens are the same. -/
def Same (t : Probe → Token) : Prop := ∀ p, t p = t .first

variable {pcs : Probe → BitVec 32} {t : Probe → Token} {delta : BitVec 32}

theorem token_eq {a b : Token} (text : a.text = b.text) (word : a.word = b.word) : a = b := by
  cases a
  cases b
  cases text
  cases word
  rfl

theorem offset_self (a p : BitVec 32) : a = p + (a - p) := by bv_omega

theorem offset_linear {a b p q : BitVec 32} (linear : b - a = q - p) : b = q + (a - p) := by bv_omega

theorem judge_same (same : Same t) : judge pcs t = .ok none := by
  rw [judge, same .second, same .third]
  simp

theorem same_of_judge (is : judge pcs t = .ok none) : Same t := by
  have texts : (t .first).word = (t .second).word ∧ (t .first).word = (t .third).word ∧
      (t .first).text = (t .second).text ∧ (t .first).text = (t .third).text := by
    rw [judge] at is
    split at is
    · cases is
    · rename_i words
      obtain ⟨second, third⟩ := not_or.mp words
      refine ⟨not_not.mp second, not_not.mp third, ?_⟩
      split at is
      · split at is
        · cases is
        · rename_i agree
          exact (not_or.mp agree).imp not_not.mp not_not.mp
      · split at is
        · assumption
        · split at is
          · split at is
            · cases is
            · split at is
              · cases is
              · cases is
          · cases is
  obtain ⟨wordb, wordc, textb, textc⟩ := texts
  intro p
  cases p with
  | first => rfl
  | second => exact token_eq textb.symm wordb.symm
  | third => exact token_eq textc.symm wordc.symm

theorem moves_of_judge (is : judge pcs t = .ok (some delta)) : Moves pcs t delta := by
  rw [judge] at is
  split at is
  · cases is
  · rename_i words
    obtain ⟨second, third⟩ := not_or.mp words
    split at is
    · split at is <;> cases is
    · rename_i word
      rw [Bool.not_eq_false] at word
      split at is
      · cases is
      · rename_i differ
        split at is
        · rename_i la lb lc ha hb hc
          split at is
          · cases is
          · rename_i suffix
            obtain ⟨suffixb, suffixc⟩ := not_or.mp suffix
            split at is
            · cases is
            · rename_i linear
              obtain ⟨linearb, linearc⟩ := not_or.mp linear
              cases is
              refine ⟨fun p => ?_, ?_, la.suffix, fun p => ?_⟩
              · cases p with
                | first => exact word
                | second => rw [← not_not.mp second]; exact word
                | third => rw [← not_not.mp third]; exact word
              · rcases not_and_or.mp differ with other | other
                · exact ⟨_, _, other⟩
                · exact ⟨_, _, other⟩
              · cases p with
                | first => exact ⟨la.value, ha, offset_self la.word _⟩
                | second => exact ⟨lb.value, by rw [hb, not_not.mp suffixb], offset_linear (not_not.mp linearb)⟩
                | third => exact ⟨lc.value, by rw [hc, not_not.mp suffixc], offset_linear (not_not.mp linearc)⟩
        · cases is

theorem judge_moves (moves : Moves pcs t delta) : judge pcs t = .ok (some delta) := by
  obtain ⟨suffix, literal⟩ := moves.literal
  obtain ⟨a, ha, va⟩ := literal .first
  obtain ⟨b, hb, vb⟩ := literal .second
  obtain ⟨c, hc, vc⟩ := literal .third
  have differ : ¬ ((t .first).text = (t .second).text ∧ (t .first).text = (t .third).text) := by
    rintro ⟨textb, textc⟩
    have all : ∀ p, (t p).text = (t .first).text := by
      intro p
      cases p with
      | first => rfl
      | second => exact textb.symm
      | third => exact textc.symm
    obtain ⟨p, q, other⟩ := moves.different
    exact other ((all p).trans (all q).symm)
  have words : ¬ ((t .first).word ≠ (t .second).word ∨ (t .first).word ≠ (t .third).word) := by
    simp [moves.word]
  have word : ¬ (t .first).word = false := by simp [moves.word]
  have linear : ¬ ((Literal.mk b suffix).word - (Literal.mk a suffix).word ≠ pcs .second - pcs .first ∨
      (Literal.mk c suffix).word - (Literal.mk a suffix).word ≠ pcs .third - pcs .first) := by
    rw [Literal.word, Literal.word, Literal.word, va, vb, vc]
    bv_omega
  rw [judge, if_neg words, if_neg word, if_neg differ, ha, hb, hc]
  dsimp only
  rw [if_neg (by simp), if_neg linear, Literal.word, va, BitVec.add_comm, BitVec.add_sub_cancel]

end Segarecomp.SourceRelative

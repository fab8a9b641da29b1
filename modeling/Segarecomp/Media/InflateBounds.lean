import Mathlib.Data.List.GetD
import Mathlib.Tactic
import Segarecomp.Lib.Checked
import Segarecomp.Media.InflateCorrect

/-! The inflater with every access to its input checked and every loop that runs out of rounds made
visible. It computes what the inflater does: the loops end and no byte is read past the input. -/

namespace Segarecomp.Media.InflateBounds

open Lib.Checked
open Inflate (Byte Inflater Huff)

/-- The bits the reader has not given out. -/
def left (input : List Byte) (s : Inflater) : ℕ := 8 * (input.length - s.pos) + s.bitCount

/-- `in_[pos]` -/
def byteAt (input : List Byte) (pos : ℕ) : Except (Stop Unit) ℕ := do
  let b ← item input pos
  pure b.toNat

def refill (input : List Byte) (need : ℕ) : (room : ℕ) → Inflater → Except (Stop Unit) Inflater
  | 0, s => if s.bitCount < need then .error .unfinished else .ok s
  | room + 1, s =>
      if s.bitCount < need then
        if s.pos ≥ input.length then .ok { s with failed := true }
        else do
          let b ← byteAt input s.pos
          refill input need room { s with
            bitBuf := (s.bitBuf ||| b <<< s.bitCount) % 2 ^ 32
            pos := s.pos + 1
            bitCount := s.bitCount + 8 }
      else .ok s

def bits (input : List Byte) (need : ℕ) (s : Inflater) : Except (Stop Unit) (ℕ × Inflater) := do
  let s ← refill input need need s
  if s.bitCount < need then pure (0, s)
  else
    pure (s.bitBuf &&& (1 <<< need - 1),
      { s with bitBuf := s.bitBuf >>> need, bitCount := s.bitCount - need })

def decodeLoop (input : List Byte) (h : Huff) :
    (room code first index : ℕ) → Inflater → Except (Stop Unit) (ℕ × Inflater)
  | 0, _, _, _, _ => .error (.refused ())
  | room + 1, code, first, index, s => do
      let (bit, s) ← bits input 1 s
      let code := code ||| bit
      if s.failed then .error (.refused ())
      else
        let count := h.count.getD (15 - room) 0
        if (code : ℤ) - count < first then pure (h.symbol.getD (index + (code - first)) 0, s)
        else decodeLoop input h room (code <<< 1) ((first + count) <<< 1) (index + count) s

def decode (input : List Byte) (h : Huff) (s : Inflater) : Except (Stop Unit) (ℕ × Inflater) :=
  decodeLoop input h 15 0 0 0 s

/-- The match after its length code `li`. -/
def copyRound (input : List Byte) (expected : ℕ) (dist : Huff) (li : ℕ) (s : Inflater) :
    Except (Stop Unit) Inflater := do
  let (extra, s) ← bits input (Inflate.lext.getD li 0) s
  let len := Inflate.lbase.getD li 0 + extra
  let (ds, s) ← decode input dist s
  if ds ≥ 30 then .error (.refused ())
  else
    let (extra, s) ← bits input (Inflate.dext.getD ds 0) s
    let d := Inflate.dbase.getD ds 0 + extra
    if s.failed ∨ d > s.out.length ∨ len > expected - s.out.length then .error (.refused ())
    else pure { s with out := Lib.Overlap.grow (fun out _ => out.getD (out.length - d) 0) s.out len }

def block (input : List Byte) (expected : ℕ) (lit dist : Huff) :
    (room : ℕ) → Inflater → Except (Stop Unit) Inflater
  | 0, _ => .error .unfinished
  | room + 1, s => do
      let (sym, s) ← decode input lit s
      if sym < 256 then
        if s.out.length ≥ expected then .error (.refused ())
        else block input expected lit dist room { s with out := s.out ++ [BitVec.ofNat 8 sym] }
      else if sym = 256 then pure s
      else if sym - 257 ≥ 29 then .error (.refused ())
      else
        let s ← copyRound input expected dist (sym - 257) s
        block input expected lit dist room s

def readOrder (input : List Byte) : (slots cl : List ℕ) → Inflater → Except (Stop Unit) (List ℕ × Inflater)
  | [], cl, s => .ok (cl, s)
  | slot :: slots, cl, s => do
      let (v, s) ← bits input 3 s
      readOrder input slots (cl.set slot v) s

def readLengths (input : List Byte) (clh : Huff) (total : ℕ) :
    (room : ℕ) → (lens : List ℕ) → Inflater → Except (Stop Unit) (List ℕ × Inflater)
  | 0, _, _ => .error .unfinished
  | room + 1, lens, s =>
      if lens.length ≥ total then .ok (lens, s)
      else do
        let (sym, s) ← decode input clh s
        if sym < 16 then readLengths input clh total room (lens ++ [sym]) s
        else if sym = 16 ∧ lens.length = 0 then .error (.refused ())
        else
          let val := if sym = 16 then lens.getD (lens.length - 1) 0 else 0
          let shape := if sym = 16 then (3, 2) else if sym = 17 then (3, 3) else (11, 7)
          let (extra, s) ← bits input shape.2 s
          let rep := shape.1 + extra
          if s.failed ∨ lens.length + rep > total then .error (.refused ())
          else readLengths input clh total room (lens ++ List.replicate rep val) s

def storedBlock (input : List Byte) (expected : ℕ) (s : Inflater) : Except (Stop Unit) Inflater :=
  let s := { s with bitCount := 0, bitBuf := 0 }
  if s.pos + 4 > input.length then .error (.refused ())
  else do
    let b0 ← byteAt input s.pos
    let b1 ← byteAt input (s.pos + 1)
    let b2 ← byteAt input (s.pos + 2)
    let b3 ← byteAt input (s.pos + 3)
    let len := b0 ||| b1 <<< 8
    let nlen := b2 ||| b3 <<< 8
    let pos := s.pos + 4
    if len ^^^ 0xFFFF ≠ nlen ∨ len > input.length - pos ∨ len > expected - s.out.length then
      .error (.refused ())
    else
      let data ← slice input pos len
      pure { s with pos := pos + len, out := s.out ++ data }

def huffmanBlock (input : List Byte) (expected room : ℕ) (litLengths distLengths : List ℕ) (s : Inflater) :
    Except (Stop Unit) Inflater := do
  let lit ← found (Huff.build litLengths)
  let dist ← found (Huff.build distLengths)
  block input expected lit dist room s

def dynamicBlock (input : List Byte) (expected room : ℕ) (s : Inflater) : Except (Stop Unit) Inflater := do
  let (hlit, s) ← bits input 5 s
  let (hdist, s) ← bits input 5 s
  let (hclen, s) ← bits input 4 s
  let hlit := hlit + 257
  let hdist := hdist + 1
  let hclen := hclen + 4
  if s.failed ∨ hlit > 286 ∨ hdist > 30 then .error (.refused ())
  else
    let (cl, s) ← readOrder input (Inflate.order.take hclen) (List.replicate 19 0) s
    if s.failed then .error (.refused ())
    else
      let clh ← found (Huff.build cl)
      let (lens, s) ← readLengths input clh (hlit + hdist) room [] s
      huffmanBlock input expected room (lens.take hlit) ((lens.drop hlit).take hdist) s

/-- The body of a block by its type, as `run` selects it. -/
def blockOfType (input : List Byte) (expected type : ℕ) (s : Inflater) : Except (Stop Unit) Inflater :=
  if type = 0 then storedBlock input expected s
  else if type = 1 then huffmanBlock input expected (8 * input.length + 1) Inflate.fixedLit Inflate.fixedDist s
  else if type = 2 then dynamicBlock input expected (8 * input.length + 1) s
  else .error (.refused ())

def runBlocks (input : List Byte) (expected : ℕ) : (room : ℕ) → Inflater → Except (Stop Unit) Inflater
  | 0, _ => .error .unfinished
  | room + 1, s => do
      let (finalBlock, s) ← bits input 1 s
      let (type, s) ← bits input 2 s
      if s.failed then .error (.refused ())
      else
        let s ← blockOfType input expected type s
        if s.failed then .error (.refused ())
        else if finalBlock ≠ 0 then pure s
        else runBlocks input expected room s

def run (input : List Byte) (expected : ℕ) : Except (Stop Unit) (List Byte) := do
  let s ← runBlocks input expected (8 * input.length + 1) {}
  if s.out.length ≠ expected then .error (.refused ())
  else pure s.out

/-! ## What the reader consumes -/

variable {input : List Byte} {expected : ℕ}

theorem byteAt_inside {pos : ℕ} (inside : pos < input.length) :
    byteAt input pos = .ok (Inflate.byteAt input pos) := by
  rw [byteAt, item_of_lt inside, ok_bind, Inflate.byteAt, List.getD_eq_getElem input 0 inside]
  rfl

/-- Taking a byte moves its bits from the input to the buffer. -/
theorem refill_left (input : List Byte) (need room : ℕ) (s : Inflater) :
    left input (Inflate.refill input need room s) = left input s := by
  induction room generalizing s with
  | zero => rfl
  | succ room ih =>
      rw [Inflate.refill]
      split_ifs with more exhausted
      · rfl
      · rw [ih]
        simp only [left]
        omega
      · rfl

theorem refill_enough {need room : ℕ} {s : Inflater} (rounds : need ≤ room + s.bitCount)
    (live : (Inflate.refill input need room s).failed = false) :
    need ≤ (Inflate.refill input need room s).bitCount := by
  induction room generalizing s with
  | zero => simpa [Inflate.refill] using rounds
  | succ room ih =>
      rw [Inflate.refill] at live ⊢
      by_cases more : s.bitCount < need
      · rw [if_pos more] at live ⊢
        by_cases exhausted : s.pos ≥ input.length
        · rw [if_pos exhausted] at live
          cases live
        · rw [if_neg exhausted] at live ⊢
          apply ih _ live
          show need ≤ room + (s.bitCount + 8)
          omega
      · rw [if_neg more]
        exact not_lt.mp more

theorem bits_left (input : List Byte) (need : ℕ) (s : Inflater) :
    left input (Inflate.bits input need s).2 ≤ left input s := by
  have same := refill_left input need need s
  simp only [Inflate.bits]
  split_ifs with short
  · exact same.le
  · rw [← same]
    simp only [left]
    omega

theorem bits_taken {need : ℕ} {s : Inflater} (live : (Inflate.bits input need s).2.failed = false) :
    left input (Inflate.bits input need s).2 + need = left input s := by
  have same := refill_left input need need s
  have kept : (Inflate.bits input need s).2.failed = (Inflate.refill input need need s).failed := by
    simp only [Inflate.bits]
    split_ifs <;> rfl
  have enough := refill_enough (s := s) (Nat.le_add_right need _) (kept.symm.trans live)
  simp only [Inflate.bits, if_neg (not_lt.mpr enough)]
  rw [← same]
  simp only [left]
  omega

theorem decodeLoop_left {h : Huff} {room code first index : ℕ} {s t : Inflater} {sym : ℕ}
    (ok : Inflate.decodeLoop input h room code first index s = some (sym, t)) : left input t < left input s := by
  induction room generalizing code first index s with
  | zero => cases ok
  | succ room ih =>
      rw [Inflate.decodeLoop] at ok
      by_cases failed : (Inflate.bits input 1 s).2.failed = true
      · simp only [failed, if_true] at ok
        cases ok
      · have live := Bool.eq_false_iff.mpr failed
        have taken := bits_taken live
        simp only [live, Bool.false_eq_true, if_false] at ok
        split_ifs at ok
        · injection ok with pair
          injection pair with _ reader
          rw [← reader]
          omega
        · have further := ih ok
          omega

theorem decode_left {h : Huff} {s t : Inflater} {sym : ℕ} (ok : Inflate.decode input h s = some (sym, t)) :
    left input t < left input s := decodeLoop_left ok

theorem copyRound_left {dist : Huff} {li : ℕ} {s t : Inflater}
    (ok : Inflate.copyRound input expected dist li s = .continues t) : left input t ≤ left input s := by
  have length := bits_left input (Inflate.lext.getD li 0) s
  simp only [Inflate.copyRound] at ok
  cases decoded : Inflate.decode input dist (Inflate.bits input (Inflate.lext.getD li 0) s).2 with
  | none =>
      simp only [decoded] at ok
      cases ok
  | some pair =>
      have code : left input pair.2 < _ := decode_left decoded
      have distance := bits_left input (Inflate.dext.getD pair.1 0) pair.2
      simp only [decoded] at ok
      split_ifs at ok
      injection ok with same
      rw [← same]
      show left input (Inflate.bits input (Inflate.dext.getD pair.1 0) pair.2).2 ≤ left input s
      omega

theorem copyRound_goes_on {dist : Huff} {li : ℕ} {s t : Inflater} :
    Inflate.copyRound input expected dist li s ≠ .leaves t := by
  intro ok
  simp only [Inflate.copyRound] at ok
  split at ok
  · cases ok
  · split_ifs at ok

/-- Every round of a block decodes a symbol, and a symbol is at least one bit. -/
theorem blockRound_left {lit dist : Huff} {s t : Inflater}
    (ok : Inflate.blockRound input expected lit dist s = .continues t) : left input t < left input s := by
  simp only [Inflate.blockRound] at ok
  cases decoded : Inflate.decode input lit s with
  | none =>
      simp only [decoded] at ok
      cases ok
  | some pair =>
      have symbol : left input pair.2 < left input s := decode_left decoded
      simp only [decoded] at ok
      split_ifs at ok
      · injection ok with same
        rw [← same]
        exact symbol
      · exact (copyRound_left ok).trans_lt symbol

theorem blockRound_leaves {lit dist : Huff} {s t : Inflater}
    (ok : Inflate.blockRound input expected lit dist s = .leaves t) : left input t < left input s := by
  simp only [Inflate.blockRound] at ok
  cases decoded : Inflate.decode input lit s with
  | none =>
      simp only [decoded] at ok
      cases ok
  | some pair =>
      have symbol : left input pair.2 < left input s := decode_left decoded
      simp only [decoded] at ok
      split_ifs at ok
      · injection ok with same
        rw [← same]
        exact symbol
      · exact absurd ok copyRound_goes_on

theorem block_left {lit dist : Huff} {room : ℕ} {s t : Inflater}
    (ok : Inflate.block input expected lit dist room s = some t) : left input t ≤ left input s := by
  induction room generalizing s with
  | zero => cases ok
  | succ room ih =>
      rw [Inflate.block] at ok
      split at ok
      · cases ok
      · next leaves =>
          injection ok with same
          rw [← same]
          exact (blockRound_leaves leaves).le
      · next continues => exact (ih ok).trans (blockRound_left continues).le

theorem huffmanBlock_left {room : ℕ} {litLengths distLengths : List ℕ} {s t : Inflater}
    (ok : Inflate.huffmanBlock input expected room litLengths distLengths s = some t) :
    left input t ≤ left input s := by
  unfold Inflate.huffmanBlock at ok
  split at ok
  · exact block_left ok
  · cases ok

theorem readOrder_left (input : List Byte) (slots cl : List ℕ) (s : Inflater) :
    left input (Inflate.readOrder input slots cl s).2 ≤ left input s := by
  induction slots generalizing cl s with
  | nil => exact le_rfl
  | cons slot slots ih => exact (ih _ _).trans (bits_left input 3 s)

theorem readLengths_left {clh : Huff} {total room : ℕ} {lens : List ℕ} {s t : Inflater} {all : List ℕ}
    (ok : Inflate.readLengths input clh total room lens s = some (all, t)) : left input t ≤ left input s := by
  induction room generalizing lens s with
  | zero => cases ok
  | succ room ih =>
      rw [Inflate.readLengths] at ok
      by_cases full : lens.length ≥ total
      · rw [if_pos full] at ok
        cases ok
        exact le_rfl
      · rw [if_neg full] at ok
        cases decoded : Inflate.decode input clh s with
        | none => simp [decoded] at ok
        | some pair =>
            have symbol : left input pair.2 < left input s := decode_left decoded
            simp only [decoded] at ok
            split_ifs at ok
            · exact (ih ok).trans symbol.le
            all_goals exact ((ih ok).trans (bits_left input _ _)).trans symbol.le

theorem storedBlock_left {s t : Inflater} (ok : Inflate.storedBlock input expected s = some t) :
    left input t ≤ left input s := by
  simp only [Inflate.storedBlock] at ok
  split_ifs at ok
  injection ok with same
  rw [← same]
  simp only [left]
  omega

theorem dynamicBlock_left {room : ℕ} {s t : Inflater} (ok : Inflate.dynamicBlock input expected room s = some t) :
    left input t ≤ left input s := by
  have first := bits_left input 5 s
  have second := bits_left input 5 (Inflate.bits input 5 s).2
  have third := bits_left input 4 (Inflate.bits input 5 (Inflate.bits input 5 s).2).2
  simp only [Inflate.dynamicBlock] at ok
  split_ifs at ok
  split at ok
  · cases ok
  · split at ok
    · cases ok
    · next lens =>
        have lengths := (readLengths_left lens).trans (readOrder_left input _ _ _)
        exact (huffmanBlock_left ok).trans (lengths.trans (third.trans (second.trans first)))

theorem blockOfType_left {type : ℕ} {s t : Inflater} (ok : Inflate.blockOfType input expected type s = some t) :
    left input t ≤ left input s := by
  unfold Inflate.blockOfType at ok
  split_ifs at ok
  · exact storedBlock_left ok
  · exact huffmanBlock_left ok
  · exact dynamicBlock_left ok

/-! ## The checked run is the inflater's -/

theorem refill_inside {need room : ℕ} {s : Inflater} (rounds : need ≤ room + s.bitCount) :
    refill input need room s = .ok (Inflate.refill input need room s) := by
  induction room generalizing s with
  | zero =>
      rw [refill, if_neg (by omega)]
      rfl
  | succ room ih =>
      rw [refill, Inflate.refill]
      split_ifs with more exhausted
      · rfl
      · rw [byteAt_inside (not_le.mp exhausted), ok_bind]
        apply ih
        show need ≤ room + (s.bitCount + 8)
        omega
      · rfl

theorem bits_inside (need : ℕ) (s : Inflater) : bits input need s = .ok (Inflate.bits input need s) := by
  rw [bits, refill_inside (Nat.le_add_right need _), ok_bind, Inflate.bits]
  split_ifs <;> rfl

theorem decodeLoop_inside (h : Huff) (room code first index : ℕ) (s : Inflater) :
    decodeLoop input h room code first index s = found (Inflate.decodeLoop input h room code first index s) := by
  induction room generalizing code first index s with
  | zero => rfl
  | succ room ih =>
      rw [decodeLoop, Inflate.decodeLoop, bits_inside, ok_bind]
      simp only [ih]
      split_ifs <;> rfl

theorem decode_inside (h : Huff) (s : Inflater) : decode input h s = found (Inflate.decode input h s) :=
  decodeLoop_inside h 15 0 0 0 s

def goesOn : Inflate.Round → Option Inflater
  | .continues s => some s
  | _ => none

theorem copyRound_inside (dist : Huff) (li : ℕ) (s : Inflater) :
    copyRound input expected dist li s = found (goesOn (Inflate.copyRound input expected dist li s)) := by
  simp only [copyRound, Inflate.copyRound, bits_inside, ok_bind, decode_inside]
  cases Inflate.decode input dist (Inflate.bits input (Inflate.lext.getD li 0) s).2 with
  | none => rfl
  | some pair =>
      simp only [found_some, ok_bind]
      split_ifs <;> rfl

theorem block_inside {lit dist : Huff} {room : ℕ} {s : Inflater} (rounds : left input s < room) :
    block input expected lit dist room s = found (Inflate.block input expected lit dist room s) := by
  induction room generalizing s with
  | zero => exact absurd rounds (Nat.not_lt_zero _)
  | succ room ih =>
      have fewer : ∀ t, Inflate.blockRound input expected lit dist s = .continues t → left input t < room := by
        intro t continues
        have taken := blockRound_left continues
        omega
      rw [block, Inflate.block, decode_inside]
      rw [Inflate.blockRound] at fewer ⊢
      cases decoded : Inflate.decode input lit s with
      | none => rfl
      | some pair =>
          simp only [decoded] at fewer
          simp only [found_some, ok_bind]
          by_cases literal : pair.1 < 256
          · simp only [if_pos literal] at fewer ⊢
            by_cases full : pair.2.out.length ≥ expected
            · simp only [if_pos full]
              rfl
            · simp only [if_neg full] at fewer ⊢
              exact ih (fewer _ rfl)
          · simp only [if_neg literal] at fewer ⊢
            by_cases last : pair.1 = 256
            · simp only [if_pos last]
              rfl
            · simp only [if_neg last] at fewer ⊢
              by_cases beyond : pair.1 - 257 ≥ 29
              · simp only [if_pos beyond]
                rfl
              · simp only [if_neg beyond] at fewer ⊢
                rw [copyRound_inside]
                cases copied : Inflate.copyRound input expected dist (pair.1 - 257) pair.2 with
                | fails => rfl
                | leaves t => exact absurd copied copyRound_goes_on
                | continues t => exact ih (fewer t copied)

theorem readOrder_inside (slots cl : List ℕ) (s : Inflater) :
    readOrder input slots cl s = .ok (Inflate.readOrder input slots cl s) := by
  induction slots generalizing cl s with
  | nil => rfl
  | cons slot slots ih =>
      rw [readOrder, bits_inside, ok_bind]
      exact ih _ _

theorem readLengths_inside {clh : Huff} {total room : ℕ} {lens : List ℕ} {s : Inflater}
    (rounds : left input s < room) :
    readLengths input clh total room lens s = found (Inflate.readLengths input clh total room lens s) := by
  induction room generalizing lens s with
  | zero => exact absurd rounds (Nat.not_lt_zero _)
  | succ room ih =>
      rw [readLengths, Inflate.readLengths]
      by_cases full : lens.length ≥ total
      · rw [if_pos full, if_pos full]
        rfl
      · rw [if_neg full, if_neg full, decode_inside]
        cases decoded : Inflate.decode input clh s with
        | none => rfl
        | some pair =>
            have symbol : left input pair.2 < left input s := decode_left decoded
            have direct : left input pair.2 < room := by omega
            have repeated : ∀ need, left input (Inflate.bits input need pair.2).2 < room := by
              intro need
              exact (bits_left input need pair.2).trans_lt direct
            simp only [found_some, ok_bind, bits_inside, ih direct, ih (repeated _)]
            split_ifs <;> rfl

theorem storedBlock_inside (s : Inflater) :
    storedBlock input expected s = found (Inflate.storedBlock input expected s) := by
  simp only [storedBlock, Inflate.storedBlock]
  split_ifs with short malformed
  · rfl
  all_goals
    simp only [byteAt_inside (show s.pos < input.length by omega),
      byteAt_inside (show s.pos + 1 < input.length by omega),
      byteAt_inside (show s.pos + 2 < input.length by omega),
      byteAt_inside (show s.pos + 3 < input.length by omega), ok_bind]
  · rw [if_pos malformed]
    rfl
  · rw [if_neg malformed]
    have inside := (not_or.mp (not_or.mp malformed).2).1
    rw [slice_of_le (by omega), ok_bind]
    rfl

theorem huffmanBlock_inside {room : ℕ} {litLengths distLengths : List ℕ} {s : Inflater} (rounds : left input s < room) :
    huffmanBlock input expected room litLengths distLengths s =
      found (Inflate.huffmanBlock input expected room litLengths distLengths s) := by
  rw [huffmanBlock, Inflate.huffmanBlock]
  cases Huff.build litLengths with
  | none => rfl
  | some lit =>
      cases Huff.build distLengths with
      | none => rfl
      | some dist => exact block_inside rounds

theorem dynamicBlock_inside {room : ℕ} {s : Inflater} (rounds : left input s < room) :
    dynamicBlock input expected room s = found (Inflate.dynamicBlock input expected room s) := by
  have first := bits_left input 5 s
  have second := bits_left input 5 (Inflate.bits input 5 s).2
  have third := bits_left input 4 (Inflate.bits input 5 (Inflate.bits input 5 s).2).2
  simp only [dynamicBlock, Inflate.dynamicBlock, bits_inside, ok_bind, readOrder_inside]
  split_ifs with refused failed
  · rfl
  · rfl
  · have order := readOrder_left input
      (Inflate.order.take ((Inflate.bits input 4 (Inflate.bits input 5 (Inflate.bits input 5 s).2).2).1 + 4))
      (List.replicate 19 0) (Inflate.bits input 4 (Inflate.bits input 5 (Inflate.bits input 5 s).2).2).2
    cases Huff.build _ with
    | none => rfl
    | some clh =>
        simp only [found_some, ok_bind]
        rw [readLengths_inside (by omega)]
        split
        · next none => rw [none]; rfl
        · next lens t read =>
            rw [read, found_some, ok_bind]
            have lengths := readLengths_left read
            exact huffmanBlock_inside (show left input t < room by omega)

theorem blockOfType_inside {type : ℕ} {s : Inflater} (rounds : left input s < 8 * input.length + 1) :
    blockOfType input expected type s = found (Inflate.blockOfType input expected type s) := by
  rw [blockOfType, Inflate.blockOfType, storedBlock_inside, huffmanBlock_inside rounds, dynamicBlock_inside rounds]
  split_ifs <;> rfl

theorem runBlocks_inside {room : ℕ} {s : Inflater} (rounds : left input s < room)
    (whole : left input s ≤ 8 * input.length) :
    runBlocks input expected room s = found (Inflate.runBlocks input expected room s) := by
  induction room generalizing s with
  | zero => exact absurd rounds (Nat.not_lt_zero _)
  | succ room ih =>
      have first := bits_left input 1 s
      have second : (Inflate.bits input 2 (Inflate.bits input 1 s).2).2.failed = false →
          left input (Inflate.bits input 2 (Inflate.bits input 1 s).2).2 + 2 = left input (Inflate.bits input 1 s).2 :=
        bits_taken
      rw [runBlocks, Inflate.runBlocks]
      simp only [bits_inside, ok_bind]
      generalize Inflate.bits input 2 (Inflate.bits input 1 s).2 = type at second ⊢
      by_cases failed : type.2.failed = true
      · rw [if_pos failed, if_pos failed]
        rfl
      · have taken := second (Bool.eq_false_iff.mpr failed)
        rw [if_neg failed, if_neg failed, blockOfType_inside (by omega), ← Inflate.blockOfType]
        cases body : Inflate.blockOfType input expected type.1 type.2 with
        | none => rfl
        | some t =>
            have after := blockOfType_left body
            simp only [found_some, ok_bind]
            rw [ih (by omega) (by omega)]
            split_ifs <;> rfl

/-- On every input the run reads inside the input, ends, and yields what the inflater does. -/
theorem run_inside (input : List Byte) (expected : ℕ) : run input expected = found (Inflate.run input expected) := by
  have start : left input {} = 8 * input.length := by simp [left]
  rw [run, Inflate.run, runBlocks_inside (by omega) (by omega)]
  cases Inflate.runBlocks input expected (8 * input.length + 1) {} with
  | none => rfl
  | some s =>
      simp only [found_some, ok_bind]
      split_ifs <;> rfl

end Segarecomp.Media.InflateBounds

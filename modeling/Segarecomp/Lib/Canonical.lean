import Mathlib.Tactic
import Segarecomp.Lib.Bits

/-! Canonical prefix codes from a list of code lengths (0: the symbol is unused). Codes of one
length are consecutive in symbol order, and shorter codes come first. -/

namespace Segarecomp.Lib.Canonical

open Bits

/-- How many symbols have codes of length `l`. -/
def count (lengths : List ℕ) (l : ℕ) : ℕ := if l = 0 then 0 else lengths.count l

/-- The first code of length `l`. -/
def firstCode (lengths : List ℕ) : ℕ → ℕ
  | 0 => 0
  | l + 1 => 2 * (firstCode lengths l + count lengths l)

/-- How many symbols have codes shorter than `l`. -/
def offset (lengths : List ℕ) : ℕ → ℕ
  | 0 => 0
  | l + 1 => offset lengths l + count lengths l

def lengthOf (lengths : List ℕ) (s : ℕ) : ℕ := lengths.getD s 0

/-- How many earlier symbols have codes as long as that of `s`. -/
def rank (lengths : List ℕ) (s : ℕ) : ℕ := (lengths.take s).count (lengthOf lengths s)

def code (lengths : List ℕ) (s : ℕ) : ℕ := firstCode lengths (lengthOf lengths s) + rank lengths s

/-- The code of `s`, most significant bit first. -/
def codeword (lengths : List ℕ) (s : ℕ) : Option (List Bool) :=
  if lengthOf lengths s = 0 then none else some (msb (lengthOf lengths s) (code lengths s))

/-- The share a code of length `k` takes up, in units of `2 ^ -limit`; lengths past `l` are not
counted. -/
def weight (limit l k : ℕ) : ℕ := if k = 0 ∨ l < k then 0 else 2 ^ (limit - k)

/-- The Kraft sum of the lengths up to `l`. -/
def kraftTo (limit l : ℕ) (lengths : List ℕ) : ℕ := (lengths.map (weight limit l)).sum

/-- The code is not over-subscribed and no code is longer than `limit`. -/
def Permitted (limit : ℕ) (lengths : List ℕ) : Prop :=
  (∀ l ∈ lengths, l ≤ limit) ∧ kraftTo limit limit lengths ≤ 2 ^ limit

instance (limit : ℕ) (lengths : List ℕ) : Decidable (Permitted limit lengths) :=
  inferInstanceAs (Decidable (_ ∧ _))

theorem lengthOf_lt {lengths : List ℕ} {s : ℕ} (used : lengthOf lengths s ≠ 0) : s < lengths.length := by
  by_contra past
  apply used
  rw [lengthOf, List.getD_eq_getElem?_getD, List.getElem?_eq_none (by omega)]
  rfl

theorem getElem_lengthOf {lengths : List ℕ} {s : ℕ} (inside : s < lengths.length) :
    lengths[s] = lengthOf lengths s := by
  rw [lengthOf, List.getD_eq_getElem?_getD, List.getElem?_eq_getElem inside]
  rfl

theorem rank_lt {lengths : List ℕ} {s : ℕ} (used : lengthOf lengths s ≠ 0) :
    rank lengths s < count lengths (lengthOf lengths s) := by
  have inside := lengthOf_lt used
  have here := getElem_lengthOf inside
  rw [count, if_neg used]
  have split : lengths = lengths.take s ++ lengths[s] :: lengths.drop (s + 1) := by
    rw [List.getElem_cons_drop, List.take_append_drop]
  calc rank lengths s < rank lengths s + 1 := Nat.lt_succ_self _
    _ ≤ (lengths.take s).count (lengthOf lengths s) +
          (lengths[s] :: lengths.drop (s + 1)).count (lengthOf lengths s) := by
        rw [here, List.count_cons_self, rank]
        omega
    _ = lengths.count (lengthOf lengths s) := by
        rw [← List.count_append, ← split]

/-- Two symbols with codes of one length differ in rank. -/
theorem rank_strictMono {lengths : List ℕ} {s t : ℕ} (before : s < t)
    (same : lengthOf lengths s = lengthOf lengths t) (used : lengthOf lengths s ≠ 0) :
    rank lengths s < rank lengths t := by
  have inside := lengthOf_lt used
  have here : lengths[s] = lengthOf lengths t := (getElem_lengthOf inside).trans same
  have next : (lengths.take (s + 1)).count (lengthOf lengths t) =
      (lengths.take s).count (lengthOf lengths t) + 1 := by
    rw [List.take_add_one, List.getElem?_eq_getElem inside, Option.toList_some, List.count_append, here,
      List.count_singleton_self]
  have grows : (lengths.take (s + 1)).count (lengthOf lengths t) ≤
      (lengths.take t).count (lengthOf lengths t) :=
    (List.take_sublist_take_left (by omega)).count_le _
  rw [rank, rank, same]
  omega

theorem weight_succ (limit l k : ℕ) :
    weight limit (l + 1) k = weight limit l k + if k = l + 1 then 2 ^ (limit - (l + 1)) else 0 := by
  unfold weight
  by_cases here : k = l + 1
  · subst here
    simp
  · by_cases counted : k = 0 ∨ l < k
    · have still : k = 0 ∨ l + 1 < k := by omega
      simp [here, counted, still]
    · have still : ¬ (k = 0 ∨ l + 1 < k) := by omega
      simp [here, counted, still]

theorem kraftTo_succ (limit l : ℕ) (lengths : List ℕ) :
    kraftTo limit (l + 1) lengths = kraftTo limit l lengths + count lengths (l + 1) * 2 ^ (limit - (l + 1)) := by
  rw [count, if_neg (Nat.succ_ne_zero l)]
  induction lengths with
  | nil => simp [kraftTo]
  | cons k rest ih =>
      unfold kraftTo at ih ⊢
      rw [List.map_cons, List.sum_cons, List.map_cons, List.sum_cons, ih, weight_succ, List.count_cons]
      by_cases here : k = l + 1
      · simp only [here, if_true, beq_self_eq_true]
        ring
      · simp only [here, if_false, beq_iff_eq]
        ring

/-- The codes up to length `l` take up their share of the Kraft sum. -/
theorem kraftTo_eq (limit : ℕ) (lengths : List ℕ) {l : ℕ} (below : l ≤ limit) :
    kraftTo limit l lengths = (firstCode lengths l + count lengths l) * 2 ^ (limit - l) := by
  induction l with
  | zero =>
      have nothing : weight limit 0 = fun _ => 0 := by
        funext k
        simp [weight, Nat.pos_iff_ne_zero, or_iff_not_imp_left]
      simp [kraftTo, nothing, firstCode, count]
  | succ l ih =>
      have power : 2 ^ (limit - l) = 2 * 2 ^ (limit - (l + 1)) := by
        rw [← pow_succ']
        congr 1
        omega
      rw [kraftTo_succ, ih (by omega), firstCode, power]
      ring

theorem kraftTo_mono (limit : ℕ) (lengths : List ℕ) {l m : ℕ} (le : l ≤ m) :
    kraftTo limit l lengths ≤ kraftTo limit m lengths := by
  induction le with
  | refl => exact Nat.le_refl _
  | step _ ih => exact Nat.le_trans ih (by rw [kraftTo_succ]; exact Nat.le_add_right _ _)

theorem count_past {limit : ℕ} {lengths : List ℕ} (permitted : Permitted limit lengths) {l : ℕ}
    (past : limit < l) : count lengths l = 0 := by
  rw [count, if_neg (by omega), List.count_eq_zero]
  intro member
  have within := permitted.1 l member
  omega

theorem codes_fit_within {limit : ℕ} {lengths : List ℕ} (permitted : Permitted limit lengths) {l : ℕ}
    (below : l ≤ limit) : firstCode lengths l + count lengths l ≤ 2 ^ l := by
  have total := Nat.le_trans (kraftTo_mono limit lengths below) permitted.2
  rw [kraftTo_eq limit lengths below] at total
  have power : 2 ^ limit = 2 ^ l * 2 ^ (limit - l) := by
    rw [← pow_add]
    congr 1
    omega
  rw [power] at total
  exact Nat.le_of_mul_le_mul_right total (Nat.two_pow_pos _)

/-- The codes of length `l` fit into `l` bits. -/
theorem codes_fit {limit : ℕ} {lengths : List ℕ} (permitted : Permitted limit lengths) (l : ℕ) :
    firstCode lengths l + count lengths l ≤ 2 ^ l := by
  by_cases below : l ≤ limit
  · exact codes_fit_within permitted below
  · induction l with
    | zero => omega
    | succ l ih =>
        have before : firstCode lengths l + count lengths l ≤ 2 ^ l := by
          by_cases here : l ≤ limit
          · exact codes_fit_within permitted here
          · exact ih here
        rw [count_past permitted (by omega), firstCode, pow_succ]
        omega

theorem code_lt {limit : ℕ} {lengths : List ℕ} (permitted : Permitted limit lengths) {s : ℕ}
    (used : lengthOf lengths s ≠ 0) : code lengths s < 2 ^ lengthOf lengths s := by
  have fit := codes_fit permitted (lengthOf lengths s)
  have rank_ := rank_lt used
  rw [code]
  omega

/-- Every code of length `l` lies past all the codes of a shorter length, shifted to its width. -/
theorem firstCode_grows (lengths : List ℕ) {l m : ℕ} (shorter : l < m) :
    (firstCode lengths l + count lengths l) * 2 ^ (m - l) ≤ firstCode lengths m := by
  induction m with
  | zero => omega
  | succ m ih =>
      rw [firstCode]
      by_cases here : l = m
      · subst here
        rw [Nat.add_sub_cancel_left, pow_one, Nat.mul_comm]
      · have before := ih (by omega)
        have power : 2 ^ (m + 1 - l) = 2 ^ (m - l) * 2 := by
          rw [← pow_succ]
          congr 1
          omega
        rw [power, ← Nat.mul_assoc]
        omega

theorem offset_mono (lengths : List ℕ) {l m : ℕ} (le : l ≤ m) : offset lengths l ≤ offset lengths m := by
  induction le with
  | refl => exact Nat.le_refl _
  | step _ ih => exact Nat.le_trans ih (Nat.le_add_right _ _)

/-- The place of a symbol when symbols are listed by code length, then by value. -/
def place (lengths : List ℕ) (s : ℕ) : ℕ := offset lengths (lengthOf lengths s) + rank lengths s

theorem count_step (lengths : List ℕ) (l : ℕ) :
    lengths.countP (· < l) + count lengths l ≤ lengths.countP (· < l + 1) := by
  unfold count
  split
  · exact List.countP_mono_left (fun k _ below => by simp only [decide_eq_true_eq] at below ⊢; omega)
  · induction lengths with
    | nil => simp
    | cons k rest ih =>
        rw [List.countP_cons, List.countP_cons, List.count_cons]
        simp only [decide_eq_true_eq, beq_iff_eq]
        split_ifs <;> omega

theorem offset_le (lengths : List ℕ) (l : ℕ) : offset lengths l ≤ lengths.countP (· < l) := by
  induction l with
  | zero => exact Nat.zero_le _
  | succ l ih =>
      have step := count_step lengths l
      rw [offset]
      omega

theorem place_lt {lengths : List ℕ} {s : ℕ} (used : lengthOf lengths s ≠ 0) :
    place lengths s < lengths.length := by
  have below := rank_lt used
  have counted := offset_le lengths (lengthOf lengths s + 1)
  have all : lengths.countP (· < lengthOf lengths s + 1) ≤ lengths.length := List.countP_le_length
  rw [offset] at counted
  unfold place
  omega

theorem place_ne {lengths : List ℕ} {s t : ℕ} (before : s < t) (first : lengthOf lengths s ≠ 0)
    (second : lengthOf lengths t ≠ 0) : place lengths s ≠ place lengths t := by
  have rankS := rank_lt first
  have rankT := rank_lt second
  unfold place
  rcases Nat.lt_trichotomy (lengthOf lengths s) (lengthOf lengths t) with shorter | same | longer
  · have step := offset_mono lengths (Nat.succ_le_of_lt shorter)
    rw [offset] at step
    omega
  · have order := rank_strictMono before same first
    rw [same]
    omega
  · have step := offset_mono lengths (Nat.succ_le_of_lt longer)
    rw [offset] at step
    omega

end Segarecomp.Lib.Canonical

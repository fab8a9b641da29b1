import Segarecomp.Media.Inflate
import Segarecomp.Lib.Bits
import Segarecomp.Lib.Canonical

/-! The bit reader and the Huffman tables of the inflater, against bit strings and canonical
codes. -/

namespace Segarecomp.Media.Inflate

open Lib Lib.Bits

variable {input : List Byte}

/-- `rest` is what the reader has not yet given out: the low bits of the buffer, then the bytes
from `pos` on. -/
structure Holds (input : List Byte) (s : Inflater) (rest : List Bool) : Prop where
  live : s.failed = false
  small : s.bitBuf < 2 ^ s.bitCount
  view : rest = lsb s.bitCount s.bitBuf ++ ofBytes (input.drop s.pos)
  inside : s.pos ≤ input.length

/-- Between two calls of `bits` less than a byte is buffered. -/
structure Reads (input : List Byte) (s : Inflater) (rest : List Bool) : Prop extends Holds input s rest where
  short : s.bitCount < 8

theorem or_shift {a k : ℕ} (b : ℕ) (small : a < 2 ^ k) : a ||| b <<< k = a + b * 2 ^ k := by
  rw [Nat.or_comm, Nat.shiftLeft_eq, Nat.mul_comm, ← Nat.two_pow_add_eq_or_of_lt small, Nat.add_comm]

theorem refill_spec {s : Inflater} {rest : List Bool} {need room : ℕ} (holds : Holds input s rest)
    (short : s.bitCount < 8 ∨ s.bitCount < need + 8) (enough : need ≤ rest.length) (rounds : need ≤ room + s.bitCount)
    (narrow : need ≤ 24) :
    Holds input (refill input need room s) rest ∧ need ≤ (refill input need room s).bitCount ∧
      ((refill input need room s).bitCount < 8 ∨ (refill input need room s).bitCount < need + 8) ∧
      (refill input need room s).out = s.out := by
  induction room generalizing s with
  | zero => exact ⟨holds, by simpa [refill] using rounds, short, rfl⟩
  | succ room ih =>
      rw [refill]
      by_cases more : s.bitCount < need
      · rw [if_pos more]
        by_cases spent : s.pos ≥ input.length
        · have nothing : input.drop s.pos = [] := List.drop_eq_nil_iff.mpr spent
          rw [holds.view, nothing] at enough
          simp at enough
          omega
        · rw [if_neg spent]
          have inside : s.pos < input.length := by omega
          have split : input.drop s.pos = input[s.pos] :: input.drop (s.pos + 1) :=
            List.drop_eq_getElem_cons inside
          have byte : byteAt input s.pos = input[s.pos].toNat := by
            rw [byteAt, List.getD_eq_getElem?_getD, List.getElem?_eq_getElem inside]
            rfl
          have below := input[s.pos].isLt
          have grown : s.bitBuf + byteAt input s.pos * 2 ^ s.bitCount < 2 ^ (s.bitCount + 8) := by
            have limit : byteAt input s.pos * 2 ^ s.bitCount ≤ 255 * 2 ^ s.bitCount :=
              Nat.mul_le_mul_right _ (by omega)
            have power : 2 ^ (s.bitCount + 8) = 256 * 2 ^ s.bitCount := by rw [pow_add]; omega
            have small := holds.small
            omega
          have word : s.bitBuf + byteAt input s.pos * 2 ^ s.bitCount < 2 ^ 32 :=
            Nat.lt_of_lt_of_le grown (Nat.pow_le_pow_right (by omega) (by omega))
          rw [or_shift _ holds.small, Nat.mod_eq_of_lt word]
          apply ih
          · constructor
            · exact holds.live
            · exact grown
            · simp only
              rw [holds.view, split, ofBytes_cons, lsb_append 8 _ holds.small, List.append_assoc, byte]
            · exact inside
          · right
            simp only
            omega
          · simp only
            omega
      · rw [if_neg more]
        exact ⟨holds, by omega, short, rfl⟩

theorem bits_spec {s : Inflater} {rest : List Bool} {need v : ℕ}
    (reads : Reads input s (lsb need v ++ rest)) (fits : v < 2 ^ need) (narrow : need ≤ 24) :
    ∃ t, bits input need s = (v, t) ∧ Reads input t rest ∧ t.out = s.out := by
  rcases refill_spec reads.toHolds (.inl reads.short) (by simp) (Nat.le_add_right need _) narrow with
    ⟨holds, full, short, kept⟩
  have shape : (refill input need need s).bitCount = need + ((refill input need need s).bitCount - need) := by
    omega
  have view := holds.view
  rw [shape, lsb_split, List.append_assoc] at view
  rcases List.append_inj view (by simp) with ⟨low, tail⟩
  have value : (refill input need need s).bitBuf &&& (1 <<< need - 1) = v := by
    rw [Nat.one_shiftLeft, Nat.and_two_pow_sub_one_eq_mod]
    apply lsb_injective (Nat.mod_lt _ (Nat.two_pow_pos _)) fits
    rw [lsb_mod, ← low]
  refine ⟨{ refill input need need s with
    bitBuf := (refill input need need s).bitBuf >>> need
    bitCount := (refill input need need s).bitCount - need }, ?_, ⟨⟨holds.live, ?_, ?_, holds.inside⟩, ?_⟩, kept⟩
  · unfold bits
    simp only [if_neg (Nat.not_lt.mpr full), value]
  · rw [Nat.shiftRight_eq_div_pow]
    apply Nat.div_lt_of_lt_mul
    rw [← pow_add, ← shape]
    exact holds.small
  · rw [Nat.shiftRight_eq_div_pow]
    exact tail
  · simp only
    omega

/-! The tables of `Huff::build`. -/

theorem getD_set (l : List ℕ) (i j v : ℕ) :
    (l.set i v).getD j 0 = if i = j ∧ j < l.length then v else l.getD j 0 := by
  simp only [List.getD_eq_getElem?_getD, List.getElem?_set]
  by_cases same : i = j
  · subst same
    by_cases inside : i < l.length
    · simp [inside]
    · simp [inside]
  · simp [same]

/-- What a table must hold to decode the canonical code of `lengths`. -/
structure Built (lengths : List ℕ) (h : Huff) : Prop where
  count : ∀ l, 0 < l → l ≤ 15 → h.count.getD l 0 = Canonical.count lengths l
  symbol : ∀ s, Canonical.lengthOf lengths s ≠ 0 → h.symbol.getD (Canonical.place lengths s) 0 = s

theorem countLoop_spec {lengths : List ℕ} (short : ∀ l ∈ lengths, l ≤ 15) {l : ℕ} (below : l ≤ 15) :
    (countLoop lengths).getD l 0 = lengths.count l := by
  have general : ∀ (rest start : List ℕ), start.length = 16 → (∀ k ∈ rest, k ≤ 15) →
      (rest.foldl (fun count k => count.set k (count.getD k 0 + 1)) start).getD l 0 =
        start.getD l 0 + rest.count l := by
    intro rest
    induction rest with
    | nil => simp
    | cons k rest ih =>
        intro start size bound
        have here := bound k (List.mem_cons_self ..)
        rw [List.foldl_cons, ih _ (by rw [List.length_set, size]) (fun j member => bound j (List.mem_cons_of_mem _ member)),
          getD_set, List.count_cons]
        by_cases same : k = l
        · subst same
          rw [if_pos ⟨rfl, by omega⟩]
          simp
          omega
        · simp [same]
  have zero : (List.replicate 16 0).getD l 0 = 0 := by
    rw [List.getD_eq_getElem?_getD, List.getElem?_replicate]
    split <;> rfl
  rw [countLoop, general lengths _ (by simp) short, zero, Nat.zero_add]

theorem kraftLoop_spec {lengths count : List ℕ} (counts : ∀ l, 0 < l → l ≤ 15 → count.getD l 0 = Canonical.count lengths l)
    (fit : ∀ l, Canonical.firstCode lengths l + Canonical.count lengths l ≤ 2 ^ l) (room len : ℕ)
    (range : room + len = 15) :
    ∃ left, kraftLoop count room (len + 1)
      (2 ^ len - (Canonical.firstCode lengths len + Canonical.count lengths len : ℕ)) = some left := by
  induction room generalizing len with
  | zero => exact ⟨_, rfl⟩
  | succ room ih =>
      rw [kraftLoop, counts (len + 1) (by omega) (by omega)]
      have step : ((2 : ℤ) ^ len - (Canonical.firstCode lengths len + Canonical.count lengths len : ℕ)) * 2 -
          (Canonical.count lengths (len + 1) : ℕ) =
          2 ^ (len + 1) - (Canonical.firstCode lengths (len + 1) + Canonical.count lengths (len + 1) : ℕ) := by
        rw [Canonical.firstCode]
        push_cast
        ring
      have room_ := fit (len + 1)
      have nonneg : ¬ ((2 : ℤ) ^ (len + 1) -
          (Canonical.firstCode lengths (len + 1) + Canonical.count lengths (len + 1) : ℕ) < 0) := by
        have cast : ((2 ^ (len + 1) : ℕ) : ℤ) = 2 ^ (len + 1) := by push_cast; rfl
        omega
      simp only [step, if_neg nonneg]
      exact ih (len + 1) (by omega)

theorem offsLoop_spec {lengths count : List ℕ} (counts : ∀ l, 0 < l → l ≤ 15 → count.getD l 0 = Canonical.count lengths l)
    (room len : ℕ) (offs : List ℕ) (positive : 0 < len) (range : room + len = 15) (size : offs.length = 16)
    (known : ∀ l, 0 < l → l ≤ len → offs.getD l 0 = Canonical.offset lengths l) :
    (offsLoop count room len offs).length = 16 ∧
      ∀ l, 0 < l → l ≤ 15 → (offsLoop count room len offs).getD l 0 = Canonical.offset lengths l := by
  induction room generalizing len offs with
  | zero => exact ⟨size, fun l low high => known l low (by omega)⟩
  | succ room ih =>
      rw [offsLoop]
      apply ih _ _ (by omega) (by omega) (by rw [List.length_set, size])
      intro l low high
      rw [getD_set]
      by_cases here : len + 1 = l
      · subst here
        rw [if_pos ⟨rfl, by omega⟩, known len positive (Nat.le_refl _), counts len positive (by omega)]
        rfl
      · rw [if_neg (fun both => here both.1)]
        exact known l low (by omega)

theorem symbolLoop_spec {lengths : List ℕ} (short : ∀ l ∈ lengths, l ≤ 15) (few : lengths.length ≤ 320)
    (rest done : List ℕ) (whole : lengths = done ++ rest) (offs symbol : List ℕ) (size : offs.length = 16)
    (slots : symbol.length = 320)
    (places : ∀ l, 0 < l → l ≤ 15 → offs.getD l 0 = Canonical.offset lengths l + done.count l)
    (filled : ∀ s < done.length, Canonical.lengthOf lengths s ≠ 0 →
      symbol.getD (Canonical.place lengths s) 0 = s) :
    ∀ s, Canonical.lengthOf lengths s ≠ 0 →
      (symbolLoop rest done.length offs symbol).getD (Canonical.place lengths s) 0 = s := by
  induction rest generalizing done offs symbol with
  | nil =>
      intro s used
      have inside := Canonical.lengthOf_lt used
      rw [whole, List.append_nil] at inside
      exact filled s inside used
  | cons l rest ih =>
      have grown : lengths = (done ++ [l]) ++ rest := by rw [whole, List.append_assoc]; rfl
      have count_ : (done ++ [l]).length = done.length + 1 := by simp
      have inside : done.length < lengths.length := by rw [whole]; simp
      have here : Canonical.lengthOf lengths done.length = l := by
        rw [← Canonical.getElem_lengthOf inside]
        simp [whole]
      have bound : l ≤ 15 := short l (by rw [whole]; simp)
      rw [symbolLoop]
      by_cases used : l ≠ 0
      · have rank_ : Canonical.rank lengths done.length = done.count l := by
          rw [Canonical.rank, here, whole, List.take_left]
        have place_ : offs.getD l 0 = Canonical.place lengths done.length := by
          rw [places l (by omega) bound, Canonical.place, here, rank_]
        rw [if_pos used, ← count_]
        apply ih (done ++ [l]) grown
        · rw [List.length_set, size]
        · rw [List.length_set, slots]
        · intro k low high
          rw [getD_set, List.count_append, List.count_singleton]
          by_cases same : l = k
          · subst same
            rw [if_pos ⟨rfl, by omega⟩, places l low high]
            simp
            omega
          · rw [if_neg (fun both => same both.1), places k low high]
            simp [same]
        · intro s below usedS
          rw [getD_set, place_]
          by_cases now : s = done.length
          · subst now
            have slot := Canonical.place_lt usedS
            rw [if_pos ⟨rfl, by omega⟩]
          · have earlier : s < done.length := by omega
            have apart := Canonical.place_ne earlier usedS (by rw [here]; exact used)
            rw [if_neg (fun both => apart both.1.symm)]
            exact filled s earlier usedS
      · rw [if_neg used, ← count_]
        apply ih (done ++ [l]) grown _ _ size slots
        · intro k low high
          have other : ¬ l = k := by omega
          rw [places k low high, List.count_append, List.count_singleton]
          simp [other]
        · intro s below usedS
          by_cases now : s = done.length
          · subst now
            exact absurd here (by simpa using fun same => usedS (same.trans (not_not.mp used)))
          · exact filled s (by omega) usedS

theorem build_spec {lengths : List ℕ} {limit : ℕ} (permitted : Canonical.Permitted limit lengths)
    (within : limit ≤ 15) (few : lengths.length ≤ 320) : ∃ h, Huff.build lengths = some h ∧ Built lengths h := by
  have short : ∀ l ∈ lengths, l ≤ 15 := fun l member => Nat.le_trans (permitted.1 l member) within
  have counts : ∀ l, 0 < l → l ≤ 15 → (countLoop lengths).getD l 0 = Canonical.count lengths l := by
    intro l low high
    rw [countLoop_spec short high, Canonical.count, if_neg (by omega)]
  rcases kraftLoop_spec counts (Canonical.codes_fit permitted) 15 0 rfl with ⟨left, accepted⟩
  have start : ((2 : ℤ) ^ 0 - (Canonical.firstCode lengths 0 + Canonical.count lengths 0 : ℕ)) = 1 := by
    simp [Canonical.firstCode, Canonical.count]
  rw [start] at accepted
  rcases offsLoop_spec counts 14 1 (List.replicate 16 0) (by omega) rfl (by simp) (by
    intro l low high
    have one : l = 1 := by omega
    subst one
    simp [Canonical.offset, Canonical.count]) with ⟨size, places⟩
  refine ⟨⟨countLoop lengths, symbolLoop lengths 0
    (offsLoop (countLoop lengths) 14 1 (List.replicate 16 0)) (List.replicate 320 0)⟩, ?_, counts, ?_⟩
  · unfold Huff.build
    rw [Nat.zero_add] at accepted
    simp only [accepted]
  · apply symbolLoop_spec short few lengths [] rfl _ _ size List.length_replicate
    · intro l low high
      rw [places l low high, List.count_nil, Nat.add_zero]
    · intro s below
      simp at below

/-! Decoding one code. -/

theorem code_prefix {lengths : List ℕ} {s len : ℕ} (shorter : len < Canonical.lengthOf lengths s) :
    Canonical.firstCode lengths len + Canonical.count lengths len ≤
      Canonical.code lengths s / 2 ^ (Canonical.lengthOf lengths s - len) := by
  have grows := Canonical.firstCode_grows lengths shorter
  apply (Nat.le_div_iff_mul_le (Nat.two_pow_pos _)).mpr
  rw [Canonical.code]
  omega

/-- `len` is the number of bits already read: the code so far is the top of the code of `s`. -/
theorem decodeLoop_spec {lengths : List ℕ} {h : Huff} (built : Built lengths h) {s : ℕ}
    (used : Canonical.lengthOf lengths s ≠ 0) (within : Canonical.lengthOf lengths s ≤ 15) {room len : ℕ}
    (range : room + len = 15) (shorter : len < Canonical.lengthOf lengths s) {r : Inflater} {rest : List Bool}
    (reads : Reads input r (msb (Canonical.lengthOf lengths s - len) (Canonical.code lengths s) ++ rest)) :
    ∃ t, decodeLoop input h room (2 * (Canonical.code lengths s / 2 ^ (Canonical.lengthOf lengths s - len)))
        (Canonical.firstCode lengths (len + 1)) (Canonical.offset lengths (len + 1)) r = some (s, t) ∧
      Reads input t rest ∧ t.out = r.out := by
  induction room generalizing len r with
  | zero => omega
  | succ room ih =>
      have width : Canonical.lengthOf lengths s - len = Canonical.lengthOf lengths s - (len + 1) + 1 := by omega
      have halved : Canonical.code lengths s / 2 ^ (Canonical.lengthOf lengths s - len) =
          Canonical.code lengths s / 2 ^ (Canonical.lengthOf lengths s - (len + 1)) / 2 := by
        rw [width, pow_succ, Nat.div_div_eq_div_mul]
      rw [width, msb_succ] at reads
      generalize top : Canonical.code lengths s / 2 ^ (Canonical.lengthOf lengths s - (len + 1)) = q at *
      have single : ∀ tail : List Bool, decide (q % 2 = 1) :: tail = lsb 1 (q % 2) ++ tail := by
        intro tail
        simp [lsb]
      rw [List.cons_append, single] at reads
      rcases bits_spec reads (Nat.mod_lt _ (by decide)) (by decide) with ⟨t, read, after, kept⟩
      have joined : 2 * (q / 2) ||| q % 2 = q := by
        rw [Nat.or_comm, Nat.mul_comm, ← pow_one 2, ← Nat.shiftLeft_eq,
          or_shift _ (Nat.mod_lt _ (by decide))]
        omega
      have place_ : 15 - room = len + 1 := by omega
      rw [decodeLoop, halved]
      simp only [read, joined, after.live, Bool.false_eq_true, if_false, place_,
        built.count (len + 1) (by omega) (by omega)]
      by_cases last : len + 1 = Canonical.lengthOf lengths s
      · have whole : q = Canonical.code lengths s := by
          rw [← top, last, Nat.sub_self, pow_zero, Nat.div_one]
        have rank_ := Canonical.rank_lt used
        have symbol := built.symbol s used
        rw [Canonical.code] at whole
        rw [Canonical.place] at symbol
        rw [last]
        have hit : (q : ℤ) - (Canonical.count lengths (Canonical.lengthOf lengths s) : ℕ) <
            (Canonical.firstCode lengths (Canonical.lengthOf lengths s) : ℕ) := by omega
        have index : q - Canonical.firstCode lengths (Canonical.lengthOf lengths s) = Canonical.rank lengths s := by
          omega
        rw [if_pos hit, index, symbol]
        rw [last, Nat.sub_self] at after
        exact ⟨t, rfl, after, kept⟩
      · have below : len + 1 < Canonical.lengthOf lengths s := by omega
        have past := code_prefix below
        rw [top] at past
        have miss : ¬ ((q : ℤ) - (Canonical.count lengths (len + 1) : ℕ) <
            (Canonical.firstCode lengths (len + 1) : ℕ)) := by omega
        rcases ih (by omega) below after with ⟨u, found, done, out⟩
        rw [if_neg miss]
        refine ⟨u, ?_, done, out.trans kept⟩
        rw [← found, Nat.shiftLeft_eq, Nat.shiftLeft_eq, pow_one, Nat.mul_comm q 2,
          Nat.mul_comm _ 2, Canonical.offset, ← top]
        rfl

theorem decode_spec {lengths : List ℕ} {h : Huff} (built : Built lengths h) {limit s : ℕ} {word : List Bool}
    (permitted : Canonical.Permitted limit lengths) (within : limit ≤ 15)
    (coded : Canonical.codeword lengths s = some word) {r : Inflater} {rest : List Bool}
    (reads : Reads input r (word ++ rest)) :
    ∃ t, decode input h r = some (s, t) ∧ Reads input t rest ∧ t.out = r.out := by
  unfold Canonical.codeword at coded
  split at coded
  · cases coded
  · next used =>
      injection coded with same
      subst same
      have bound : Canonical.lengthOf lengths s ≤ 15 := by
        rw [← Canonical.getElem_lengthOf (Canonical.lengthOf_lt used)]
        exact Nat.le_trans (permitted.1 _ (List.getElem_mem _)) within
      have top : Canonical.code lengths s / 2 ^ (Canonical.lengthOf lengths s - 0) = 0 :=
        Nat.div_eq_of_lt (Canonical.code_lt permitted used)
      have found := decodeLoop_spec built used bound (rfl : 15 + 0 = 15) (Nat.pos_of_ne_zero used) reads
      rw [top] at found
      simpa [decode, Canonical.firstCode, Canonical.offset, Canonical.count] using found

end Segarecomp.Media.Inflate

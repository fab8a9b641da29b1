import Segarecomp.Media.KosinskiFormat

/-! The decoder inverts the grammar: it returns without an error exactly on the streams of the messages,
and then the bytes they denote. -/

namespace Segarecomp.Media.Kosinski

variable {source : Span} {limit : ℕ} {r r' m : Reader} {es : List Event} {pad : ℕ → Bool} {rest output : List Byte}

/-! ## Reading events -/

def Reads (source : Span) (r : Reader) : Event → Reader → Prop
  | .bit value, r' => bit source r = some (value, r')
  | .byte value, r' => nextByte source r = some (value, r')

def Follows (source : Span) (r : Reader) : List Event → Reader → Prop
  | [], r' => r = r'
  | e :: es, r' => ∃ m, Reads source r e m ∧ Follows source m es r'

theorem follows_append {front : List Event} :
    Follows source r (front ++ es) r' ↔ ∃ m, Follows source r front m ∧ Follows source m es r' := by
  induction front generalizing r with
  | nil => simp [Follows]
  | cons e front ih =>
      simp only [List.cons_append, Follows, ih]
      constructor
      · rintro ⟨m, reads, n, follows, after⟩
        exact ⟨n, ⟨m, reads, follows⟩, after⟩
      · rintro ⟨n, ⟨m, reads, follows⟩, after⟩
        exact ⟨m, reads, n, follows, after⟩

/-- The bits left of the word and the bytes from the place of the reader on are those of the events. -/
structure Stands (source : Span) (pad : ℕ → Bool) (r : Reader) (es : List Event) (rest : List Byte) : Prop where
  bytes : source.from r.pos = layout pad r.left es ++ rest
  some : 0 < r.left
  most : r.left ≤ 16
  bits : ∀ j < r.left, r.bits.getLsbD j = upcoming pad r.left es j

theorem nextByte_of_cons {value : Byte} {tail : List Byte} (is : source.from r.pos = value :: tail) :
    nextByte source r = some (value, { r with pos := r.pos + 1 }) ∧ source.from (r.pos + 1) = tail := by
  rcases Nat.lt_or_ge r.pos source.size with inside | past
  · rw [Span.from_cons inside] at is
    obtain ⟨head, tail⟩ := List.cons.inj is
    rw [nextByte, if_neg (Nat.not_le_of_lt inside), head]
    exact ⟨rfl, tail⟩
  · rw [Span.from_nil past] at is
    exact absurd is.symm (List.cons_ne_nil _ _)

theorem cons_of_nextByte {value : Byte} (is : nextByte source r = some (value, r')) :
    r' = { r with pos := r.pos + 1 } ∧ source.from r.pos = value :: source.from (r.pos + 1) := by
  rw [nextByte] at is
  by_cases past : source.size ≤ r.pos
  · rw [if_pos past] at is
    exact absurd is.symm (Option.some_ne_none _)
  · rw [if_neg past] at is
    obtain ⟨rfl, rfl⟩ := Prod.mk.inj (Option.some.inj is)
    exact ⟨rfl, Span.from_cons (Nat.lt_of_not_le past)⟩

theorem join_wordBytes (w : BitVec 16) :
    (w.setWidth 8).setWidth 16 ||| (((w >>> 8).setWidth 8).setWidth 16 <<< 8) = w := by
  refine BitVec.eq_of_getLsbD_eq fun i inside => ?_
  simp only [BitVec.getLsbD_or, BitVec.getLsbD_setWidth, BitVec.getLsbD_shiftLeft, BitVec.getLsbD_ushiftRight]
  rcases Nat.lt_or_ge i 8 with low | high
  · simp [low, inside]
  · simp [Nat.not_lt_of_le high, inside, show i - 8 < 8 by omega, show i - 8 < 16 by omega, show 8 + (i - 8) = i by omega]

theorem wordBytes_join (lo hi : Byte) : wordBytes (lo.setWidth 16 ||| (hi.setWidth 16 <<< 8)) = [lo, hi] := by
  have low : (lo.setWidth 16 ||| (hi.setWidth 16 <<< 8)).setWidth 8 = lo := by
    refine BitVec.eq_of_getLsbD_eq fun i inside => ?_
    simp [inside]
  have high : ((lo.setWidth 16 ||| (hi.setWidth 16 <<< 8)) >>> 8).setWidth 8 = hi := by
    refine BitVec.eq_of_getLsbD_eq fun i inside => ?_
    simp [inside, show 8 + i < 16 by omega]
  rw [wordBytes, low, high]

theorem refill_of_word {w : BitVec 16} {tail : List Byte} (is : source.from r.pos = wordBytes w ++ tail) :
    refill source r = some { pos := r.pos + 2, bits := w, left := 16 } ∧ source.from (r.pos + 2) = tail := by
  obtain ⟨lo, after⟩ := nextByte_of_cons is
  obtain ⟨hi, after⟩ := @nextByte_of_cons source { r with pos := r.pos + 1 } _ _ after
  rw [refill, lo]
  dsimp only
  rw [hi]
  dsimp only
  rw [join_wordBytes]
  exact ⟨rfl, after⟩

theorem word_of_refill (is : refill source r = some r') :
    r' = { pos := r.pos + 2, bits := r'.bits, left := 16 } ∧
      source.from r.pos = wordBytes r'.bits ++ source.from (r.pos + 2) := by
  rw [refill] at is
  cases lo : nextByte source r with
  | none =>
      rw [lo] at is
      exact absurd is.symm (Option.some_ne_none _)
  | some first =>
      obtain ⟨lo', r₁⟩ := first
      rw [lo] at is
      dsimp only at is
      obtain ⟨rfl, front⟩ := cons_of_nextByte lo
      cases hi : nextByte source { r with pos := r.pos + 1 } with
      | none =>
          rw [hi] at is
          exact absurd is.symm (Option.some_ne_none _)
      | some second =>
          obtain ⟨hi', r₂⟩ := second
          rw [hi] at is
          obtain ⟨rfl, back⟩ := cons_of_nextByte hi
          cases Option.some.inj is
          refine ⟨rfl, ?_⟩
          rw [front, back, wordBytes_join]
          rfl

theorem word_bit (j : ℕ) (inside : j < 16) : (word pad es).getLsbD j = upcoming pad 16 es j := by
  rw [word, BitVec.getLsbD_ofFnLE, dif_pos inside]

/-! ## Streams are followed -/

theorem reads_byte {value : Byte} (stands : Stands source pad r (.byte value :: es) rest) :
    Reads source r (.byte value) { r with pos := r.pos + 1 } ∧
      Stands source pad { r with pos := r.pos + 1 } es rest := by
  obtain ⟨bytes, some, most, bits⟩ := stands
  obtain ⟨next, after⟩ := nextByte_of_cons bytes
  exact ⟨next, after, some, most, bits⟩

theorem upcoming_zero (value : Bool) (left : ℕ) : upcoming pad left (.bit value :: es) 0 = value := rfl

theorem upcoming_succ (value : Bool) {left j : ℕ} (more : 1 < left) (most : left ≤ 16) :
    upcoming pad left (.bit value :: es) (j + 1) = upcoming pad (left - 1) es j := by
  rw [upcoming, upcoming, bitsOf, List.getD_cons_succ, show 16 - left + (j + 1) = 16 - (left - 1) + j by omega]

theorem reads_bit {value : Bool} (stands : Stands source pad r (.bit value :: es) rest) :
    ∃ m, Reads source r (.bit value) m ∧ Stands source pad m es rest := by
  obtain ⟨bytes, some, most, bits⟩ := stands
  have first : r.bits.getLsbD 0 = value := (bits 0 some).trans (upcoming_zero value r.left)
  rw [layout] at bytes
  by_cases last : r.left = 1
  · rw [if_pos last, List.append_assoc] at bytes
    obtain ⟨next, after⟩ := @refill_of_word source { r with bits := r.bits >>> 1, left := r.left - 1 } _ _ bytes
    refine ⟨{ pos := r.pos + 2, bits := word pad es, left := 16 }, ?_, after, Nat.succ_pos 15, le_rfl,
      fun j inside => word_bit j inside⟩
    rw [Reads, bit]
    dsimp only
    rw [if_pos (Nat.sub_eq_zero_of_le last.le), next, first]
    rfl
  · rw [if_neg last] at bytes
    refine ⟨{ r with bits := r.bits >>> 1, left := r.left - 1 }, ?_, bytes, ?_, ?_, fun j inside => ?_⟩
    · rw [Reads, bit]
      dsimp only
      rw [if_neg (by omega), first]
    · exact Nat.sub_pos_of_lt (by omega)
    · exact (Nat.sub_le _ _).trans most
    · have below : j < r.left - 1 := inside
      rw [BitVec.getLsbD_ushiftRight, Nat.add_comm, bits (j + 1) (by omega), upcoming_succ value (by omega) most]

theorem follows_of_stands (stands : Stands source pad r es rest) :
    ∃ r', Follows source r es r' ∧ source.from r'.pos = rest := by
  induction es generalizing r with
  | nil => exact ⟨r, rfl, stands.bytes⟩
  | cons e es ih =>
      have one : ∃ m, Reads source r e m ∧ Stands source pad m es rest := by
        cases e with
        | bit value => exact reads_bit stands
        | byte value => exact ⟨_, reads_byte stands⟩
      obtain ⟨m, reads, after⟩ := one
      obtain ⟨r', follows, ends⟩ := ih after
      exact ⟨r', ⟨m, reads, follows⟩, ends⟩

/-! ## What is followed is a stream -/

/-- The bits left of the last word fill it up. -/
def padOf (r : Reader) (i : ℕ) : Bool := r.bits.getLsbD (i - (16 - r.left))

theorem stands_of_follows (follows : Follows source r es r') (some : 0 < r.left) (most : r.left ≤ 16) :
    Stands source (padOf r') r es (source.from r'.pos) ∧ 0 < r'.left ∧ r'.left ≤ 16 := by
  induction es generalizing r with
  | nil =>
      cases follows
      refine ⟨⟨rfl, some, most, fun j inside => ?_⟩, some, most⟩
      rw [upcoming, bitsOf, List.getD_nil, padOf, Nat.add_sub_cancel_left]
  | cons e es ih =>
      obtain ⟨m, reads, after⟩ := follows
      cases e with
      | byte value =>
          obtain ⟨rfl, front⟩ := cons_of_nextByte reads
          obtain ⟨stands, ends⟩ := ih after some most
          refine ⟨⟨?_, some, most, stands.bits⟩, ends⟩
          rw [front, stands.bytes]
          rfl
      | bit value =>
          rw [Reads, bit] at reads
          dsimp only at reads
          by_cases last : r.left - 1 = 0
          · rw [if_pos last] at reads
            have one : r.left = 1 := by omega
            obtain ⟨fetched, is, same⟩ := Option.map_eq_some_iff.mp reads
            obtain ⟨value_eq, rfl⟩ := Prod.mk.inj same
            obtain ⟨shape, front⟩ := word_of_refill is
            have left : fetched.left = 16 := by rw [shape]
            have pos : fetched.pos = r.pos + 2 := by rw [shape]
            obtain ⟨stands, ends⟩ := ih after (by omega) left.le
            have bits : fetched.bits = word (padOf r') es := by
              refine BitVec.eq_of_getLsbD_eq fun i inside => ?_
              rw [stands.bits i (left ▸ inside), left, word_bit i inside]
            refine ⟨⟨?_, some, most, fun j inside => ?_⟩, ends⟩
            · rw [layout, if_pos one, List.append_assoc, ← bits, ← left, ← stands.bytes, pos]
              exact front
            · obtain rfl : j = 0 := by omega
              exact value_eq
          · rw [if_neg last] at reads
            obtain ⟨value_eq, rfl⟩ := Prod.mk.inj (Option.some.inj reads)
            obtain ⟨stands, ends⟩ := ih after (Nat.pos_of_ne_zero last) ((Nat.sub_le _ _).trans most)
            refine ⟨⟨?_, some, most, fun j inside => ?_⟩, ends⟩
            · rw [layout, if_neg (by omega)]
              exact stands.bytes
            · cases j with
              | zero => exact value_eq
              | succ j =>
                  have bit_j := stands.bits j (Nat.lt_sub_of_add_lt inside)
                  rw [BitVec.getLsbD_ushiftRight] at bit_j
                  rw [upcoming_succ value (by omega) most, ← bit_j, Nat.add_comm]

/-! ## Where the reader stands -/

theorem pos_of_reads {e : Event} (reads : Reads source r e m) (inside : r.pos ≤ source.size) : m.pos ≤ source.size := by
  have bound {p : Reader} {value : Byte} {q : Reader} (is : nextByte source p = some (value, q)) :
      q.pos ≤ source.size := by
    rw [nextByte] at is
    by_cases past : source.size ≤ p.pos
    · rw [if_pos past] at is
      exact absurd is.symm (Option.some_ne_none _)
    · rw [if_neg past] at is
      obtain ⟨-, rfl⟩ := Prod.mk.inj (Option.some.inj is)
      exact Nat.lt_of_not_le past
  cases e with
  | byte value => exact bound reads
  | bit value =>
      rw [Reads, bit] at reads
      dsimp only at reads
      by_cases last : r.left - 1 = 0
      · rw [if_pos last] at reads
        obtain ⟨fetched, is, same⟩ := Option.map_eq_some_iff.mp reads
        obtain ⟨-, rfl⟩ := Prod.mk.inj same
        have front := congrArg List.length (word_of_refill is).2
        rw [List.length_append, Span.length_from, wordBytes, List.length_cons, List.length_singleton] at front
        rw [(word_of_refill is).1]
        dsimp only at front ⊢
        omega
      · rw [if_neg last] at reads
        obtain ⟨-, rfl⟩ := Prod.mk.inj (Option.some.inj reads)
        exact inside

theorem pos_of_follows (follows : Follows source r es r') (inside : r.pos ≤ source.size) : r'.pos ≤ source.size := by
  induction es generalizing r with
  | nil => exact follows ▸ inside
  | cons e es ih =>
      obtain ⟨m, reads, after⟩ := follows
      exact ih after (pos_of_reads reads inside)

/-! ## Tokens -/

theorem length_pushBack (back count : ℕ) (output : List Byte) :
    (pushBack back output count).length = output.length + count := by
  induction count generalizing output with
  | zero => rfl
  | succ count ih =>
      rw [pushBack, ih, List.length_append, List.length_singleton]
      omega

theorem toNat_loByte (d : ℕ) : (loByte d).toNat = d % 256 := BitVec.toNat_ofNat d 8

theorem toNat_hiByte {d c : ℕ} (small : d < 8192) (low : c < 8) : (hiByte d c).toNat = d / 256 * 8 + c := by
  rw [hiByte, BitVec.toNat_ofNat]
  exact Nat.mod_eq_of_lt (by omega)

theorem hiByte_count {d c : ℕ} (small : d < 8192) (low : c < 8) : (hiByte d c).toNat &&& 7 = c := by
  rw [toNat_hiByte small low, Nat.and_two_pow_sub_one_eq_mod _ 3]
  omega

theorem fullDisplacement_eq {d c : ℕ} (small : d < 8192) (low : c < 8) :
    fullDisplacement (loByte d) (hiByte d c) = (d : ℤ) - 8192 := by
  have row : ∀ a < 32, ∀ c < 8, 0xE000 ||| ((a * 8 + c) &&& 0xF8) <<< 5 = (224 + a) <<< 8 := by decide
  have joined : (224 + d / 256) <<< 8 ||| d % 256 = 0xE000 + d := by
    rw [Nat.shiftLeft_eq, Nat.mul_comm, ← Nat.two_pow_add_eq_or_of_lt (Nat.mod_lt d (by decide))]
    omega
  rw [fullDisplacement, toNat_loByte, toNat_hiByte small low, row (d / 256) (by omega) c low, joined]
  push_cast
  ring

theorem exists_full (lo hi : Byte) : ∃ d < 8192, ∃ c < 8, lo = loByte d ∧ hi = hiByte d c := by
  have low := lo.isLt
  have high := hi.isLt
  refine ⟨hi.toNat / 8 * 256 + lo.toNat, by omega, hi.toNat % 8, Nat.mod_lt _ (by decide), ?_, ?_⟩
  · refine BitVec.eq_of_toNat_eq ?_
    rw [toNat_loByte]
    omega
  · refine BitVec.eq_of_toNat_eq ?_
    rw [toNat_hiByte (by omega) (Nat.mod_lt _ (by decide))]
    omega

theorem inline_count (c : Fin 4) :
    (decide (c.val / 2 = 1)).toNat <<< 1 ||| (decide (c.val % 2 = 1)).toNat = c.val := by
  revert c
  decide

theorem exists_inline (hiBit loBit : Bool) :
    ∃ c : Fin 4, hiBit = decide (c.val / 2 = 1) ∧ loBit = decide (c.val % 2 = 1) := by
  revert hiBit loBit
  decide

/-- What a step of the decoder has read and done. -/
inductive Parsed (source : Span) (limit : ℕ) (r : Reader) (output : List Byte) : Outcome → Prop
  | next (t : Token) {r' : Reader} {longer : List Byte} (follows : Follows source r t.events r')
      (denotes : t.denote output = some longer) (within : longer.length ≤ limit) :
      Parsed source limit r output (.next r' longer)
  | stop (ignored : Fin 8192) {r' : Reader} (follows : Follows source r (terminator ignored) r') :
      Parsed source limit r output (.done { output, stop := r'.pos })
  | failed {error : KosinskiError} (bad : error ≠ .none) : Parsed source limit r output (fail output error)

theorem exhausted : Parsed source limit r output (fail output .sourceExhausted) := .failed (by decide)

theorem copied_parsed {back count : ℕ} (m : Reader)
    (parses : ∀ longer, copyBytes output back count = some longer →
      ∃ t : Token, Follows source r t.events m ∧ t.denote output = some longer) :
    Parsed source limit r output (copied limit m output (-(back : ℤ)) count) := by
  rw [copied, copy, neg_neg, Int.toNat_natCast]
  by_cases before : output.length < back
  · rw [if_pos before]
    exact .failed (by decide)
  rw [if_neg before]
  by_cases past : limit < output.length + count
  · rw [if_pos past]
    exact .failed (by decide)
  rw [if_neg past]
  obtain ⟨t, follows, denotes⟩ := parses _ (if_neg before)
  exact .next t follows denotes (length_pushBack back count output ▸ Nat.le_of_not_lt past)

theorem literal_parsed (first : bit source r = some (true, m)) :
    Parsed source limit r output (literal source limit m output) := by
  rw [literal]
  by_cases full : limit ≤ output.length
  · rw [if_pos full]
    exact .failed (by decide)
  rw [if_neg full]
  cases next : nextByte source m with
  | none => exact exhausted
  | some pair =>
      obtain ⟨value, n⟩ := pair
      refine .next (.literal value) ⟨m, first, n, next, rfl⟩ rfl ?_
      rw [List.length_append]
      exact Nat.lt_of_not_le full

theorem negated {d range : ℕ} (small : d < range) : (d : ℤ) - range = -((range - d : ℕ) : ℤ) := by
  rw [Nat.cast_sub small.le]
  ring

theorem inline_parsed {n : Reader} (first : bit source r = some (false, m)) (second : bit source m = some (false, n)) :
    Parsed source limit r output (inline source limit n output) := by
  rw [inline]
  cases hi : bit source n with
  | none => exact exhausted
  | some pair =>
      obtain ⟨hiBit, n₁⟩ := pair
      dsimp only
      cases lo : bit source n₁ with
      | none => exact exhausted
      | some pair =>
          obtain ⟨loBit, n₂⟩ := pair
          dsimp only
          cases next : nextByte source n₂ with
          | none => exact exhausted
          | some pair =>
              obtain ⟨disp, n₃⟩ := pair
              obtain ⟨c, rfl, rfl⟩ := exists_inline hiBit loBit
              dsimp only
              rw [inline_count, show (256 : ℤ) = ((256 : ℕ) : ℤ) from rfl, negated disp.isLt]
              refine copied_parsed n₃ fun longer copies => ⟨.inline ⟨disp.toNat, disp.isLt⟩ c, ?_, copies⟩
              refine ⟨m, first, n, second, n₁, hi, n₂, lo, n₃, ?_, rfl⟩
              rw [Reads, BitVec.ofNat_toNat, BitVec.setWidth_eq]
              exact next

theorem extended_parsed {d : ℕ} (small : d < 8192) {n : Reader} (follows : Follows source r (fullEvents d 0) n)
    (within : output.length ≤ limit) :
    Parsed source limit r output (extended source limit n output ((d : ℤ) - 8192)) := by
  rw [extended]
  cases next : nextByte source n with
  | none => exact exhausted
  | some pair =>
      obtain ⟨extra, k⟩ := pair
      have whole : Follows source r (fullEvents d 0 ++ [.byte extra]) k :=
        follows_append.mpr ⟨n, follows, k, next, rfl⟩
      dsimp only
      by_cases zero : extra = 0
      · rw [if_pos zero]
        rw [zero] at whole
        exact .stop ⟨d, small⟩ whole
      rw [if_neg zero]
      by_cases one : extra = 1
      · rw [if_pos one]
        rw [one] at whole
        exact .next (.noop ⟨d, small⟩) whole rfl within
      rw [if_neg one, show (8192 : ℤ) = ((8192 : ℕ) : ℤ) from rfl, negated small]
      have most := extra.isLt
      have least : 2 ≤ extra.toNat := by
        have nonzero : extra.toNat ≠ 0 := fun is => zero (BitVec.eq_of_toNat_eq is)
        have nonone : extra.toNat ≠ 1 := fun is => one (BitVec.eq_of_toNat_eq is)
        omega
      refine copied_parsed k fun longer copies => ⟨.extended ⟨d, small⟩ ⟨extra.toNat - 2, by omega⟩, ?_, ?_⟩
      · rw [Token.events, Nat.sub_add_cancel least, BitVec.ofNat_toNat, BitVec.setWidth_eq]
        exact whole
      · rw [Token.denote, show extra.toNat - 2 + 3 = extra.toNat + 1 by omega]
        exact copies

theorem full_parsed {n : Reader} (first : bit source r = some (false, m)) (second : bit source m = some (true, n))
    (within : output.length ≤ limit) : Parsed source limit r output (full source limit n output) := by
  rw [full]
  cases lo : nextByte source n with
  | none => exact exhausted
  | some pair =>
      obtain ⟨loByte', n₁⟩ := pair
      dsimp only
      cases hi : nextByte source n₁ with
      | none => exact exhausted
      | some pair =>
          obtain ⟨hiByte', n₂⟩ := pair
          obtain ⟨d, small, c, low, rfl, rfl⟩ := exists_full loByte' hiByte'
          have follows : Follows source r (fullEvents d c) n₂ := ⟨m, first, n, second, n₁, lo, n₂, hi, rfl⟩
          dsimp only
          rw [hiByte_count small low, fullDisplacement_eq small low]
          by_cases copies : c ≠ 0
          · rw [if_pos copies, show (8192 : ℤ) = ((8192 : ℕ) : ℤ) from rfl, negated small]
            have least : 1 ≤ c := Nat.pos_of_ne_zero copies
            refine copied_parsed n₂ fun longer known => ⟨.full ⟨d, small⟩ ⟨c - 1, by omega⟩, ?_, ?_⟩
            · rw [Token.events, Nat.sub_add_cancel least]
              exact follows
            · rw [Token.denote, show c - 1 + 3 = c + 2 by omega]
              exact known
          · obtain rfl := not_not.mp copies
            rw [if_neg copies]
            exact extended_parsed small follows within

theorem token_parsed (within : output.length ≤ limit) :
    Parsed source limit r output (token source limit r output) := by
  rw [token]
  cases first : bit source r with
  | none => exact exhausted
  | some pair =>
      obtain ⟨value, m⟩ := pair
      cases value with
      | true => exact literal_parsed first
      | false =>
          dsimp only
          cases second : bit source m with
          | none => exact exhausted
          | some pair =>
              obtain ⟨value, n⟩ := pair
              cases value with
              | true => exact full_parsed first second within
              | false => exact inline_parsed first second

/-! ## A token that is followed is decoded -/

theorem copied_of_copyBytes {back count : ℕ} {longer : List Byte} (copies : copyBytes output back count = some longer)
    (within : longer.length ≤ limit) (r : Reader) :
    copied limit r output (-(back : ℤ)) count = .next r longer := by
  rw [copyBytes] at copies
  by_cases before : output.length < back
  · rw [if_pos before] at copies
    exact absurd copies.symm (Option.some_ne_none _)
  · rw [if_neg before] at copies
    cases Option.some.inj copies
    rw [length_pushBack] at within
    rw [copied, copy, neg_neg, Int.toNat_natCast, if_neg before, if_neg (Nat.not_lt_of_le within)]

theorem token_of_fullEvents {d c : ℕ} (small : d < 8192) (low : c < 8) (follows : Follows source r (fullEvents d c) m) :
    token source limit r output =
      if c ≠ 0 then copied limit m output ((d : ℤ) - 8192) (c + 2)
      else extended source limit m output ((d : ℤ) - 8192) := by
  obtain ⟨r₁, first, r₂, second, r₃, lo, r₄, hi, rfl⟩ := follows
  simp only [Reads] at first second lo hi
  rw [token, first]
  dsimp only
  rw [second]
  dsimp only
  rw [full, lo]
  dsimp only
  rw [hi]
  dsimp only
  rw [hiByte_count small low, fullDisplacement_eq small low]

theorem token_of_follows {t : Token} {longer : List Byte} (follows : Follows source r t.events r')
    (denotes : t.denote output = some longer) (within : longer.length ≤ limit) :
    token source limit r output = .next r' longer := by
  cases t with
  | literal value =>
      obtain ⟨m, first, n, next, rfl⟩ := follows
      simp only [Reads] at first next
      cases Option.some.inj denotes
      rw [List.length_append] at within
      rw [token, first]
      dsimp only
      rw [literal, if_neg (Nat.not_le_of_lt within), next]
  | inline d c =>
      obtain ⟨r₁, first, r₂, second, r₃, hi, r₄, lo, r₅, next, rfl⟩ := follows
      simp only [Reads] at first second hi lo next
      have disp : (BitVec.ofNat 8 d.val).toNat = d.val := by
        rw [BitVec.toNat_ofNat]
        exact Nat.mod_eq_of_lt d.isLt
      rw [token, first]
      dsimp only
      rw [second]
      dsimp only
      rw [inline, hi]
      dsimp only
      rw [lo]
      dsimp only
      rw [next]
      dsimp only
      rw [inline_count, disp, show (256 : ℤ) = ((256 : ℕ) : ℤ) from rfl, negated d.isLt]
      exact copied_of_copyBytes denotes within _
  | full d c =>
      rw [token_of_fullEvents d.isLt (show c.val + 1 < 8 by omega) follows, if_pos (Nat.succ_ne_zero _),
        show (8192 : ℤ) = ((8192 : ℕ) : ℤ) from rfl, negated d.isLt]
      exact copied_of_copyBytes denotes within _
  | extended d extra =>
      obtain ⟨m, front, k, next, rfl⟩ := follows_append.mp follows
      have read : nextByte source m = some (BitVec.ofNat 8 (extra.val + 2), k) := next
      have value : (BitVec.ofNat 8 (extra.val + 2)).toNat = extra.val + 2 := by
        rw [BitVec.toNat_ofNat]
        exact Nat.mod_eq_of_lt (by omega)
      have zero : BitVec.ofNat 8 (extra.val + 2) ≠ 0 := fun is => by
        rw [is] at value
        exact absurd value.symm (Nat.succ_ne_zero _)
      have one : BitVec.ofNat 8 (extra.val + 2) ≠ 1 := fun is => by
        rw [is] at value
        exact absurd (Nat.succ.inj value).symm (Nat.succ_ne_zero _)
      rw [token_of_fullEvents d.isLt (by decide) front, if_neg (not_not_intro rfl), extended, read]
      dsimp only
      rw [if_neg zero, if_neg one, value, show (8192 : ℤ) = ((8192 : ℕ) : ℤ) from rfl, negated d.isLt]
      exact copied_of_copyBytes denotes within _
  | noop ignored =>
      obtain ⟨m, front, k, next, rfl⟩ := follows_append.mp follows
      have read : nextByte source m = some (1, k) := next
      cases Option.some.inj denotes
      rw [token_of_fullEvents ignored.isLt (by decide) front, if_neg (not_not_intro rfl), extended, read]
      rfl

theorem token_of_terminator {ignored : Fin 8192} (follows : Follows source r (terminator ignored) r') :
    token source limit r output = .done { output, stop := r'.pos } := by
  obtain ⟨m, front, k, next, rfl⟩ := follows_append.mp follows
  have read : nextByte source m = some (0, k) := next
  rw [token_of_fullEvents ignored.isLt (by decide) front, if_neg (not_not_intro rfl), extended, read]
  rfl

/-! ## Whole streams -/

theorem length_denote {t : Token} {longer : List Byte} (denotes : t.denote output = some longer) :
    output.length ≤ longer.length := by
  have copies {back count : ℕ} (known : copyBytes output back count = some longer) : output.length ≤ longer.length := by
    rw [copyBytes] at known
    by_cases before : output.length < back
    · rw [if_pos before] at known
      exact absurd known.symm (Option.some_ne_none _)
    · rw [if_neg before] at known
      cases Option.some.inj known
      rw [length_pushBack]
      exact Nat.le_add_right _ _
  cases t with
  | literal value =>
      cases Option.some.inj denotes
      rw [List.length_append]
      exact Nat.le_add_right _ _
  | inline d c => exact copies denotes
  | full d c => exact copies denotes
  | extended d extra => exact copies denotes
  | noop ignored => exact (Option.some.inj denotes) ▸ le_rfl

theorem length_denote_all {message : List Token} {final : List Byte} (denotes : denote message output = some final) :
    output.length ≤ final.length := by
  induction message generalizing output with
  | nil => exact (Option.some.inj denotes) ▸ le_rfl
  | cons t message ih =>
      obtain ⟨longer, one, all⟩ := Option.bind_eq_some_iff.mp denotes
      exact (length_denote one).trans (ih all)

theorem events_cons (t : Token) (message : List Token) (ignored : Fin 8192) :
    events (t :: message) ignored = t.events ++ events message ignored := by
  rw [events, events, List.flatMap_cons, List.append_assoc]

theorem tokens_of_follows {message : List Token} {ignored : Fin 8192} {final : List Byte} {n : ℕ}
    (follows : Follows source r (events message ignored) r') (denotes : denote message output = some final)
    (within : final.length ≤ limit) (enough : message.length + 1 ≤ n) :
    tokens source limit n r output = { output := final, stop := r'.pos } := by
  induction message generalizing r output n with
  | nil =>
      obtain ⟨n, rfl⟩ := Nat.exists_eq_succ_of_ne_zero (Nat.ne_of_gt enough)
      cases Option.some.inj denotes
      rw [tokens, token_of_terminator follows]
  | cons t message ih =>
      obtain ⟨n, rfl⟩ := Nat.exists_eq_succ_of_ne_zero (Nat.ne_of_gt (Nat.zero_lt_of_lt enough))
      obtain ⟨longer, one, all⟩ := Option.bind_eq_some_iff.mp denotes
      rw [events_cons] at follows
      obtain ⟨m, front, back⟩ := follows_append.mp follows
      rw [tokens, token_of_follows front one ((length_denote_all all).trans within)]
      exact ih back all (Nat.le_of_succ_le_succ enough)

/-- A run of the decoder keeps to the limit, and one without an error followed a message. -/
theorem tokens_parsed {n : ℕ} (within : output.length ≤ limit) :
    (tokens source limit n r output).output.length ≤ limit ∧
      ((tokens source limit n r output).error = .none →
        ∃ message ignored r', Follows source r (events message ignored) r' ∧
          denote message output = some (tokens source limit n r output).output ∧ message.length + 1 ≤ n ∧
          (tokens source limit n r output).stop = r'.pos) := by
  induction n generalizing r output with
  | zero => exact ⟨within, fun good => absurd good (by simp [tokens])⟩
  | succ n ih =>
      have parsed := @token_parsed source limit r output within
      rw [tokens]
      cases step : token source limit r output with
      | next m longer =>
          rw [step] at parsed
          cases parsed with
          | next t follows denotes fits =>
              obtain ⟨limited, good⟩ := @ih m longer fits
              refine ⟨limited, fun none => ?_⟩
              obtain ⟨message, ignored, r', after, rest, enough, stop⟩ := good none
              refine ⟨t :: message, ignored, r', ?_, ?_, Nat.succ_le_succ enough, stop⟩
              · rw [events_cons]
                exact follows_append.mpr ⟨m, follows, after⟩
              · rw [denote, denotes]
                exact rest
      | done result =>
          rw [step] at parsed
          generalize shape : Outcome.done result = outcome at parsed
          cases parsed with
          | next t follows denotes fits => exact absurd shape (by simp)
          | stop ignored follows =>
              cases shape
              exact ⟨within, fun _ => ⟨[], ignored, _, follows, rfl, Nat.succ_le_succ (Nat.zero_le n), rfl⟩⟩
          | failed bad =>
              cases shape
              exact ⟨within, fun good => absurd good bad⟩

/-! ## The decoder -/

variable {position maxTokens stop : ℕ}

theorem stands_of_encode (is : source.from position = encode pad es ++ rest) :
    refill source { pos := position } = some { pos := position + 2, bits := word pad es, left := 16 } ∧
      Stands source pad { pos := position + 2, bits := word pad es, left := 16 } es rest := by
  rw [encode, List.append_assoc] at is
  obtain ⟨fetched, after⟩ := @refill_of_word source { pos := position } _ _ is
  exact ⟨fetched, after, Nat.succ_pos 15, le_rfl, fun j inside => word_bit j inside⟩

theorem decode_of_encodes (encodes : Encodes source position limit maxTokens output stop) :
    kosinskiDecode source limit position maxTokens = { output, stop } := by
  obtain ⟨⟨message, ignored, pad, rest, is, denotes, enough, rfl⟩, within⟩ := encodes
  obtain ⟨fetched, stands⟩ := stands_of_encode is
  obtain ⟨r', follows, ends⟩ := follows_of_stands stands
  have whole := congrArg List.length is
  have tail := congrArg List.length ends
  rw [Span.length_from] at whole tail
  rw [List.length_append] at whole
  have word : 2 ≤ (encode pad (events message ignored)).length := by
    rw [encode, List.length_append]
    exact Nat.le_add_right 2 _
  have last : r'.pos ≤ source.size := pos_of_follows follows (by dsimp only; omega)
  have place : r'.pos = position + (encode pad (events message ignored)).length := by omega
  rw [kosinskiDecode, fetched, ← place]
  exact tokens_of_follows follows denotes within enough

/-- Whatever is decoded without an error is the stream of a message. -/
theorem encodes_of_decode (good : (kosinskiDecode source limit position maxTokens).error = .none) :
    Encodes source position limit maxTokens (kosinskiDecode source limit position maxTokens).output
      (kosinskiDecode source limit position maxTokens).stop := by
  rw [kosinskiDecode] at good ⊢
  cases is : refill source { pos := position } with
  | none =>
      rw [is] at good
      exact absurd good (by simp)
  | some r =>
      rw [is] at good
      dsimp only at good ⊢
      obtain ⟨shape, front⟩ := word_of_refill is
      have left : r.left = 16 := by rw [shape]
      have pos : r.pos = position + 2 := by rw [shape]
      obtain ⟨within, parsed⟩ := @tokens_parsed source limit r [] maxTokens (Nat.zero_le _)
      obtain ⟨message, ignored, r', follows, denotes, enough, stop⟩ := parsed good
      obtain ⟨stands, -⟩ := stands_of_follows follows (left ▸ Nat.succ_pos 15) left.le
      have bits : r.bits = word (padOf r') (events message ignored) := by
        refine BitVec.eq_of_getLsbD_eq fun i inside => ?_
        rw [stands.bits i (left ▸ inside), left, word_bit i inside]
      have whole : source.from position = encode (padOf r') (events message ignored) ++ source.from r'.pos := by
        rw [encode, List.append_assoc, ← bits, ← left, ← stands.bytes, pos]
        exact front
      have start : r.pos ≤ source.size := by
        have two := congrArg List.length front
        rw [Span.length_from, List.length_append, wordBytes, List.length_cons, List.length_singleton] at two
        dsimp only at two
        omega
      have last := pos_of_follows follows start
      refine ⟨⟨message, ignored, padOf r', source.from r'.pos, whole, denotes, enough, ?_⟩, within⟩
      have lengths := congrArg List.length whole
      rw [List.length_append, Span.length_from, Span.length_from] at lengths
      have word : 2 ≤ (encode (padOf r') (events message ignored)).length := by
        rw [encode, List.length_append]
        exact Nat.le_add_right 2 _
      omega

theorem decode_limited : (kosinskiDecode source limit position maxTokens).output.length ≤ limit := by
  rw [kosinskiDecode]
  cases refill source { pos := position } with
  | none => exact Nat.zero_le _
  | some r => exact (tokens_parsed (Nat.zero_le limit)).1

/-- Two spans of one size with the same bytes are decoded alike, whatever stands past them. -/
theorem decode_congr {other : Span} (size : other.size = source.size)
    (same : ∀ i < source.size, other.data i = source.data i) :
    kosinskiDecode other limit position maxTokens = kosinskiDecode source limit position maxTokens := by
  have next : nextByte other = nextByte source := by
    funext r
    rw [nextByte, nextByte, size]
    by_cases past : source.size ≤ r.pos
    · rw [if_pos past, if_pos past]
    · rw [if_neg past, if_neg past, same _ (Nat.lt_of_not_le past)]
  have fetch : refill other = refill source := by
    funext r
    rw [refill, refill, next]
  have bits : bit other = bit source := by
    funext r
    rw [bit, bit, fetch]
  have step : token other limit = token source limit := by
    funext r output
    simp only [token, literal, full, inline, extended, bits, next]
  have run (n : ℕ) : ∀ r output, tokens other limit n r output = tokens source limit n r output := by
    induction n with
    | zero => exact fun _ _ => rfl
    | succ n ih =>
        intro r output
        rw [tokens, tokens, step]
        cases token source limit r output with
        | next r output => exact ih r output
        | done result => rfl
  rw [kosinskiDecode, kosinskiDecode, fetch]
  cases refill source { pos := position } with
  | none => rfl
  | some r => exact run maxTokens r []

theorem kosinskiDecode_inverts (source : Span) (position limit maxTokens : ℕ) :
    (∀ output stop, Encodes source position limit maxTokens output stop ↔
      kosinskiDecode source limit position maxTokens = { output, stop }) ∧
      ((¬∃ output stop, Encodes source position limit maxTokens output stop) →
        (kosinskiDecode source limit position maxTokens).error ≠ .none) ∧
      (kosinskiDecode source limit position maxTokens).output.length ≤ limit ∧
      ∀ other : Span, other.size = source.size → (∀ i < source.size, other.data i = source.data i) →
        kosinskiDecode other limit position maxTokens = kosinskiDecode source limit position maxTokens := by
  refine ⟨fun output stop => ⟨decode_of_encodes, fun is => ?_⟩, fun never good => ?_, decode_limited,
    fun other size same => decode_congr size same⟩
  · have encodes := @encodes_of_decode source limit position maxTokens (by rw [is])
    rw [is] at encodes
    exact encodes
  · exact never ⟨_, _, encodes_of_decode good⟩

end Segarecomp.Media.Kosinski

import Segarecomp.Media.Bps
import Segarecomp.Media.BpsFormat

/-! `applyBps` recovers exactly the bytes a serialised command list denotes. -/

namespace Segarecomp.Media.Bps

open Lib
open BpsFormat (Command Machine Length Offset)

/-- The bytes `bytes` stand at position `pos` of `p`. -/
def At (p : List Byte) (pos : ℕ) (bytes : List Byte) : Prop := bytes <+: p.drop pos

section reading
variable {p : List Byte} {pos : ℕ}

theorem at_append {a b : List Byte} : At p pos (a ++ b) ↔ At p pos a ∧ At p (pos + a.length) b := by
  unfold At
  rw [← List.drop_drop]
  constructor
  · rintro ⟨rest, h⟩
    rw [← h]
    constructor
    · exact ⟨b ++ rest, by simp⟩
    · exact ⟨rest, by simp⟩
  · rintro ⟨⟨rest, h⟩, second⟩
    rw [← h] at second ⊢
    rw [List.drop_left] at second
    exact List.prefix_append_right_inj a |>.mpr second

theorem byteAt_of_at {b : Byte} {bs : List Byte} (h : At p pos (b :: bs)) : byteAt p pos = b := by
  rcases h with ⟨rest, h⟩
  have value : p[pos]? = some b := by
    rw [← List.head?_drop, ← h]
    rfl
  simp [byteAt, value]

theorem at_tail {b : Byte} {bs : List Byte} (h : At p pos (b :: bs)) : At p (pos + 1) bs :=
  (at_append (a := [b]).mp h).2

theorem at_bytes {bytes : List Byte} (h : At p pos bytes) {i : ℕ} (hi : i < bytes.length) :
    byteAt p (pos + i) = bytes.getD i 0 := by
  rcases h with ⟨rest, h⟩
  have value : p[pos + i]? = bytes[i]? := by
    rw [← List.getElem?_drop, ← h, List.getElem?_append_left hi]
  simp [byteAt, value]

theorem wrap64_of_lt {n : ℕ} (h : n < 2 ^ 64) : wrap64 n = n := Nat.mod_eq_of_lt h

theorem readNumberLoop_encode (n : ℕ) (room data shift : ℕ) {pos : ℕ} (h : At p pos (BiasedNumber.encode n))
    (inside : (BiasedNumber.encode n).length ≤ room) (positive : 0 < shift)
    (fits : data + shift * n < 2 ^ 64) :
    readNumberLoop p room pos data shift =
      some (data + shift * n, pos + (BiasedNumber.encode n).length) := by
  induction n using Nat.strongRecOn generalizing room pos data shift with
  | ind n ih =>
    obtain ⟨room, rfl⟩ : ∃ r, room = r + 1 :=
      ⟨room - 1, by have := BiasedNumber.encode_length_pos n; omega⟩
    rcases Nat.lt_or_ge n 128 with small | large
    · rw [BiasedNumber.encode_small small] at h ⊢
      have byte := byteAt_of_at h
      have product : n * shift = shift * n := Nat.mul_comm _ _
      have guard : ¬ (n ≠ 0 ∧ shift > (uint64Max - data) / n) := by
        rintro ⟨nonzero, exceeds⟩
        have := (Nat.div_lt_iff_lt_mul (Nat.pos_of_ne_zero nonzero)).mp exceeds
        unfold uint64Max at this
        omega
      simp only [readNumberLoop, byte, BiasedNumber.last_low small, if_neg guard,
        if_pos (BiasedNumber.last_high small), product]
      rw [wrap64_of_lt (show shift * n < 2 ^ 64 by omega), wrap64_of_lt fits]
      rfl
    · rw [BiasedNumber.encode_large large] at h inside ⊢
      have byte := byteAt_of_at h
      have split : shift * n = n % 128 * shift + shift * 128 * (n / 128 - 1) + shift * 128 := by
        have : n = n % 128 + 128 * (n / 128 - 1) + 128 := by omega
        conv_lhs => rw [this]
        ring
      have shifted : shift <<< 7 = shift * 128 := by rw [Nat.shiftLeft_eq]
      have guard : ¬ (n % 128 ≠ 0 ∧ shift > (uint64Max - data) / (n % 128)) := by
        rintro ⟨nonzero, exceeds⟩
        have := (Nat.div_lt_iff_lt_mul (Nat.pos_of_ne_zero nonzero)).mp exceeds
        rw [Nat.mul_comm shift] at this
        unfold uint64Max at this
        omega
      have guardShift : ¬ shift > uint64Max >>> 7 := by
        rw [Nat.shiftRight_eq_div_pow]
        unfold uint64Max
        omega
      have guardBias : ¬ data + n % 128 * shift > uint64Max - shift * 128 := by
        unfold uint64Max
        omega
      simp only [readNumberLoop, byte, BiasedNumber.more_low, if_neg guard, BiasedNumber.more_high,
        ne_eq, not_true_eq_false, if_false, if_neg guardShift, shifted]
      rw [wrap64_of_lt (show n % 128 * shift < 2 ^ 64 by omega),
        wrap64_of_lt (show data + n % 128 * shift < 2 ^ 64 by omega),
        wrap64_of_lt (show shift * 128 < 2 ^ 64 by omega), if_neg guardBias,
        wrap64_of_lt (show data + n % 128 * shift + shift * 128 < 2 ^ 64 by omega)]
      rw [ih (n / 128 - 1) (by omega) _ _ _ (at_tail h) (by simpa using inside) (by omega) (by omega)]
      rw [split, List.length_cons]
      congr 2
      · omega
      · omega

theorem readNumber_encode (stop : ℕ) {n : ℕ} (h : At p pos (BiasedNumber.encode n))
    (inside : pos + (BiasedNumber.encode n).length ≤ stop) (fits : n < 2 ^ 64) :
    readNumber p pos stop = some (n, pos + (BiasedNumber.encode n).length) := by
  have := readNumberLoop_encode n (stop - pos) 0 1 h
    (by omega) (by omega) (by omega)
  simpa [readNumber] using this

theorem le32_word32 {x : BitVec 32} (h : At p pos (BpsFormat.word32 x)) : le32 p pos = x := by
  have b0 := byteAt_of_at h
  have b1 := byteAt_of_at (at_tail h)
  have b2 := byteAt_of_at (at_tail (at_tail h))
  have b3 := byteAt_of_at (at_tail (at_tail (at_tail h)))
  simp only [Nat.add_assoc, Nat.reduceAdd] at b2 b3
  rw [le32, b0, b1, b2, b3]
  apply BitVec.eq_of_getLsbD_eq
  intro i hi
  simp only [BitVec.getLsbD_or, BitVec.getLsbD_shiftLeft, BitVec.getLsbD_setWidth,
    BitVec.getLsbD_ushiftRight]
  interval_cases i <;> simp

end reading

theorem tableStep_eq (c : BitVec 32) : tableStep c = Crc.divStep BpsFormat.crcPolynomial c := by
  have bit : c &&& 1 ≠ 0 ↔ c.getLsbD 0 = true := by
    constructor
    · intro h
      by_contra low
      apply h
      apply BitVec.eq_of_getLsbD_eq
      intro i hi
      cases i with
      | zero => simpa using low
      | succ i => simp
    · intro h zero
      have low := congrArg (fun x => BitVec.getLsbD x 0) zero
      simp only [BitVec.getLsbD_and, h] at low
      contradiction
  simp only [tableStep, Crc.divStep, bit, BpsFormat.crcPolynomial]

theorem table_eq (i : BitVec 32) : table i = Crc.divSteps BpsFormat.crcPolynomial 8 i := by
  have steps : ∀ (n : ℕ) (c : BitVec 32),
      (List.range' 0 n).foldl (fun c _ => tableStep c) c = Crc.divSteps BpsFormat.crcPolynomial n c := by
    intro n
    induction n with
    | zero => intro c; rfl
    | succ n ih =>
        intro c
        have shift : ∀ (d : BitVec 32), (List.range' 1 n).foldl (fun c _ => tableStep c) d =
            (List.range' 0 n).foldl (fun c _ => tableStep c) d := by
          intro d
          rw [List.range'_eq_map_range, List.range'_eq_map_range]
          simp only [List.foldl_map]
        rw [List.range'_succ, List.foldl_cons, shift, ih, tableStep_eq, Crc.divSteps]
  rw [table, List.range_eq_range', steps]

theorem crc32_eq (bytes : List Byte) : crc32 bytes = BpsFormat.crc32 bytes := by
  unfold crc32 BpsFormat.crc32 Crc.checksum
  congr 1
  apply List.foldl_ext
  intro c b hb
  have high : (c ^^^ b.setWidth 32) >>> 8 = c >>> 8 := by
    apply BitVec.eq_of_getLsbD_eq
    intro i hi
    simp
  rw [table_eq, Crc.feed, Crc.divSteps_eight _ (c ^^^ b.setWidth 32), high]
  rfl

/-- The code's cursor stands where the abstract machine does: the written part of the
preallocated output is the machine's output, and both running offsets agree. -/
structure Simulates (total : ℕ) (m : Machine) (c : Cursor) : Prop where
  out : c.out = m.output ++ List.replicate (total - m.output.length) 0
  bound : m.output.length ≤ total
  outAt : c.outAt = m.output.length
  sourceRel : (c.sourceRel : ℤ) = m.sourceRelative
  targetRel : (c.targetRel : ℤ) = m.targetRelative
  sourceFits : c.sourceRel < 2 ^ 64
  targetFits : c.targetRel < 2 ^ 64

section simulation
variable {patch source : List Byte} {footer total : ℕ} {m m' : Machine} {c : Cursor}

theorem Simulates.out_length (sim : Simulates total m c) : c.out.length = total := by
  have := sim.bound
  rw [sim.out, List.length_append, List.length_replicate]
  omega

/-- The bytes one command writes, once its reads are known. -/
theorem Simulates.blit_grow (sim : Simulates total m c) (read next : List Byte → ℕ → Byte) {n : ℕ}
    (room : m.output.length + n ≤ total)
    (agree : ∀ done rest k, done.length = m.output.length + k → k < n →
      read (done ++ rest) k = next done k) :
    Overlap.blit read c.outAt c.out n = Overlap.grow next m.output n ++
      List.replicate (total - (Overlap.grow next m.output n).length) 0 := by
  rw [sim.out, sim.outAt,
    Overlap.blit_eq_grow read next m.output _ n (by rw [List.length_replicate]; omega) agree,
    List.drop_replicate, Overlap.grow_length]
  congr 2
  omega

theorem Simulates.blit_slice (sim : Simulates total m c) (from_ : List Byte) (start : ℕ) {n : ℕ}
    (room : m.output.length + n ≤ total) (inside : start + n ≤ from_.length) :
    Overlap.blit (fun _ i => byteAt from_ (start + i)) c.outAt c.out n =
      (m.output ++ (from_.drop start).take n) ++
        List.replicate (total - (m.output ++ (from_.drop start).take n).length) 0 := by
  have slice := Overlap.grow_slice from_ m.output start n inside
  have := sim.blit_grow (fun _ i => byteAt from_ (start + i)) (fun _ i => byteAt from_ (start + i))
    room (fun _ _ _ _ _ => rfl)
  rw [show Overlap.grow (fun _ i => byteAt from_ (start + i)) m.output n =
    m.output ++ (from_.drop start).take n from slice] at this
  exact this

theorem moveRel_raw (offset : Offset) {rel : ℕ} (fits : rel < 2 ^ 64)
    (low : 0 ≤ (rel : ℤ) + offset.value) (high : (rel : ℤ) + offset.value < 2 ^ 64) :
    moveRel offset.raw rel = some ((rel : ℤ) + offset.value).toNat := by
  have magnitude : offset.raw >>> 1 = offset.magnitude := by
    have := offset.negative.toNat_lt
    rw [Nat.shiftRight_eq_div_pow, Offset.raw]
    omega
  have sign : offset.raw &&& 1 = offset.negative.toNat := by
    have := offset.negative.toNat_lt
    rw [Nat.and_one_is_mod, Offset.raw]
    omega
  simp only [moveRel, magnitude, sign, uint64Max]
  cases negative : offset.negative with
  | true =>
      simp only [Offset.value, negative, if_true] at low high ⊢
      rw [if_pos (by decide), if_neg (by omega)]
      congr 1
      omega
  | false =>
      simp only [Offset.value, negative] at low high ⊢
      rw [if_neg (by decide), if_neg (by simp at high; omega)]
      simp only [Bool.false_eq_true, if_false] at high ⊢
      rw [wrap64_of_lt (by omega)]
      congr 1

theorem offset_raw_lt (offset : Offset) : offset.raw < 2 ^ 64 := by
  have := offset.fits
  have := offset.negative.toNat_lt
  rw [Offset.raw]
  omega

theorem command_word {kind n : ℕ} (small : kind < 4) (positive : 0 < n) (fits : n ≤ 2 ^ 62) :
    wrap64 (((n - 1) * 4 + kind) >>> 2 + 1) = n ∧ ((n - 1) * 4 + kind) &&& 3 = kind ∧
      (n - 1) * 4 + kind < 2 ^ 64 := by
  have mask := Nat.and_two_pow_sub_one_eq_mod ((n - 1) * 4 + kind) 2
  norm_num at mask
  refine ⟨?_, by omega, by omega⟩
  rw [Nat.shiftRight_eq_div_pow, wrap64_of_lt (by omega)]
  omega

/-- The command word selects the kind and the length that were encoded. -/
theorem command_dispatch (sim : Simulates total m c) (kind : ℕ) {n : ℕ} (small : kind < 4) (positive : 0 < n)
    (fits : n ≤ 2 ^ 62) (here : At patch c.pos (BiasedNumber.encode ((n - 1) * 4 + kind)))
    (inside : c.pos + (BiasedNumber.encode ((n - 1) * 4 + kind)).length ≤ footer)
    (room : m.output.length + n ≤ total) :
    command patch source footer c =
      match kind with
      | 0 => sourceRead source n { c with pos := c.pos + (BiasedNumber.encode ((n - 1) * 4 + kind)).length }
      | 1 => targetRead patch footer n { c with pos := c.pos + (BiasedNumber.encode ((n - 1) * 4 + kind)).length }
      | 2 => sourceCopy patch source footer n { c with pos := c.pos + (BiasedNumber.encode ((n - 1) * 4 + kind)).length }
      | _ => targetCopy patch footer n { c with pos := c.pos + (BiasedNumber.encode ((n - 1) * 4 + kind)).length } := by
  rcases command_word small positive fits with ⟨length, selector, wordFits⟩
  have within : ¬ n > c.out.length - c.outAt := by
    rw [sim.out_length, sim.outAt]
    omega
  have read := readNumber_encode _ here inside wordFits
  interval_cases kind
  all_goals
    simp only [command, read, length, selector, if_neg within]

theorem sourceRead_step (sim : Simulates total m c) (length : Length)
    (step : m.step source (.sourceRead length) = some m') (room : m'.output.length ≤ total)
    (totalFits : total < 2 ^ 64) (pos : ℕ) :
    ∃ c', sourceRead source length.val { c with pos := pos } = .ok c' ∧ Simulates total m' c' ∧
      c'.pos = pos := by
  have grown := BpsFormat.step_output_length step
  have fits := grown ▸ room
  simp only [Machine.step, Option.ite_none_right_eq_some, Option.some.injEq] at step
  rcases step with ⟨inside, rfl⟩
  simp only [Command.size] at grown fits
  have sum : wrap64 (c.outAt + length.val) = m.output.length + length.val := by
    rw [sim.outAt, wrap64_of_lt (by omega)]
  rw [sourceRead, if_neg (by simp only [sum]; omega)]
  refine ⟨_, rfl, ?_, rfl⟩
  exact {
    out := by
      rw [sim.outAt, ← sim.blit_slice source m.output.length (by omega) inside, sim.outAt]
    bound := room
    outAt := sum.trans grown.symm
    sourceRel := sim.sourceRel
    targetRel := sim.targetRel
    sourceFits := sim.sourceFits
    targetFits := sim.targetFits }

theorem targetRead_step (sim : Simulates total m c) (bytes : List Byte) (nonempty : 0 < bytes.length)
    (step : m.step source (.targetRead bytes nonempty) = some m') (room : m'.output.length ≤ total)
    (totalFits : total < 2 ^ 64) (pos : ℕ) (here : At patch pos bytes)
    (inside : pos + bytes.length ≤ footer) :
    ∃ c', targetRead patch footer bytes.length { c with pos := pos } = .ok c' ∧
      Simulates total m' c' ∧ c'.pos = pos + bytes.length := by
  have grown := BpsFormat.step_output_length step
  have fits := grown ▸ room
  simp only [Machine.step, Option.some.injEq] at step
  subst step
  simp only [Command.size] at grown fits
  have sum : wrap64 (c.outAt + bytes.length) = m.output.length + bytes.length := by
    rw [sim.outAt, wrap64_of_lt (by omega)]
  have same : Overlap.grow (fun _ i => byteAt patch (pos + i)) m.output bytes.length =
      Overlap.grow (fun _ i => bytes.getD (0 + i) default) m.output bytes.length :=
    Overlap.grow_congr (fun k hk _ => by rw [at_bytes here hk, Nat.zero_add]; rfl)
  rw [targetRead, if_neg (by simp only; omega)]
  refine ⟨_, rfl, ?_, rfl⟩
  exact {
    out := by
      have written := sim.blit_grow (fun _ i => byteAt patch (pos + i)) _ (n := bytes.length)
        (by omega) (fun _ _ _ _ _ => rfl)
      rw [same, Overlap.grow_slice _ _ _ _ (by omega)] at written
      simpa using written
    bound := room
    outAt := sum.trans grown.symm
    sourceRel := sim.sourceRel
    targetRel := sim.targetRel
    sourceFits := sim.sourceFits
    targetFits := sim.targetFits }

theorem sourceCopy_step (sim : Simulates total m c) (length : Length) (offset : Offset)
    (step : m.step source (.sourceCopy length offset) = some m') (room : m'.output.length ≤ total)
    (totalFits : total < 2 ^ 64) (sourceFits : source.length < 2 ^ 64) (pos : ℕ)
    (here : At patch pos (BiasedNumber.encode offset.raw))
    (inside : pos + (BiasedNumber.encode offset.raw).length ≤ footer) :
    ∃ c', sourceCopy patch source footer length.val { c with pos := pos } = .ok c' ∧
      Simulates total m' c' ∧ c'.pos = pos + (BiasedNumber.encode offset.raw).length := by
  have grown := BpsFormat.step_output_length step
  have fits := grown ▸ room
  have positive := length.pos
  simp only [Machine.step, Option.ite_none_right_eq_some, Option.some.injEq] at step
  rcases step with ⟨⟨low, high⟩, rfl⟩
  simp only [Command.size] at grown fits
  rw [← sim.sourceRel] at low high
  have sum : wrap64 (c.outAt + length.val) = m.output.length + length.val := by
    rw [sim.outAt, wrap64_of_lt (by omega)]
  have move := moveRel_raw offset sim.sourceFits low (by omega)
  have after : wrap64 (((c.sourceRel : ℤ) + offset.value).toNat + length.val) =
      ((c.sourceRel : ℤ) + offset.value).toNat + length.val := wrap64_of_lt (by omega)
  simp only [sourceCopy, readNumber_encode _ here inside (offset_raw_lt offset), move]
  rw [if_neg (by omega)]
  refine ⟨_, rfl, ?_, rfl⟩
  exact {
    out := by
      have written := sim.blit_slice source ((c.sourceRel : ℤ) + offset.value).toNat
        (n := length.val) (by omega) (by omega)
      simpa only [← sim.sourceRel] using written
    bound := room
    outAt := sum.trans grown.symm
    sourceRel := by
      simp only [after, ← sim.sourceRel]
      omega
    targetRel := sim.targetRel
    sourceFits := by
      simp only [after]
      omega
    targetFits := sim.targetFits }

theorem targetCopy_step (sim : Simulates total m c) (length : Length) (offset : Offset)
    (step : m.step source (.targetCopy length offset) = some m') (room : m'.output.length ≤ total)
    (totalFits : total < 2 ^ 64) (pos : ℕ) (here : At patch pos (BiasedNumber.encode offset.raw))
    (inside : pos + (BiasedNumber.encode offset.raw).length ≤ footer) :
    ∃ c', targetCopy patch footer length.val { c with pos := pos } = .ok c' ∧
      Simulates total m' c' ∧ c'.pos = pos + (BiasedNumber.encode offset.raw).length := by
  have grown := BpsFormat.step_output_length step
  have fits := grown ▸ room
  have positive := length.pos
  simp only [Machine.step, Option.ite_none_right_eq_some, Option.some.injEq] at step
  rcases step with ⟨⟨low, high⟩, rfl⟩
  simp only [Command.size] at grown fits
  rw [← sim.targetRel] at low high
  have sum : wrap64 (c.outAt + length.val) = m.output.length + length.val := by
    rw [sim.outAt, wrap64_of_lt (by omega)]
  have move := moveRel_raw offset sim.targetFits low (by omega)
  have after : wrap64 (((c.targetRel : ℤ) + offset.value).toNat + length.val) =
      ((c.targetRel : ℤ) + offset.value).toNat + length.val := wrap64_of_lt (by omega)
  simp only [targetCopy, readNumber_encode _ here inside (offset_raw_lt offset), move]
  rw [if_neg (by rw [sim.outAt]; omega)]
  refine ⟨_, rfl, ?_, rfl⟩
  exact {
    out := by
      -- every byte read is already written: the read position trails the write position
      have written := sim.blit_grow
        (fun out i => byteAt out (((c.targetRel : ℤ) + offset.value).toNat + i))
        (fun written i => written.getD (((c.targetRel : ℤ) + offset.value).toNat + i) 0)
        (n := length.val) (by omega)
        (fun done rest k hlen hk => by
          simp only [byteAt, List.getD_eq_getElem?_getD]
          rw [List.getElem?_append_left (by omega)])
      simpa only [BpsFormat.copyOutput, ← sim.targetRel] using written
    bound := room
    outAt := sum.trans grown.symm
    sourceRel := sim.sourceRel
    targetRel := by
      simp only [after, ← sim.targetRel]
      omega
    sourceFits := sim.sourceFits
    targetFits := by
      simp only [after]
      omega }

/-- One encoded command takes the cursor where the abstract machine goes. -/
theorem command_encode (sim : Simulates total m c) (cmd : Command) (step : m.step source cmd = some m')
    (room : m'.output.length ≤ total) (totalFits : total < 2 ^ 64) (sourceFits : source.length < 2 ^ 64)
    (footerFits : footer ≤ 2 ^ 62) (here : At patch c.pos cmd.encode)
    (inside : c.pos + cmd.encode.length ≤ footer) :
    ∃ c', command patch source footer c = .ok c' ∧ Simulates total m' c' ∧
      c'.pos = c.pos + cmd.encode.length := by
  have fits := BpsFormat.step_output_length step ▸ room
  cases cmd with
  | sourceRead length =>
      rw [command_dispatch sim 0 (by decide) length.pos length.fits here inside fits]
      exact sourceRead_step sim length step room totalFits _
  | targetRead bytes nonempty =>
      simp only [Command.encode, List.length_append] at inside ⊢
      rcases at_append.mp here with ⟨word, rest⟩
      rw [command_dispatch sim 1 (by decide) nonempty (by omega) word (by omega) fits,
        ← Nat.add_assoc]
      exact targetRead_step sim bytes nonempty step room totalFits _ rest (by omega)
  | sourceCopy length offset =>
      simp only [Command.encode, List.length_append] at inside ⊢
      rcases at_append.mp here with ⟨word, rest⟩
      rw [command_dispatch sim 2 (by decide) length.pos length.fits word (by omega) fits,
        ← Nat.add_assoc]
      exact sourceCopy_step sim length offset step room totalFits sourceFits _ rest (by omega)
  | targetCopy length offset =>
      simp only [Command.encode, List.length_append] at inside ⊢
      rcases at_append.mp here with ⟨word, rest⟩
      rw [command_dispatch sim 3 (by decide) length.pos length.fits word (by omega) fits,
        ← Nat.add_assoc]
      exact targetCopy_step sim length offset step room totalFits _ rest (by omega)

/-- The command loop runs through a whole encoded list and stops at its end. -/
theorem commands_encode (sim : Simulates total m c) (cs : List Command) (room : ℕ)
    (run : m.run source cs = some m') (done : m'.output.length = total)
    (enough : total - m.output.length ≤ room) (totalFits : total < 2 ^ 64)
    (sourceFits : source.length < 2 ^ 64) (footerFits : footer ≤ 2 ^ 62)
    (here : At patch c.pos (cs.flatMap Command.encode))
    (inside : c.pos + (cs.flatMap Command.encode).length ≤ footer) :
    ∃ c', commands patch source footer room c = .ok c' ∧ Simulates total m' c' ∧
      c'.pos = c.pos + (cs.flatMap Command.encode).length := by
  induction cs generalizing m c room with
  | nil =>
      simp only [Machine.run, Option.some.injEq] at run
      subst run
      have full : ¬ c.outAt < c.out.length := by
        rw [sim.out_length, sim.outAt]
        omega
      refine ⟨c, ?_, sim, by simp⟩
      cases room with
      | zero => rfl
      | succ room => rw [commands, if_neg full]
  | cons cmd cs ih =>
      rcases Option.bind_eq_some_iff.mp run with ⟨mid, step, rest⟩
      simp only [List.flatMap_cons, List.length_append] at here inside ⊢
      rcases at_append.mp here with ⟨first, later⟩
      have grown := BpsFormat.step_output_length step
      have positive := cmd.size_pos
      have most := BpsFormat.run_output_length rest
      obtain ⟨room, rfl⟩ : ∃ r, room = r + 1 := ⟨room - 1, by omega⟩
      have open_ : c.outAt < c.out.length := by
        rw [sim.out_length, sim.outAt]
        omega
      rcases command_encode sim cmd step (by omega) totalFits sourceFits footerFits first (by omega) with
        ⟨next, ran, simNext, posNext⟩
      rcases ih simNext room rest (by omega) (by rw [posNext]; exact later) (by omega) with
        ⟨last, finished, simLast, posLast⟩
      refine ⟨last, ?_, simLast, by omega⟩
      rw [commands, if_pos open_, ran]
      exact finished

end simulation

section whole
variable (source metadata : List Byte) (cs : List Command) (target : List Byte)

theorem word32_length (x : BitVec 32) : (BpsFormat.word32 x).length = 4 := rfl

theorem serialise_layout {patch main : List Byte}
    (whole : patch = BpsFormat.serialise source metadata cs target)
    (part : main = BpsFormat.body source metadata cs target) :
    patch.length = main.length + 12 ∧ At patch 0 main ∧
      At patch main.length (BpsFormat.word32 (BpsFormat.crc32 source)) ∧
      At patch (main.length + 4) (BpsFormat.word32 (BpsFormat.crc32 target)) ∧
      At patch (main.length + 8) (BpsFormat.word32 (BpsFormat.crc32 (patch.take (main.length + 8)))) := by
  have length : patch.length = main.length + 12 := by
    rw [whole, part, BpsFormat.serialise]
    simp only [List.length_append, word32_length]
  have checked : patch.take (main.length + 8) = main ++
      BpsFormat.word32 (BpsFormat.crc32 source) ++ BpsFormat.word32 (BpsFormat.crc32 target) := by
    rw [whole, part, BpsFormat.serialise, List.take_left']
    simp only [List.length_append, word32_length]
  have all : At patch 0 (main ++ BpsFormat.word32 (BpsFormat.crc32 source) ++
      BpsFormat.word32 (BpsFormat.crc32 target) ++
        BpsFormat.word32 (BpsFormat.crc32 (patch.take (main.length + 8)))) := by
    rw [checked, part, whole]
    exact List.prefix_rfl
  rcases at_append.mp all with ⟨front, last⟩
  rcases at_append.mp front with ⟨front, middle⟩
  rcases at_append.mp front with ⟨front, first⟩
  simp only [List.length_append, word32_length, Nat.zero_add] at first middle last
  exact ⟨length, front, first, middle, last⟩

theorem body_length : 7 + metadata.length ≤ (BpsFormat.body source metadata cs target).length := by
  have first := BiasedNumber.encode_length_pos source.length
  have second := BiasedNumber.encode_length_pos target.length
  have third := BiasedNumber.encode_length_pos metadata.length
  have magicLength : BpsFormat.magic.length = 4 := rfl
  simp only [BpsFormat.body, List.length_append, magicLength]
  omega

theorem readHeader_encode {patch : List Byte} (footer : ℕ)
    (here : At patch 0 (BpsFormat.body source metadata cs target))
    (inside : (BpsFormat.body source metadata cs target).length ≤ footer)
    (sourceFits : source.length < 2 ^ 64) (targetFits : target.length < 2 ^ 64)
    (metadataFits : metadata.length < 2 ^ 64) :
    ∃ pos, readHeader patch footer = some (source.length, target.length, metadata.length, pos) ∧
      pos + metadata.length + (cs.flatMap Command.encode).length =
        (BpsFormat.body source metadata cs target).length ∧
      At patch (pos + metadata.length) (cs.flatMap Command.encode) ∧
      byteAt patch 0 = 0x42 ∧ byteAt patch 1 = 0x50 ∧ byteAt patch 2 = 0x53 ∧ byteAt patch 3 = 0x31 := by
  unfold BpsFormat.body at here inside
  rcases at_append.mp here with ⟨front, list⟩
  rcases at_append.mp front with ⟨front, _⟩
  rcases at_append.mp front with ⟨front, third⟩
  rcases at_append.mp front with ⟨front, second⟩
  rcases at_append.mp front with ⟨front, first⟩
  have magicLength : BpsFormat.magic.length = 4 := rfl
  simp only [List.length_append, magicLength, Nat.zero_add] at list first second third inside
  have one := readNumber_encode footer first (by omega) sourceFits
  have two := readNumber_encode footer second (by omega) targetFits
  have three := readNumber_encode footer third (by omega) metadataFits
  refine ⟨_, ?_, ?_, list, ?_⟩
  · simp only [readHeader, one, two, three, bind, Option.bind, pure]
  · simp only [BpsFormat.body, List.length_append, magicLength]
  · exact ⟨byteAt_of_at front, byteAt_of_at (at_tail front), byteAt_of_at (at_tail (at_tail front)),
      byteAt_of_at (at_tail (at_tail (at_tail front)))⟩

end whole

theorem simulates_start (total pos : ℕ) :
    Simulates total {} { pos := pos, out := List.replicate total 0 } where
  out := rfl
  bound := Nat.zero_le _
  outAt := rfl
  sourceRel := rfl
  targetRel := rfl
  sourceFits := Nat.two_pow_pos 64
  targetFits := Nat.two_pow_pos 64

/-- Applying a serialised patch gives exactly the bytes its command list denotes. -/
theorem applyBps_serialise (source metadata : List Byte) (cs : List Command) (target : List Byte)
    (maxOutput : ℕ) (denotes : BpsFormat.denote source cs = some target)
    (small : target.length ≤ maxOutput) (maxFits : maxOutput < 2 ^ 64)
    (sourceFits : source.length < 2 ^ 64)
    (payload : (BpsFormat.serialise source metadata cs target).length ≤ kMaxPatchBytes) :
    applyBps (BpsFormat.serialise source metadata cs target) source maxOutput =
      { ok := true, output := target } := by
  rcases Option.map_eq_some_iff.mp denotes with ⟨final, run, rfl⟩
  generalize whole : BpsFormat.serialise source metadata cs final.output = patch at payload ⊢
  generalize part : BpsFormat.body source metadata cs final.output = main
  rcases serialise_layout source metadata cs final.output whole.symm part.symm with
    ⟨length, front, sumSource, sumTarget, sumPatch⟩
  have limit : kMaxPatchBytes = 16777216 := by decide
  have mainLength := part ▸ body_length source metadata cs final.output
  rcases readHeader_encode source metadata cs final.output main.length (part ▸ front)
    (part ▸ le_rfl) sourceFits (by omega) (by omega) with ⟨pos, header, size, list, m0, m1, m2, m3⟩
  rw [part] at size
  rcases commands_encode (simulates_start final.output.length (pos + metadata.length)) cs
    final.output.length run rfl (by simp) (by omega) sourceFits
    (show main.length ≤ 2 ^ 62 by omega) list (by simp only; omega) with
    ⟨last, finished, sim, posLast⟩
  have output : last.out = final.output := by
    rw [sim.out, Nat.sub_self, List.replicate_zero, List.append_nil]
  have footer : patch.length - 12 = main.length := by omega
  have tail : patch.length - 4 = main.length + 8 := by omega
  have atEnd : last.pos = main.length := posLast.trans size
  rw [applyBps, if_neg (by omega), if_neg (by omega), if_neg (by simp [m0, m1, m2, m3])]
  simp only [footer, tail, crc32_eq, le32_word32 sumPatch, header, le32_word32 sumSource, ne_eq,
    not_true_eq_false, if_false]
  rw [if_neg (by omega), if_neg (by omega), finished]
  simp only [atEnd, output, le32_word32 sumTarget, not_true_eq_false, if_false]

/-- One byte of the source, one literal, then an overlapping copy that repeats both. -/
def sampleCommands : List Command :=
  [.sourceRead ⟨1, by decide, by decide⟩, .targetRead [7] (by decide),
   .targetCopy ⟨5, by decide, by decide⟩ ⟨false, 0, by decide⟩]

theorem applyBps_serialise_sample :
    applyBps (BpsFormat.serialise [9, 8] [] sampleCommands [9, 7, 9, 7, 9, 7, 9]) [9, 8] 16 =
      { ok := true, output := [9, 7, 9, 7, 9, 7, 9] } := by
  have payload : (BpsFormat.serialise [9, 8] [] sampleCommands [9, 7, 9, 7, 9, 7, 9]).length ≤
      kMaxPatchBytes := by
    simp [BpsFormat.serialise, BpsFormat.body, sampleCommands, Command.encode, word32_length,
      BpsFormat.magic, Offset.raw, BiasedNumber.encode_small, kMaxPatchBytes]
  exact applyBps_serialise [9, 8] [] sampleCommands [9, 7, 9, 7, 9, 7, 9] 16 (by rfl) (by decide)
    (by decide) (by decide) payload

end Segarecomp.Media.Bps

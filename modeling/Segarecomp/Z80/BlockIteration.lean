import Segarecomp.Z80.Block

/-! One iteration of a repeating block instruction against one run of its single form: the same accesses, and
registers that differ in what the next iteration does not read. -/

namespace Segarecomp.Z80.Runtime

variable {H C : Type} {program : Program C} {host : Z80Host H C} {m s : Mnemonic}

/-! ## Access trees that ask for the same -/

/-- The same accesses whatever they are answered, and results in a relation. -/
inductive Bus.Alike {α β : Type} (R : α → β → Prop) : Bus α → Bus β → Prop
  | done {first : α} {second : β} (related : R first second) : Alike R (.done first) (.done second)
  | access {request : Access} {first : Byte → Bus α} {second : Byte → Bus β}
      (each : ∀ value, Alike R (first value) (second value)) :
      Alike R (.access request first) (.access request second)

/-- A host whose answers do not depend on the time, and that lets the processor run. -/
structure Steady (host : Z80Host H C) : Prop where
  timeless : ∀ h first second request, host.serve h first request = host.serve h second request
  running : ∀ h cycles request, (host.serve h cycles request).stop = false

theorem Steady.latching (steady : Steady host) : Latching host (fun _ => false) :=
  ⟨fun h cycles request _ => steady.running h cycles request, fun _ _ _ latched => latched⟩

/-- The same outside world, one processor `late` cycles behind. -/
structure Abreast (late : ℕ) (x y : Z80Runtime H) : Prop where
  host : x.host = y.host
  cycles : x.state.cycles = y.state.cycles + late
  intLine : x.state.intLine = y.state.intLine
  nmiPending : x.state.nmiPending = y.state.nmiPending

theorem Abreast.apply {late : ℕ} {x y : Z80Runtime H} (abreast : Abreast late x y) (reply : Reply H) :
    Abreast late (reply.apply x) (reply.apply y) where
  host := rfl
  cycles := by
    have cycles := abreast.cycles
    simp only [Reply.apply]
    omega
  intLine := by simp only [Reply.apply, abreast.intLine]
  nmiPending := by simp only [Reply.apply, abreast.nmiPending]

theorem Bus.Alike.run {α β : Type} {R : α → β → Prop} {first : Bus α} {second : Bus β} {late : ℕ}
    (alike : Bus.Alike R first second) (steady : Steady host) {x y : Z80Runtime H} (abreast : Abreast late x y) :
    R (first.run host x).1 (second.run host y).1 ∧ Abreast late (first.run host x).2 (second.run host y).2 := by
  induction alike generalizing x y with
  | done related => exact ⟨related, abreast⟩
  | @access request first second each ih =>
      have same : host.serve x.host x.state.cycles request = host.serve y.host y.state.cycles request := by
        rw [abreast.host]
        exact steady.timeless _ _ _ _
      simp only [Bus.run, same]
      exact ih _ (abreast.apply _)

/-! ## One iteration -/

/-- The single form of a repeating one. -/
def singleForm : Mnemonic → Option Mnemonic
  | .ldir => some .ldi
  | .lddr => some .ldd
  | .cpir => some .cpi
  | .cpdr => some .cpd
  | .inir => some .ini
  | .indr => some .ind
  | .otir => some .outi
  | .otdr => some .outd
  | _ => none

structure Paired (m s : Mnemonic) : Prop where
  repeats : blockRepeat m = true
  once : blockRepeat s = false
  transfer : blockTransfer m = blockTransfer s
  search : blockSearch m = blockSearch s
  input : blockInput m = blockInput s
  increment : blockIncrement m = blockIncrement s

theorem singleForm_paired (form : singleForm m = some s) : Paired m s := by
  cases m <;> simp only [singleForm, Option.some.injEq, reduceCtorEq] at form <;> subst form <;>
    exact ⟨rfl, rfl, rfl, rfl, rfl, rfl⟩

theorem Paired.step (paired : Paired m s) {w : ℕ} (v : BitVec w) : blockStep m v = blockStep s v := by
  rw [blockStep, blockStep, paired.increment]

/-- The end condition of a repeating form, on the registers its single form leaves. -/
def blockEnds (m : Mnemonic) (s : Core) : Prop :=
  if blockTransfer m then s.bc = 0 else if blockSearch m then s.bc = 0 ∨ s.f &&& 0x40 ≠ 0 else s.b = 0

/-- The flags an iteration reads. -/
def blockMask (m : Mnemonic) : Byte := if blockTransfer m then 0xC1 else if blockSearch m then 0x01 else 0

/-- The iterations left at most. -/
def blockLeft (m : Mnemonic) (s : Core) : ℕ :=
  if blockTransfer m || blockSearch m then if s.bc = 0 then 65536 else s.bc.toNat
  else if s.b = 0 then 256 else s.b.toNat

/-- The same registers but for the flags, MEMPTR, Q and the program counter. -/
structure Core.Alike (mask : Byte) (x y : Core) : Prop where
  rest : x = { y with f := x.f, wz := x.wz, q := x.q, pc := x.pc }
  flags : x.f &&& mask = y.f &&& mask

/-- MEMPTR after the last iteration, from what it was before and what the single form leaves. -/
def lastWz (m : Mnemonic) (before single : Addr) : Addr :=
  if blockTransfer m then before else if blockSearch m then blockStep m before else single

/-- What an iteration of the repeating form leaves, beside the single form's. -/
structure Iteration (s : Mnemonic) (x y : Core) (repeated once : Core × TStates) : Prop where
  time : once.2.1 = 16
  next : once.1.pc = y.pc + 2
  awake : once.1.halted = y.halted
  alike : Core.Alike (blockMask s) repeated.1 once.1
  left : blockEnds s once.1 ∨ blockLeft s once.1 + 1 = blockLeft s y
  ended : blockEnds s once.1 →
    repeated.2.1 = 16 ∧ repeated.1 = { once.1 with wz := lastWz s x.wz once.1.wz }
  goesOn : ¬ blockEnds s once.1 →
    repeated.2.1 = 21 ∧ repeated.1.pc = y.pc ∧ repeated.1.wz = y.pc + 1

/-! ### Registers -/

theorem append_eq_zero {x y : Byte} : x ++ y = (0 : Addr) ↔ x ||| y = 0 := by
  constructor
  · intro zero
    have high : x = 0 := by
      have part := congrArg (BitVec.extractLsb' 8 8) zero
      rwa [BitVec.extractLsb'_append_eq_left] at part
    have low : y = 0 := by
      have part := congrArg (BitVec.extractLsb' 0 8) zero
      rwa [BitVec.extractLsb'_append_eq_right] at part
    rw [high, low]
    rfl
  · intro zero
    obtain ⟨high, low⟩ := BitVec.or_eq_zero_iff.mp zero
    rw [high, low]
    rfl

theorem extract_append (v : Addr) : v.extractLsb' 8 8 ++ v.extractLsb' 0 8 = v := by
  ext i bound
  simp only [BitVec.getElem_append, BitVec.getElem_extractLsb']
  split
  · rw [Nat.zero_add, BitVec.getLsbD_eq_getElem]
  · have place : 8 + (i - 8) = i := by omega
    rw [place, BitVec.getLsbD_eq_getElem]

theorem Core.setBc_bc (s : Core) (v : Addr) : (s.setBc v).bc = v := extract_append v


theorem Core.bc_eq_zero (z : Core) : z.bc = 0 ↔ z.b ||| z.c = 0 := append_eq_zero

theorem restart_eq (pc : Addr) : pc + 2 - 2 = pc := by bv_omega

theorem start_ne_next (pc : Addr) : pc ≠ pc + 2 := by bv_omega

theorem countdown {n : ℕ} (v : BitVec n) (wide : 0 < n) :
    v - 1 = 0 ∨ (if v - 1 = 0 then 2 ^ n else (v - 1).toNat) + 1 = if v = 0 then 2 ^ n else v.toNat := by
  by_cases last : v - 1 = 0
  · exact .inl last
  · right
    have two : 1 < 2 ^ n := Nat.one_lt_two_pow (Nat.pos_iff_ne_zero.mp wide)
    have bound := v.isLt
    have one : (1 : BitVec n).toNat = 1 := BitVec.toNat_one wide
    have none : (0 : BitVec n).toNat = 0 := BitVec.toNat_zero
    rw [if_neg last, BitVec.toNat_sub, one]
    split
    · rename_i zero
      rw [zero, none, Nat.add_zero, Nat.mod_eq_of_lt (by omega)]
      omega
    · rename_i some
      have positive : 0 < v.toNat := by
        apply Nat.pos_of_ne_zero
        intro zero
        exact some (BitVec.eq_of_toNat_eq (zero.trans none.symm))
      have wrapped : 2 ^ n - 1 + v.toNat = (v.toNat - 1) + 2 ^ n := by omega
      rw [wrapped, Nat.add_mod_right, Nat.mod_eq_of_lt (by omega)]
      omega

theorem valueXy_transfer : ∀ value : Byte, valueXy value &&& 0xC1 = 0 := by decide

theorem restartXy_mask (restart : Addr) {mask : Byte} (apart : 0x28 &&& mask = 0) :
    restartXy restart &&& mask = 0 := by
  rw [restartXy, BitVec.and_assoc, apart]
  exact BitVec.and_zero

theorem or_none (v : Byte) : v ||| 0 = v := BitVec.or_zero

theorem Iteration.ending {x y r t : Core} (q : Byte) (same : r = { t with wz := lastWz s x.wz t.wz, q := q })
    (next : t.pc = y.pc + 2) (awake : t.halted = y.halted) (ends : blockEnds s t) :
    Bus.Alike (Iteration s x y) (blockDone m 0 (y.pc + 2) r) (blockDone s 0 (y.pc + 2) t) := by
  have short : ¬ (blockRepeat m = true ∧ t.pc ≠ y.pc + 2) := fun more => more.2 next
  have single : ¬ (blockRepeat s = true ∧ t.pc ≠ y.pc + 2) := fun more => more.2 next
  subst same
  apply Bus.Alike.done
  constructor
  · simp only [if_neg single]
  · exact next
  · exact awake
  · exact ⟨rfl, rfl⟩
  · exact .inl ends
  · intro _
    constructor
    · simp only [if_neg short]
    · rfl
  · intro more
    exact absurd ends more

theorem Iteration.going (paired : Paired m s) {x y r t : Core} (f q : Byte)
    (same : r = { t with f := f, wz := y.pc + 1, q := q, pc := y.pc }) (next : t.pc = y.pc + 2)
    (awake : t.halted = y.halted) (more : ¬ blockEnds s t) (left : blockLeft s t + 1 = blockLeft s y)
    (flags : f &&& blockMask s = t.f &&& blockMask s) :
    Bus.Alike (Iteration s x y) (blockDone m 0 (y.pc + 2) r) (blockDone s 0 (y.pc + 2) t) := by
  have long : blockRepeat m = true ∧ y.pc ≠ y.pc + 2 := ⟨paired.repeats, start_ne_next y.pc⟩
  have single : ¬ (blockRepeat s = true ∧ t.pc ≠ y.pc + 2) := fun more => more.2 next
  subst same
  apply Bus.Alike.done
  constructor
  · simp only [if_neg single]
  · exact next
  · exact awake
  · exact ⟨rfl, flags⟩
  · exact .inr left
  · intro ends
    exact absurd ends more
  · intro _
    constructor
    · simp only [if_pos long]
    · exact ⟨rfl, rfl⟩

theorem transfer_leaf (paired : Paired m s) (group : blockTransfer s = true) {x y w z : Core} (v f q : Byte)
    (same : w = { z with f := f, wz := x.wz, q := q }) (flags : f &&& 0xC1 = z.f &&& 0xC1) (moved : z.bc = y.bc - 1)
    (awake : z.halted = y.halted) :
    Bus.Alike (Iteration s x y) (blockDone m 0 (y.pc + 2) (transferTail m (y.pc + 2) v w))
      (blockDone s 0 (y.pc + 2) (transferTail s (y.pc + 2) v z)) := by
  subst same
  have left := countdown y.bc (by decide)
  rw [← moved] at left
  by_cases last : z.b ||| z.c = 0
  · have zero : z.bc = 0 := z.bc_eq_zero.mpr last
    have single : transferTail s (y.pc + 2) v z =
        { z with f := (z.f &&& 0xC1) ||| valueXy (v + z.a), pc := y.pc + 2 } := by
      simp only [transferTail, paired.once, Bool.false_eq_true, if_false, ne_eq, last, not_true_eq_false, or_none]
    have repeated : transferTail m (y.pc + 2) v { z with f := f, wz := x.wz, q := q } =
        { z with f := (z.f &&& 0xC1) ||| valueXy (v + z.a), wz := x.wz, q := q, pc := y.pc + 2 } := by
      simp only [transferTail, paired.repeats, if_true, ne_eq, last, not_true_eq_false, if_false, flags]
    have before : lastWz s x.wz z.wz = x.wz := if_pos group
    rw [single, repeated]
    apply Iteration.ending q
    · rw [before]
    · rfl
    · exact awake
    · rw [blockEnds, if_pos group]
      exact zero
  · have some : ¬ z.bc = 0 := fun zero => last (z.bc_eq_zero.mp zero)
    have single : transferTail s (y.pc + 2) v z =
        { z with f := (z.f &&& 0xC1) ||| valueXy (v + z.a) ||| 0x04, pc := y.pc + 2 } := by
      simp only [transferTail, paired.once, Bool.false_eq_true, if_false, ne_eq, last, not_false_eq_true, if_true]
    have repeated : transferTail m (y.pc + 2) v { z with f := f, wz := x.wz, q := q } =
        { z with f := (z.f &&& 0xC1) ||| restartXy y.pc ||| 0x04, wz := y.pc + 1, q := q, pc := y.pc } := by
      simp only [transferTail, paired.repeats, if_true, ne_eq, last, not_false_eq_true, flags, restart_eq]
    have mask : blockMask s = 0xC1 := if_pos group
    rw [single, repeated]
    apply Iteration.going paired ((z.f &&& 0xC1) ||| restartXy y.pc ||| 0x04) q
    · rfl
    · rfl
    · exact awake
    · rw [blockEnds, if_pos group]
      exact some
    · simp only [blockLeft, group, Bool.true_or, if_true]
      exact left.resolve_left some
    · simp only [mask, BitVec.and_or_distrib_right, restartXy_mask y.pc (show (0x28 : Byte) &&& 0xC1 = 0 from rfl),
        valueXy_transfer]

theorem and_none (v : Byte) : v &&& 0 = 0 := BitVec.and_zero

/-- The flags of a comparison, without bits 5 and 3. -/
def searchFlags (z : Core) (v : Byte) : Byte :=
  ((z.a - v) &&& 0x80) ||| (if z.a - v = 0 then 0x40 else 0) ||| ((z.a ^^^ v ^^^ (z.a - v)) &&& 0x10) |||
    (if z.b ||| z.c ≠ 0 then 0x04 else 0) ||| 0x02 ||| (z.f &&& 0x01)

/-- The difference less its half carry. -/
def searchValue (z : Core) (v : Byte) : Byte := z.a - v - (((z.a ^^^ v ^^^ (z.a - v)) &&& 0x10) >>> 4)

theorem valueXy_zero : ∀ value : Byte, valueXy value &&& 0x40 = 0 := by decide

theorem valueXy_carry : ∀ value : Byte, valueXy value &&& 0x01 = 0 := by decide

/-- The zero flag of a comparison says that the byte was found. -/
theorem searchFlags_zero (z : Core) (v value : Byte) :
    (searchFlags z v ||| valueXy value) &&& 0x40 ≠ 0 ↔ z.a - v = 0 := by
  have sign : (0x80 : Byte) &&& 0x40 = 0 := rfl
  have half : (0x10 : Byte) &&& 0x40 = 0 := rfl
  have carry : (0x01 : Byte) &&& 0x40 = 0 := rfl
  have subtract : (0x02 : Byte) &&& 0x40 = 0 := rfl
  have parity : (if z.b ||| z.c ≠ 0 then (0x04 : Byte) else 0) &&& 0x40 = 0 := by split <;> rfl
  simp only [searchFlags, BitVec.and_or_distrib_right, BitVec.and_assoc, sign, half, carry, subtract, parity,
    valueXy_zero, and_none, or_none]
  by_cases found : z.a - v = 0
  · rw [if_pos found]
    exact iff_of_true (by decide) found
  · rw [if_neg found]
    exact iff_of_false (by decide) found

theorem search_leaf (paired : Paired m s) (first : blockTransfer s = false) (group : blockSearch s = true)
    {x y w z : Core} (v f q : Byte) (same : w = { z with f := f, wz := x.wz, q := q })
    (flags : f &&& 0x01 = z.f &&& 0x01) (moved : z.bc = y.bc - 1)
    (awake : z.halted = y.halted) :
    Bus.Alike (Iteration s x y) (blockDone m 0 (y.pc + 2) (searchTail m (y.pc + 2) v w))
      (blockDone s 0 (y.pc + 2) (searchTail s (y.pc + 2) v z)) := by
  subst same
  have left := countdown y.bc (by decide)
  rw [← moved] at left
  have notTransfer : ¬ blockTransfer s = true := by simp [first]
  have single : searchTail s (y.pc + 2) v z =
      { z with f := searchFlags z v ||| valueXy (searchValue z v), wz := blockStep s z.wz, pc := y.pc + 2 } := by
    simp only [searchTail, paired.once, Bool.false_eq_true, if_false]
    rfl
  have ends : blockEnds s (searchTail s (y.pc + 2) v z) ↔ z.bc = 0 ∨ z.a - v = 0 := by
    rw [single, blockEnds, if_neg notTransfer, if_pos group]
    exact or_congr_right (searchFlags_zero z v _)
  have nonzero : z.b ||| z.c ≠ 0 ↔ ¬ z.bc = 0 := not_congr z.bc_eq_zero.symm
  by_cases last : z.a - v ≠ 0 ∧ z.b ||| z.c ≠ 0
  · have repeated : searchTail m (y.pc + 2) v { z with f := f, wz := x.wz, q := q } =
        { z with f := searchFlags z v ||| restartXy y.pc, wz := y.pc + 1, q := q, pc := y.pc } := by
      simp only [searchTail, paired.repeats, if_true, flags, restart_eq]
      rw [if_pos last]
      rfl
    have more : ¬ blockEnds s (searchTail s (y.pc + 2) v z) := by
      rw [ends]
      exact not_or.mpr ⟨nonzero.mp last.2, last.1⟩
    have mask : blockMask s = 0x01 := by rw [blockMask, if_neg notTransfer, if_pos group]
    rw [single] at more ⊢
    rw [repeated]
    apply Iteration.going paired (searchFlags z v ||| restartXy y.pc) q
    · rfl
    · rfl
    · exact awake
    · exact more
    · simp only [blockLeft, group, Bool.or_true, if_true]
      exact left.resolve_left (nonzero.mp last.2)
    · simp only [mask, BitVec.and_or_distrib_right, restartXy_mask y.pc (show (0x28 : Byte) &&& 0x01 = 0 from rfl),
        valueXy_carry]
  · have repeated : searchTail m (y.pc + 2) v { z with f := f, wz := x.wz, q := q } =
        { z with
          f := searchFlags z v ||| valueXy (searchValue z v)
          wz := blockStep s x.wz
          q := q
          pc := y.pc + 2 } := by
      simp only [searchTail, paired.repeats, if_true, flags, paired.step]
      rw [if_neg last]
      rfl
    have before : lastWz s x.wz (blockStep s z.wz) = blockStep s x.wz := by
      rw [lastWz, if_neg notTransfer, if_pos group]
    have finished : blockEnds s (searchTail s (y.pc + 2) v z) := by
      rw [ends]
      by_cases zero : z.bc = 0
      · exact .inl zero
      · right
        by_contra other
        exact last ⟨other, nonzero.mpr zero⟩
    rw [single] at finished ⊢
    rw [repeated]
    apply Iteration.ending q
    · rw [before]
    · rfl
    · exact awake
    · exact finished

theorem or_right_swap (u v w : Byte) : u ||| v ||| w = u ||| w ||| v := by
  rw [BitVec.or_assoc, BitVec.or_comm v, BitVec.or_assoc]

/-- The flags of an I/O iteration whose count runs out. -/
def ioLastFlags (v : Byte) (tt : ℕ) : Byte :=
  (0x40 : Byte) ||| (if 255 < tt then (0x11 : Byte) else 0) ||| parityFlag (BitVec.ofNat 8 tt &&& 7) |||
    ((v >>> 6) &&& 2)

theorem io_leaf (paired : Paired m s) (first : blockTransfer s = false) (second : blockSearch s = false)
    {x y w z : Core} (v f q : Byte) (tt : ℕ) (same : w = { z with f := f, q := q }) (moved : z.b = y.b - 1)
    (awake : z.halted = y.halted) :
    Bus.Alike (Iteration s x y) (blockDone m 0 (y.pc + 2) (ioTail m (y.pc + 2) v tt w))
      (blockDone s 0 (y.pc + 2) (ioTail s (y.pc + 2) v tt z)) := by
  subst same
  have left := countdown y.b (by decide)
  rw [← moved] at left
  have notTransfer : ¬ blockTransfer s = true := by simp [first]
  have notSearch : ¬ blockSearch s = true := by simp [second]
  have ends : blockEnds s (ioTail s (y.pc + 2) v tt z) ↔ z.b = 0 := by
    rw [blockEnds, if_neg notTransfer, if_neg notSearch, ioTail, if_neg (by simp [paired.once])]
  by_cases last : z.b = 0
  · have none : (BitVec.ofNat 8 tt &&& 7) ^^^ z.b = BitVec.ofNat 8 tt &&& 7 := by
      rw [last]
      exact BitVec.xor_zero
    have single : ioTail s (y.pc + 2) v tt z = { z with f := ioLastFlags v tt, pc := y.pc + 2 } := by
      have bits : (z.b &&& 0xA8) ||| (if z.b = 0 then 0x40 else 0) = 0x40 := by
        rw [last]
        rfl
      simp only [ioTail, paired.once, Bool.false_eq_true, if_false, bits, none, ioLastFlags]
      rw [or_right_swap 0x40]
    have repeated : ioTail m (y.pc + 2) v tt { z with f := f, q := q } =
        { z with f := ioLastFlags v tt, q := q, pc := y.pc + 2 } := by
      simp only [ioTail, paired.repeats, if_true, if_neg (not_not.mpr last), none, ioLastFlags]
    have before : lastWz s x.wz z.wz = z.wz := by rw [lastWz, if_neg notTransfer, if_neg notSearch]
    have finished := ends.mpr last
    rw [single] at finished ⊢
    rw [repeated]
    apply Iteration.ending q
    · rw [before]
    · rfl
    · exact awake
    · exact finished
  · have again : ∃ g, ioTail m (y.pc + 2) v tt { z with f := f, q := q } =
        { z with f := g, wz := y.pc + 1, q := q, pc := y.pc } := by
      simp only [ioTail, paired.repeats, if_true, restart_eq]
      rw [if_pos last]
      exact ⟨_, rfl⟩
    have single : ∃ g, ioTail s (y.pc + 2) v tt z = { z with f := g, pc := y.pc + 2 } := by
      simp only [ioTail, paired.once, Bool.false_eq_true, if_false]
      exact ⟨_, rfl⟩
    obtain ⟨g, repeated⟩ := again
    obtain ⟨h, single⟩ := single
    have more : ¬ blockEnds s (ioTail s (y.pc + 2) v tt z) := mt ends.mp last
    have mask : blockMask s = 0 := by rw [blockMask, if_neg notTransfer, if_neg notSearch]
    rw [single] at more ⊢
    rw [repeated]
    apply Iteration.going paired g q
    · rfl
    · rfl
    · exact awake
    · exact more
    · simp only [blockLeft, first, second, Bool.or_false, Bool.false_eq_true, if_false]
      exact left.resolve_left last
    · rw [mask, and_none, and_none]

/-- The same accesses, and registers an iteration apart. -/
theorem block_alike (paired : Paired m s) {x y : Core} (alike : Core.Alike (blockMask s) x y) (pc : x.pc = y.pc) :
    Bus.Alike (Iteration s x y) (lowerBlock m 0 x) (lowerBlock s 0 y) := by
  obtain ⟨f, wz, q, same, flags⟩ :
      ∃ f wz q, x = { y with f := f, wz := wz, q := q } ∧ f &&& blockMask s = y.f &&& blockMask s := by
    refine ⟨x.f, x.wz, x.q, ?_, alike.flags⟩
    calc x = { y with f := x.f, wz := x.wz, q := x.q, pc := x.pc } := alike.rest
      _ = { y with f := x.f, wz := x.wz, q := x.q } := by rw [pc]
  subst same
  cases transfer : blockTransfer s with
  | true =>
      rw [blockMask, if_pos transfer] at flags
      simp only [lowerBlock, paired.transfer, transfer, if_true, paired.step]
      apply Bus.Alike.access
      intro v
      apply Bus.Alike.access
      intro _
      exact transfer_leaf paired transfer v f q rfl flags (Core.setBc_bc _ _) rfl
  | false =>
      cases search : blockSearch s with
      | true =>
          rw [blockMask, if_neg (by simp [transfer]), if_pos search] at flags
          simp only [lowerBlock, paired.transfer, transfer, paired.search, search, Bool.false_eq_true, if_false, if_true,
            paired.step]
          apply Bus.Alike.access
          intro v
          exact search_leaf paired transfer search v f q rfl flags (Core.setBc_bc _ _) rfl
      | false =>
          cases input : blockInput s with
          | true =>
              simp only [lowerBlock, paired.transfer, transfer, paired.search, search, paired.input, input,
                Bool.false_eq_true, if_false, if_true, paired.step]
              apply Bus.Alike.access
              intro v
              apply Bus.Alike.access
              intro _
              exact io_leaf paired transfer search v f q _ rfl rfl rfl
          | false =>
              simp only [lowerBlock, paired.transfer, transfer, paired.search, search, paired.input, input,
                Bool.false_eq_true, if_false, paired.step]
              apply Bus.Alike.access
              intro v
              apply Bus.Alike.access
              intro _
              exact io_leaf paired transfer search v f q _ rfl rfl rfl

end Segarecomp.Z80.Runtime

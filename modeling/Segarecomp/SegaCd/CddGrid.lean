import Segarecomp.Lib.Successors
import Mathlib.Tactic

/-! The 75 Hz grid of the CD drive in both timing profiles. -/

namespace Segarecomp.SegaCd.CddGrid

open Successors

def scdCddTickTicks : ℕ := 357954500000

def scdLineTicksMachine : ℕ := 1710000000

def scdSubCycleTicksLineLocked : ℕ := 2148241

def scdCddAccPerLine : ℤ := 9552

def scdCddAccPerTick : ℤ := 2000000

def scdCddAccPerSubCycle : ℤ := 12

/-- The origin of the grid. The accumulator starts below the first tick, and nothing below overflows
64 signed bits. -/
structure ScdCdd where
  /-- `m->bios != NULL` -/
  bios : Bool
  anchor : ℕ
  gridLine0 : ℕ
  gridAcc0 : ℤ
  fits : anchor < 2 ^ 64
  origin : gridLine0 = anchor / scdLineTicksMachine
  low : -2 ^ 62 ≤ gridAcc0
  high : gridAcc0 < scdCddAccPerTick

variable {m : ScdCdd} {k n x : ℤ} {t : ℕ}

/-! ## Setting the anchor -/

def anchorAcc (at_ : ℕ) : ℤ :=
  -scdCddAccPerSubCycle *
    ((at_ - at_ / scdLineTicksMachine * scdLineTicksMachine) / scdSubCycleTicksLineLocked : ℕ)

/-- The last ticks of a line come after 796 sub cycles, whose accumulation is that of a whole line. -/
theorem anchorAcc_range (at_ : ℕ) : -scdCddAccPerLine ≤ anchorAcc at_ ∧ anchorAcc at_ ≤ 0 := by
  have inside : at_ - at_ / scdLineTicksMachine * scdLineTicksMachine < 1710000000 := by
    have rest := Nat.div_add_mod' at_ scdLineTicksMachine
    have small := Nat.mod_lt at_ (show 0 < scdLineTicksMachine by decide)
    simp only [scdLineTicksMachine] at rest small ⊢
    omega
  rw [anchorAcc]
  generalize at_ - at_ / scdLineTicksMachine * scdLineTicksMachine = part at inside
  have few : part / scdSubCycleTicksLineLocked ≤ 796 := by
    rw [scdSubCycleTicksLineLocked]
    omega
  generalize part / scdSubCycleTicksLineLocked = cycles at few
  rw [scdCddAccPerSubCycle, scdCddAccPerLine]
  constructor <;> omega

theorem anchorAcc_low (at_ : ℕ) : -2 ^ 62 ≤ anchorAcc at_ := by
  have range := anchorAcc_range at_
  rw [scdCddAccPerLine] at range
  omega

theorem anchorAcc_high (at_ : ℕ) : anchorAcc at_ < scdCddAccPerTick := by
  have range := anchorAcc_range at_
  rw [scdCddAccPerTick]
  omega

/-- The drive anchored at a tick; `next_tick` is `scdCddGridAfter` of the same tick. -/
def scdCddAnchor (bios : Bool) (at_ : ℕ) (fits : at_ < 2 ^ 64) : ScdCdd where
  bios := bios
  anchor := at_
  gridLine0 := at_ / scdLineTicksMachine
  gridAcc0 := anchorAcc at_
  fits := fits
  origin := rfl
  low := anchorAcc_low at_
  high := anchorAcc_high at_

/-! ## The next tick -/

/-- The first line end strictly after `t`, counted from the anchor line. -/
def lineAfter (m : ScdCdd) (t : ℕ) : ℤ := (t / scdLineTicksMachine : ℕ) - m.gridLine0 + 1

/-- What the accumulator holds when line end `n - 1` is over. -/
def accBefore (m : ScdCdd) (n : ℤ) : ℤ := m.gridAcc0 + scdCddAccPerLine * (n - 1)

/-- The division of C truncates, so a negative accumulator is divided by hand. -/
def tickAfter (x : ℤ) : ℤ :=
  (if 0 ≤ x then x.tdiv scdCddAccPerTick
    else -((-x + scdCddAccPerTick - 1).tdiv scdCddAccPerTick)) + 1

def atLeastOne (k : ℤ) : ℤ := if k < 1 then 1 else k

def tickLine (m : ScdCdd) (k : ℤ) : ℤ :=
  (scdCddAccPerTick * k - m.gridAcc0 + scdCddAccPerLine - 1).tdiv scdCddAccPerLine

def scdCddGridAfter (m : ScdCdd) (t : ℕ) : ℕ :=
  if m.bios = false then
    (m.anchor + ((t + 2 ^ 64 - m.anchor) % 2 ^ 64 / scdCddTickTicks + 1) * scdCddTickTicks) % 2 ^ 64
  else
    let n := lineAfter m t
    let k := atLeastOne (tickAfter (accBefore m n))
    ((m.gridLine0 + tickLine m k) * scdLineTicksMachine % 2 ^ 64).toNat

/-! ## The grid -/

/-- The video line whose end is tick `k`: the first one where the accumulator reaches `2,000,000 k`. -/
def TickLine (m : ScdCdd) (k n : ℕ) : Prop :=
  IsLeast {n : ℕ | 1 ≤ n ∧ scdCddAccPerTick * k ≤ m.gridAcc0 + scdCddAccPerLine * n} n

/-- Tick `k`, counted from one, falls on `u`. -/
def TickAt (m : ScdCdd) (k u : ℕ) : Prop :=
  if m.bios = false then u = m.anchor + k * scdCddTickTicks
  else ∃ n, TickLine m k n ∧ u = (m.gridLine0 + n) * scdLineTicksMachine

def instants (m : ScdCdd) : Set ℕ := {u | ∃ k, 1 ≤ k ∧ TickAt m k u}

/-! ## Lines and ticks -/

theorem tickAfter_eq (x : ℤ) : tickAfter x = x / scdCddAccPerTick + 1 := by
  rw [tickAfter, scdCddAccPerTick]
  split
  next positive => rw [Int.tdiv_eq_ediv_of_nonneg positive]
  next negative =>
    rw [Int.tdiv_eq_ediv_of_nonneg (by omega)]
    omega

theorem tickAfter_le (x k : ℤ) : tickAfter x ≤ k ↔ x < scdCddAccPerTick * k := by
  rw [tickAfter_eq, scdCddAccPerTick]
  omega

theorem tickLine_eq (one : 1 ≤ k) :
    tickLine m k = (scdCddAccPerTick * k - m.gridAcc0 + scdCddAccPerLine - 1) / scdCddAccPerLine := by
  have high := m.high
  rw [tickLine]
  apply Int.tdiv_eq_ediv_of_nonneg
  simp only [scdCddAccPerTick, scdCddAccPerLine] at high ⊢
  omega

theorem tickLine_le (one : 1 ≤ k) (n : ℤ) :
    tickLine m k ≤ n ↔ scdCddAccPerTick * k ≤ m.gridAcc0 + scdCddAccPerLine * n := by
  rw [tickLine_eq one]
  simp only [scdCddAccPerTick, scdCddAccPerLine]
  omega

theorem tickLine_pos (one : 1 ≤ k) : 1 ≤ tickLine m k := by
  have high := m.high
  have reach := tickLine_le (m := m) one 0
  simp only [scdCddAccPerTick, scdCddAccPerLine] at high reach
  omega

theorem tickLine_mono {j : ℤ} (one : 1 ≤ j) (le : j ≤ k) : tickLine m j ≤ tickLine m k := by
  rw [tickLine_le one]
  have reach := (tickLine_le (m := m) (one.trans le) (tickLine m k)).mp le_rfl
  simp only [scdCddAccPerTick] at reach ⊢
  omega

theorem tickLine_spec {k n : ℕ} (one : 1 ≤ k) : TickLine m k n ↔ (n : ℤ) = tickLine m k := by
  have positive : (1 : ℤ) ≤ k := by omega
  have first : TickLine m k (tickLine m k).toNat := by
    have pos := tickLine_pos (m := m) positive
    constructor
    · have reach := (tickLine_le (m := m) positive (tickLine m k)).mp le_rfl
      constructor
      · omega
      · rw [Int.toNat_of_nonneg (by omega)]
        exact reach
    · intro later reach
      have le := (tickLine_le positive later).mpr reach.2
      omega
  constructor
  · intro least
    have pos := tickLine_pos (m := m) positive
    rw [least.unique first]
    exact Int.toNat_of_nonneg (by omega)
  · intro same
    have number : n = (tickLine m k).toNat := by omega
    rw [number]
    exact first

def Int64Fits (x : ℤ) : Prop := -2 ^ 63 ≤ x ∧ x < 2 ^ 63

/-- The signed arithmetic of `scdCddGridAfter` stays inside 64 bits at every tick. -/
theorem no_overflow (m : ScdCdd) (narrow : t < 2 ^ 64) :
    Int64Fits (lineAfter m t) ∧ Int64Fits (accBefore m (lineAfter m t)) ∧
      Int64Fits (-accBefore m (lineAfter m t) + scdCddAccPerTick - 1) ∧
      Int64Fits (tickAfter (accBefore m (lineAfter m t))) ∧
      Int64Fits (scdCddAccPerTick * atLeastOne (tickAfter (accBefore m (lineAfter m t))) -
        m.gridAcc0 + scdCddAccPerLine - 1) := by
  have low := m.low
  have high := m.high
  have anchor := m.fits
  have origin := m.origin
  have line : -11000000000 < lineAfter m t ∧ lineAfter m t < 11000000000 := by
    rw [lineAfter, origin]
    simp only [scdLineTicksMachine]
    omega
  generalize lineAfter m t = n at line ⊢
  have tick := tickAfter_eq (accBefore m n)
  generalize tickAfter (accBefore m n) = k at tick ⊢
  rw [atLeastOne]
  simp only [Int64Fits, accBefore, scdCddAccPerTick, scdCddAccPerLine] at tick high ⊢
  split <;> omega

theorem no_overflow_last : Int64Fits (lineAfter (scdCddAnchor true 0 (by decide)) (2 ^ 64 - 1)) :=
  (no_overflow _ (by decide)).1

/-! ## The first instant after a tick -/

theorem lineAfter_le (n : ℤ) : lineAfter m t ≤ n ↔ (t : ℤ) < (m.gridLine0 + n) * scdLineTicksMachine := by
  rw [lineAfter, scdLineTicksMachine]
  omega

theorem after_iff (one : 1 ≤ k) :
    (t : ℤ) < (m.gridLine0 + tickLine m k) * scdLineTicksMachine ↔ tickAfter (accBefore m (lineAfter m t)) ≤ k := by
  rw [← lineAfter_le, tickAfter_le, accBefore]
  have reach := tickLine_le (m := m) one (lineAfter m t - 1)
  constructor
  · intro line
    exact lt_of_not_ge (fun early => absurd (reach.mpr early) (by omega))
  · intro acc
    have late : ¬tickLine m k ≤ lineAfter m t - 1 := fun early => absurd (reach.mp early) (not_le.mpr acc)
    omega

theorem atLeastOne_le (k j : ℤ) : atLeastOne k ≤ j ↔ 1 ≤ j ∧ k ≤ j := by
  rw [atLeastOne]
  split <;> omega

theorem one_le_atLeastOne (k : ℤ) : 1 ≤ atLeastOne k := ((atLeastOne_le k _).mp le_rfl).1

def firstTick (m : ScdCdd) (t : ℕ) : ℤ := atLeastOne (tickAfter (accBefore m (lineAfter m t)))

theorem line_natural : ((tickLine m (firstTick m t)).toNat : ℤ) = tickLine m (firstTick m t) := by
  have pos : 1 ≤ tickLine m (firstTick m t) := tickLine_pos (one_le_atLeastOne _)
  exact Int.toNat_of_nonneg (by omega)

def firstInstant (m : ScdCdd) (t : ℕ) : ℕ :=
  if m.bios = false then m.anchor + ((t - m.anchor) / scdCddTickTicks + 1) * scdCddTickTicks
  else (m.gridLine0 + (tickLine m (firstTick m t)).toNat) * scdLineTicksMachine

theorem firstInstant_synthetic (synthetic : m.bios = false) (late : m.anchor ≤ t) :
    IsLeast {v | v ∈ instants m ∧ t < v} (firstInstant m t) := by
  rw [firstInstant, if_pos synthetic]
  constructor
  · constructor
    · exact ⟨_, Nat.le_add_left 1 _, (if_pos synthetic).mpr rfl⟩
    · rw [scdCddTickTicks]
      omega
  · intro v member
    rcases member with ⟨⟨k, one, tick⟩, after⟩
    rw [TickAt, if_pos synthetic] at tick
    have enough : (t - m.anchor) / scdCddTickTicks + 1 ≤ k := by
      rw [scdCddTickTicks] at tick ⊢
      omega
    calc m.anchor + ((t - m.anchor) / scdCddTickTicks + 1) * scdCddTickTicks
        ≤ m.anchor + k * scdCddTickTicks := Nat.add_le_add_left (Nat.mul_le_mul_right _ enough) _
      _ = v := tick.symm

theorem firstInstant_bios (image : m.bios = true) : IsLeast {v | v ∈ instants m ∧ t < v} (firstInstant m t) := by
  have real : ¬m.bios = false := by rw [image]; decide
  have one : 1 ≤ firstTick m t := one_le_atLeastOne _
  have tick : ((firstTick m t).toNat : ℤ) = firstTick m t := Int.toNat_of_nonneg (by omega)
  have line := line_natural (m := m) (t := t)
  rw [firstInstant, if_neg real]
  constructor
  · constructor
    · have number : 1 ≤ (firstTick m t).toNat := by omega
      refine ⟨(firstTick m t).toNat, number, (if_neg real).mpr ⟨_, (tickLine_spec number).mpr ?_, rfl⟩⟩
      rw [tick, line]
    · have after := (after_iff (m := m) (t := t) one).mpr ((atLeastOne_le _ _).mp le_rfl).2
      rw [← line] at after
      exact_mod_cast after
  · intro v member
    rcases member with ⟨⟨k, positive, tickAt⟩, after⟩
    rw [TickAt, if_neg real] at tickAt
    rcases tickAt with ⟨n, lineOf, place⟩
    have number : (n : ℤ) = tickLine m k := (tickLine_spec positive).mp lineOf
    have onwards : firstTick m t ≤ k := by
      apply (atLeastOne_le _ _).mpr
      refine ⟨by omega, (after_iff (by omega)).mp ?_⟩
      rw [← number]
      rw [place] at after
      exact_mod_cast after
    have mono : tickLine m (firstTick m t) ≤ tickLine m k := tickLine_mono one onwards
    calc (m.gridLine0 + (tickLine m (firstTick m t)).toNat) * scdLineTicksMachine
        ≤ (m.gridLine0 + n) * scdLineTicksMachine := Nat.mul_le_mul_right _ (by omega)
      _ = v := place.symm

theorem scdCddGridAfter_eq (narrow : t < 2 ^ 64) (late : m.bios = false → m.anchor ≤ t) :
    scdCddGridAfter m t = firstInstant m t % 2 ^ 64 := by
  rw [scdCddGridAfter, firstInstant]
  split
  next synthetic =>
    have since : (t + 2 ^ 64 - m.anchor) % 2 ^ 64 = t - m.anchor := by
      have after := late synthetic
      omega
    rw [since]
  next =>
    have value : ((m.gridLine0 : ℤ) + tickLine m (firstTick m t)) * (scdLineTicksMachine : ℤ) % 2 ^ 64 =
        (((m.gridLine0 + (tickLine m (firstTick m t)).toNat) * scdLineTicksMachine % 2 ^ 64 : ℕ) : ℤ) := by
      rw [← line_natural (m := m) (t := t), Int.toNat_natCast]
      push_cast
      rfl
    exact (congrArg Int.toNat value).trans (Int.toNat_natCast _)

theorem firstInstant_least (late : m.bios = false → m.anchor ≤ t) :
    IsLeast {v | v ∈ instants m ∧ t < v} (firstInstant m t) := by
  cases profile : m.bios with
  | false => exact firstInstant_synthetic profile (late profile)
  | true => exact firstInstant_bios profile

theorem anchor_le_of_instant {u : ℕ} (member : u ∈ instants m) (synthetic : m.bios = false) : m.anchor ≤ u := by
  rcases member with ⟨k, _, tick⟩
  rw [TickAt, if_pos synthetic] at tick
  omega

theorem instants_follow (m : ScdCdd) : Follows (instants m) (scdCddGridAfter m) (2 ^ 64) := by
  intro u member narrow
  have late : m.bios = false → m.anchor ≤ u := anchor_le_of_instant member
  refine ⟨firstInstant m u, firstInstant_least late, ?_⟩
  intro fits
  rw [scdCddGridAfter_eq narrow late, Nat.mod_eq_of_lt fits]

/-- A tick from the anchor on has a next instant, which the drive computes up to the 64 bits of its clock,
and from any instant the drive's own steps visit all later ones, each once. Before its anchor only the
synthetic grid is not asked. -/
theorem scdCddGridAfter_exact (m : ScdCdd) :
    (∀ t < 2 ^ 64, (m.bios = false → m.anchor ≤ t) →
        ∃ u, IsLeast {v | v ∈ instants m ∧ t < v} u ∧ scdCddGridAfter m t = u % 2 ^ 64) ∧
      ∀ u ∈ instants m, u < 2 ^ 64 → ∃ count, Visits (instants m) (scdCddGridAfter m) (2 ^ 64) u count := by
  constructor
  · intro t narrow late
    exact ⟨firstInstant m t, firstInstant_least late, scdCddGridAfter_eq narrow late⟩
  · intro u member narrow
    exact (instants_follow m).visits member narrow

theorem midLine_fits : 5000000000 < 2 ^ 64 := by decide

/-- A drive that was reset inside the third line after power-on. -/
def midLine : ScdCdd := scdCddAnchor true 5000000000 midLine_fits

theorem scdCddGridAfter_exact_midLine :
    midLine.gridAcc0 < 0 ∧
      (∃ u, IsLeast {v | v ∈ instants midLine ∧ 5000000000 < v} u ∧
        scdCddGridAfter midLine 5000000000 = u % 2 ^ 64) ∧
      ∃ count, Visits (instants midLine) (scdCddGridAfter midLine) (2 ^ 64) (firstInstant midLine 5000000000) count := by
  have image : midLine.bios = false → midLine.anchor ≤ 5000000000 := fun _ => le_rfl
  refine ⟨by decide, ?_, ?_⟩
  · exact (scdCddGridAfter_exact midLine).1 5000000000 midLine_fits image
  · exact (scdCddGridAfter_exact midLine).2 _ (firstInstant_least image).1.1 (by decide)

end Segarecomp.SegaCd.CddGrid

import Segarecomp.SegaCd.HintCounter
import Mathlib.Algebra.BigOperators.Fin

/-! The FIFO of the Sega CD's VDP data port: the four read-out times, the main processor's stall, and
the time line of the main processor's instructions and of the frames. Times are ticks since power-on;
the FIFO counts master clocks since the last vertical-blank onset. -/

namespace Segarecomp.SegaCd.VdpFifo

open Genesis.Schedule (linesPerFrame)
open Genesis.Z80Machine (masterTicksPerLine masterTicksPerFrame)
open HintCounter (SCD_MASTER_TICK_TICKS SCD_FRAME_TICKS SCD_BIOS_FIRST_ONSET_MCLK)

def SCD_MAIN_CYCLE_TICKS : ℕ := 3500000

def SCD_MAIN_Z80_ACCESS_TICKS : ℕ := 7 * 500000

def SCD_VDP_BLANK_LINES : ℕ := 37

def scdFifoTimingH32 : List ℕ :=
  [230, 510, 810, 970, 1130, 1450, 1610, 1770, 2090, 2250, 2410, 2730, 2890, 3050, 3350, 3370,
    3420 + 230, 3420 + 510, 3420 + 810, 3420 + 970, 3420 + 1130, 3420 + 1450, 3420 + 1610,
    3420 + 1770, 3420 + 2090, 3420 + 2250, 3420 + 2410, 3420 + 2730]

def scdFifoTimingH40 : List ℕ :=
  [352, 820, 948, 1076, 1332, 1460, 1588, 1844, 1972, 2100, 2356, 2484, 2612, 2868, 2996, 3124,
    3364, 3380, 3420 + 352, 3420 + 820, 3420 + 948, 3420 + 1076, 3420 + 1332, 3420 + 1460,
    3420 + 1588, 3420 + 1844, 3420 + 1972, 3420 + 2100, 3420 + 2356, 3420 + 2484]

/-- What the data-port FIFO depends on: the frame, the main processor's clock, the FIFO, registers #1
and #12 and the data port's transfer code. -/
structure ScdVdpFifo where
  vdpOnset : ℕ
  now : ℕ
  next : ℕ
  mainExtraTicks : ℕ := 0
  mainDmaUntil : ℕ := 0
  mainDmaMulti : Bool := false
  fifoCycles : ℕ → ℕ := fun _ => 0
  fifoIdx : ℕ := 0
  register1 : ℕ := 0
  register12 : ℕ := 0
  transferCode : ℕ := 0

/-- Master clocks since the frame origin at tick `t`. -/
def scdFrameMclk (m : ScdVdpFifo) (t : ℕ) : ℕ :=
  (t + SCD_FRAME_TICKS - m.vdpOnset) / SCD_MASTER_TICK_TICKS

/-! ## The data port -/

/-- `while (cycles >= timing[slot]) slot++`; none when it runs past the table. -/
def fifoSlot (timing : List ℕ) (cycles : ℕ) : Option ℕ := timing.findIdx? fun time => cycles < time

def fifoTiming (m : ScdVdpFifo) : List ℕ :=
  if m.register12 &&& 1 ≠ 0 then scdFifoTimingH40 else scdFifoTimingH32

def byteAccess (m : ScdVdpFifo) : ℕ := if m.transferCode &&& 0x06 ≠ 0 then 0 else 1

/-- The instant of the executing instruction, in master clocks since the frame origin. -/
def reached (m : ScdVdpFifo) : ℕ := scdFrameMclk m (m.now + m.mainExtraTicks)

def lineBase (m : ScdVdpFifo) : ℕ := scdFrameMclk m m.now / 3420 * 3420

def oldest (m : ScdVdpFifo) : ℕ := m.fifoCycles m.fifoIdx

def newest (m : ScdVdpFifo) : ℕ := m.fifoCycles ((m.fifoIdx + 3) &&& 3)

/-- Vertical blank or the display disabled: the write is not restricted. -/
def unrestricted (m : ScdVdpFifo) : Prop :=
  reached m < SCD_VDP_BLANK_LINES * 3420 ∨ m.register1 &&& 0x40 = 0

instance (m : ScdVdpFifo) : Decidable (unrestricted m) := inferInstanceAs (Decidable (_ ∨ _))

/-- The first cycle of the processor from `time` on. -/
def resume (time : ℕ) : ℕ := (time + 6) / 7 * 7

/-- The ticks of the executing instruction after it waited for the oldest entry if it had to. -/
def stalledTicks (m : ScdVdpFifo) : ℕ :=
  if reached m < newest m ∧ reached m < oldest m then
    m.mainExtraTicks + (resume (oldest m) - reached m) * SCD_MASTER_TICK_TICKS
  else m.mainExtraTicks

/-- One word written to the data port; none when an index lies outside the timing table. -/
def scdVdpFifoWordWrite (m : ScdVdpFifo) : Option ScdVdpFifo :=
  if unrestricted m then some m
  else
    let cycles := if reached m < newest m then newest m else reached m
    (fifoSlot (fifoTiming m) (cycles - lineBase m)).bind fun slot =>
      (fifoTiming m)[slot + byteAccess m]?.map fun time =>
        { m with
          mainExtraTicks := stalledTicks m
          fifoCycles := Function.update m.fifoCycles m.fifoIdx ((lineBase m + time) % 2 ^ 32)
          fifoIdx := (m.fifoIdx + 1) &&& 3 }

/-! ## A 68K to VDP DMA -/

/-- The slots a line has for one word of the transfer. -/
def dmaRate (blanked h40 toVram : Bool) : ℕ :=
  let slots := if blanked then (if h40 then 204 else 166) else (if h40 then 18 else 16)
  let rate := slots >>> (if toVram then 1 else 0)
  if toVram = false ∧ rate = 166 then 161
  else if toVram = false ∧ rate = 204 then 198
  else rate

structure DmaEnd where
  cyc : ℕ
  frames : ℕ
  windows : ℕ
  deriving DecidableEq, Repr

/-- The loop of `scd_vdp_dma_end` over the slot windows; none when `fuel` windows do not do. -/
def dmaWindows (display h40 toVram : Bool) : ℕ → ℕ → DmaEnd → Option DmaEnd
  | 0, _, _ => none
  | fuel + 1, remaining, walk =>
    let line := walk.cyc / masterTicksPerLine
    let vblank := line < SCD_VDP_BLANK_LINES
    let rate := dmaRate (decide vblank || !display) h40 toVram
    let windowEnd :=
      if vblank then SCD_VDP_BLANK_LINES * masterTicksPerLine else (line + 1) * masterTicksPerLine
    let cap := (windowEnd - walk.cyc) * rate / masterTicksPerLine
    let windows := walk.windows + 1
    if remaining < cap then
      some { walk with cyc := walk.cyc + remaining * masterTicksPerLine / rate, windows }
    else if remaining - cap = 0 then some { walk with cyc := windowEnd, windows }
    else if linesPerFrame * masterTicksPerLine ≤ windowEnd then
      dmaWindows display h40 toVram fuel (remaining - cap)
        ⟨windowEnd - linesPerFrame * masterTicksPerLine, walk.frames + 1, windows⟩
    else dmaWindows display h40 toVram fuel (remaining - cap) ⟨windowEnd, walk.frames, windows⟩

/-- The tick at which a transfer of `words` words ends, and the number of its windows. The frame
origin `vdp_onset - SCD_FRAME_TICKS` of the source may lie before power-on, where it wraps around. -/
def scdVdpDmaEnd (m : ScdVdpFifo) (start words : ℕ) (toVram : Bool) : Option (ℕ × ℕ) :=
  (dmaWindows (m.register1 &&& 0x40 ≠ 0) (m.register12 &&& 1 ≠ 0) toVram (words + 2) words
    ⟨scdFrameMclk m start, 0, 0⟩).map fun walk =>
      (m.vdpOnset + (walk.frames * linesPerFrame * masterTicksPerLine + walk.cyc) *
        SCD_MASTER_TICK_TICKS - SCD_FRAME_TICKS, walk.windows)

/-! ## The main processor -/

/-- What the bus cycles of a main instruction do to the FIFO and its clock. -/
inductive MainEvent
  | word
  | z80Access
  | control (register1 register12 transferCode : ℕ)
  | dma (words : ℕ) (toVram : Bool)
  deriving DecidableEq, Repr

def runEvent (m : ScdVdpFifo) : MainEvent → Option ScdVdpFifo
  | .word => scdVdpFifoWordWrite m
  | .z80Access => some { m with mainExtraTicks := m.mainExtraTicks + SCD_MAIN_Z80_ACCESS_TICKS }
  | .control register1 register12 transferCode =>
    some { m with register1 := register1, register12 := register12, transferCode := transferCode }
  | .dma words toVram =>
    (scdVdpDmaEnd m m.now words toVram).map fun transfer =>
      { m with mainDmaUntil := transfer.1, mainDmaMulti := decide (1 < transfer.2) }

def runEvents : ScdVdpFifo → List MainEvent → Option ScdVdpFifo
  | m, [] => some m
  | m, event :: events => (runEvent m event).bind fun after => runEvents after events

/-- `scd_retire` of the main processor. -/
def scdRetire (m : ScdVdpFifo) (cycles : ℕ) : ScdVdpFifo :=
  let next := if m.mainDmaUntil ≠ 0 then max m.next m.mainDmaUntil else m.next
  let next :=
    if m.mainDmaUntil ≠ 0 ∧ m.mainDmaMulti = true then next
    else next + cycles * SCD_MAIN_CYCLE_TICKS + m.mainExtraTicks
  { m with
    next := next, mainExtraTicks := 0
    mainDmaUntil := 0
    mainDmaMulti := if m.mainDmaUntil ≠ 0 then false else m.mainDmaMulti }

/-- The scheduler starts an instruction. -/
def startAt (m : ScdVdpFifo) (t : ℕ) : ScdVdpFifo := { m with now := t, next := t }

/-- The vertical-blank onset: the FIFO is empty at the frame's start. -/
def scdVdpEvent (m : ScdVdpFifo) : ScdVdpFifo :=
  { m with vdpOnset := m.vdpOnset + SCD_FRAME_TICKS, fifoCycles := fun _ => 0 }

/-- The bus writes of one instruction: a single write, the registers of a MOVEM, in either
direction, or the bytes of a MOVEP. -/
structure Burst where
  first : ℕ
  width : ℕ
  count : ℕ
  down : Bool

structure Burst.Valid (b : Burst) : Prop where
  width : b.width = 1 ∨ b.width = 2 ∨ b.width = 4
  count : b.count ≤ 16

def Burst.stride (b : Burst) : ℕ := if b.width = 4 then 4 else 2

def Burst.address (b : Burst) (k : ℕ) : ℕ :=
  (b.first + k * (if b.down then 2 ^ 24 - b.stride else b.stride)) % 2 ^ 24

/-- The words a bus write puts into the FIFO. -/
def dataWords (address width : ℕ) : ℕ :=
  if 0xC00000 ≤ address ∧ address < 0xC00004 then (if width = 4 then 2 else 1) else 0

def Burst.words (b : Burst) : ℕ :=
  ∑ k ∈ Finset.range b.count, dataWords (b.address k) b.width

/-- An instruction's events. A write to memory takes at least 8 cycles, and what an instruction that
writes to memory reads is at most a long, two accesses of the Z80 window. -/
structure Instruction (events : List MainEvent) (cycles : ℕ) : Prop where
  writes : ∃ b : Burst, b.Valid ∧ events.count .word = b.words
  waits : .word ∈ events → events.count .z80Access ≤ 2
  cycles : .word ∈ events → 8 ≤ cycles

/-- A device event that is due is processed before an instruction starts. -/
structure Begins (m : ScdVdpFifo) (t : ℕ) : Prop where
  next : m.next ≤ t
  frame : m.vdpOnset ≤ t + SCD_FRAME_TICKS
  due : t < m.vdpOnset

structure PowerOn (m : ScdVdpFifo) : Prop where
  onset : m.vdpOnset = SCD_BIOS_FIRST_ONSET_MCLK * SCD_MASTER_TICK_TICKS
  next : m.next = 40 * SCD_MAIN_CYCLE_TICKS
  extra : m.mainExtraTicks = 0
  dma : m.mainDmaUntil = 0
  empty : ∀ k, m.fifoCycles k = 0
  first : m.fifoIdx = 0

/-- The states between two instructions. -/
inductive Run : ScdVdpFifo → Prop
  | powerOn {m : ScdVdpFifo} (on : PowerOn m) : Run m
  | instruction {m after : ScdVdpFifo} {t cycles : ℕ} {events : List MainEvent} (run : Run m)
      (begins : Begins m t) (instruction : Instruction events cycles)
      (runs : runEvents (startAt m t) events = some after) : Run (scdRetire after cycles)
  | frame {m : ScdVdpFifo} (run : Run m) : Run (scdVdpEvent m)

/-! ## The words of one instruction -/

theorem Burst.stride_eq (b : Burst) : b.width = 4 ∧ b.stride = 4 ∨ b.width ≠ 4 ∧ b.stride = 2 := by
  rw [Burst.stride]
  split_ifs with long
  · exact .inl ⟨long, rfl⟩
  · exact .inr ⟨long, rfl⟩

/-- Only neighbouring writes that are not longs reach the data port both. -/
theorem Burst.next_of_both {b : Burst} (valid : b.Valid) {j k : ℕ} (before : j < k)
    (inside : k < b.count) (at_j : 0xC00000 ≤ b.address j ∧ b.address j < 0xC00004)
    (at_k : 0xC00000 ≤ b.address k ∧ b.address k < 0xC00004) : b.width ≠ 4 ∧ k = j + 1 := by
  have few := valid.count
  rw [Burst.address] at at_j at_k
  rcases Nat.exists_eq_add_of_lt before with ⟨apart, rfl⟩
  have close : apart < 15 := by omega
  rcases b.stride_eq with ⟨long, stride⟩ | ⟨short, stride⟩ <;> cases down : b.down <;>
    simp only [stride, down, Bool.false_eq_true, if_false, if_true, Nat.reducePow, Nat.reduceSub]
      at at_j at_k <;>
    interval_cases apart <;> omega

theorem Burst.words_le {b : Burst} (valid : b.Valid) : b.words ≤ 2 := by
  let ports := (Finset.range b.count).filter fun k =>
    0xC00000 ≤ b.address k ∧ b.address k < 0xC00004
  have words : b.words = ports.card * (if b.width = 4 then 2 else 1) := by
    rw [Burst.words, Finset.card_filter, Finset.sum_mul]
    refine Finset.sum_congr rfl fun k _ => ?_
    rw [dataWords, ite_mul, one_mul, zero_mul]
  rw [words]
  rcases ports.eq_empty_or_nonempty with none | some
  · rw [none, Finset.card_empty, Nat.zero_mul]
    exact Nat.zero_le 2
  · have least := Finset.mem_filter.mp (ports.min'_mem some)
    have others : ports ⊆ if b.width = 4 then {ports.min' some} else
        {ports.min' some, ports.min' some + 1} := by
      intro k member
      have at_k := Finset.mem_filter.mp member
      rcases Nat.eq_or_lt_of_le (ports.min'_le k member) with same | before
      · rw [← same]
        split_ifs <;> simp
      · rcases Burst.next_of_both valid before (Finset.mem_range.mp at_k.1) least.2 at_k.2 with
          ⟨short, next⟩
        rw [if_neg short, next]
        simp
    have count := Finset.card_le_card others
    split_ifs at count ⊢ with long
    · rw [Finset.card_singleton] at count
      omega
    · have pair : Finset.card {ports.min' some, ports.min' some + 1} ≤ 2 := Finset.card_le_two
      omega

/-! ## The slots -/

def timings : List (List ℕ) := [scdFifoTimingH32, scdFifoTimingH40]

/-- The time a search from `cycles` leads to, `skipped` slots further. -/
def slotTime (timing : List ℕ) (cycles skipped : ℕ) : Option ℕ :=
  (fifoSlot timing cycles).bind fun slot => timing[slot + skipped]?

/-- In both widths a word from `cycles` on is read out by `bound`, within the table. -/
def Fits (cycles bound : ℕ) : Prop :=
  timings.all (fun timing => (slotTime timing cycles 1).any (· ≤ bound)) = true

instance (cycles bound : ℕ) : Decidable (Fits cycles bound) := inferInstanceAs (Decidable (_ = true))

theorem timings_sorted : ∀ timing ∈ timings, timing.Pairwise (· < ·) := by decide

theorem timings_le : ∀ timing ∈ timings, ∀ time ∈ timing, time ≤ 6150 := by decide

theorem fifoTiming_mem (m : ScdVdpFifo) : fifoTiming m ∈ timings := by
  rw [fifoTiming]
  split_ifs <;> simp [timings]

theorem byteAccess_le (m : ScdVdpFifo) : byteAccess m ≤ 1 := by
  rw [byteAccess]
  split_ifs <;> simp

theorem slotTime_fits {timing : List ℕ} (known : timing ∈ timings) {cycles limit bound skipped : ℕ}
    (fits : Fits limit bound) (early : cycles ≤ limit) (few : skipped ≤ 1) :
    ∃ time, slotTime timing cycles skipped = some time ∧ cycles < time ∧ time ≤ bound := by
  have sorted := List.pairwise_iff_getElem.mp (timings_sorted timing known)
  have here := List.all_eq_true.mp fits timing known
  rw [Option.any_eq_true] at here
  rcases here with ⟨latest, found, latest_le⟩
  have latest_le : latest ≤ bound := by simpa using latest_le
  rcases Option.bind_eq_some_iff.mp found with ⟨j, search, at_j⟩
  rcases List.findIdx?_eq_some_iff_getElem.mp search with ⟨j_inside, after_limit, -⟩
  rcases List.getElem?_eq_some_iff.mp at_j with ⟨j_next, rfl⟩
  have after_limit : limit < timing[j] := by simpa using after_limit
  cases first : timing.findIdx? fun time => cycles < time with
  | none =>
      have none_after := List.findIdx?_eq_none_iff.mp first _ (List.getElem_mem j_inside)
      have contradiction : ¬ cycles < timing[j] := by simpa using none_after
      omega
  | some i =>
      rcases List.findIdx?_eq_some_iff_getElem.mp first with ⟨i_inside, after, before⟩
      have after : cycles < timing[i] := by simpa using after
      have i_le : i ≤ j := by
        by_contra later
        have not_after := before j (by omega)
        have not_after : ¬ cycles < timing[j] := by simpa using not_after
        omega
      have inside : i + skipped < timing.length := by omega
      have above : timing[i] ≤ timing[i + skipped] := by
        rcases Nat.eq_zero_or_pos skipped with rfl | positive
        · exact Nat.le_refl _
        · exact (sorted i (i + skipped) i_inside inside (by omega)).le
      have below : timing[i + skipped] ≤ timing[j + 1] := by
        rcases Nat.lt_or_ge (i + skipped) (j + 1) with less | same
        · exact (sorted _ _ inside j_next less).le
        · have equal : i + skipped = j + 1 := by omega
          simp only [equal]
          exact Nat.le_refl _
      refine ⟨timing[i + skipped], ?_, by omega, below.trans latest_le⟩
      rw [slotTime, fifoSlot, first]
      exact List.getElem?_eq_getElem inside

/-- A slot found from one time lies at another: `later` is a slot after `earlier`, in the table of
some width laid from some line up to `earlier` on. -/
def Slotted (earlier later : ℕ) : Prop :=
  ∃ line, ∃ timing ∈ timings, ∃ skipped ≤ 1, ∃ time, line * 3420 ≤ earlier ∧
    slotTime timing (earlier - line * 3420) skipped = some time ∧ later = line * 3420 + time

/-- A slot from a time of the line up to `limit` lies up to `bound`, in that line's table and in the
next line's. -/
def Reaches (limit bound : ℕ) : Prop :=
  Fits limit bound ∧ (3420 ≤ limit → Fits (limit - 3420) (bound - 3420)) ∧ limit < 6840 ∧
    2730 ≤ bound ∧ limit ≤ bound

instance (limit bound : ℕ) : Decidable (Reaches limit bound) := inferInstanceAs (Decidable (_ ∧ _))

theorem slotted_le {limit bound line earlier later : ℕ} (reaches : Reaches limit bound)
    (early : earlier ≤ line * 3420 + limit) (slotted : Slotted earlier later) :
    later ≤ line * 3420 + bound := by
  rcases reaches with ⟨here, next, small, wide, grows⟩
  rcases slotted with ⟨table, timing, known, skipped, few, time, start, found, rfl⟩
  rcases Nat.lt_trichotomy table line with before | rfl | after
  · have inside : time ≤ 6150 := by
      rcases Option.bind_eq_some_iff.mp found with ⟨slot, -, at_slot⟩
      exact timings_le timing known time (List.mem_of_getElem? at_slot)
    have lines : table * 3420 + 3420 ≤ line * 3420 := by
      rw [← Nat.succ_mul]
      exact Nat.mul_le_mul_right 3420 before
    calc table * 3420 + time ≤ table * 3420 + 6150 := Nat.add_le_add_left inside _
      _ = table * 3420 + 3420 + 2730 := by rw [Nat.add_assoc]
      _ ≤ line * 3420 + bound := Nat.add_le_add lines wide
  · rcases slotTime_fits known here (Nat.sub_le_iff_le_add'.mpr early) few with ⟨fit, same, -, le⟩
    rw [found, Option.some_inj] at same
    exact Nat.add_le_add_left (same ▸ le) _
  · have lines : line * 3420 + 3420 ≤ table * 3420 := by
      rw [← Nat.succ_mul]
      exact Nat.mul_le_mul_right 3420 after
    have late : 3420 ≤ limit := by
      have := lines.trans (start.trans early)
      exact Nat.le_of_add_le_add_left this
    have same_line : table = line + 1 := by
      have := start.trans early
      have apart : table * 3420 < line * 3420 + 6840 :=
        this.trans_lt (Nat.add_lt_add_left small _)
      clear next here found start early small wide late this
      omega
    have near : earlier - table * 3420 ≤ limit - 3420 :=
      calc earlier - table * 3420 ≤ line * 3420 + limit - table * 3420 :=
            Nat.sub_le_sub_right early _
        _ = line * 3420 + limit - (line * 3420 + 3420) := by rw [same_line, Nat.add_mul, Nat.one_mul]
        _ = limit - 3420 := Nat.add_sub_add_left _ _ _
    rcases slotTime_fits known (next late) near few with ⟨fit, same, -, le⟩
    rw [found, Option.some_inj] at same
    rw [same_line, Nat.add_mul, Nat.one_mul, Nat.add_assoc]
    have le_bound : 3420 ≤ bound := late.trans grows
    refine Nat.add_le_add_left ?_ _
    rw [same]
    omega

/-! ## The chain of the entries -/

/-- `later` is past by `base`, or a slot after `earlier` or after an instant up to `base`. -/
def Link (base earlier later : ℕ) : Prop :=
  later ≤ base ∨ ∃ found ≤ max base earlier, Slotted found later

theorem Link.mono {base base' earlier later : ℕ} (link : Link base earlier later)
    (le : base ≤ base') : Link base' earlier later := by
  rcases link with past | ⟨found, start, slotted⟩
  · exact .inl (past.trans le)
  · exact .inr ⟨found, start.trans (max_le_max_right earlier le), slotted⟩

theorem link_le {limit bound line base earlier later : ℕ} (reaches : Reaches limit bound)
    (base_le : base ≤ line * 3420 + limit) (early : earlier ≤ line * 3420 + limit)
    (link : Link base earlier later) : later ≤ line * 3420 + bound := by
  rcases link with past | ⟨found, start, slotted⟩
  · have le := reaches.2.2.2.2
    omega
  · exact slotted_le reaches (start.trans (max_le base_le early)) slotted

/-- The `k`-th entry, from the oldest on. -/
def entry (m : ScdVdpFifo) (k : ℕ) : ℕ := m.fifoCycles ((m.fifoIdx + k) % 4)

/-- Each entry is a slot after the one before it or an instant up to `base`. -/
structure Chain (base : ℕ) (m : ScdVdpFifo) : Prop where
  first : Link base 0 (entry m 0)
  next : ∀ k < 3, Link base (entry m k) (entry m (k + 1))

/-- How far behind the start of the instruction's line the entries can lie: the `k`-th of those in
use when it starts and of the two words it can write. -/
def bound : ℕ → ℕ
  | 0 => 3650
  | 1 => 4240
  | 2 => 4550
  | 3 => 5030
  | 4 => 5510
  | _ => 5830

theorem bound_reaches : Reaches 3363 (bound 0) ∧ ∀ k < 5, Reaches (bound k) (bound (k + 1)) := by
  decide

theorem bound_mono (k : ℕ) : bound k ≤ bound (k + 1) := by
  rcases Nat.lt_or_ge k 5 with inside | outside
  · exact (bound_reaches.2 k inside).2.2.2.2
  · rcases Nat.exists_eq_add_of_le' outside with ⟨more, rfl⟩
    exact Nat.le_refl 5830

theorem Chain.le_bound {base line : ℕ} {m : ScdVdpFifo} (chain : Chain base m)
    (base_le : base ≤ line * 3420 + 3363) : ∀ k < 4, entry m k ≤ line * 3420 + bound k := by
  have zero : entry m 0 ≤ line * 3420 + bound 0 :=
    link_le bound_reaches.1 base_le (Nat.zero_le _) chain.first
  have early : ∀ k, base ≤ line * 3420 + bound k := by
    intro k
    induction k with
    | zero => exact base_le.trans (Nat.add_le_add_left bound_reaches.1.2.2.2.2 _)
    | succ k ih => exact ih.trans (Nat.add_le_add_left (bound_mono k) _)
  intro k inside
  induction k with
  | zero => exact zero
  | succ k ih =>
      exact link_le (bound_reaches.2 k (by omega)) (early k) (ih (by omega))
        (chain.next k (by omega))

/-! ## One word -/

theorem and_three (n : ℕ) : n &&& 3 = n % 4 := Nat.and_two_pow_sub_one_eq_mod n 2

theorem oldest_eq {m : ScdVdpFifo} (index : m.fifoIdx < 4) : oldest m = entry m 0 := by
  rw [oldest, entry, Nat.add_zero, Nat.mod_eq_of_lt index]

theorem newest_eq (m : ScdVdpFifo) : newest m = entry m 3 := by rw [newest, entry, and_three]

theorem resume_bounds (time : ℕ) : time ≤ resume time ∧ resume time ≤ time + 6 := by
  rw [resume]
  omega

theorem stall_bounds {now first last : ℕ} (ordered : first ≤ last) :
    now ≤ (if now < last ∧ now < first then resume first else now) ∧
      first ≤ (if now < last ∧ now < first then resume first else now) ∧
      (if now < last ∧ now < first then resume first else now) ≤ max now (first + 6) := by
  have bounds := resume_bounds first
  split_ifs <;> omega

theorem ite_lt_eq_max (now last : ℕ) : (if now < last then last else now) = max now last := by
  split_ifs <;> omega

theorem scdFrameMclk_add {m : ScdVdpFifo} {t : ℕ} (frame : m.vdpOnset ≤ t + SCD_FRAME_TICKS)
    (clocks : ℕ) :
    scdFrameMclk m (t + clocks * SCD_MASTER_TICK_TICKS) = scdFrameMclk m t + clocks := by
  have later : t + clocks * SCD_MASTER_TICK_TICKS + SCD_FRAME_TICKS - m.vdpOnset =
      t + SCD_FRAME_TICKS - m.vdpOnset + clocks * SCD_MASTER_TICK_TICKS := by
    rw [Nat.add_right_comm, Nat.sub_add_comm frame]
  rw [scdFrameMclk, later, Nat.add_mul_div_right _ _ (by decide : 0 < SCD_MASTER_TICK_TICKS)]
  rfl

theorem scdFrameMclk_congr {m m' : ScdVdpFifo} (same : m.vdpOnset = m'.vdpOnset) (t : ℕ) :
    scdFrameMclk m t = scdFrameMclk m' t := by
  rw [scdFrameMclk, same, ← scdFrameMclk]

theorem scdFrameMclk_mono (m : ScdVdpFifo) {t t' : ℕ} (le : t ≤ t') :
    scdFrameMclk m t ≤ scdFrameMclk m t' :=
  Nat.div_le_div_right (Nat.sub_le_sub_right (Nat.add_le_add_right le _) _)

/-- A word of time `time` put in the place of the oldest entry. -/
def pushed (m : ScdVdpFifo) (time : ℕ) : ScdVdpFifo :=
  { m with
    mainExtraTicks := stalledTicks m
    fifoCycles := Function.update m.fifoCycles m.fifoIdx time
    fifoIdx := (m.fifoIdx + 1) &&& 3 }

section Pushed

variable {m : ScdVdpFifo}

theorem pushed_now (m : ScdVdpFifo) (time : ℕ) : (pushed m time).now = m.now := by rw [pushed]

theorem pushed_onset (m : ScdVdpFifo) (time : ℕ) : (pushed m time).vdpOnset = m.vdpOnset := by
  rw [pushed]

theorem pushed_extra (m : ScdVdpFifo) (time : ℕ) :
    (pushed m time).mainExtraTicks = stalledTicks m := by rw [pushed]

theorem pushed_until (m : ScdVdpFifo) (time : ℕ) :
    (pushed m time).mainDmaUntil = m.mainDmaUntil := by rw [pushed]

theorem pushed_multi (m : ScdVdpFifo) (time : ℕ) :
    (pushed m time).mainDmaMulti = m.mainDmaMulti := by rw [pushed]

theorem pushed_index (m : ScdVdpFifo) (time : ℕ) : (pushed m time).fifoIdx < 4 := by
  change (m.fifoIdx + 1) &&& 3 < 4
  rw [and_three]
  exact Nat.mod_lt _ (by decide)

theorem entry_pushed (index : m.fifoIdx < 4) (time : ℕ) {k : ℕ} (older : k < 3) :
    entry (pushed m time) k = entry m (k + 1) := by
  change Function.update m.fifoCycles m.fifoIdx time ((((m.fifoIdx + 1) &&& 3) + k) % 4) = _
  rw [and_three]
  have other : ((m.fifoIdx + 1) % 4 + k) % 4 ≠ m.fifoIdx := by omega
  have same : ((m.fifoIdx + 1) % 4 + k) % 4 = (m.fifoIdx + (k + 1)) % 4 := by omega
  rw [Function.update_of_ne other, same]
  rfl

theorem entry_pushed_newest (index : m.fifoIdx < 4) (time : ℕ) :
    entry (pushed m time) 3 = time := by
  change Function.update m.fifoCycles m.fifoIdx time ((((m.fifoIdx + 1) &&& 3) + 3) % 4) = _
  rw [and_three]
  have same : ((m.fifoIdx + 1) % 4 + 3) % 4 = m.fifoIdx % 4 := by omega
  rw [same, Nat.mod_eq_of_lt index, Function.update_self]

theorem reached_pushed (frame : m.vdpOnset ≤ m.now + SCD_FRAME_TICKS) (time : ℕ) :
    reached (pushed m time) =
      if reached m < newest m ∧ reached m < oldest m then resume (oldest m) else reached m := by
  have here : scdFrameMclk m (m.now + m.mainExtraTicks) = reached m := by rw [reached]
  rw [reached, pushed_now, pushed_extra, scdFrameMclk_congr (pushed_onset m time), stalledTicks]
  split_ifs with full
  · have in_frame : m.vdpOnset ≤ m.now + m.mainExtraTicks + SCD_FRAME_TICKS :=
      frame.trans (Nat.add_le_add_right (Nat.le_add_right _ _) _)
    have late : reached m ≤ resume (oldest m) := full.2.le.trans (resume_bounds _).1
    rw [← Nat.add_assoc, scdFrameMclk_add in_frame, here]
    exact Nat.add_sub_of_le late
  · exact here

/-- The processor never goes on before the oldest entry is processed. -/
theorem reached_pushed_ge (frame : m.vdpOnset ≤ m.now + SCD_FRAME_TICKS) (ordered : oldest m ≤ newest m)
    (time : ℕ) : reached m ≤ reached (pushed m time) ∧ oldest m ≤ reached (pushed m time) ∧
      reached (pushed m time) ≤ max (reached m) (oldest m + 6) := by
  rw [reached_pushed frame]
  exact stall_bounds ordered

/-- The word is written, if the time it is looked for from fits into the table. -/
theorem wordWrite_pushed {line limit bound : ℕ} (restricted : ¬ unrestricted m)
    (base : lineBase m = line * 3420) (started : line * 3420 ≤ reached m) (fits : Fits limit bound)
    (early : max (reached m) (newest m) ≤ line * 3420 + limit)
    (small : line * 3420 + bound < 2 ^ 32) :
    ∃ time, scdVdpFifoWordWrite m = some (pushed m time) ∧
      Slotted (max (reached m) (newest m)) time ∧ max (reached m) (newest m) < time ∧
      time ≤ line * 3420 + bound := by
  have begun : line * 3420 ≤ max (reached m) (newest m) := started.trans (Nat.le_max_left _ _)
  rcases slotTime_fits (fifoTiming_mem m) fits (Nat.sub_le_iff_le_add'.mpr early)
    (byteAccess_le m) with ⟨time, found, after, le⟩
  refine ⟨line * 3420 + time, ?_, ?_, (Nat.sub_lt_iff_lt_add' begun).mp after,
    Nat.add_le_add_left le _⟩
  · have fits_word : (line * 3420 + time) % 2 ^ 32 = line * 3420 + time :=
      Nat.mod_eq_of_lt ((Nat.add_le_add_left le _).trans_lt small)
    rw [slotTime] at found
    rcases Option.bind_eq_some_iff.mp found with ⟨slot, search, at_slot⟩
    rw [scdVdpFifoWordWrite, if_neg restricted, ite_lt_eq_max, base]
    dsimp only
    rw [search, Option.bind_some, at_slot, Option.map_some, fits_word, pushed]
  · exact ⟨line, fifoTiming m, fifoTiming_mem m, byteAccess m, byteAccess_le m, time, begun, found, rfl⟩

end Pushed

/-! ## The end of a transfer -/

section Transfer

variable {display h40 toVram : Bool}

def position (walk : DmaEnd) : ℕ := walk.frames * 896040 + walk.cyc

/-- The end of the slot window at `cyc`. -/
def windowEnd (cyc : ℕ) : ℕ :=
  if cyc / masterTicksPerLine < SCD_VDP_BLANK_LINES then SCD_VDP_BLANK_LINES * masterTicksPerLine
  else (cyc / masterTicksPerLine + 1) * masterTicksPerLine

theorem windowEnd_ge (cyc : ℕ) : (cyc / 3420 + 1) * 3420 ≤ windowEnd cyc ∧ cyc < windowEnd cyc := by
  rw [windowEnd]
  split_ifs with blank <;> simp only [masterTicksPerLine, SCD_VDP_BLANK_LINES] at blank ⊢ <;> omega

theorem windowEnd_aligned (cyc : ℕ) : windowEnd cyc % 3420 = 0 := by
  rw [windowEnd]
  split_ifs
  · exact Nat.mul_mod_left _ _
  · exact Nat.mul_mod_left _ _

theorem dmaRate_ge (blanked h40 toVram : Bool) : 8 ≤ dmaRate blanked h40 toVram := by
  revert blanked h40 toVram
  decide

variable (display h40 toVram) in
theorem dmaWindows_succ (fuel remaining : ℕ) (walk : DmaEnd) :
    ∃ rate cap, 8 ≤ rate ∧ cap = (windowEnd walk.cyc - walk.cyc) * rate / 3420 ∧
      dmaWindows display h40 toVram (fuel + 1) remaining walk =
        if remaining < cap then
          some ⟨walk.cyc + remaining * 3420 / rate, walk.frames, walk.windows + 1⟩
        else if remaining - cap = 0 then some ⟨windowEnd walk.cyc, walk.frames, walk.windows + 1⟩
        else if 896040 ≤ windowEnd walk.cyc then
          dmaWindows display h40 toVram fuel (remaining - cap)
            ⟨windowEnd walk.cyc - 896040, walk.frames + 1, walk.windows + 1⟩
        else dmaWindows display h40 toVram fuel (remaining - cap)
          ⟨windowEnd walk.cyc, walk.frames, walk.windows + 1⟩ :=
  ⟨_, _, dmaRate_ge _ _ _, rfl, rfl⟩

theorem dmaWindows_ge {fuel remaining : ℕ} {walk result : DmaEnd}
    (h : dmaWindows display h40 toVram fuel remaining walk = some result) :
    position walk ≤ position result ∧ walk.windows < result.windows ∧
      (walk.windows + 1 < result.windows →
        walk.frames * 896040 + (walk.cyc / 3420 + 1) * 3420 ≤ position result) := by
  induction fuel generalizing remaining walk with
  | zero => cases h
  | succ fuel ih =>
      rcases dmaWindows_succ display h40 toVram fuel remaining walk
        with ⟨rate, cap, -, -, step⟩
      have window := windowEnd_ge walk.cyc
      rw [step] at h
      simp only [position]
      split_ifs at h with inside done wraps
      · rw [← Option.some_inj.mp h]
        exact ⟨Nat.add_le_add_left (Nat.le_add_right _ _) _, Nat.lt_succ_self _,
          fun more => absurd more (Nat.lt_irrefl _)⟩
      · rw [← Option.some_inj.mp h]
        exact ⟨Nat.add_le_add_left window.2.le _, Nat.lt_succ_self _,
          fun more => absurd more (Nat.lt_irrefl _)⟩
      · rcases ih h with ⟨later, windows, -⟩
        have same : (walk.frames + 1) * 896040 + (windowEnd walk.cyc - 896040) =
            walk.frames * 896040 + windowEnd walk.cyc := by
          rw [Nat.add_mul, Nat.one_mul, Nat.add_assoc, Nat.add_sub_of_le wraps]
        simp only [position, same] at later
        exact ⟨(Nat.add_le_add_left window.2.le _).trans later, (Nat.lt_succ_self _).trans windows,
          fun _ => (Nat.add_le_add_left window.1 _).trans later⟩
      · rcases ih h with ⟨later, windows, -⟩
        exact ⟨(Nat.add_le_add_left window.2.le _).trans later, (Nat.lt_succ_self _).trans windows,
          fun _ => (Nat.add_le_add_left window.1 _).trans later⟩

theorem dmaWindows_aligned {fuel remaining : ℕ} {walk : DmaEnd} (aligned : walk.cyc % 3420 = 0)
    (enough : remaining < fuel) :
    ∃ result, dmaWindows display h40 toVram fuel remaining walk = some result := by
  induction fuel generalizing remaining walk with
  | zero => exact absurd enough (Nat.not_lt_zero _)
  | succ fuel ih =>
      rcases dmaWindows_succ display h40 toVram fuel remaining walk
        with ⟨rate, cap, fast, taken, step⟩
      have window := windowEnd_ge walk.cyc
      have on := windowEnd_aligned walk.cyc
      have whole : 3420 ≤ windowEnd walk.cyc - walk.cyc := by omega
      have positive : 1 ≤ cap := by
        rw [taken, Nat.one_le_div_iff (by decide)]
        exact whole.trans (Nat.le_mul_of_pos_right _ (by omega))
      rw [step]
      split_ifs with inside done wraps
      · exact ⟨_, rfl⟩
      · exact ⟨_, rfl⟩
      · exact ih (by simp only; omega) (by omega)
      · exact ih on (by omega)

variable (display h40 toVram) in
theorem dmaWindows_total (remaining : ℕ) (walk : DmaEnd) :
    ∃ result, dmaWindows display h40 toVram (remaining + 2) remaining walk = some result := by
  rcases dmaWindows_succ display h40 toVram (remaining + 1) remaining walk
    with ⟨rate, cap, -, -, step⟩
  have on := windowEnd_aligned walk.cyc
  rw [step]
  split_ifs with inside done wraps
  · exact ⟨_, rfl⟩
  · exact ⟨_, rfl⟩
  · exact dmaWindows_aligned (by simp only; omega) (by omega)
  · exact dmaWindows_aligned on (by omega)

end Transfer

/-! ## During an instruction -/

/-- An instruction of line `line` has written `words` words and waited for the Z80 `waits` times.
The entries chain from `base`, which lies a whole write before the end of the line, or is an instant
this instruction has reached. -/
structure Executing (line words waits base : ℕ) (m : ScdVdpFifo) : Prop where
  place : lineBase m = line * 3420
  inFrame : line < 262
  frame : m.vdpOnset ≤ m.now + SCD_FRAME_TICKS
  started : line * 3420 ≤ reached m
  instant : reached m ≤ line * 3420 + 4246 + 7 * waits
  index : m.fifoIdx < 4
  ordered : ∀ k < 3, entry m k ≤ entry m (k + 1)
  chain : Chain base m
  early : base ≤ line * 3420 + 3363 ∨ (0 < words ∧ base ≤ reached m)
  bounds : ∀ k < 4, entry m k ≤ line * 3420 + bound (words + k)
  clock : m.next = m.now
  transfer : m.mainDmaUntil ≠ 0 → m.mainDmaMulti = true →
    line * 3420 + 3420 ≤ scdFrameMclk m m.mainDmaUntil

section Executing

variable {line words waits base : ℕ} {m m' : ScdVdpFifo}

theorem Executing.oldest_le_newest (h : Executing line words waits base m) :
    oldest m ≤ newest m := by
  rw [oldest_eq h.index, newest_eq]
  exact (h.ordered 0 (by decide)).trans ((h.ordered 1 (by decide)).trans (h.ordered 2 (by decide)))

/-- A word that was not restricted leaves the FIFO as it was. -/
theorem Executing.unrestricted (h : Executing line words waits base m) :
    Executing line (words + 1) waits base m :=
  { h with
    early := h.early.imp_right fun reached => ⟨Nat.succ_pos _, reached.2⟩
    bounds := fun k inside => (h.bounds k inside).trans (by
      rw [Nat.add_right_comm]
      exact Nat.add_le_add_left (bound_mono _) _) }

theorem Chain.push (chain : Chain base m) (index : m.fifoIdx < 4) {time : ℕ}
    (slotted : Slotted (max (reached m) (newest m)) time) {after : ℕ} (popped : oldest m ≤ after)
    (later : reached m ≤ after) : Chain (max base after) (pushed m time) where
  first := by
    rw [entry_pushed index time (by decide)]
    rcases chain.next 0 (by decide) with past | ⟨found, start, slot⟩
    · exact .inl (past.trans (Nat.le_max_left _ _))
    · rw [← oldest_eq index] at start
      exact .inr ⟨found, start.trans (max_le_max_left base popped |>.trans (Nat.le_max_left _ _)), slot⟩
  next := by
    intro k inside
    rw [entry_pushed index time inside]
    rcases Nat.lt_or_ge k 2 with older | last
    · rw [entry_pushed index time (by omega)]
      exact (chain.next (k + 1) (by omega)).mono (Nat.le_max_left _ _)
    · obtain rfl : k = 2 := by omega
      rw [entry_pushed_newest index time, ← newest_eq]
      exact .inr ⟨_, max_le_max (later.trans (Nat.le_max_right _ _)) (Nat.le_refl _), slotted⟩

/-- A word that was restricted: it is found in the table, and the processor waits for the oldest. -/
theorem Executing.restricted (h : Executing line words waits base m) (few : words < 2)
    (short : waits ≤ 2) (within : ¬ VdpFifo.unrestricted m) :
    ∃ time, scdVdpFifoWordWrite m = some (pushed m time) ∧
      Executing line (words + 1) waits (max base (reached (pushed m time))) (pushed m time) ∧
      oldest m ≤ reached (pushed m time) ∧ reached m ≤ reached (pushed m time) := by
  have near : 5030 ≤ bound (words + 3) ∧ bound words ≤ 4240 := by
    rcases Nat.lt_or_ge words 1 with none | one
    · obtain rfl : words = 0 := by omega
      decide
    · obtain rfl : words = 1 := by omega
      decide
  have reaches := (bound_reaches.2 (words + 3) (by omega)).1
  have last : newest m ≤ line * 3420 + bound (words + 3) := by
    rw [newest_eq]
    exact h.bounds 3 (by decide)
  have here : reached m ≤ line * 3420 + bound (words + 3) :=
    calc reached m ≤ line * 3420 + 4246 + 7 * waits := h.instant
      _ ≤ line * 3420 + 4246 + 7 * 2 := Nat.add_le_add_left (Nat.mul_le_mul_left 7 short) _
      _ = line * 3420 + 4260 := by rw [Nat.add_assoc]
      _ ≤ line * 3420 + bound (words + 3) := Nat.add_le_add_left (le_trans (by decide) near.1) _
  have five : bound (words + 3 + 1) ≤ 5830 := by
    rcases Nat.lt_or_ge words 1 with none | one
    · obtain rfl : words = 0 := by omega
      decide
    · obtain rfl : words = 1 := by omega
      decide
  have small : line * 3420 + bound (words + 3 + 1) < 2 ^ 32 :=
    calc line * 3420 + bound (words + 3 + 1) ≤ 262 * 3420 + 5830 :=
          Nat.add_le_add (Nat.mul_le_mul_right 3420 h.inFrame.le) five
      _ < 2 ^ 32 := by decide
  rcases wordWrite_pushed within h.place h.started reaches (max_le here last) small with
    ⟨time, written, slotted, after, time_le⟩
  rcases reached_pushed_ge h.frame h.oldest_le_newest time with ⟨later, popped, latest⟩
  refine ⟨time, written, ?_, popped, later⟩
  have first_le : oldest m ≤ line * 3420 + 4240 := by
    rw [oldest_eq h.index]
    exact (h.bounds 0 (by decide)).trans (Nat.add_le_add_left near.2 _)
  exact {
    place := by
      rw [← h.place, lineBase, lineBase, pushed_now, scdFrameMclk_congr (pushed_onset m time)]
    inFrame := h.inFrame
    frame := by
      rw [pushed_onset, pushed_now]
      exact h.frame
    started := h.started.trans later
    instant := latest.trans <| max_le h.instant <|
      calc oldest m + 6 ≤ line * 3420 + 4240 + 6 := Nat.add_le_add_right first_le 6
        _ = line * 3420 + 4246 := by rw [Nat.add_assoc]
        _ ≤ line * 3420 + 4246 + 7 * waits := Nat.le_add_right _ _
    index := pushed_index m time
    ordered := by
      intro k inside
      rw [entry_pushed h.index time inside]
      rcases Nat.lt_or_ge k 2 with older | newer
      · rw [entry_pushed h.index time (by omega)]
        exact h.ordered (k + 1) (by omega)
      · obtain rfl : k = 2 := by omega
        rw [entry_pushed_newest h.index time, ← newest_eq]
        exact (Nat.le_max_right _ _).trans after.le
    chain := h.chain.push h.index slotted popped later
    early := by
      rcases h.early with far | ⟨-, past⟩
      · rcases Nat.le_total base (reached (pushed m time)) with before | behind
        · exact .inr ⟨Nat.succ_pos _, max_le before (Nat.le_refl _)⟩
        · exact .inl ((max_le (Nat.le_refl _) behind).trans far)
      · exact .inr ⟨Nat.succ_pos _, max_le (past.trans later) (Nat.le_refl _)⟩
    bounds := by
      intro k inside
      rcases Nat.lt_or_ge k 3 with older | newer
      · rw [entry_pushed h.index time older, Nat.add_right_comm, Nat.add_assoc]
        exact h.bounds (k + 1) (by omega)
      · obtain rfl : k = 3 := by omega
        rw [entry_pushed_newest h.index time, Nat.add_right_comm]
        exact time_le
    clock := by
      rw [pushed_now, ← h.clock, pushed]
    transfer := by
      rw [scdFrameMclk_congr (pushed_onset m time), pushed_until, pushed_multi]
      exact h.transfer }

end Executing

section Instruction

variable {line words waits base : ℕ} {m m' : ScdVdpFifo}

/-- A word: it stays inside the table, and if it is restricted the processor goes on no earlier than
the oldest entry is processed. -/
theorem Executing.word (h : Executing line words waits base m) (few : words < 2)
    (short : waits ≤ 2) :
    ∃ after base', scdVdpFifoWordWrite m = some after ∧ Executing line (words + 1) waits base' after ∧
      (¬ VdpFifo.unrestricted m → oldest m ≤ reached after) ∧ reached m ≤ reached after := by
  by_cases free : VdpFifo.unrestricted m
  · have kept : scdVdpFifoWordWrite m = some m := by rw [scdVdpFifoWordWrite, if_pos free]
    exact ⟨m, base, kept, h.unrestricted, fun within => absurd free within, Nat.le_refl _⟩
  · rcases h.restricted few short free with ⟨time, written, executing, popped, later⟩
    exact ⟨_, _, written, executing, fun _ => popped, later⟩

theorem entry_congr (cycles : m'.fifoCycles = m.fifoCycles) (index : m'.fifoIdx = m.fifoIdx)
    (k : ℕ) : entry m' k = entry m k := by rw [entry, cycles, index, ← entry]

theorem Chain.congr (chain : Chain base m) (same : ∀ k, entry m' k = entry m k) : Chain base m' where
  first := by
    rw [same]
    exact chain.first
  next k inside := by
    rw [same, same]
    exact chain.next k inside

/-- An event that leaves the FIFO as it is, and lets `more` accesses of the Z80 window pass. -/
theorem Executing.keep (h : Executing line words waits base m) {more : ℕ}
    (cycles : m'.fifoCycles = m.fifoCycles) (index : m'.fifoIdx = m.fifoIdx)
    (onset : m'.vdpOnset = m.vdpOnset) (now : m'.now = m.now) (next : m'.next = m.next)
    (moved : reached m' = reached m + 7 * more)
    (transfer : m'.mainDmaUntil ≠ 0 → m'.mainDmaMulti = true →
      line * 3420 + 3420 ≤ scdFrameMclk m m'.mainDmaUntil) :
    Executing line words (waits + more) base m' where
  place := by rw [← h.place, lineBase, lineBase, now, scdFrameMclk_congr onset]
  inFrame := h.inFrame
  frame := by
    rw [onset, now]
    exact h.frame
  started := by
    rw [moved]
    exact h.started.trans (Nat.le_add_right _ _)
  instant := by
    rw [moved, Nat.mul_add, ← Nat.add_assoc]
    exact Nat.add_le_add_right h.instant _
  index := by
    rw [index]
    exact h.index
  ordered k inside := by
    rw [entry_congr cycles index, entry_congr cycles index]
    exact h.ordered k inside
  chain := h.chain.congr (entry_congr cycles index)
  early := h.early.imp_right fun past => ⟨past.1, by
    rw [moved]
    exact past.2.trans (Nat.le_add_right _ _)⟩
  bounds k inside := by
    rw [entry_congr cycles index]
    exact h.bounds k inside
  clock := by rw [next, now, h.clock]
  transfer := by
    rw [scdFrameMclk_congr onset]
    exact transfer

theorem Executing.z80Access (h : Executing line words waits base m) :
    Executing line words (waits + 1) base
      { m with mainExtraTicks := m.mainExtraTicks + SCD_MAIN_Z80_ACCESS_TICKS } := by
  have frame : m.vdpOnset ≤ m.now + m.mainExtraTicks + SCD_FRAME_TICKS :=
    h.frame.trans (Nat.add_le_add_right (Nat.le_add_right _ _) _)
  have moved : reached { m with mainExtraTicks := m.mainExtraTicks + SCD_MAIN_Z80_ACCESS_TICKS } =
      reached m + 7 * 1 := by
    rw [reached, reached, ← Nat.add_assoc, SCD_MAIN_Z80_ACCESS_TICKS]
    exact scdFrameMclk_add frame 7
  exact h.keep rfl rfl rfl rfl rfl moved h.transfer

theorem scdFrameMclk_origin {m : ScdVdpFifo} {clocks : ℕ}
    (armed : m.vdpOnset + clocks * SCD_MASTER_TICK_TICKS - SCD_FRAME_TICKS ≠ 0) :
    scdFrameMclk m (m.vdpOnset + clocks * SCD_MASTER_TICK_TICKS - SCD_FRAME_TICKS) = clocks := by
  have whole : SCD_FRAME_TICKS ≤ m.vdpOnset + clocks * SCD_MASTER_TICK_TICKS :=
    (Nat.lt_of_sub_ne_zero armed).le
  rw [scdFrameMclk, Nat.sub_add_cancel whole, Nat.add_sub_cancel_left,
    Nat.mul_div_cancel _ (by decide : 0 < SCD_MASTER_TICK_TICKS)]

/-- A transfer that takes more than one slot window ends in a later line. -/
theorem scdVdpDmaEnd_spec (m : ScdVdpFifo) (start words : ℕ) (toVram : Bool) :
    ∃ transfer, scdVdpDmaEnd m start words toVram = some transfer ∧
      (transfer.1 ≠ 0 → 1 < transfer.2 →
        scdFrameMclk m start / 3420 * 3420 + 3420 ≤ scdFrameMclk m transfer.1) := by
  rcases dmaWindows_total (decide (m.register1 &&& 0x40 ≠ 0)) (decide (m.register12 &&& 1 ≠ 0))
    toVram words ⟨scdFrameMclk m start, 0, 0⟩ with ⟨walk, found⟩
  have place : walk.frames * linesPerFrame * masterTicksPerLine + walk.cyc = position walk := by
    rw [Nat.mul_assoc, position]
    rfl
  rw [scdVdpDmaEnd, found, Option.map_some, place]
  refine ⟨_, rfl, fun armed more => ?_⟩
  have late := (dmaWindows_ge found).2.2 more
  rw [scdFrameMclk_origin armed]
  rw [Nat.zero_mul, Nat.zero_add, Nat.succ_mul] at late
  exact late

theorem Executing.still (h : Executing line words waits base m)
    (cycles : m'.fifoCycles = m.fifoCycles) (index : m'.fifoIdx = m.fifoIdx)
    (onset : m'.vdpOnset = m.vdpOnset) (now : m'.now = m.now) (next : m'.next = m.next)
    (extra : m'.mainExtraTicks = m.mainExtraTicks)
    (transfer : m'.mainDmaUntil ≠ 0 → m'.mainDmaMulti = true →
      line * 3420 + 3420 ≤ scdFrameMclk m m'.mainDmaUntil) :
    Executing line words waits base m' := by
  have moved : reached m' = reached m + 7 * 0 := by
    rw [reached, now, extra, scdFrameMclk_congr onset, ← reached, Nat.mul_zero, Nat.add_zero]
  exact h.keep cycles index onset now next moved transfer

theorem Executing.dma (h : Executing line words waits base m) (length : ℕ) (toVram : Bool) :
    ∃ after, runEvent m (.dma length toVram) = some after ∧ Executing line words waits base after := by
  rcases scdVdpDmaEnd_spec m m.now length toVram with ⟨transfer, found, late⟩
  have place : scdFrameMclk m m.now / 3420 * 3420 = line * 3420 := by rw [← h.place, lineBase]
  rw [place] at late
  rw [runEvent, found, Option.map_some]
  refine ⟨_, rfl, h.still rfl rfl rfl rfl rfl rfl ?_⟩
  intro armed multi
  exact late armed (of_decide_eq_true multi)

theorem Executing.control (h : Executing line words waits base m)
    (register1 register12 transferCode : ℕ) :
    Executing line words waits base
      { m with register1 := register1, register12 := register12, transferCode := transferCode } :=
  h.still rfl rfl rfl rfl rfl rfl h.transfer

/-- What the events of one instruction keep. -/
theorem Executing.runEvents (events : List MainEvent) {words waits base : ℕ} {m : ScdVdpFifo}
    (h : Executing line words waits base m) (few : words + events.count .word ≤ 2)
    (short : .word ∈ events → waits + events.count .z80Access ≤ 2) :
    ∃ after base', VdpFifo.runEvents m events = some after ∧
      Executing line (words + events.count .word) (waits + events.count .z80Access) base' after := by
  induction events generalizing words waits base m with
  | nil => exact ⟨m, base, rfl, h⟩
  | cons event events ih =>
      cases event with
      | word =>
          rw [List.count_cons_self, Nat.add_comm _ 1, ← Nat.add_assoc] at few
          rw [List.count_cons_of_ne (by decide)] at short
          have near := short (List.mem_cons_self ..)
          rcases h.word (Nat.lt_of_succ_le (Nat.le_of_add_right_le few))
            (Nat.le_of_add_right_le near) with ⟨next, base', written, executing, -, -⟩
          rcases ih executing few (fun _ => near) with ⟨after, last, runs, ends⟩
          rw [List.count_cons_self, Nat.add_comm _ 1, ← Nat.add_assoc,
            List.count_cons_of_ne (by decide), VdpFifo.runEvents, runEvent, written, Option.bind_some]
          exact ⟨after, last, runs, ends⟩
      | z80Access =>
          rw [List.count_cons_of_ne (by decide)] at few
          rw [List.count_cons_self, Nat.add_comm _ 1, ← Nat.add_assoc] at short
          rcases ih h.z80Access few (fun more => short (List.mem_cons_of_mem _ more))
            with ⟨after, last, runs, ends⟩
          rw [List.count_cons_self, Nat.add_comm _ 1, ← Nat.add_assoc,
            List.count_cons_of_ne (by decide), VdpFifo.runEvents, runEvent, Option.bind_some]
          exact ⟨after, last, runs, ends⟩
      | control register1 register12 transferCode =>
          rw [List.count_cons_of_ne (by simp)] at few short
          rcases ih (h.control register1 register12 transferCode) few
            (fun more => short (List.mem_cons_of_mem _ more)) with ⟨after, last, runs, ends⟩
          rw [List.count_cons_of_ne (by simp), List.count_cons_of_ne (by simp), VdpFifo.runEvents,
            runEvent, Option.bind_some]
          exact ⟨after, last, runs, ends⟩
      | dma length toVram =>
          rw [List.count_cons_of_ne (by simp)] at few short
          rcases h.dma length toVram with ⟨next, armed, executing⟩
          rcases ih executing few (fun more => short (List.mem_cons_of_mem _ more))
            with ⟨after, last, runs, ends⟩
          rw [List.count_cons_of_ne (by simp), List.count_cons_of_ne (by simp), VdpFifo.runEvents,
            armed, Option.bind_some]
          exact ⟨after, last, runs, ends⟩

end Instruction

/-! ## Between instructions -/

/-- The entries chain from a base that lies a whole write before the end of the line of every
instruction that can start. -/
structure Between (m : ScdVdpFifo) : Prop where
  extra : m.mainExtraTicks = 0
  dma : m.mainDmaUntil = 0
  index : m.fifoIdx < 4
  ordered : ∀ k < 3, entry m k ≤ entry m (k + 1)
  chain : ∃ base, Chain base m ∧ ∀ t, m.next ≤ t → m.vdpOnset ≤ t + SCD_FRAME_TICKS →
    base ≤ scdFrameMclk m t / 3420 * 3420 + 3363

section Between

variable {line words waits base cycles t : ℕ} {m : ScdVdpFifo}

theorem Between.empty (extra : m.mainExtraTicks = 0) (dma : m.mainDmaUntil = 0)
    (index : m.fifoIdx < 4) (empty : ∀ k, m.fifoCycles k = 0) : Between m := by
  have zero : ∀ k, entry m k = 0 := fun k => by rw [entry, empty]
  exact {
    extra := extra
    dma := dma
    index := index
    ordered := fun k _ => by rw [zero, zero]
    chain := ⟨0, ⟨.inl (zero 0).le, fun k _ => .inl (zero (k + 1)).le⟩, fun t _ _ => Nat.zero_le _⟩ }

theorem clock_lt (begins : Begins m t) : scdFrameMclk m t / 3420 < 262 := by
  have inside : t + SCD_FRAME_TICKS - m.vdpOnset < 262 * 3420 * SCD_MASTER_TICK_TICKS :=
    Nat.sub_lt_left_of_lt_add begins.frame (Nat.add_lt_add_right begins.due _)
  rw [scdFrameMclk, Nat.div_lt_iff_lt_mul (by decide), Nat.div_lt_iff_lt_mul (by decide)]
  exact inside

theorem Between.start (h : Between m) (begins : Begins m t) :
    ∃ base, Executing (scdFrameMclk m t / 3420) 0 0 base (startAt m t) := by
  rcases h.chain with ⟨base, chain, early⟩
  have same : ∀ k, entry (startAt m t) k = entry m k := entry_congr rfl rfl
  have now : (startAt m t).now = t := rfl
  have onset : (startAt m t).vdpOnset = m.vdpOnset := rfl
  have extra : (startAt m t).mainExtraTicks = m.mainExtraTicks := rfl
  have here : reached (startAt m t) = scdFrameMclk m t := by
    rw [reached, now, extra, h.extra, Nat.add_zero, scdFrameMclk_congr onset]
  have place : scdFrameMclk m t / 3420 * 3420 ≤ scdFrameMclk m t := Nat.div_mul_le_self _ _
  have near : base ≤ scdFrameMclk m t / 3420 * 3420 + 3363 := early t begins.next begins.frame
  refine ⟨base, ?_⟩
  exact {
    place := by
      rw [lineBase, now, scdFrameMclk_congr onset]
    inFrame := clock_lt begins
    frame := begins.frame
    started := by
      rw [here]
      exact place
    instant := by
      rw [here]
      calc scdFrameMclk m t ≤ scdFrameMclk m t / 3420 * 3420 + 3420 :=
            (Nat.lt_div_mul_add (by decide)).le
        _ ≤ scdFrameMclk m t / 3420 * 3420 + 4246 := Nat.add_le_add_left (by decide) _
    index := h.index
    ordered := fun k inside => by
      rw [same, same]
      exact h.ordered k inside
    chain := chain.congr same
    early := .inl near
    bounds := fun k inside => by
      rw [same, Nat.zero_add]
      exact chain.le_bound near k inside
    clock := rfl
    transfer := fun armed => absurd h.dma armed }

/-- The next instruction starts after the transfer, or a whole write after this one. -/
theorem scdRetire_next (h : Executing line words waits base m) (cycles : ℕ) :
    m.now ≤ (scdRetire m cycles).next ∧
      (m.mainDmaUntil ≠ 0 ∧ m.mainDmaMulti = true ∧ m.mainDmaUntil ≤ (scdRetire m cycles).next ∨
        m.now + m.mainExtraTicks + cycles * SCD_MAIN_CYCLE_TICKS ≤ (scdRetire m cycles).next) := by
  have clock : m.now = m.next := h.clock.symm
  rw [clock, scdRetire]
  dsimp only
  by_cases armed : m.mainDmaUntil ≠ 0
  · have later : m.next ≤ max m.next m.mainDmaUntil := Nat.le_max_left _ _
    rw [if_pos armed]
    by_cases multi : m.mainDmaMulti = true
    · rw [if_pos ⟨armed, multi⟩]
      exact ⟨later, .inl ⟨armed, multi, Nat.le_max_right _ _⟩⟩
    · rw [if_neg fun both => multi both.2, Nat.add_right_comm]
      exact ⟨(later.trans (Nat.le_add_right _ _)).trans (Nat.le_add_right _ _),
        .inr (Nat.add_le_add_right (Nat.add_le_add_right later _) _)⟩
  · rw [if_neg armed, if_neg fun both => armed both.1, Nat.add_right_comm]
    exact ⟨(Nat.le_add_right _ _).trans (Nat.le_add_right _ _), .inr (Nat.le_refl _)⟩

theorem within_line {base here next start : ℕ} (past : base ≤ here) (whole : here + 8 * 7 ≤ next)
    (inside : next < start + 3420) : base ≤ start + 3363 := by omega

/-- Retiring an instruction: what it wrote is a whole write before the end of the next one's line. -/
theorem Executing.retire (h : Executing line words waits base m)
    (paced : 0 < words → waits ≤ 2 ∧ 8 ≤ cycles) : Between (scdRetire m cycles) := by
  have cyc : (scdRetire m cycles).fifoCycles = m.fifoCycles := rfl
  have idx : (scdRetire m cycles).fifoIdx = m.fifoIdx := rfl
  have onset : (scdRetire m cycles).vdpOnset = m.vdpOnset := rfl
  have same := entry_congr cyc idx
  rcases scdRetire_next h cycles with ⟨later, start⟩
  refine ⟨rfl, rfl, idx ▸ h.index, ?_, base, h.chain.congr same, ?_⟩
  · intro k inside
    rw [same, same]
    exact h.ordered k inside
  · intro t next frame
    rw [scdFrameMclk_congr onset]
    rw [onset] at frame
    have line_le : line * 3420 ≤ scdFrameMclk m t / 3420 * 3420 := by
      rw [← h.place, lineBase]
      exact Nat.mul_le_mul_right _ (Nat.div_le_div_right (scdFrameMclk_mono m (later.trans next)))
    rcases h.early with far | ⟨wrote, past⟩
    · exact far.trans (Nat.add_le_add_right line_le _)
    · rcases paced wrote with ⟨short, long⟩
      rcases start with ⟨armed, multi, until_le⟩ | after
      · have next_line : line * 3420 + 3420 ≤ scdFrameMclk m t / 3420 * 3420 := by
          have ends := (h.transfer armed multi).trans (scdFrameMclk_mono m (until_le.trans next))
          rw [← Nat.succ_mul] at ends ⊢
          exact Nat.mul_le_mul_right _ ((Nat.le_div_iff_mul_le (by decide)).mpr ends)
        calc base ≤ reached m := past
          _ ≤ line * 3420 + 4246 + 7 * waits := h.instant
          _ ≤ line * 3420 + 4246 + 7 * 2 := Nat.add_le_add_left (Nat.mul_le_mul_left 7 short) _
          _ ≤ line * 3420 + 3420 + 3363 := by
              rw [Nat.add_assoc, Nat.add_assoc]
              exact Nat.add_le_add_left (by decide) _
          _ ≤ scdFrameMclk m t / 3420 * 3420 + 3363 := Nat.add_le_add_right next_line _
      · have whole : reached m + 8 * 7 ≤ scdFrameMclk m t := by
          have in_frame : m.vdpOnset ≤ m.now + m.mainExtraTicks + SCD_FRAME_TICKS :=
            h.frame.trans (Nat.add_le_add_right (Nat.le_add_right _ _) _)
          have eight : 8 * 7 * SCD_MASTER_TICK_TICKS ≤ cycles * SCD_MAIN_CYCLE_TICKS := by
            rw [Nat.mul_assoc]
            exact Nat.mul_le_mul_right _ long
          rw [reached, ← scdFrameMclk_add in_frame]
          exact scdFrameMclk_mono m ((Nat.add_le_add_left eight _).trans (after.trans next))
        exact within_line past whole (Nat.lt_div_mul_add (by decide))

theorem Between.frame (h : Between m) : Between (scdVdpEvent m) :=
  .empty h.extra h.dma h.index fun _ => rfl

theorem PowerOn.between (on : PowerOn m) : Between m :=
  .empty on.extra on.dma (on.first ▸ by decide) on.empty

theorem Instruction.words_le {events : List MainEvent} (instruction : Instruction events cycles) :
    events.count .word ≤ 2 := by
  rcases instruction.writes with ⟨burst, valid, words⟩
  rw [words]
  exact Burst.words_le valid

end Between

theorem Run.between {m : ScdVdpFifo} (run : Run m) : Between m := by
  induction run with
  | powerOn on => exact on.between
  | frame run ih => exact ih.frame
  | @instruction m after t cycles events run begins instruction runs ih =>
      rcases ih.start begins with ⟨base, start⟩
      rcases start.runEvents events (by rw [Nat.zero_add]; exact instruction.words_le)
        (fun wrote => by rw [Nat.zero_add]; exact instruction.waits wrote)
        with ⟨ends, last, ran, executing⟩
      rw [runs] at ran
      obtain rfl := Option.some_inj.mp ran
      refine executing.retire fun wrote => ?_
      rw [Nat.zero_add] at wrote ⊢
      have member := List.count_pos_iff.mp wrote
      exact ⟨instruction.waits member, instruction.cycles member⟩

/-- In every run each data-port write finds its slot inside the timing table, the four entries are
processed in the order they were written, and a write that is restricted never lets the processor go
on before the oldest of them is processed. -/
theorem Run.data_port_in_table {m : ScdVdpFifo} {t cycles : ℕ} {events written rest : List MainEvent}
    (run : Run m) (begins : Begins m t) (instruction : Instruction events cycles)
    (split : events = written ++ rest) :
    ∃ fifo, runEvents (startAt m t) written = some fifo ∧
      (∀ k < 3, entry fifo k ≤ entry fifo (k + 1)) ∧
      ∀ more, rest = .word :: more → ∃ after, scdVdpFifoWordWrite fifo = some after ∧
        (¬ unrestricted fifo → oldest fifo ≤ reached after) ∧ reached fifo ≤ reached after := by
  have words : written.count .word + rest.count .word ≤ 2 := by
    rw [← List.count_append, ← split]
    exact instruction.words_le
  have waits : .word ∈ events → written.count .z80Access ≤ 2 := fun wrote =>
    calc written.count .z80Access ≤ written.count .z80Access + rest.count .z80Access :=
          Nat.le_add_right _ _
      _ = events.count .z80Access := by rw [← List.count_append, ← split]
      _ ≤ 2 := instruction.waits wrote
  rcases run.between.start begins with ⟨base, start⟩
  rcases start.runEvents written (by rw [Nat.zero_add]; exact Nat.le_of_add_right_le words)
    (fun wrote => by
      rw [Nat.zero_add]
      exact waits (split ▸ List.mem_append_left _ wrote)) with ⟨fifo, base', ran, executing⟩
  rw [Nat.zero_add, Nat.zero_add] at executing
  refine ⟨fifo, ran, executing.ordered, ?_⟩
  rintro more rfl
  rw [List.count_cons_self] at words
  rcases executing.word (by omega) (waits (split ▸ List.mem_append_right _ (List.mem_cons_self ..)))
    with ⟨after, last, found, -, popped, later⟩
  exact ⟨after, found, popped, later⟩

/-- The machine at the first instruction of the main processor, with the display enabled. -/
def displayOn : ScdVdpFifo where
  vdpOnset := SCD_BIOS_FIRST_ONSET_MCLK * SCD_MASTER_TICK_TICKS
  now := 0
  next := 40 * SCD_MAIN_CYCLE_TICKS
  register1 := 0x40

theorem data_port_in_table_long :
    ∃ fifo, runEvents (startAt displayOn (40 * SCD_MAIN_CYCLE_TICKS)) [.word] = some fifo ∧
      (∀ k < 3, entry fifo k ≤ entry fifo (k + 1)) ∧
      ∀ more, [MainEvent.word] = .word :: more → ∃ after, scdVdpFifoWordWrite fifo = some after ∧
        (¬ unrestricted fifo → oldest fifo ≤ reached after) ∧ reached fifo ≤ reached after :=
  Run.data_port_in_table
    (.powerOn ⟨rfl, rfl, rfl, rfl, fun _ => rfl, rfl⟩)
    ⟨Nat.le_refl _, by decide, by decide⟩
    (⟨⟨⟨0xC00000, 4, 1, false⟩, ⟨by decide, by decide⟩, by decide⟩, by decide, by decide⟩ :
      Instruction [.word, .word] 12)
    rfl

end Segarecomp.SegaCd.VdpFifo

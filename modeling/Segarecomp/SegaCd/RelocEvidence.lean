import Segarecomp.SegaCd.Reloc

/-! What a clean stream of the observer is evidence of: moves of one processor out of consecutive
addresses of one class, as long as no read of another class continues the stream. -/

namespace Segarecomp.SegaCd.Reloc

variable {cpu : Cpu} {memory : StreamMemory} {pc source destination : ℕ} {klass : SourceClass}
  {history later : List Event} {data : List Byte} {s : ScdRelocStream} {r : ScdReloc} {o : Observer}
  {instant : ℕ} {b : BusRead} {w : BusWrite} {p : ScdRelocRead}

/-! ## The evidence -/

/-- Every byte of the read comes from the class, at consecutive addresses. -/
def BusRead.Inside (b : BusRead) (klass : SourceClass) (start : ℕ) : Prop :=
  ∀ k < b.width.bytes, scdRelocClassify b.cpu ((b.masked + k) % 2 ^ 24) = (klass, start + k)

structure Move (cpu : Cpu) (memory : StreamMemory) (pc : ℕ) (klass : SourceClass) (start offset : ℕ) (b : BusRead)
    (w : BusWrite) : Prop where
  reader : b.cpu = cpu
  inside : b.Inside klass start
  writer : w.cpu = cpu
  instruction : w.pc = pc
  ram : w.memory = memory
  place : u32 w.offset = u32 offset
  arrived : w.dropped = false
  width : b.width = w.width
  value : b.value = w.value

/-- The history holds, in order, moves by the instruction at `pc`: the read of each comes before its write,
and both go on where the move before it ended. `data` is all that was moved. -/
inductive Moved (cpu : Cpu) (memory : StreamMemory) (pc : ℕ) (klass : SourceClass) (source destination : ℕ) :
    List Event → List Byte → Prop
  | start : Moved cpu memory pc klass source destination [] []
  | skip {history : List Event} {data : List Byte} (e : Event) (moved : Moved cpu memory pc klass source destination history data) :
      Moved cpu memory pc klass source destination (history ++ [e]) data
  | move {history : List Event} {data : List Byte} (between : List Event) (b : BusRead) (w : BusWrite)
      (moved : Moved cpu memory pc klass source destination history data)
      (move : Move cpu memory pc klass (source + data.length) (destination + data.length) b w) :
      Moved cpu memory pc klass source destination (history ++ [.read b] ++ between ++ [.write w])
        (data ++ bigEndian w.value w.width)

def ScdRelocStream.stored (s : ScdRelocStream) : List Byte := (List.range s.length).map s.bytes

def ScdRelocStream.Moved (s : ScdRelocStream) (history : List Event) : Prop :=
  Reloc.Moved s.writerCpu s.memory s.pc s.sourceClass s.source s.destination history s.stored

/-- All six counters of a recorded stream are zero. -/
structure ScdRelocStream.Clean (s : ScdRelocStream) : Prop where
  used : s.used = true
  unpaired : s.unpaired = false
  sourceGap : s.sourceGap = false
  clobbered : s.clobbered = false
  dropped : s.dropped = false
  tooLarge : s.tooLarge = false
  volatileInput : s.volatileInput = false

theorem Moved.append (moved : Moved cpu memory pc klass source destination history data) (later : List Event) :
    Moved cpu memory pc klass source destination (history ++ later) data := by
  induction later using List.reverseRecOn with
  | nil =>
    rw [List.append_nil]
    exact moved
  | append_singleton later e ih =>
    rw [← List.append_assoc]
    exact ih.skip e

theorem Moved.nothing (history : List Event) : Moved cpu memory pc klass source destination history [] :=
  Moved.start.append history

/-- Each byte of the data was read at the next address of the class. -/
theorem Moved.classified (moved : Moved cpu memory pc klass source destination history data) :
    ∀ i < data.length, ∃ address, scdRelocClassify cpu address = (klass, source + i) := by
  induction moved with
  | start =>
    intro i inside
    exact absurd inside (Nat.not_lt_zero i)
  | skip e moved ih => exact ih
  | @move history data between b w moved move ih =>
    intro i inside
    rw [List.length_append, bigEndian, List.length_map, List.length_range] at inside
    rcases Nat.lt_or_ge i data.length with early | late
    · exact ih i early
    · have place := move.inside (i - data.length) (by rw [move.width]; omega)
      rw [move.reader, show source + data.length + (i - data.length) = source + i by omega] at place
      exact ⟨_, place⟩

/-! ## Classification -/

theorem classify_lt {address : ℕ} (narrow : address < 2 ^ 24) : (scdRelocClassify cpu address).2 < 2 ^ 24 := by
  cases cpu with
  | main =>
    simp only [scdRelocClassify]
    split_ifs <;> omega
  | sub =>
    simp only [scdRelocClassify]
    split_ifs <;> omega

theorem masked_lt (b : BusRead) : b.masked < 2 ^ 24 := Nat.mod_lt _ (by decide)

theorem BusRead.normal_lt (b : BusRead) : b.normal < 2 ^ 24 := classify_lt (masked_lt b)

theorem klass_of_normal {first second : BusRead} (same : first.cpu = second.cpu)
    (normal : first.normal = second.normal) : first.klass = second.klass := by
  have low := masked_lt first
  have high := masked_lt second
  unfold BusRead.normal at normal
  unfold BusRead.klass
  rw [same] at normal ⊢
  generalize first.masked = a at *
  generalize second.masked = c at *
  generalize second.cpu = cpu at *
  cases cpu with
  | main =>
    simp only [scdRelocClassify] at normal ⊢
    split_ifs at normal ⊢ <;> first | rfl | omega
  | sub =>
    simp only [scdRelocClassify] at normal ⊢
    split_ifs at normal ⊢ <;> first | rfl | omega

/-- The bytes of the pending read that the processor sees at the addresses the read covers. -/
def ScdRelocRead.Whole (p : ScdRelocRead) (cpu : Cpu) : Prop :=
  ∀ k < p.width.bytes, scdRelocClassify cpu (p.address + k) = (p.klass, p.address + k)

theorem classify_inside {address k : ℕ} (narrow : address < 2 ^ 24) (few : k < 4)
    (inside : scdRelocClassify cpu ((scdRelocClassify cpu address).2 + k) =
      ((scdRelocClassify cpu address).1, (scdRelocClassify cpu address).2 + k)) :
    scdRelocClassify cpu ((address + k) % 2 ^ 24) =
      ((scdRelocClassify cpu address).1, (scdRelocClassify cpu address).2 + k) := by
  generalize spec : scdRelocClassify cpu address = place at *
  rcases place with ⟨klass, normal⟩
  simp only at inside ⊢
  cases cpu with
  | main =>
    simp only [scdRelocClassify] at spec inside ⊢
    split_ifs at spec <;> simp only [Prod.mk.injEq] at spec <;> rcases spec with ⟨rfl, rfl⟩ <;>
      split_ifs at inside <;> simp only [Prod.mk.injEq, reduceCtorEq, false_and] at inside <;>
      split_ifs <;> simp only [Prod.mk.injEq, reduceCtorEq, true_and, false_and] <;> omega
  | sub =>
    simp only [scdRelocClassify] at spec inside ⊢
    split_ifs at spec <;> simp only [Prod.mk.injEq] at spec <;> rcases spec with ⟨rfl, rfl⟩ <;>
      split_ifs at inside <;> simp only [Prod.mk.injEq, reduceCtorEq, false_and] at inside <;>
      split_ifs <;> simp only [Prod.mk.injEq, reduceCtorEq, true_and, false_and] <;> omega

theorem Width.bytes_pos (width : Width) : 0 < width.bytes := by cases width <;> decide

theorem Width.bytes_le (width : Width) : width.bytes ≤ 4 := by cases width <;> decide

/-- The pending read of a processor is the read event it was noted from. -/
structure ScdRelocRead.Of (p : ScdRelocRead) (b : BusRead) : Prop where
  address : p.address = b.normal
  klass : p.klass = b.klass
  width : p.width = b.width
  value : p.value = b.value

theorem ScdRelocRead.Of.inside (noted : p.Of b) (whole : p.Whole b.cpu) : b.Inside p.klass p.address := by
  intro k inside
  have few : k < 4 := Nat.lt_of_lt_of_le inside b.width.bytes_le
  have window := whole k (by rw [noted.width]; exact inside)
  rw [noted.address, noted.klass] at window ⊢
  exact classify_inside (masked_lt b) few window

/-! ## The bytes of a write -/

theorem stores (value : BitVec 32) (width : Width) (s : ScdRelocStream) (n : ℕ) :
    ∃ bytes large, (List.range n).foldl (ScdRelocStream.store value width) s =
        { s with bytes := bytes, tooLarge := large } ∧
      (large = false → s.tooLarge = false ∧ (s.length ≤ scdRelocMaxBytes → n ≤ 4 →
        s.length + n ≤ scdRelocMaxBytes ∧
          (List.range (s.length + n)).map bytes = s.stored ++ (List.range n).map (byteOf value width))) := by
  induction n with
  | zero =>
    refine ⟨s.bytes, s.tooLarge, rfl, fun small => ⟨small, fun short _ => ⟨short, ?_⟩⟩⟩
    rw [List.range_zero, List.map_nil, List.append_nil]
    rfl
  | succ n ih =>
    rcases ih with ⟨bytes, large, reached, kept⟩
    rw [List.range_succ, List.foldl_append, reached, List.foldl_cons, List.foldl_nil, ScdRelocStream.store]
    split
    next room =>
      refine ⟨_, large, rfl, fun small => ⟨(kept small).1, fun short few => ?_⟩⟩
      have place : u32 (s.length + n) = s.length + n := by
        simp only [u32, scdRelocMaxBytes] at short ⊢
        omega
      have before := ((kept small).2 short (by omega)).2
      simp only [place] at room ⊢
      refine ⟨room, ?_⟩
      have same : ∀ i ∈ List.range (s.length + n),
          Function.update bytes (s.length + n) (byteOf value width n) i = bytes i := by
        intro i member
        exact Function.update_of_ne (Nat.ne_of_lt (List.mem_range.mp member)) _ _
      rw [← Nat.add_assoc, List.range_succ, List.map_append, List.map_congr_left same, before, List.map_append,
        List.append_assoc, List.map_singleton, Function.update_self, List.map_singleton]
    next full => exact ⟨bytes, true, rfl, fun small => absurd small (by decide)⟩

theorem grow_eq (s : ScdRelocStream) (order : BitVec 64) (w : BusWrite) :
    ∃ bytes large, s.grow order w =
        { s with bytes := bytes, tooLarge := large, length := u32 (s.length + w.width.bytes), order := order } ∧
      (large = false → s.tooLarge = false ∧ (s.length ≤ scdRelocMaxBytes →
        s.length + w.width.bytes ≤ scdRelocMaxBytes ∧
          (List.range (s.length + w.width.bytes)).map bytes = s.stored ++ bigEndian w.value w.width)) := by
  rcases stores w.value w.width s w.width.bytes with ⟨bytes, large, reached, kept⟩
  refine ⟨bytes, large, ?_, fun small => ⟨(kept small).1, fun short => (kept small).2 short w.width.bytes_le⟩⟩
  rw [ScdRelocStream.grow, reached]

theorem follow_clean {width : Width} {paired : Bool} (clean : (s.follow p paired width).Clean) :
    s.Clean ∧ paired = true ∧ s.sourceNext = p.address ∧
      s.follow p paired width = { s with sourceNext := u32 (p.address + width.bytes) } := by
  rw [ScdRelocStream.follow] at *
  split_ifs at * with alone gap
  · exact Bool.noConfusion clean.unpaired
  · exact Bool.noConfusion clean.sourceGap
  · have next : s.sourceNext = p.address := by
      by_contra other
      exact gap ⟨clean.unpaired, other⟩
    have paired : paired = true := Bool.eq_true_of_not_eq_false alone
    exact ⟨⟨clean.used, clean.unpaired, clean.sourceGap, clean.clobbered, clean.dropped, clean.tooLarge,
      clean.volatileInput⟩, paired, next, rfl⟩

theorem drop_clean {dropped : Bool} (clean : (s.drop dropped).Clean) : dropped = false ∧ s.drop dropped = s := by
  cases dropped with
  | false => exact ⟨rfl, rfl⟩
  | true => exact Bool.noConfusion clean.dropped

theorem sample_clean {deviceReads : BitVec 64} (clean : (s.sample deviceReads).Clean) :
    s.deviceReads = deviceReads ∧ s.sample deviceReads = s := by
  rw [ScdRelocStream.sample] at *
  split_ifs at * with other
  · exact Bool.noConfusion clean.volatileInput
  · exact ⟨not_not.mp other, rfl⟩

theorem grow_clean {order : BitVec 64} (clean : (s.grow order w).Clean) :
    s.Clean ∧ (s.length ≤ scdRelocMaxBytes →
      s.length + w.width.bytes ≤ scdRelocMaxBytes ∧ (s.grow order w).length = s.length + w.width.bytes ∧
        (s.grow order w).stored = s.stored ++ bigEndian w.value w.width) := by
  rcases grow_eq s order w with ⟨bytes, large, reached, kept⟩
  rw [reached] at clean ⊢
  have small := kept clean.tooLarge
  refine ⟨⟨clean.used, clean.unpaired, clean.sourceGap, clean.clobbered, clean.dropped, small.1,
    clean.volatileInput⟩, fun short => ?_⟩
  have room := small.2 short
  have narrow : u32 (s.length + w.width.bytes) = s.length + w.width.bytes := by
    simp only [u32, scdRelocMaxBytes] at room ⊢
    omega
  refine ⟨room.1, narrow, ?_⟩
  rw [ScdRelocStream.stored]
  simp only [narrow]
  exact room.2

/-- A stream that is clean after a write was clean before it, and the write was a move that goes on where the
source stopped. -/
structure Extended (r : ScdReloc) (instant : ℕ) (w : BusWrite) (s after : ScdRelocStream) : Prop where
  clean : s.Clean
  pairs : (r.pending w.cpu).Pairs instant w
  arrived : w.dropped = false
  next : s.sourceNext = (r.pending w.cpu).address
  quiet : s.deviceReads = r.deviceReads w.cpu
  room : s.length + w.width.bytes ≤ scdRelocMaxBytes
  writerCpu : after.writerCpu = s.writerCpu
  memory : after.memory = s.memory
  pc : after.pc = s.pc
  sourceClass : after.sourceClass = s.sourceClass
  source : after.source = s.source
  destination : after.destination = s.destination
  length : after.length = s.length + w.width.bytes
  sourceNext : after.sourceNext = u32 ((r.pending w.cpu).address + w.width.bytes)
  stored : after.stored = s.stored ++ bigEndian w.value w.width

theorem extend_clean (clean : (r.extend instant w s).Clean) :
    s.Clean ∧ (s.length ≤ scdRelocMaxBytes → Extended r instant w s (r.extend instant w s)) := by
  rw [ScdReloc.extend] at *
  have grown := grow_clean clean
  have quiet := sample_clean grown.1
  rw [quiet.2] at grown
  have arrived := drop_clean grown.1
  rw [arrived.2] at grown
  have followed := follow_clean grown.1
  refine ⟨followed.1, fun short => ?_⟩
  have stream := followed.2.2.2
  have read := quiet.1
  have grows := grown.2
  rw [arrived.2, stream] at read
  rw [stream] at grows
  rw [quiet.2, arrived.2, stream]
  have room := grows short
  rcases grow_eq { s with sourceNext := u32 ((r.pending w.cpu).address + w.width.bytes) } (r.order + 1) w with
    ⟨bytes, large, reached, -⟩
  constructor
  case clean => exact followed.1
  case pairs => exact of_decide_eq_true followed.2.1
  case arrived => exact arrived.1
  case next => exact followed.2.2.1
  case quiet => exact read
  case room => exact room.1
  case length => exact room.2.1
  case stored => exact room.2.2
  all_goals rw [reached]

/-! ## The table after a write -/

theorem clobberOthers_clean {i : ℕ} (clean : (r.clobberOthers w i).Clean) : r.clobberOthers w i = r.streams i := by
  rw [ScdReloc.clobberOthers] at *
  split_ifs at * with touched
  · exact Bool.noConfusion clean.clobbered
  · rfl

theorem clobberOthers_target {i : ℕ} (hit : r.target w = some i) : r.clobberOthers w i = r.streams i :=
  if_neg (fun touched => touched.1 hit)

theorem target_continued {i : ℕ} (hit : r.target w = some i) : (r.streams i).Continued w :=
  of_decide_eq_true (List.find?_some (p := fun i => decide ((r.streams i).Continued w)) hit)

/-- Every slot after a write: as it was but for its `clobbered` flag, the stream that goes on, or a new one. -/
theorem noteWrite_streams (r : ScdReloc) (instant : ℕ) (w : BusWrite) (i : ℕ) :
    (r.noteWrite instant w).streams i = r.clobberOthers w i ∨
      (r.target w = some i ∧ (r.noteWrite instant w).streams i = r.extend instant w (r.streams i)) ∨
      (r.target w = none ∧ (r.noteWrite instant w).streams i = r.extend instant w (r.opened instant w)) := by
  rw [ScdReloc.noteWrite]
  cases hit : r.target w with
  | none =>
    by_cases slot : i = (freeSlot (r.clobberOthers w)).1
    · subst slot
      exact Or.inr (Or.inr ⟨rfl, Function.update_self _ _ _⟩)
    · exact Or.inl (Function.update_of_ne slot _ _)
  | some j =>
    by_cases slot : i = j
    · subst slot
      refine Or.inr (Or.inl ⟨rfl, (Function.update_self _ _ _).trans ?_⟩)
      rw [clobberOthers_target hit]
    · exact Or.inl (Function.update_of_ne slot _ _)

/-! ## The invariant -/

/-- Where a clean stream stands in a history. -/
structure Sound (history : List Event) (s : ScdRelocStream) : Prop where
  moved : s.Moved history
  short : s.length ≤ scdRelocMaxBytes
  next : s.sourceNext = s.source + s.length

/-- The read that is pending for a processor, and the history before it: the streams it can go on were complete
by then. -/
structure Pending (history : List Event) (r : ScdReloc) (cpu : Cpu) (before : List Event) (b : BusRead)
    (later : List Event) : Prop where
  history : history = before ++ [.read b] ++ later
  reader : b.cpu = cpu
  noted : (r.pending cpu).Of b
  streams : ∀ i, (r.streams i).Clean → (r.streams i).writerCpu = cpu →
    (r.streams i).sourceNext = (r.pending cpu).address → (r.streams i).Moved before

structure Invariant (history : List Event) (r : ScdReloc) : Prop where
  streams : ∀ i, (r.streams i).Clean → Sound history (r.streams i)
  pending : ∀ cpu, (r.pending cpu).valid = true → ∃ before b later, Pending history r cpu before b later

theorem Sound.append (sound : Sound history s) (later : List Event) : Sound (history ++ later) s :=
  ⟨sound.moved.append later, sound.short, sound.next⟩

theorem Pending.append {before : List Event} (pending : Pending history r cpu before b later) (e : Event) :
    history ++ [e] = before ++ [.read b] ++ (later ++ [e]) := by
  rw [pending.history, List.append_assoc]

theorem Invariant.retire (inv : Invariant history r) (cpu : Cpu) : Invariant (history ++ [.retire cpu]) r := by
  constructor
  · exact fun i clean => (inv.streams i clean).append _
  · intro reader valid
    rcases inv.pending reader valid with ⟨before, b, later, pending⟩
    exact ⟨before, b, later ++ [.retire cpu], pending.append _, pending.reader, pending.noted, pending.streams⟩

theorem noteForeign_clean {offset length i : ℕ} (clean : ((r.noteForeign memory offset length).streams i).Clean) :
    (r.noteForeign memory offset length).streams i = r.streams i := by
  simp only [ScdReloc.noteForeign] at *
  split_ifs at * with touched
  · exact Bool.noConfusion clean.clobbered
  · rfl

theorem Invariant.foreign (inv : Invariant history r) (memory : StreamMemory) (offset length : ℕ) :
    Invariant (history ++ [.foreign memory offset length]) (r.noteForeign memory offset length) := by
  constructor
  · intro i clean
    have same := noteForeign_clean clean
    rw [same] at clean ⊢
    exact (inv.streams i clean).append _
  · intro reader valid
    rcases inv.pending reader valid with ⟨before, b, later, pending⟩
    refine ⟨before, b, later ++ [.foreign memory offset length], pending.append _, pending.reader, pending.noted, ?_⟩
    intro i clean
    have same := noteForeign_clean clean
    rw [same] at clean ⊢
    exact pending.streams i clean

theorem Invariant.read (inv : Invariant history r) (instant : ℕ) (b : BusRead) :
    Invariant (history ++ [.read b]) (r.noteRead instant b) := by
  have fresh (p : ScdRelocRead) (noted : p.Of b) (hit : (r.noteRead instant b).pending b.cpu = p) :
      ∃ before c later, Pending (history ++ [.read b]) (r.noteRead instant b) b.cpu before c later := by
    refine ⟨history, b, [], (List.append_nil _).symm, rfl, by rw [hit]; exact noted, ?_⟩
    exact fun i clean _ _ => (inv.streams i clean).moved
  constructor
  · exact fun i clean => (inv.streams i clean).append _
  · intro reader valid
    by_cases same : reader = b.cpu
    · subst same
      have hit : (r.noteRead instant b).pending b.cpu = (r.pending b.cpu).note instant b := Function.update_self _ _ _
      rw [ScdRelocRead.note] at hit
      split_ifs at hit with again repeated
      · rcases inv.pending b.cpu again.1 with ⟨before, c, later, pending⟩
        have klass : c.klass = b.klass := klass_of_normal pending.reader (pending.noted.address.symm.trans repeated.1)
        exact fresh { r.pending b.cpu with value := b.value }
          ⟨repeated.1, pending.noted.klass.trans klass, repeated.2, rfl⟩ hit
      · rcases inv.pending b.cpu again.1 with ⟨before, c, later, pending⟩
        refine ⟨before, c, later ++ [.read b], pending.append _, pending.reader, ?_, ?_⟩
        · rw [hit]
          exact ⟨pending.noted.address, pending.noted.klass, pending.noted.width, pending.noted.value⟩
        · rw [hit]
          exact pending.streams
      · exact fresh _ ⟨rfl, rfl, rfl, rfl⟩ hit
    · have other : (r.noteRead instant b).pending reader = r.pending reader := Function.update_of_ne same _ _
      rw [other] at valid
      rcases inv.pending reader valid with ⟨before, c, later, pending⟩
      refine ⟨before, c, later ++ [.read b], pending.append _, pending.reader, ?_, ?_⟩
      · rw [other]
        exact pending.noted
      · rw [other]
        exact pending.streams

/-! ## The condition -/

/-- The write goes on with a clean stream at the address where its source stopped. -/
structure ScdReloc.Joins (r : ScdReloc) (w : BusWrite) (i : ℕ) : Prop where
  target : r.target w = some i
  clean : (r.streams i).Clean
  next : (r.streams i).sourceNext = (r.pending w.cpu).address
  quiet : (r.streams i).deviceReads = r.deviceReads w.cpu
  room : (r.streams i).length + w.width.bytes ≤ scdRelocMaxBytes

/-- The paired read of a write that arrives lies in one class, which is that of the stream it joins. -/
def ScdReloc.SameSource (r : ScdReloc) (instant : ℕ) (w : BusWrite) : Prop :=
  (r.pending w.cpu).Pairs instant w → w.dropped = false →
    (r.target w = none → (r.pending w.cpu).Whole w.cpu) ∧
      ∀ i, r.Joins w i →
        (r.pending w.cpu).Whole w.cpu ∧ (r.streams i).sourceClass = (r.pending w.cpu).klass

/-- A stream that a move can go on. -/
structure Ready (r : ScdReloc) (w : BusWrite) (before : List Event) (s : ScdRelocStream) : Prop where
  writer : s.writerCpu = w.cpu
  memory : s.memory = w.memory
  pc : s.pc = w.pc
  place : u32 w.offset = u32 (s.destination + s.length)
  klass : s.sourceClass = (r.pending w.cpu).klass
  whole : (r.pending w.cpu).Whole w.cpu
  short : s.length ≤ scdRelocMaxBytes
  next : s.sourceNext = s.source + s.length
  moved : s.Moved before

variable {before : List Event} {after : ScdRelocStream}

theorem stored_length (s : ScdRelocStream) : s.stored.length = s.length := by
  rw [ScdRelocStream.stored, List.length_map, List.length_range]

theorem Ready.sourceNext (pending : Pending history r w.cpu before b later) (extended : Extended r instant w s after) :
    after.sourceNext = (r.pending w.cpu).address + w.width.bytes := by
  have low : (r.pending w.cpu).address < 2 ^ 24 := by
    rw [pending.noted.address]
    exact b.normal_lt
  have few := w.width.bytes_le
  rw [extended.sourceNext, u32]
  exact Nat.mod_eq_of_lt (by omega)

theorem Ready.sound (ready : Ready r w before s) (pending : Pending history r w.cpu before b later)
    (extended : Extended r instant w s after) : Sound (history ++ [.write w]) after := by
  have start : s.source + s.length = (r.pending w.cpu).address := ready.next.symm.trans extended.next
  have inside : b.Inside s.sourceClass (s.source + s.length) := by
    rw [start, ready.klass]
    apply pending.noted.inside
    rw [pending.reader]
    exact ready.whole
  have move : Move s.writerCpu s.memory s.pc s.sourceClass (s.source + s.stored.length)
      (s.destination + s.stored.length) b w := by
    rw [stored_length]
    exact ⟨pending.reader.trans ready.writer.symm, inside, ready.writer.symm, ready.pc.symm, ready.memory.symm,
      ready.place, extended.arrived, pending.noted.width.symm.trans extended.pairs.2.2.2.1,
      pending.noted.value.symm.trans extended.pairs.2.2.2.2.1⟩
  constructor
  · rw [ScdRelocStream.Moved, extended.writerCpu, extended.memory, extended.pc, extended.sourceClass, extended.source,
      extended.destination, extended.stored, pending.history]
    exact Moved.move later b w ready.moved move
  · rw [extended.length]
    exact extended.room
  · rw [Ready.sourceNext pending extended, extended.source, extended.length, ← start, Nat.add_assoc]

theorem opened_ready (pairs : (r.pending w.cpu).Pairs instant w) (whole : (r.pending w.cpu).Whole w.cpu) :
    Ready r w before (r.opened instant w) := by
  rw [ScdReloc.opened, if_pos pairs]
  exact ⟨rfl, rfl, rfl, rfl, rfl, whole, Nat.zero_le _, rfl, Moved.nothing before⟩

theorem joined_ready {i : ℕ} (inv : Invariant history r) (pending : Pending history r w.cpu before b later)
    (joins : r.Joins w i) (whole : (r.pending w.cpu).Whole w.cpu)
    (klass : (r.streams i).sourceClass = (r.pending w.cpu).klass) : Ready r w before (r.streams i) := by
  have continued := target_continued joins.target
  have sound := inv.streams i joins.clean
  have place : u32 w.offset = u32 ((r.streams i).destination + (r.streams i).length) := by
    rw [← continued.2.2.2.2]
    exact Nat.mod_mod _ _
  exact ⟨continued.2.1, continued.2.2.1, continued.2.2.2.1, place, klass, whole, sound.short, sound.next,
    pending.streams i joins.clean continued.2.1 joins.next⟩

theorem Invariant.written (inv : Invariant history r) (same : r.SameSource instant w) {i : ℕ}
    (clean : ((r.noteWrite instant w).streams i).Clean) :
    (r.noteWrite instant w).streams i = r.streams i ∨
      ∃ before b later s, Pending history r w.cpu before b later ∧ Ready r w before s ∧
        Extended r instant w s ((r.noteWrite instant w).streams i) := by
  rcases noteWrite_streams r instant w i with kept | ⟨hit, went⟩ | ⟨miss, began⟩
  · rw [kept] at clean ⊢
    exact Or.inl (clobberOthers_clean clean)
  · right
    rw [went] at clean ⊢
    have cleanBefore := (extend_clean clean).1
    have extended := (extend_clean clean).2 (inv.streams i cleanBefore).short
    rcases inv.pending w.cpu extended.pairs.1 with ⟨before, b, later, pending⟩
    have joins : r.Joins w i := ⟨hit, cleanBefore, extended.next, extended.quiet, extended.room⟩
    have source := (same extended.pairs extended.arrived).2 i joins
    exact ⟨before, b, later, _, pending, joined_ready inv pending joins source.1 source.2, extended⟩
  · right
    rw [began] at clean ⊢
    have empty : (r.opened instant w).length ≤ scdRelocMaxBytes := by
      rw [ScdReloc.opened]
      split <;> exact Nat.zero_le _
    have extended := (extend_clean clean).2 empty
    rcases inv.pending w.cpu extended.pairs.1 with ⟨before, b, later, pending⟩
    have whole := (same extended.pairs extended.arrived).1 miss
    exact ⟨before, b, later, _, pending, opened_ready extended.pairs whole, extended⟩

theorem Invariant.write (inv : Invariant history r) (same : r.SameSource instant w) :
    Invariant (history ++ [.write w]) (r.noteWrite instant w) := by
  have pendings : (r.noteWrite instant w).pending = r.pending := by
    rw [ScdReloc.noteWrite]
    cases r.target w <;> rfl
  constructor
  · intro i clean
    rcases inv.written same clean with kept | ⟨before, b, later, s, pending, ready, extended⟩
    · rw [kept] at clean ⊢
      exact (inv.streams i clean).append _
    · exact ready.sound pending extended
  · intro reader valid
    rw [pendings] at valid
    rcases inv.pending reader valid with ⟨before, b, later, pending⟩
    refine ⟨before, b, later ++ [.write w], pending.append _, pending.reader, by rw [pendings]; exact pending.noted, ?_⟩
    intro i clean writer next
    rw [pendings] at next
    rcases inv.written same clean with kept | ⟨_, c, _, s, own, ready, extended⟩
    · rw [kept] at clean writer next ⊢
      exact pending.streams i clean writer next
    -- a stream that this write went on with is past the read that is pending
    · have reads : reader = w.cpu := by rw [← writer, extended.writerCpu, ready.writer]
      have past := Ready.sourceNext own extended
      have positive := w.width.bytes_pos
      rw [next, reads] at past
      omega

/-! ## Runs -/

/-- Every write of the run keeps to the source of its stream. -/
def KeepsSource (o : Observer) : List Event → Prop
  | [] => True
  | e :: events =>
    (∀ w, e = .write w → o.reloc.SameSource (o.retired w.cpu) w) ∧ KeepsSource (o.step e) events

theorem Invariant.step (inv : Invariant history o.reloc) (e : Event)
    (same : ∀ w, e = .write w → o.reloc.SameSource (o.retired w.cpu) w) :
    Invariant (history ++ [e]) (o.step e).reloc := by
  cases e with
  | read b => exact inv.read _ b
  | write w => exact inv.write (same w rfl)
  | foreign memory offset length => exact inv.foreign memory offset length
  | retire cpu => exact inv.retire cpu

theorem Invariant.run (events : List Event) (inv : Invariant history o.reloc) (keeps : KeepsSource o events) :
    Invariant (history ++ events) (events.foldl Observer.step o).reloc := by
  induction events generalizing history o with
  | nil =>
    rw [List.append_nil]
    exact inv
  | cons e events ih =>
    rw [show history ++ e :: events = history ++ [e] ++ events by simp, List.foldl_cons]
    exact ih (inv.step e keeps.1) keeps.2

theorem Invariant.attached : Invariant [] ({} : ScdReloc) := by
  constructor
  · exact fun i clean => Bool.noConfusion clean.used
  · exact fun cpu valid => Bool.noConfusion valid

/-- A clean stream is a copy, as long as no write continued a stream with a read of another class. -/
theorem streams_sound (retired : Cpu → ℕ) (events : List Event) (keeps : KeepsSource { retired := retired } events)
    (i : ℕ) (clean : ((observe retired events).reloc.streams i).Clean) :
    ((observe retired events).reloc.streams i).Moved events := by
  have inv : Invariant ([] ++ events) (observe retired events).reloc := Invariant.attached.run events keeps
  rw [List.nil_append] at inv
  exact (inv.streams i clean).moved

/-- Two words that the instruction at `0x400` of the sub processor moves from `source` to `0x1000`. -/
def twoWords (source : ℕ) : List Event :=
  [.read ⟨.sub, source, .word, 0x1234⟩, .write ⟨.sub, 0x1000, .word, 0x1234, 0x400, .prg, 0x1000, false⟩, .retire .sub,
    .read ⟨.sub, source + 2, .word, 0x5678⟩, .write ⟨.sub, 0x1002, .word, 0x5678, 0x400, .prg, 0x1002, false⟩]

def unretired : Cpu → ℕ := fun _ => 0

theorem crossing_recorded (s : ScdRelocStream) (recorded : (observe unretired (twoWords 0x7FFFE)).reloc.streams 0 = s) :
    s.used = true ∧ s.unpaired = false ∧ s.sourceGap = false ∧ s.clobbered = false ∧ s.dropped = false ∧
      s.tooLarge = false ∧ s.volatileInput = false ∧ s.writerCpu = .sub ∧ s.sourceClass = .prg ∧ s.source = 0x7FFFE ∧
        s.length = 4 := by
  subst recorded
  decide

/-- The second word comes from Word RAM, and the clean stream says that it was PRG RAM. -/
theorem not_streams_sound : ¬∀ (retired : Cpu → ℕ) (events : List Event) (i : ℕ),
    ((observe retired events).reloc.streams i).Clean → ((observe retired events).reloc.streams i).Moved events := by
  intro claim
  rcases crossing_recorded _ rfl with ⟨used, unpaired, gap, clobbered, dropped, large, quiet, cpu, klass, source, length⟩
  have moved := claim unretired (twoWords 0x7FFFE) 0 ⟨used, unpaired, gap, clobbered, dropped, large, quiet⟩
  rw [ScdRelocStream.Moved] at moved
  rcases moved.classified 2 (by rw [stored_length, length]; decide) with ⟨address, place⟩
  rw [cpu, klass, source] at place
  simp only [scdRelocClassify] at place
  split_ifs at place <;> simp only [Prod.mk.injEq, reduceCtorEq, false_and] at place
  omega

theorem sameSource_of_target (slot : Option ℕ) (target : r.target w = slot) (whole : (r.pending w.cpu).Whole w.cpu)
    (klass : ∀ i, slot = some i → (r.streams i).sourceClass = (r.pending w.cpu).klass) : r.SameSource instant w := by
  intro _ _
  constructor
  · exact fun _ => whole
  · exact fun i joins => ⟨whole, klass i (target.symm.trans joins.target)⟩

instance (p : ScdRelocRead) (cpu : Cpu) : Decidable (p.Whole cpu) :=
  inferInstanceAs (Decidable (∀ k < _, _))

theorem twoWords_keeps : KeepsSource { retired := unretired } (twoWords 0x2000) := by
  have first : (observe unretired ((twoWords 0x2000).take 1)).reloc.SameSource 0
      ⟨.sub, 0x1000, .word, 0x1234, 0x400, .prg, 0x1000, false⟩ := by
    apply sameSource_of_target none
    · decide
    · decide
    · intro i hit
      cases hit
  have second : (observe unretired ((twoWords 0x2000).take 4)).reloc.SameSource 1
      ⟨.sub, 0x1002, .word, 0x5678, 0x400, .prg, 0x1002, false⟩ := by
    apply sameSource_of_target (some 0)
    · decide
    · decide
    · intro i hit
      cases hit
      decide
  refine ⟨?_, ?_, ?_, ?_, ?_, trivial⟩
  · exact fun w hit => Event.noConfusion hit
  · intro w hit
    cases hit
    exact first
  · exact fun w hit => Event.noConfusion hit
  · exact fun w hit => Event.noConfusion hit
  · intro w hit
    cases hit
    exact second

theorem streams_sound_twoWords : ((observe unretired (twoWords 0x2000)).reloc.streams 0).Moved (twoWords 0x2000) := by
  have flags : ∀ s, (observe unretired (twoWords 0x2000)).reloc.streams 0 = s →
      s.used = true ∧ s.unpaired = false ∧ s.sourceGap = false ∧ s.clobbered = false ∧ s.dropped = false ∧
        s.tooLarge = false ∧ s.volatileInput = false := by
    intro s recorded
    subst recorded
    decide
  rcases flags _ rfl with ⟨used, unpaired, gap, clobbered, dropped, large, quiet⟩
  exact streams_sound unretired (twoWords 0x2000) twoWords_keeps 0 ⟨used, unpaired, gap, clobbered, dropped, large, quiet⟩

end Segarecomp.SegaCd.Reloc

import Segarecomp.SegaCd.RelocReport

/-! The report after any run of the observer. -/

namespace Segarecomp.SegaCd.Reloc

open Lib.Cursor Lib.HexText

variable {slack instant : ℕ} {r : ScdReloc} {s : ScdRelocStream} {w : BusWrite} {b : BusRead} {o : Observer}
  {events : List Event} {retired : Cpu → ℕ}

/-! ## What the bus notes -/

/-- The first byte is a byte of the RAM, and the writer's address has 32 bits. -/
structure BusWrite.Served (w : BusWrite) : Prop where
  place : w.offset < ramBytes w.memory
  pc : w.pc < 2 ^ 32

def Event.Served : Event → Prop
  | .write w => w.Served
  | _ => True

/-- A write ends no further than `slack` bytes behind its RAM. -/
def Event.Ends (slack : ℕ) : Event → Prop
  | .write w => w.offset + w.width.bytes ≤ ramBytes w.memory + slack
  | _ => True

def Event.isWrite : Event → Bool
  | .write _ => true
  | _ => false

theorem Event.Served.ends {e : Event} (served : e.Served) : e.Ends 3 := by
  cases e with
  | write w =>
    have place := served.place
    have width := w.width.bytes_le
    change w.offset + w.width.bytes ≤ _
    omega
  | read => trivial
  | foreign => trivial
  | retire => trivial

/-! ## One stream -/

/-- The same stream but for its flags and the next read it expects. -/
structure Flagged (s s' : ScdRelocStream) : Prop where
  memory : s'.memory = s.memory
  destination : s'.destination = s.destination
  length : s'.length = s.length
  pc : s'.pc = s.pc
  source : s'.source = s.source
  tooLarge : s'.tooLarge = s.tooLarge

theorem Flagged.trans {s s' s'' : ScdRelocStream} (one : Flagged s s') (two : Flagged s' s'') : Flagged s s'' :=
  ⟨two.memory.trans one.memory, two.destination.trans one.destination, two.length.trans one.length,
    two.pc.trans one.pc, two.source.trans one.source, two.tooLarge.trans one.tooLarge⟩

theorem follow_flagged (s : ScdRelocStream) (p : ScdRelocRead) (paired : Bool) (width : Width) :
    Flagged s (s.follow p paired width) := by
  rw [ScdRelocStream.follow]
  split_ifs <;> exact ⟨rfl, rfl, rfl, rfl, rfl, rfl⟩

theorem drop_flagged (s : ScdRelocStream) (dropped : Bool) : Flagged s (s.drop dropped) := by
  rw [ScdRelocStream.drop]
  split_ifs <;> exact ⟨rfl, rfl, rfl, rfl, rfl, rfl⟩

theorem sample_flagged (s : ScdRelocStream) (deviceReads : BitVec 64) : Flagged s (s.sample deviceReads) := by
  rw [ScdRelocStream.sample]
  split_ifs <;> exact ⟨rfl, rfl, rfl, rfl, rfl, rfl⟩

/-- The flag tells whether a byte found no room. -/
theorem tooLarge_stores (value : BitVec 32) (width : Width) (large : s.tooLarge = decide (scdRelocMaxBytes < s.length))
    (n : ℕ) (narrow : s.length + n < 2 ^ 32) :
    ((List.range n).foldl (ScdRelocStream.store value width) s).tooLarge =
      decide (scdRelocMaxBytes < s.length + n) := by
  induction n with
  | zero => exact large
  | succ n ih =>
    have before := ih (by omega)
    rcases stores value width s n with ⟨bytes, flag, reached, -⟩
    rw [reached] at before
    have place : u32 (s.length + n) = s.length + n := Nat.mod_eq_of_lt (by omega)
    rw [List.range_succ, List.foldl_append, reached, List.foldl_cons, List.foldl_nil, ScdRelocStream.store]
    simp only [place]
    split
    next room =>
      rw [before]
      exact decide_eq_decide.mpr (by omega)
    next full => exact (decide_eq_true (by omega)).symm

/-- A stream whose next byte is where the write starts. -/
structure Adjoins (s : ScdRelocStream) (w : BusWrite) : Prop where
  memory : s.memory = w.memory
  place : s.destination + s.length = w.offset
  pc : s.pc < 2 ^ 32
  source : s.source < 2 ^ 32
  large : s.tooLarge = decide (scdRelocMaxBytes < s.length)

theorem Adjoins.flagged {s' : ScdRelocStream} (adjoins : Adjoins s w) (flagged : Flagged s s') : Adjoins s' w := by
  constructor
  case memory => rw [flagged.memory, adjoins.memory]
  case place => rw [flagged.destination, flagged.length, adjoins.place]
  case pc => rw [flagged.pc]; exact adjoins.pc
  case source => rw [flagged.source]; exact adjoins.source
  case large => rw [flagged.tooLarge, flagged.length, adjoins.large]

theorem Adjoins.grow (adjoins : Adjoins s w) (served : w.Served) (ends : Event.Ends slack (.write w)) (order : BitVec 64) :
    (s.grow order w).Formed slack := by
  have narrow := ramBytes_le w.memory
  have place := adjoins.place
  have start := served.place
  have few := w.width.bytes_le
  have grown : u32 (s.length + w.width.bytes) = s.length + w.width.bytes := Nat.mod_eq_of_lt (by omega)
  have large := tooLarge_stores w.value w.width adjoins.large w.width.bytes (by omega)
  rcases stores w.value w.width s w.width.bytes with ⟨bytes, flag, reached, -⟩
  rw [reached] at large
  rw [ScdRelocStream.grow, reached, grown]
  constructor
  case written => exact Nat.add_pos_right _ w.width.bytes_pos
  case starts =>
    change s.destination < ramBytes s.memory
    rw [adjoins.memory]
    omega
  case ends =>
    change s.destination + (s.length + w.width.bytes) ≤ ramBytes s.memory + slack
    rw [adjoins.memory, ← Nat.add_assoc, place]
    exact ends
  case pc => exact adjoins.pc
  case source => exact adjoins.source
  case large => exact large

theorem Adjoins.extend (adjoins : Adjoins s w) (served : w.Served) (ends : Event.Ends slack (.write w)) (instant : ℕ)
    (r : ScdReloc) : (r.extend instant w s).Formed slack := by
  have flagged := ((follow_flagged s (r.pending w.cpu) (decide ((r.pending w.cpu).Pairs instant w)) w.width).trans
    (drop_flagged _ w.dropped)).trans (sample_flagged _ (r.deviceReads w.cpu))
  exact (adjoins.flagged flagged).grow served ends _

theorem Formed.clobber (formed : s.Formed slack) : s.clobber.Formed slack :=
  ⟨formed.written, formed.starts, formed.ends, formed.pc, formed.source, formed.large⟩

/-! ## The table -/

structure Tabled (slack : ℕ) (r : ScdReloc) : Prop where
  streams : ∀ i, (r.streams i).used = true → (r.streams i).Formed slack
  pending : ∀ cpu, (r.pending cpu).address < 2 ^ 32

theorem Tabled.opened (tabled : Tabled slack r) (served : w.Served) (instant : ℕ) : Adjoins (r.opened instant w) w := by
  have pending := tabled.pending w.cpu
  rw [ScdReloc.opened]
  split_ifs
  · exact ⟨rfl, rfl, served.pc, pending, rfl⟩
  · exact ⟨rfl, rfl, served.pc, Nat.two_pow_pos 32, rfl⟩

theorem Tabled.continued {i : ℕ} (tabled : Tabled slack r) (short : slack ≤ 3) (hit : r.target w = some i) :
    Adjoins (r.streams i) w := by
  rcases target_continued hit with ⟨used, -, memory, -, place⟩
  have formed := tabled.streams i used
  have ends := formed.ends
  have narrow := ramBytes_le (r.streams i).memory
  rw [u32, Nat.mod_eq_of_lt (by omega)] at place
  exact ⟨memory, place, formed.pc, formed.source, formed.large⟩

theorem Tabled.clobberOthers (tabled : Tabled slack r) (w : BusWrite) {i : ℕ}
    (used : (r.clobberOthers w i).used = true) : (r.clobberOthers w i).Formed slack := by
  rw [ScdReloc.clobberOthers] at *
  split_ifs at *
  · exact Formed.clobber (tabled.streams i used)
  · exact tabled.streams i used

theorem Tabled.write (tabled : Tabled slack r) (short : slack ≤ 3) (served : w.Served)
    (ends : Event.Ends slack (.write w)) (instant : ℕ) : Tabled slack (r.noteWrite instant w) := by
  constructor
  · intro i used
    rcases noteWrite_streams r instant w i with other | ⟨hit, on⟩ | ⟨-, fresh⟩
    · rw [other] at used ⊢
      exact tabled.clobberOthers w used
    · rw [on]
      exact (tabled.continued short hit).extend served ends instant r
    · rw [fresh]
      exact (tabled.opened served instant).extend served ends instant r
  · intro cpu
    have same : (r.noteWrite instant w).pending = r.pending := by
      rw [ScdReloc.noteWrite]
      cases r.target w <;> rfl
    rw [same]
    exact tabled.pending cpu

theorem Tabled.read (tabled : Tabled slack r) (instant : ℕ) (b : BusRead) : Tabled slack (r.noteRead instant b) := by
  constructor
  · exact tabled.streams
  · intro cpu
    have fresh : b.normal < 2 ^ 32 := b.normal_lt.trans (by decide)
    change (Function.update r.pending b.cpu ((r.pending b.cpu).note instant b) cpu).address < 2 ^ 32
    by_cases same : cpu = b.cpu
    · subst same
      have before := tabled.pending b.cpu
      rw [Function.update_self, ScdRelocRead.note]
      split_ifs
      · exact before
      · exact before
      · exact fresh
    · rw [Function.update_of_ne same]
      exact tabled.pending cpu

theorem Tabled.foreign (tabled : Tabled slack r) (memory : StreamMemory) (offset length : ℕ) :
    Tabled slack (r.noteForeign memory offset length) := by
  constructor
  · intro i used
    simp only [ScdReloc.noteForeign] at *
    split_ifs at *
    · exact Formed.clobber (tabled.streams i used)
    · exact tabled.streams i used
  · exact tabled.pending

/-- Neither counter is ahead of the writes that were noted. -/
structure Counted (n : ℕ) (r : ScdReloc) : Prop where
  writes : r.writes.toNat ≤ n
  evicted : r.evicted.toNat ≤ n

theorem toNat_succ_le {n : ℕ} {x : BitVec 64} (le : x.toNat ≤ n) : (x + 1).toNat ≤ n + 1 := by
  rw [BitVec.toNat_add]
  exact (Nat.mod_le _ _).trans (Nat.add_le_add_right le 1)

theorem Counted.write {n : ℕ} (counted : Counted n r) (instant : ℕ) (w : BusWrite) :
    Counted (n + 1) (r.noteWrite instant w) := by
  have evicted := Nat.le_succ_of_le counted.evicted
  rw [ScdReloc.noteWrite]
  cases r.target w with
  | none =>
    constructor
    · exact toNat_succ_le counted.writes
    · change (if (freeSlot (r.clobberOthers w)).2 = true then r.evicted + 1 else r.evicted).toNat ≤ n + 1
      split_ifs
      · exact toNat_succ_le counted.evicted
      · exact evicted
  | some i => exact ⟨toNat_succ_le counted.writes, evicted⟩

/-! ## Runs -/

theorem observe_append (retired : Cpu → ℕ) (events : List Event) (e : Event) :
    observe retired (events ++ [e]) = (observe retired events).step e := List.foldl_append

theorem Tabled.step (tabled : Tabled slack o.reloc) (short : slack ≤ 3) {e : Event} (served : e.Served)
    (ends : e.Ends slack) : Tabled slack (o.step e).reloc := by
  cases e with
  | read b => exact tabled.read _ b
  | write w => exact tabled.write short served ends _
  | foreign memory offset length => exact tabled.foreign memory offset length
  | retire cpu => exact tabled

theorem tabled_observe (short : slack ≤ 3) (served : ∀ e ∈ events, e.Served) (ends : ∀ e ∈ events, e.Ends slack) :
    Tabled slack (observe retired events).reloc := by
  induction events using List.reverseRecOn with
  | nil => exact ⟨fun i used => Bool.noConfusion used, fun cpu => Nat.two_pow_pos 32⟩
  | append_singleton events e ih =>
    rw [List.forall_mem_append, List.forall_mem_singleton] at served ends
    rw [observe_append]
    exact (ih served.1 ends.1).step short served.2 ends.2

theorem counted_observe (retired : Cpu → ℕ) (events : List Event) :
    Counted (events.countP Event.isWrite) (observe retired events).reloc := by
  induction events using List.reverseRecOn with
  | nil => exact ⟨Nat.le_refl _, Nat.le_refl _⟩
  | append_singleton events e ih =>
    rw [observe_append, List.countP_append]
    cases e with
    | write w => exact ih.write _ w
    | read b => exact ⟨ih.writes, ih.evicted⟩
    | foreign memory offset length => exact ⟨ih.writes, ih.evicted⟩
    | retire cpu => exact ⟨ih.writes, ih.evicted⟩

theorem Tabled.recorded (tabled : Tabled slack r) : ∀ s ∈ r.recorded, s.Formed slack := by
  intro s member
  rcases List.mem_filter.mp member with ⟨present, used⟩
  rcases List.mem_map.mp present with ⟨i, -, rfl⟩
  exact tabled.streams i used

theorem readable_observe (served : ∀ e ∈ events, e.Served) (ends : ∀ e ∈ events, e.Ends 0)
    (few : events.countP Event.isWrite < 2 ^ 32) : (observe retired events).reloc.Readable := by
  have counted := counted_observe retired events
  constructor
  · exact counted.writes.trans_lt few
  · exact counted.evicted.trans_lt few
  · exact fun s member => ((tabled_observe (Nat.zero_le 3) served ends).recorded s member).ends

/-- A capture gives the recorded streams back exactly when both counters fit 32 bits and no stream runs over the
end of its RAM, and so after every run of fewer than `2 ^ 32` writes that each end within the RAM. -/
theorem streams_read_back (retired : Cpu → ℕ) (events : List Event) (served : ∀ e ∈ events, e.Served) (c : Capture)
    (identity : c.passIdentity.all isDigit = true) :
    (parseStreamEvidence (scdCapture c (observe retired events).reloc) = some (observe retired events).reloc.evidence ↔
      (observe retired events).reloc.Readable) ∧
    ((∀ e ∈ events, e.Ends 0) → events.countP Event.isWrite < 2 ^ 32 →
      parseStreamEvidence (scdCapture c (observe retired events).reloc) =
        some (observe retired events).reloc.evidence) := by
  have tabled : Tabled 3 (observe retired events).reloc := tabled_observe le_rfl served fun e is => (served e is).ends
  have read := parse_scdCapture identity tabled.recorded
  constructor
  · rw [read]
    constructor
    · intro back
      by_contra unreadable
      rw [if_neg unreadable] at back
      cases back
    · exact fun readable => if_pos readable
  · intro ends few
    rw [read, if_pos (readable_observe served ends few)]

def stopCapture : Capture :=
  { passIdentity := "5e6a".toList, cpu := .main, pc := 0xFF1000, bytes := [0x4E, 0x71, 0x4E, 0x71, 0x4E, 0x71, 0x4E, 0x71],
    run := none, region := some ⟨0xFF0000, 0x10000, 0, 0, [(16, 2)]⟩ }

/-- A long write to the last word of work RAM, whose second half wraps to the first word. -/
def lastWord : Event := .write ⟨.main, 0xFEFFFE, .long, 0x12345678, 0xFF0200, .work, 0xFFFE, false⟩

theorem lastWord_refused : lastWord.Served ∧
    parseStreamEvidence (scdCapture stopCapture (observe unretired [lastWord]).reloc) = none := by
  constructor
  · exact ⟨by decide, by decide⟩
  · decide +kernel

theorem streams_read_back_twoWords :
    parseStreamEvidence (scdCapture stopCapture (observe unretired (twoWords 0x2000)).reloc) =
      some (observe unretired (twoWords 0x2000)).reloc.evidence := by
  have served : ∀ e ∈ twoWords 0x2000, e.Served := by
    simp only [twoWords, List.forall_mem_cons, List.not_mem_nil, false_imp_iff, implies_true, and_true]
    exact ⟨trivial, ⟨by decide, by decide⟩, trivial, trivial, ⟨by decide, by decide⟩⟩
  have ends : ∀ e ∈ twoWords 0x2000, e.Ends 0 := by
    simp only [twoWords, List.forall_mem_cons, List.not_mem_nil, false_imp_iff, implies_true, and_true]
    exact ⟨trivial, by unfold Event.Ends; decide, trivial, trivial, by unfold Event.Ends; decide⟩
  exact (streams_read_back unretired (twoWords 0x2000) served stopCapture (by decide)).2 ends (by decide)

end Segarecomp.SegaCd.Reloc

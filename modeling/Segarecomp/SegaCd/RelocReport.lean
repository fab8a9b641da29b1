import Segarecomp.SegaCd.RelocEvidence
import Segarecomp.SegaCd.RelocText

/-! The driver's reader takes back what the observer puts out, as long as both counters have 32 bits and no
stream runs over the end of its RAM. -/

namespace Segarecomp.SegaCd.Reloc

open Lib.Cursor Lib.HexText

variable {n room : ℕ} {rest next head : Text} {literal : String} {first : Bool} {s : ScdRelocStream} {r : ScdReloc}
  {streams : List ScdRelocStream}

/-! ## One field -/

theorem numberAt_append (fits : n ≤ 0xFFFFFFFF) (comma : next.head? = some ',') :
    numberAt literal (literal.toList ++ (unsigned n ++ (next ++ rest))) = some (n, next ++ rest) := by
  rw [numberAt, bind_some (expect_append _ _)]
  exact decimal_append fits (not_startsDigit_append comma)

theorem numberAt_refuses (large : 0xFFFFFFFF < n) (comma : next.head? = some ',') :
    numberAt literal (literal.toList ++ (unsigned n ++ (next ++ rest))) = none := by
  rw [numberAt, bind_some (expect_append _ _)]
  exact (decimal_toDigits n (not_startsDigit_append comma)).trans (if_pos large)

theorem flagAt_append (b : Bool) (comma : next.head? = some ',') :
    flagAt literal (literal.toList ++ (unsigned b.toNat ++ (next ++ rest))) = some (b, next ++ rest) := by
  have small : b.toNat ≤ 1 := b.toNat_le
  have digit : number (unsigned b.toNat ++ (next ++ rest)) = some (b.toNat, next ++ rest) :=
    decimal_append (small.trans (by decide)) (not_startsDigit_append comma)
  rw [flagAt, bind_some (expect_append _ _), flag, bind_some digit, bind_some (require_pos small)]
  cases b <;> rfl

theorem memoryName_append (memory : StreamMemory) (rest : Text) :
    memoryName (scdRelocMemoryName memory ++ rest) = some (decide (memory = .work), rest) := by
  cases memory with
  | prg =>
    have other : ¬"work".toList <+: "prg".toList ++ rest := by
      rintro ⟨more, same⟩
      have letters : ("work".toList ++ more).head? = ("prg".toList ++ rest).head? := by rw [same]
      have work : "work".toList.head? = some 'w' := by simp
      have prg : "prg".toList.head? = some 'p' := by simp
      rw [List.head?_append, List.head?_append, work, prg, Option.some_or, Option.some_or] at letters
      exact absurd letters (by decide)
    rw [memoryName, scdRelocMemoryName, if_neg other, if_pos (List.prefix_append _ _)]
    have left : ("prg".toList ++ rest).drop "prg".toList.length = rest := List.drop_left
    exact congrArg some (Prod.ext rfl left)
  | work =>
    rw [memoryName, scdRelocMemoryName, if_pos (List.prefix_append _ _)]
    have left : ("work".toList ++ rest).drop "work".toList.length = rest := List.drop_left
    exact congrArg some (Prod.ext rfl left)

/-! ## One stream -/

def ramBytes : StreamMemory → ℕ
  | .work => kWorkBytes
  | .prg => kPrgBytes

/-- The recorded stream as the driver knows it. -/
def ScdRelocStream.evidence (s : ScdRelocStream) : WriteStream :=
  { writerCpu := cpuNumber s.writerCpu, workRam := decide (s.memory = .work), destination := s.destination,
    length := s.length, pc := s.pc, paired := !s.unpaired, source := s.source, sourceClass := s.sourceClass.number,
    sourceGap := s.sourceGap, clobbered := s.clobbered, dropped := s.dropped, tooLarge := s.tooLarge,
    volatileInput := s.volatileInput, bytes := s.kept }

/-- The stream ends within its RAM. -/
def ScdRelocStream.Inside (s : ScdRelocStream) : Prop := s.destination + s.length ≤ ramBytes s.memory

instance (s : ScdRelocStream) : Decidable s.Inside := inferInstanceAs (Decidable (_ ≤ _))

/-- What holds of every recorded stream, whose last write may run over the end of the RAM by `slack` bytes. -/
structure ScdRelocStream.Formed (slack : ℕ) (s : ScdRelocStream) : Prop where
  written : 0 < s.length
  starts : s.destination < ramBytes s.memory
  ends : s.destination + s.length ≤ ramBytes s.memory + slack
  pc : s.pc < 2 ^ 32
  source : s.source < 2 ^ 32
  large : s.tooLarge = decide (scdRelocMaxBytes < s.length)

theorem ram_evidence (s : ScdRelocStream) : s.evidence.ram = ramBytes s.memory := by
  rw [WriteStream.ram, ScdRelocStream.evidence]
  cases s.memory <;> rfl

theorem ramBytes_le (memory : StreamMemory) : ramBytes memory ≤ 0x80000 := by cases memory <;> decide

theorem length_kept (s : ScdRelocStream) : s.kept.length = min s.length scdRelocMaxBytes := by
  rw [ScdRelocStream.kept, List.length_map, List.length_range]

theorem accepted_iff (formed : s.Formed 3) : s.evidence.Accepted (writeBytes s.kept).length ↔ s.Inside := by
  constructor
  · intro accepted
    have ends := accepted.2.2.1
    rw [ram_evidence] at ends
    exact ends
  · intro inside
    have digits : (writeBytes s.kept).length = min s.length scdRelocMaxBytes * 2 := by
      rw [length_writeBytes, length_kept]
    have class_le : s.sourceClass.number ≤ 5 := by cases s.sourceClass <;> decide
    rw [WriteStream.Accepted, ram_evidence]
    exact ⟨formed.written.ne', formed.starts, inside, digits, formed.large, class_le⟩

theorem readItem_text (formed : s.Formed 3) (rest : Text) :
    readItem (s.text ++ rest) = if s.Inside then some (s.evidence, rest) else none := by
  have narrow := ramBytes_le s.memory
  have ends := formed.ends
  have cpu : cpuNumber s.writerCpu ≤ 1 := by cases s.writerCpu <;> decide
  have destination : s.destination ≤ 0xFFFFFFFF := by omega
  have length : s.length ≤ 0xFFFFFFFF := by omega
  have pc : s.pc ≤ 0xFFFFFFFF := Nat.le_of_lt_succ formed.pc
  have source : s.source ≤ 0xFFFFFFFF := Nat.le_of_lt_succ formed.source
  have class_le : s.sourceClass.number ≤ 0xFFFFFFFF := by cases s.sourceClass <;> decide
  have hex : run isDigit (writeBytes s.kept ++ ("\"\x7d".toList ++ rest)) =
      some (writeBytes s.kept, "\"\x7d".toList ++ rest) := by
    apply run_append
    · exact fun c member => isDigit_of_mem_writeBytes member
    · intro c first
      have quote : "\"\x7d".toList.head? = some '"' := by simp
      rw [List.head?_append, quote, Option.some_or] at first
      rw [← Option.some.inj first]
      decide
  unfold ScdRelocStream.text
  rw [readItem]
  simp only [List.append_assoc]
  rw [bind_some (numberAt_append (cpu.trans (by decide)) ?_), bind_some (require_pos cpu), bind_some (expect_append _ _),
    bind_some (memoryName_append _ _), bind_some (numberAt_append destination ?_),
    bind_some (numberAt_append length ?_), bind_some (numberAt_append pc ?_), bind_some (flagAt_append _ ?_),
    bind_some (numberAt_append source ?_), bind_some (numberAt_append class_le ?_), bind_some (flagAt_append _ ?_),
    bind_some (flagAt_append _ ?_), bind_some (flagAt_append _ ?_), bind_some (flagAt_append _ ?_),
    bind_some (flagAt_append _ ?_), bind_some (expect_append _ _), bind_some hex, bind_some (expect_append _ _),
    readBytes_writeBytes]
  · by_cases inside : s.Inside
    · rw [if_pos inside]
      exact bind_some (require_pos ((accepted_iff formed).mpr inside))
    · rw [if_neg inside]
      exact bind_none (require_neg fun accepted => inside ((accepted_iff formed).mp accepted))
  all_goals simp

/-! ## The table -/

theorem text_head (s : ScdRelocStream) : s.text.head? = some '\x7b' := by
  have brace : "\x7b\"writer_cpu\":".toList.head? = some '\x7b' := by simp
  unfold ScdRelocStream.text
  simp only [List.append_assoc]
  rw [List.head?_append, brace, Option.some_or]

theorem readItems_end (rest : Text) : readItems room first (']' :: rest) = some ([], ']' :: rest) := by
  unfold readItems
  exact if_pos rfl

theorem readItems_text (first : Bool) (s : ScdRelocStream) (rest : Text) :
    readItems (room + 1) first ((if first then [] else [',']) ++ (s.text ++ rest)) =
      (do
        let s ← readItem
        let items ← readItems room false
        return s :: items : Reader (List WriteStream)) (s.text ++ rest) := by
  have more : ((if first = true then [] else [',']) ++ (s.text ++ rest)).head? ≠ some ']' := by
    cases first with
    | false => exact fun other => absurd (Option.some.inj other) (by decide)
    | true =>
      rw [if_pos rfl, List.nil_append, List.head?_append, text_head, Option.some_or]
      exact fun other => absurd (Option.some.inj other) (by decide)
  rw [readItems, if_neg more]
  exact bind_some (expect_append _ _)

theorem readItems_itemsText (formed : ∀ s ∈ streams, s.Formed 3) (fits : streams.length ≤ room) (first : Bool)
    (rest : Text) : readItems room first (itemsText first streams ++ ']' :: rest) =
      if ∀ s ∈ streams, s.Inside then some (streams.map ScdRelocStream.evidence, ']' :: rest) else none := by
  induction streams generalizing room first with
  | nil => exact (readItems_end rest).trans (if_pos fun s none => absurd none List.not_mem_nil).symm
  | cons s streams ih =>
    cases room with
    | zero => exact absurd fits (Nat.not_succ_le_zero _)
    | succ room =>
      have later := ih (fun s member => formed s (List.mem_cons_of_mem _ member)) (Nat.le_of_succ_le_succ fits) false
      have item := readItem_text (formed s List.mem_cons_self) (itemsText false streams ++ ']' :: rest)
      rw [itemsText, List.append_assoc, List.append_assoc, readItems_text]
      by_cases inside : s.Inside
      · rw [if_pos inside] at item
        rw [bind_some item]
        by_cases others : ∀ s ∈ streams, s.Inside
        · rw [if_pos others] at later
          rw [bind_some later, if_pos (List.forall_mem_cons.mpr ⟨inside, others⟩)]
          rfl
        · rw [if_neg others] at later
          rw [bind_none later, if_neg fun all => others (List.forall_mem_cons.mp all).2]
      · rw [if_neg inside] at item
        rw [bind_none item, if_neg fun all => inside (List.forall_mem_cons.mp all).1]

/-- Both counters fit the driver's numbers, and every stream ends within its RAM. -/
structure ScdReloc.Readable (r : ScdReloc) : Prop where
  writes : r.writes.toNat < 2 ^ 32
  evicted : r.evicted.toNat < 2 ^ 32
  inside : ∀ s ∈ r.recorded, s.Inside

instance (r : ScdReloc) : Decidable r.Readable :=
  decidable_of_iff (r.writes.toNat < 2 ^ 32 ∧ r.evicted.toNat < 2 ^ 32 ∧ ∀ s ∈ r.recorded, s.Inside)
    ⟨fun all => ⟨all.1, all.2.1, all.2.2⟩, fun readable => ⟨readable.writes, readable.evicted, readable.inside⟩⟩

/-- What the driver knows of the recorded streams, in the order of their slots. -/
def ScdReloc.evidence (r : ScdReloc) : StreamEvidence :=
  { present := true, evicted := r.evicted.toNat, items := r.recorded.map ScdRelocStream.evidence }

theorem length_recorded (r : ScdReloc) : r.recorded.length ≤ kMaxStreams :=
  (List.length_filter_le _ _).trans (by rw [List.length_map]; decide)

/-- The report behind its first literal. -/
def ScdReloc.tableText (r : ScdReloc) : Text :=
  unsigned scdRelocStreams ++
  (",\"max_bytes\":".toList ++ (unsigned scdRelocMaxBytes ++
  (",\"writes\":".toList ++ (unsigned r.writes.toNat ++
  (",\"evicted\":".toList ++ (unsigned r.evicted.toNat ++
  (",\"items\":[".toList ++ (itemsText true r.recorded ++ "]\x7d".toList))))))))

theorem readStreams_text (formed : ∀ s ∈ r.recorded, s.Formed 3) (rest : Text) :
    readStreams ("\"streams\":\x7b\"version\":1,\"slots\":".toList ++ (r.tableText ++ rest)) =
      if r.Readable then some (r.evidence, rest) else none := by
  have close : "]\x7d".toList = [']', '\x7d'] := by simp
  have items := readItems_itemsText formed (length_recorded r) true ('\x7d' :: rest)
  unfold ScdReloc.tableText
  rw [readStreams]
  simp only [List.append_assoc]
  rw [bind_some (numberAt_append (by decide) ?_), bind_some (require_pos (by decide)),
    bind_some (numberAt_append (by decide) ?_), bind_some (require_pos (by decide))]
  · by_cases writes : r.writes.toNat < 2 ^ 32
    · rw [bind_some (numberAt_append (Nat.le_of_lt_succ writes) ?_)]
      · by_cases evicted : r.evicted.toNat < 2 ^ 32
        · rw [bind_some (numberAt_append (Nat.le_of_lt_succ evicted) ?_), bind_some (expect_append _ _), close]
          · by_cases inside : ∀ s ∈ r.recorded, s.Inside
            · rw [if_pos inside] at items
              have bracket := expect_append [']', '\x7d'] rest
              rw [if_pos ⟨writes, evicted, inside⟩]
              exact (bind_some items).trans (bind_some bracket)
            · rw [if_neg inside] at items
              rw [if_neg fun readable => inside readable.inside]
              exact bind_none items
          · simp
        · rw [if_neg fun readable => evicted readable.evicted]
          exact bind_none (numberAt_refuses (Nat.le_of_not_lt evicted) (by simp))
      · simp
    · rw [if_neg fun readable => writes readable.writes]
      exact bind_none (numberAt_refuses (Nat.le_of_not_lt writes) (by simp))
  all_goals simp

/-! ## The capture -/

theorem clean_unsigned (n : ℕ) : 'm' ∉ unsigned n := by
  intro member
  exact absurd (Nat.isDigit_of_mem_toDigits (by decide) le_rfl member) (by decide)

theorem clean_writeBytes (bytes : List Byte) : 'm' ∉ writeBytes bytes := by
  intro member
  exact absurd (isDigit_of_mem_writeBytes member) (by decide)

theorem clean_deliveredText (first : Bool) (delivered : List (ℕ × ℕ)) : 'm' ∉ deliveredText first delivered := by
  induction delivered generalizing first with
  | nil => exact List.not_mem_nil
  | cons range delivered ih =>
    have comma : 'm' ∉ if first then [] else [','] := by cases first <;> decide
    simp only [deliveredText, List.mem_append, List.mem_cons, not_or]
    exact ⟨⟨⟨comma, by decide, clean_unsigned _⟩, by decide, clean_unsigned _⟩, by decide, ih false⟩

theorem clean_run (run : CaptureRun) : 'm' ∉ run.text := by
  unfold CaptureRun.text
  simp only [List.mem_append, not_or]
  have literals : 'm' ∉ ",\"run\":\x7b\"base\":".toList ∧ 'm' ∉ ",\"slots\":".toList ∧
      'm' ∉ ",\"bytes\":\"".toList ∧ 'm' ∉ "\"\x7d".toList := by simp
  exact ⟨⟨⟨⟨⟨⟨literals.1, clean_unsigned _⟩, literals.2.1⟩, clean_unsigned _⟩, literals.2.2.1⟩, clean_writeBytes _⟩,
    literals.2.2.2⟩

theorem clean_region (region : CaptureRegion) : 'm' ∉ region.text := by
  unfold CaptureRegion.text
  simp only [List.mem_append, not_or]
  have literals : 'm' ∉ ",\"region\":\x7b\"base\":".toList ∧ 'm' ∉ ",\"length\":".toList ∧
      'm' ∉ ",\"track1_first_lba\":".toList ∧ 'm' ∉ ",\"delivered_overflow\":".toList ∧
      'm' ∉ ",\"delivered\":[".toList ∧ 'm' ∉ "]\x7d".toList := by simp
  exact ⟨⟨⟨⟨⟨⟨⟨⟨⟨⟨literals.1, clean_unsigned _⟩, literals.2.1⟩, clean_unsigned _⟩, literals.2.2.1⟩, clean_unsigned _⟩,
    literals.2.2.2.1⟩, clean_unsigned _⟩, literals.2.2.2.2.1⟩, clean_deliveredText _ _⟩, literals.2.2.2.2.2⟩

theorem clean_head {c : Capture} (identity : c.passIdentity.all isDigit = true) : 'm' ∉ c.head := by
  have digest : 'm' ∉ c.passIdentity := fun member => absurd (List.all_eq_true.mp identity _ member) (by decide)
  have literals : 'm' ∉ "\x7b\"kind\":\"frontier\",\"pass_identity\":\"".toList ∧ 'm' ∉ "\",\"cpu\":".toList ∧
      'm' ∉ ",\"pc\":".toList ∧ 'm' ∉ ",\"bytes\":\"".toList ∧ 'm' ∉ "\"".toList := by simp
  unfold Capture.head
  simp only [List.mem_append, not_or]
  refine ⟨⟨⟨⟨⟨⟨⟨⟨⟨⟨literals.1, digest⟩, literals.2.1⟩, clean_unsigned _⟩, literals.2.2.1⟩, clean_unsigned _⟩,
    literals.2.2.2.1⟩, clean_writeBytes _⟩, literals.2.2.2.2⟩, ?_⟩, ?_⟩
  · cases c.run with
    | none => exact List.not_mem_nil
    | some run => exact clean_run run
  · cases c.region with
    | none => exact List.not_mem_nil
    | some region => exact clean_region region

theorem find_streams (clean : 'm' ∉ head) (rest : Text) :
    find "\"streams\":\x7b".toList (head ++ ("\"streams\":\x7b".toList ++ rest)) =
      some ("\"streams\":\x7b".toList ++ rest) := by
  have marker : "\"streams\":\x7b".toList = "\"strea".toList ++ 'm' :: "s\":\x7b".toList := by simp
  rw [marker]
  exact find_append (by simp) clean

theorem scdRelocReport_eq (r : ScdReloc) :
    scdRelocReport r = [','] ++ ("\"streams\":\x7b\"version\":1,\"slots\":".toList ++ r.tableText) := by
  have behind : ",\"streams\":\x7b\"version\":1,\"slots\":".toList =
      [','] ++ "\"streams\":\x7b\"version\":1,\"slots\":".toList := by simp
  unfold scdRelocReport
  simp only [List.append_assoc]
  rw [← List.append_assoc [',']]
  exact congrArg (· ++ r.tableText) behind

theorem parse_scdCapture {c : Capture} (identity : c.passIdentity.all isDigit = true)
    (formed : ∀ s ∈ r.recorded, s.Formed 3) :
    parseStreamEvidence (scdCapture c r) = if r.Readable then some r.evidence else none := by
  have clean : 'm' ∉ c.head ++ [','] := by
    rw [List.mem_append, not_or]
    exact ⟨clean_head identity, by decide⟩
  have starts : "\"streams\":\x7b\"version\":1,\"slots\":".toList =
      "\"streams\":\x7b".toList ++ "\"version\":1,\"slots\":".toList := by simp
  have text : scdCapture c r = (c.head ++ [',']) ++
      ("\"streams\":\x7b\"version\":1,\"slots\":".toList ++ (r.tableText ++ "\x7d\n".toList)) := by
    unfold scdCapture
    rw [scdRelocReport_eq]
    simp only [List.append_assoc]
  have found : find "\"streams\":\x7b".toList (scdCapture c r) =
      some ("\"streams\":\x7b\"version\":1,\"slots\":".toList ++ (r.tableText ++ "\x7d\n".toList)) := by
    have behind := find_streams clean ("\"version\":1,\"slots\":".toList ++ (r.tableText ++ "\x7d\n".toList))
    rw [← List.append_assoc "\"streams\":\x7b".toList, ← starts, ← text] at behind
    exact behind
  rw [parseStreamEvidence, found]
  change (readStreams _).map Prod.fst = _
  rw [readStreams_text formed]
  split_ifs <;> rfl

end Segarecomp.SegaCd.Reloc

import Segarecomp.SegaCd.FileFlow

/-! The structural closure is the largest closed flow. Its counts agree with its marks unless an instruction that
always raises an exception ends a flow: such an offset is counted twice. -/

namespace Segarecomp.SegaCd.FileCandidates

open Lib.Contagion Lib.CountingSort
open M68k.DirectFlow (Address Byte)
open M68k.StaticDiscovery (M68kDecodedInstruction)
open Relation (ReflTransGen)

variable {decode : List Byte → Address → ℕ → Option M68kDecodedInstruction} {options : StructuralOptions}
  {window : List Byte} {n i j : ℕ}

/-! ## The propagation -/

theorem mem_edges {edge : ℕ × ℕ} : edge ∈ edges decode options window n ↔
    edge.2 < n ∧ edge.1 ∈ (node decode options window n edge.2).deps := by
  rw [edges, List.mem_flatMap]
  constructor
  · rintro ⟨i, low, member⟩
    rcases List.mem_map.mp member with ⟨dep, needed, rfl⟩
    exact ⟨List.mem_range.mp low, needed⟩
  · rintro ⟨low, needed⟩
    exact ⟨edge.2, List.mem_range.mpr low, List.mem_map.mpr ⟨edge.1, needed, rfl⟩⟩

theorem mem_users : i ∈ users decode options window n j ↔ i < n ∧ j ∈ (node decode options window n i).deps := by
  have inside : ∀ edge ∈ edges decode options window n, edge.1 < n :=
    fun edge member => ((node_entry decode options window n edge.2).needed _ (mem_edges.mp member).2).inside
  rw [users, slice_eq inside j, bucket, List.mem_map]
  constructor
  · rintro ⟨edge, member, rfl⟩
    rcases List.mem_filter.mp member with ⟨present, same⟩
    rw [decide_eq_true_iff] at same
    exact same ▸ mem_edges.mp present
  · intro needed
    exact ⟨(j, i), List.mem_filter.mpr ⟨mem_edges.mpr needed, decide_eq_true rfl⟩, rfl⟩

theorem ownDefect_inside (low : i < n) : ownDefect decode options window n i = (node decode options window n i).defect := by
  rw [ownDefect, if_pos low]

theorem ownDefect_some {defect : Defect} (bad : ownDefect decode options window n i = some defect) :
    i < n ∧ Own decode options window n i defect := by
  rw [ownDefect] at bad
  split_ifs at bad with low
  exact ⟨low, (node_entry decode options window n i).own defect bad⟩

/-- The worklist never runs out of fuel: each index is queued once. -/
theorem defects_spec (i : ℕ) :
    (¬(defects decode options window n i).isSome ↔
      ∀ j, ReflTransGen (fun i j => i ∈ users decode options window n j) i j →
        ¬(ownDefect decode options window n j).isSome) ∧
      ∀ defect, defects decode options window n i = some defect →
        ∃ j, ReflTransGen (fun i j => i ∈ users decode options window n j) i j ∧
          ownDefect decode options window n j = some defect := by
  have inside : ∀ j, ∀ i ∈ users decode options window n j, i ∈ Finset.range n :=
    fun j i member => Finset.mem_range.mpr (mem_users.mp member).1
  have queue : ∀ j, j ∈ ((List.range n).filter fun i => (ownDefect decode options window n i).isSome).reverse ↔
      (ownDefect decode options window n j).isSome := by
    intro j
    rw [List.mem_reverse, List.mem_filter, List.mem_range]
    constructor
    · exact fun both => both.2
    · intro bad
      rcases Option.isSome_iff_exists.mp bad with ⟨defect, here⟩
      exact ⟨(ownDefect_some here).1, bad⟩
  have fuel : ((List.range n).filter fun i => (ownDefect decode options window n i).isSome).reverse.length +
      unmarked (Finset.range n) (ownDefect decode options window n) ≤ n := by
    have counted : ((List.range n).filter fun i => (ownDefect decode options window n i).isSome).length =
        ((Finset.range n).filter fun i => (ownDefect decode options window n i).isSome).card := by
      rw [← List.toFinset_card_of_nodup (List.nodup_range.filter _), List.toFinset_filter, List.toFinset_range]
    rw [List.length_reverse, counted, unmarked, Finset.card_filter_add_card_filter_not, Finset.card_range]
  exact spread_spec inside queue fuel i

/-! ## The largest closed flow -/

/-- Each member is an even offset of the file with an instruction and without a defect of its own, and its fixed
successors in the file are members. -/
structure ClosedFlow (decode : List Byte → Address → ℕ → Option M68kDecodedInstruction) (options : StructuralOptions)
    (window : List Byte) (n : ℕ) (S : Set ℕ) : Prop where
  inside : ∀ i ∈ S, i < n
  decoded : ∀ i ∈ S, ∃ s0 s1, Decodes decode window i s0 s1
  sound : ∀ i ∈ S, ∀ defect, ¬Own decode options window n i defect
  closed : ∀ i ∈ S, ∀ j, Successor decode window n i j → j ∈ S

def Flawed (decode : List Byte → Address → ℕ → Option M68kDecodedInstruction) (options : StructuralOptions)
    (window : List Byte) (n i : ℕ) : Prop := n ≤ i ∨ ∃ defect, Own decode options window n i defect

theorem closedFlow_iff {S : Set ℕ} : ClosedFlow decode options window n S ↔
    Supported (Flawed decode options window n) (Successor decode window n) S := by
  constructor
  · intro flow
    constructor
    · rintro i member (beyond | ⟨defect, own⟩)
      · exact absurd (flow.inside i member) (Nat.not_lt.mpr beyond)
      · exact flow.sound i member defect own
    · exact flow.closed
  · intro supported
    have sound : ∀ i ∈ S, ∀ defect, ¬Own decode options window n i defect :=
      fun i member defect own => supported.sound i member (Or.inr ⟨defect, own⟩)
    constructor
    case inside => exact fun i member => Nat.lt_of_not_le fun beyond => supported.sound i member (Or.inl beyond)
    case decoded =>
      intro i member
      by_contra none
      exact sound i member _ (Own.notDecoded fun s0 s1 decodes => none ⟨s0, s1, decodes⟩)
    case sound => exact sound
    case closed => exact supported.closed

theorem ownDefect_iff (low : i < n) : (ownDefect decode options window n i).isSome ↔
    Flawed decode options window n i := by
  have entry := node_entry decode options window n i
  rw [ownDefect_inside low, Flawed, or_iff_right (Nat.not_le.mpr low)]
  cases here : (node decode options window n i).defect with
  | none =>
    constructor
    · intro marked
      cases marked
    · rintro ⟨defect, own⟩
      exact absurd own (entry.sound here defect)
  | some defect =>
    constructor
    · exact fun _ => ⟨defect, entry.own defect here⟩
    · exact fun _ => rfl

theorem path_inside (low : i < n) (path : ReflTransGen (fun i j => i ∈ users decode options window n j) i j) : j < n := by
  induction path with
  | refl => exact low
  | tail _ edge _ => exact ((node_entry decode options window n _).needed _ (mem_users.mp edge).2).inside

theorem successor_of_users (edge : i ∈ users decode options window n j) : Successor decode window n i j :=
  (node_entry decode options window n i).needed j (mem_users.mp edge).2

theorem defects_none_iff (low : i < n) : defects decode options window n i = none ↔
    ∀ j, ReflTransGen (Successor decode window n) i j → ¬Flawed decode options window n j := by
  have kept : ∀ i, ¬Flawed decode options window n i → ∀ j, Successor decode window n i j →
      i ∈ users decode options window n j := by
    intro i fine j successor
    rw [Flawed, not_or, Nat.not_le, not_exists] at fine
    have entry := node_entry decode options window n i
    have none : (node decode options window n i).defect = none := by
      by_contra bad
      rcases Option.ne_none_iff_exists'.mp bad with ⟨defect, here⟩
      exact fine.2 defect (entry.own defect here)
    exact mem_users.mpr ⟨fine.1, entry.needs none j successor⟩
  rw [← unflawed_congr (fun i j => successor_of_users) kept i, ← Option.isNone_iff_eq_none, ← Option.not_isSome,
    Bool.not_eq_true', Bool.eq_false_iff, ne_eq, (defects_spec i).1]
  constructor
  · exact fun unmarked j path flawed => unmarked j path ((ownDefect_iff (path_inside low path)).mpr flawed)
  · exact fun unflawed j path marked => unflawed j path ((ownDefect_iff (path_inside low path)).mp marked)

theorem defects_some {defect : Defect} (found : defects decode options window n i = some defect) :
    ∃ j, ReflTransGen (Successor decode window n) i j ∧ Own decode options window n j defect := by
  rcases (defects_spec i).2 defect found with ⟨j, path, own⟩
  exact ⟨j, ReflTransGen.mono (fun _ _ => successor_of_users) i j path, (ownDefect_some own).2⟩

/-! ## The counts -/

theorem sum_eq_count_iff (l : List Node) (counted : ∀ entry ∈ l, entry.decoded.toNat ≤ entry.decodable) :
    (l.map Node.decodable).sum = (l.map Node.decoded).count true ↔
      ∀ entry ∈ l, entry.decodable = entry.decoded.toNat := by
  have general : (l.map Node.decoded).count true ≤ (l.map Node.decodable).sum ∧
      ((l.map Node.decodable).sum = (l.map Node.decoded).count true ↔
        ∀ entry ∈ l, entry.decodable = entry.decoded.toNat) := by
    induction l with
    | nil => exact ⟨le_rfl, fun _ entry none => absurd none List.not_mem_nil, fun _ => rfl⟩
    | cons entry l ih =>
      rcases ih fun other member => counted other (List.mem_cons_of_mem _ member) with ⟨low, exact_iff⟩
      have here := counted entry List.mem_cons_self
      have one : (if (entry.decoded == true) = true then 1 else 0) = entry.decoded.toNat := by
        cases entry.decoded <;> rfl
      rw [List.map_cons, List.map_cons, List.sum_cons, List.count_cons, one, List.forall_mem_cons, ← exact_iff]
      constructor
      · omega
      · constructor
        · exact fun same => ⟨by omega, by omega⟩
        · exact fun both => by omega
  exact general.2

/-- What the closure is for: the valid offsets are the largest closed flow, an invalid one reports a defect of its own or
of one that its successors lead to, and the counts are those of the marks. -/
structure Exact (decode : List Byte → Address → ℕ → Option M68kDecodedInstruction) (options : StructuralOptions)
    (bytes : List Byte) (out : StructuralClosure) : Prop where
  sizes : out.valid.length = bytes.length / 2 ∧ out.decoded.length = bytes.length / 2 ∧
    out.defect.length = bytes.length / 2 ∧ out.evenOffsets = bytes.length / 2
  greatest : IsGreatest {S | ClosedFlow decode options (bytes.take (bytes.length / 2 * 2)) (bytes.length / 2) S}
    {i | out.valid[i]? = some true}
  decoded : ∀ i < bytes.length / 2, out.decoded[i]? = some true ↔
    ∃ s0 s1, Decodes decode (bytes.take (bytes.length / 2 * 2)) i s0 s1
  defect : ∀ i < bytes.length / 2, out.valid[i]? = some false → ∃ defect j, out.defect[i]? = some (some defect) ∧
    Relation.ReflTransGen (Successor decode (bytes.take (bytes.length / 2 * 2)) (bytes.length / 2)) i j ∧
    Own decode options (bytes.take (bytes.length / 2 * 2)) (bytes.length / 2) j defect
  sound : ∀ i : ℕ, out.valid[i]? = some true → out.defect[i]? = some none
  decodable : out.decodable = out.decoded.count true
  valid : out.validOffsets = out.valid.count true

theorem getElem?_range_map {β : Type} (f : ℕ → β) : ((List.range n).map f)[i]? = if i < n then some (f i) else none := by
  rw [List.getElem?_map]
  by_cases low : i < n
  · rw [if_pos low, List.getElem?_range low]
    rfl
  · rw [if_neg low, List.getElem?_eq_none (by rw [List.length_range]; omega)]
    rfl

theorem structuralClosure_eq {bytes : List Byte} (small : bytes.length < 2 ^ 32) (count : bytes.length / 2 = n) :
    structuralClosure decode bytes options =
      { valid := (List.range n).map fun i => (defects decode options (bytes.take (n * 2)) n i).isNone
        decoded := ((List.range n).map (node decode options (bytes.take (n * 2)) n)).map Node.decoded
        defect := (List.range n).map (defects decode options (bytes.take (n * 2)) n)
        evenOffsets := n
        decodable := (((List.range n).map (node decode options (bytes.take (n * 2)) n)).map Node.decodable).sum
        validOffsets := ((List.range n).map fun i =>
          (defects decode options (bytes.take (n * 2)) n i).isNone).count true } := by
  have index : bytes.length / 2 % 2 ^ 32 = n := by
    rw [count]
    apply Nat.mod_eq_of_lt
    omega
  rw [structuralClosure, index, List.map_map]
  rfl

/-- Everything but the count of the decoded offsets holds of every file. -/
theorem structuralClosure_exact_iff_count {bytes : List Byte} (small : bytes.length < 2 ^ 32) :
    Exact decode options bytes (structuralClosure decode bytes options) ↔
      (structuralClosure decode bytes options).decodable = (structuralClosure decode bytes options).decoded.count true := by
  constructor
  · exact fun whole => whole.decodable
  · intro counted
    generalize count : bytes.length / 2 = n
    have closure : structuralClosure decode bytes options = _ := structuralClosure_eq small count
    have valid_iff : ∀ i, (structuralClosure decode bytes options).valid[i]? = some true ↔
        ∀ j, ReflTransGen (Successor decode (bytes.take (n * 2)) n) i j → ¬Flawed decode options (bytes.take (n * 2)) n j := by
      intro i
      rw [closure, getElem?_range_map]
      by_cases low : i < n
      · rw [if_pos low, ← defects_none_iff low, Option.some.injEq, Option.isNone_iff_eq_none]
      · rw [if_neg low]
        constructor
        · intro none
          cases none
        · exact fun unflawed => absurd (Or.inl (Nat.not_lt.mp low)) (unflawed i ReflTransGen.refl)
    constructor
    case sizes =>
      rw [closure, count]
      simp only [List.length_map, List.length_range, and_self]
    case greatest =>
      have closed : {S | ClosedFlow decode options (bytes.take (n * 2)) n S} =
          {S | Supported (Flawed decode options (bytes.take (n * 2)) n) (Successor decode (bytes.take (n * 2)) n) S} :=
        Set.ext fun S => closedFlow_iff
      have valid : {i | (structuralClosure decode bytes options).valid[i]? = some true} =
          {i | ∀ j, ReflTransGen (Successor decode (bytes.take (n * 2)) n) i j →
            ¬Flawed decode options (bytes.take (n * 2)) n j} := Set.ext valid_iff
      rw [count, closed, valid]
      exact isGreatest_supported
    case decoded =>
      intro i low
      rw [count] at low ⊢
      rw [closure, List.map_map, getElem?_range_map, if_pos low, Option.some.injEq]
      exact (node_entry decode options (bytes.take (n * 2)) n i).decoded
    case defect =>
      intro i low invalid
      rw [count] at low ⊢
      rw [closure, getElem?_range_map, if_pos low, Option.some.injEq, Option.isNone_eq_false_iff] at invalid
      rcases Option.isSome_iff_exists.mp invalid with ⟨defect, found⟩
      rcases defects_some found with ⟨j, path, own⟩
      refine ⟨defect, j, ?_, path, own⟩
      rw [closure, getElem?_range_map, if_pos low, found]
    case sound =>
      intro i valid
      rw [closure, getElem?_range_map] at valid ⊢
      split_ifs at valid ⊢ with low
      rw [Option.isNone_iff_eq_none.mp (Option.some.inj valid)]
    case decodable => exact counted
    case valid =>
      rw [closure]

theorem structuralClosure_exact_iff {bytes : List Byte} (small : bytes.length < 2 ^ 32) :
    Exact decode options bytes (structuralClosure decode bytes options) ↔
      (options.faultsAreTerminators = true →
        ∀ i < bytes.length / 2, ¬Raises decode (bytes.take (bytes.length / 2 * 2)) i) := by
  rw [structuralClosure_exact_iff_count small]
  generalize count : bytes.length / 2 = n
  have entry := node_entry decode options (bytes.take (n * 2)) n
  rw [structuralClosure_eq small count, sum_eq_count_iff]
  · constructor
    · intro once lax i low raises
      have single := once _ (List.mem_map_of_mem (List.mem_range.mpr low))
      exact (entry i).once.mp single ⟨lax, raises⟩
    · intro none node member
      rcases List.mem_map.mp member with ⟨i, low, rfl⟩
      exact (entry i).once.mpr fun both => none both.1 i (List.mem_range.mp low) both.2
  · intro node member
    rcases List.mem_map.mp member with ⟨i, -, rfl⟩
    exact (entry i).counted

/-- The decoder on the word of `ILLEGAL`; no other word occurs below. -/
def decodeIllegal (window : List Byte) (address : Address) (offset : ℕ) : Option M68kDecodedInstruction :=
  if (window.drop offset).take 2 = [0x4A, 0xFC] then
    some
      { kind := .instructionException
        provenance := { address := address, imageOffset := offset, bytes := (0x4A, 0xFC), length := 2 } }
  else none

theorem structuralClosure_exact_illegal :
    Exact decodeIllegal {} [0x4A, 0xFC] (structuralClosure decodeIllegal [0x4A, 0xFC] {}) :=
  (structuralClosure_exact_iff (by decide)).mpr fun lax => by cases lax

/-- One even offset, one mark, and a count of two. -/
theorem illegal_counted_twice :
    structuralClosure decodeIllegal [0x4A, 0xFC] { faultsAreTerminators := true } =
      { valid := [true], decoded := [true], defect := [none], evenOffsets := 1, decodable := 2, validOffsets := 1 } ∧
    ¬Exact decodeIllegal { faultsAreTerminators := true } [0x4A, 0xFC]
      (structuralClosure decodeIllegal [0x4A, 0xFC] { faultsAreTerminators := true }) := by
  have closure : structuralClosure decodeIllegal [0x4A, 0xFC] { faultsAreTerminators := true } =
      { valid := [true], decoded := [true], defect := [none], evenOffsets := 1, decodable := 2, validOffsets := 1 } := by
    decide
  constructor
  · exact closure
  · intro whole
    have counted := whole.decodable
    rw [closure] at counted
    cases counted

end Segarecomp.SegaCd.FileCandidates

import Segarecomp.Genesis.HybridAdmission

/-! The universe of identities, and the ranges of a plan: compressing a set of even addresses into
ranges loses nothing and admits nothing else. -/

namespace Segarecomp.Genesis.HybridAdmission

variable {Operation : Type} {entries : List (ImmutableRomAotEntry Operation)}
  {identity : ℕ × ImmutableRomAotEntry Operation} {ranges : List ImmutableRomAotRange} {address : ℕ}

/-! ## The universe -/

theorem mem_sortedUniverse :
    address ∈ sortedUniverse entries ↔ ∃ entry ∈ entries, entryAddress entry = address := by
  rw [sortedUniverse, List.mem_dedup, List.mem_insertionSort, List.mem_map]

theorem sortedUniverse_ascending : (sortedUniverse entries).Pairwise (· < ·) := by
  have sorted : ((entries.map entryAddress).insertionSort (· ≤ ·)).Pairwise (· ≤ ·) :=
    List.pairwise_insertionSort _ _
  have ordered : (sortedUniverse entries).Pairwise (· ≤ ·) := sorted.sublist (List.dedup_sublist _)
  have distinct : (sortedUniverse entries).Nodup := List.nodup_dedup _
  exact ordered.imp₂ (fun _ _ le ne => lt_of_le_of_ne le ne) distinct

theorem broadContains_iff :
    broadContains entries address = true ↔ ∃ entry ∈ entries, entryAddress entry = address := by
  rw [broadContains, List.any_eq_true]
  simp only [decide_eq_true_eq]

theorem broad_sound (mem : identity ∈ broad entries) :
    identity.2 ∈ entries ∧ entryAddress identity.2 = identity.1 := by
  obtain ⟨address, -, found⟩ := List.mem_filterMap.mp mem
  obtain ⟨entry, first, rfl⟩ := Option.map_eq_some_iff.mp found
  have same := List.find?_some first
  exact ⟨List.mem_of_find?_eq_some first, of_decide_eq_true same⟩

theorem broad_complete (known : ∃ entry ∈ entries, entryAddress entry = address) :
    ∃ entry, (address, entry) ∈ broad entries := by
  obtain ⟨entry, mem, same⟩ := known
  cases first : entries.find? fun entry => entryAddress entry = address with
  | none =>
    have absent := List.find?_eq_none.mp first entry mem
    exact absurd (decide_eq_true same) absent
  | some entry' =>
    refine ⟨entry', List.mem_filterMap.mpr ⟨address, ?_, ?_⟩⟩
    · exact mem_sortedUniverse.mpr ⟨entry, mem, same⟩
    · rw [first]
      rfl

/-- With distinct execution addresses every entry is the identity of its address. -/
theorem broad_of_distinct (distinct : (entries.map entryAddress).Nodup)
    {entry : ImmutableRomAotEntry Operation} (mem : entry ∈ entries) :
    (entryAddress entry, entry) ∈ broad entries := by
  obtain ⟨other, known⟩ := broad_complete ⟨entry, mem, rfl⟩
  obtain ⟨mem', same⟩ := broad_sound known
  have eq : other = entry := List.inj_on_of_nodup_map distinct mem' mem same
  exact eq ▸ known

/-! ## Ranges -/

/-- The address is in one of the ranges. -/
def Within (ranges : List ImmutableRomAotRange) (address : ℕ) : Prop :=
  ∃ range ∈ ranges, range.beginAddress ≤ address ∧ address < range.endAddress

theorem WellFormed.tail {range : ImmutableRomAotRange} (wf : WellFormed (range :: ranges)) : WellFormed ranges :=
  ⟨fun other mem => wf.1 other (List.mem_cons_of_mem _ mem), List.IsChain.of_cons wf.2⟩

theorem WellFormed.ascending (wf : WellFormed ranges) :
    ranges.Pairwise fun a b => a.endAddress < b.beginAddress := by
  induction ranges with
  | nil => exact List.Pairwise.nil
  | cons range ranges ih =>
    have rest := ih wf.tail
    refine List.pairwise_cons.mpr ⟨fun other mem => ?_, rest⟩
    cases ranges with
    | nil => exact absurd mem List.not_mem_nil
    | cons next ranges =>
      have apart : range.endAddress < next.beginAddress := List.isChain_cons_cons.mp wf.2 |>.1
      rcases List.mem_cons.mp mem with rfl | later
      · exact apart
      · have valid := (wf.1 next (List.mem_cons_of_mem _ List.mem_cons_self)).1
        have after := (List.pairwise_cons.mp rest).1 other later
        omega

theorem contains_cons {range : ImmutableRomAotRange} (wf : WellFormed (range :: ranges)) :
    genesisHybridAdmissionContains (range :: ranges) address = true ↔
      (range.beginAddress ≤ address ∧ address < range.endAddress) ∨
        genesisHybridAdmissionContains ranges address = true := by
  have later := (List.pairwise_cons.mp wf.ascending).1
  have valid := (wf.1 range List.mem_cons_self).1
  by_cases reached : range.beginAddress ≤ address
  · have taken : ((range :: ranges).takeWhile fun range => range.beginAddress ≤ address) =
        range :: ranges.takeWhile fun range => range.beginAddress ≤ address :=
      List.takeWhile_cons_of_pos (decide_eq_true reached)
    rw [genesisHybridAdmissionContains, genesisHybridAdmissionContains, taken, List.getLast?_cons]
    cases last : (ranges.takeWhile fun range => range.beginAddress ≤ address).getLast? with
    | none => simp [reached]
    | some other =>
      have inside := List.mem_of_getLast? last
      have after := later other ((List.takeWhile_prefix _).subset inside)
      have taken_holds := List.mem_takeWhile_imp inside
      have begun : other.beginAddress ≤ address := of_decide_eq_true taken_holds
      simp only [Option.getD_some]
      constructor
      · exact .inr
      · exact fun either => either.resolve_left (by omega)
  · have before : ¬∃ other ∈ ranges, other.beginAddress ≤ address := by
      rintro ⟨other, mem, begun⟩
      have := later other mem
      omega
    have empty : (ranges.takeWhile fun range => range.beginAddress ≤ address) = [] := by
      cases ranges with
      | nil => rfl
      | cons next ranges =>
        have unreached : ¬next.beginAddress ≤ address := fun begun => before ⟨next, List.mem_cons_self, begun⟩
        exact List.takeWhile_cons_of_neg (by simpa using unreached)
    have taken : ((range :: ranges).takeWhile fun range => range.beginAddress ≤ address) = [] :=
      List.takeWhile_cons_of_neg (by simpa using reached)
    rw [genesisHybridAdmissionContains, genesisHybridAdmissionContains, empty, taken]
    simp [reached]

theorem contains_iff (wf : WellFormed ranges) :
    genesisHybridAdmissionContains ranges address = true ↔ Within ranges address := by
  induction ranges with
  | nil => simp [genesisHybridAdmissionContains, Within]
  | cons range ranges ih =>
    rw [contains_cons wf, ih wf.tail, Within, Within, List.exists_mem_cons_iff]

/-! ## Compression -/

/-- What is known of the ranges, last one first, after some addresses of the universe. -/
structure Compressed (keep seen : List ℕ) (out : List ImmutableRomAotRange) (isOpen : Bool) : Prop where
  cover : ∀ x ∈ seen, Within out x ↔ x ∈ keep
  valid : ∀ range ∈ out, range.Valid
  apart : out.IsChain fun a b => b.endAddress < a.beginAddress
  bounded : ∀ range ∈ out, ∃ x ∈ seen, range.endAddress = x + 2
  closed : isOpen = false → ∀ range ∈ out, ∃ x ∈ seen, range.endAddress ≤ x
  last : isOpen = true → ∃ back rest, out = back :: rest ∧ ∀ x ∈ seen, x < back.endAddress

theorem Compressed.start (keep : List ℕ) : Compressed keep [] [] false where
  cover _ mem := absurd mem List.not_mem_nil
  valid _ mem := absurd mem List.not_mem_nil
  apart := List.IsChain.nil
  bounded _ mem := absurd mem List.not_mem_nil
  closed _ _ mem := absurd mem List.not_mem_nil
  last isTrue := absurd isTrue Bool.false_ne_true

variable {keep seen : List ℕ} {out : List ImmutableRomAotRange} {isOpen : Bool}

theorem Compressed.skip (done : Compressed keep seen out isOpen) (absent : address ∉ keep)
    (above : ∀ x ∈ seen, x + 2 ≤ address) : Compressed keep (seen ++ [address]) out false where
  cover x mem := by
    rcases List.mem_append.mp mem with old | new
    · exact done.cover x old
    · obtain rfl := List.mem_singleton.mp new
      refine iff_of_false ?_ absent
      rintro ⟨range, mem, -, inside⟩
      obtain ⟨y, known, eq⟩ := done.bounded range mem
      have := above y known
      omega
  valid := done.valid
  apart := done.apart
  bounded range mem := by
    obtain ⟨x, known, eq⟩ := done.bounded range mem
    exact ⟨x, List.mem_append_left _ known, eq⟩
  closed _ range mem := by
    obtain ⟨x, known, eq⟩ := done.bounded range mem
    have := above x known
    exact ⟨address, List.mem_append_right _ (List.mem_singleton.mpr rfl), by omega⟩
  last isTrue := absurd isTrue Bool.false_ne_true

theorem mem_snoc_cases {x : ℕ} (mem : x ∈ seen ++ [address]) : x ∈ seen ∨ x = address :=
  (List.mem_append.mp mem).imp_right List.mem_singleton.mp

theorem mem_snoc : address ∈ seen ++ [address] := List.mem_append_right _ (List.mem_singleton.mpr rfl)

theorem Compressed.begin (done : Compressed keep seen out false) (present : address ∈ keep)
    (above : ∀ x ∈ seen, x + 2 ≤ address) (even : address % 2 = 0) :
    Compressed keep (seen ++ [address]) (⟨address, address + 2⟩ :: out) true where
  cover x mem := by
    rw [Within, List.exists_mem_cons_iff]
    rcases mem_snoc_cases mem with old | rfl
    · have := above x old
      rw [← done.cover x old, Within]
      exact or_iff_right fun inside => absurd inside.1 (by dsimp only; omega)
    · exact iff_of_true (.inl ⟨le_rfl, Nat.lt_add_of_pos_right (by omega)⟩) present
  valid range mem := by
    rcases List.mem_cons.mp mem with rfl | old
    · exact ⟨Nat.lt_add_of_pos_right (by omega), even, by simpa using even⟩
    · exact done.valid range old
  apart := by
    refine done.apart.cons fun range head => ?_
    obtain ⟨x, known, le⟩ := done.closed rfl range (List.mem_of_mem_head? head)
    have := above x known
    dsimp only
    omega
  bounded range mem := by
    rcases List.mem_cons.mp mem with rfl | old
    · exact ⟨address, mem_snoc, rfl⟩
    · obtain ⟨x, known, eq⟩ := done.bounded range old
      exact ⟨x, List.mem_append_left _ known, eq⟩
  closed isFalse := absurd isFalse.symm Bool.false_ne_true
  last _ := by
    refine ⟨_, _, rfl, fun x mem => ?_⟩
    rcases mem_snoc_cases mem with old | rfl
    · have := above x old
      dsimp only
      omega
    · exact Nat.lt_add_of_pos_right (by omega)

theorem Compressed.continue {back : ImmutableRomAotRange} {rest : List ImmutableRomAotRange}
    (done : Compressed keep seen (back :: rest) true) (present : address ∈ keep)
    (above : ∀ x ∈ seen, x + 2 ≤ address) (even : address % 2 = 0) :
    Compressed keep (seen ++ [address]) ({ back with endAddress := address + 2 } :: rest) true := by
  have valid := done.valid back List.mem_cons_self
  obtain ⟨top, known, eq⟩ := done.bounded back List.mem_cons_self
  have reaches : back.endAddress ≤ address := eq ▸ above top known
  have below : ∀ x ∈ seen, x < back.endAddress := by
    obtain ⟨back', rest', same, below⟩ := done.last rfl
    cases same
    exact below
  refine ⟨?_, ?_, ?_, ?_, ?_, ?_⟩
  · intro x mem
    rw [Within, List.exists_mem_cons_iff]
    rcases mem_snoc_cases mem with old | rfl
    · have lt := below x old
      rw [← done.cover x old, Within, List.exists_mem_cons_iff]
      exact or_congr_left (and_congr_right fun _ => iff_of_true (by dsimp only; omega) lt)
    · exact iff_of_true (.inl ⟨valid.1.le.trans reaches, Nat.lt_add_of_pos_right (by omega)⟩) present
  · intro range mem
    rcases List.mem_cons.mp mem with rfl | old
    · exact ⟨(valid.1.trans_le reaches).trans (Nat.lt_add_of_pos_right (by omega)), valid.2.1, by simpa using even⟩
    · exact done.valid range (List.mem_cons_of_mem _ old)
  · have apart := done.apart
    cases rest with
    | nil => exact List.IsChain.singleton _
    | cons next rest =>
      rw [List.isChain_cons_cons] at apart ⊢
      exact apart
  · intro range mem
    rcases List.mem_cons.mp mem with rfl | old
    · exact ⟨address, mem_snoc, rfl⟩
    · obtain ⟨x, known, eq⟩ := done.bounded range (List.mem_cons_of_mem _ old)
      exact ⟨x, List.mem_append_left _ known, eq⟩
  · exact fun isFalse => absurd isFalse.symm Bool.false_ne_true
  · intro _
    refine ⟨_, _, rfl, fun x mem => ?_⟩
    rcases mem_snoc_cases mem with old | rfl
    · have := below x old
      dsimp only
      omega
    · exact Nat.lt_add_of_pos_right (by omega)

theorem Compressed.step (done : Compressed keep seen out isOpen) (above : ∀ x ∈ seen, x + 2 ≤ address)
    (even : address % 2 = 0) :
    Compressed keep (seen ++ [address]) (extendRanges keep (out, isOpen) address).1
      (extendRanges keep (out, isOpen) address).2 := by
  by_cases present : address ∈ keep
  · rw [extendRanges, if_neg (not_not.mpr present)]
    cases isOpen with
    | false => exact done.begin present above even
    | true =>
      obtain ⟨back, rest, rfl, -⟩ := done.last rfl
      exact done.continue present above even
  · rw [extendRanges, if_pos present]
    exact done.skip present above

theorem Compressed.foldl (rest : List ℕ) (done : Compressed keep seen out isOpen)
    (ascending : (seen ++ rest).Pairwise (· < ·)) (even : ∀ x ∈ seen ++ rest, x % 2 = 0) :
    Compressed keep (seen ++ rest) (rest.foldl (extendRanges keep) (out, isOpen)).1
      (rest.foldl (extendRanges keep) (out, isOpen)).2 := by
  induction rest generalizing seen out isOpen with
  | nil => simpa using done
  | cons address rest ih =>
    have above : ∀ x ∈ seen, x + 2 ≤ address := by
      intro x mem
      have lt := (List.pairwise_append.mp ascending).2.2 x mem address List.mem_cons_self
      have := even x (List.mem_append_left _ mem)
      have := even address (List.mem_append_right _ List.mem_cons_self)
      omega
    have regroup : seen ++ address :: rest = (seen ++ [address]) ++ rest := by simp
    rw [regroup] at ascending even ⊢
    exact ih (done.step above (even address (List.mem_append_left _ mem_snoc))) ascending even

/-- Ranges made from ascending even addresses hold exactly those kept, and are well formed. -/
theorem ranges_exact {addresses : List ℕ} (ascending : addresses.Pairwise (· < ·))
    (even : ∀ x ∈ addresses, x % 2 = 0) (admitted : List ℕ) :
    WellFormed (genesisHybridAdmissionRanges addresses admitted) ∧
      ∀ x ∈ addresses, Within (genesisHybridAdmissionRanges addresses admitted) x ↔ x ∈ admitted := by
  have done := (Compressed.start admitted).foldl addresses ascending even
  refine ⟨⟨fun range mem => done.valid range (List.mem_reverse.mp mem), ?_⟩, fun x mem => ?_⟩
  · exact List.isChain_reverse.mpr done.apart
  · rw [← done.cover x mem, Within, Within]
    simp only [genesisHybridAdmissionRanges, List.mem_reverse]

theorem ranges_contains {addresses : List ℕ} (ascending : addresses.Pairwise (· < ·))
    (even : ∀ x ∈ addresses, x % 2 = 0) {admitted : List ℕ} (mem : address ∈ addresses) :
    genesisHybridAdmissionContains (genesisHybridAdmissionRanges addresses admitted) address = true ↔
      address ∈ admitted := by
  obtain ⟨wf, cover⟩ := ranges_exact ascending even admitted
  rw [contains_iff wf, cover address mem]

end Segarecomp.Genesis.HybridAdmission

import Segarecomp.Genesis.M68kCopyAliasMerge

/-! Merging is canonical exactly on the lists where the aliases of one displacement stand together in the
sorted order; there a round makes no progress exactly when its proposal adds no pair. -/

namespace Segarecomp.Genesis.M68kAlias

open CopyAlias

variable {a b c last item m : CopyAlias} {rest aliases : List CopyAlias} {e s : ℕ}

/-! ## The condition on the aliases -/

/-- No alias of another displacement stands between two that touch, and no displacement covers 2^32
addresses on end. -/
structure Mergeable (aliases : List CopyAlias) : Prop where
  unbroken : ∀ a ∈ aliases, ∀ b ∈ aliases, ∀ c ∈ aliases, a < b → b < c → c.delta = a.delta → b.delta ≠ a.delta →
    a.lastEnd < c.execution.toNat
  short : ∀ e s, ∃ i < 2 ^ 32, ¬Covered aliases (e + i) (s + i)

theorem rel_of_lt {R : CopyAlias → CopyAlias → Prop} {sorted : List CopyAlias} (order : sorted.Pairwise (· ≤ ·))
    (related : sorted.Pairwise R) (first : b ∈ sorted) (second : c ∈ sorted) (lt : b < c) : R b c := by
  induction sorted with
  | nil => exact absurd first List.not_mem_nil
  | cons head tail ih =>
      obtain ⟨least, order⟩ := List.pairwise_cons.mp order
      obtain ⟨all, related⟩ := List.pairwise_cons.mp related
      rcases List.mem_cons.mp first with rfl | inner
      · rcases List.mem_cons.mp second with rfl | later
        · exact absurd lt (lt_irrefl _)
        · exact all c later
      · rcases List.mem_cons.mp second with rfl | later
        · exact absurd lt (not_lt_of_ge (least b inner))
        · exact ih order related inner later

theorem separated_iff {sorted : List CopyAlias} (order : sorted.Pairwise (· ≤ ·)) :
    Separated sorted ↔
      ∀ a ∈ sorted, ∀ b ∈ sorted, ∀ c ∈ sorted, a < b → b < c → c.delta = a.delta → b.delta ≠ a.delta →
        a.lastEnd < c.execution.toNat := by
  induction sorted with
  | nil => exact iff_of_true trivial fun a mem => absurd mem List.not_mem_nil
  | cons last rest ih =>
      obtain ⟨least, tail⟩ := List.pairwise_cons.mp order
      have after {x y : CopyAlias} (mem : y ∈ last :: rest) (bound : last ≤ x) (lt : x < y) : y ∈ rest := by
        rcases List.mem_cons.mp mem with rfl | mem
        · exact absurd lt (not_lt_of_ge bound)
        · exact mem
      rw [Separated, ih tail]
      constructor
      · rintro ⟨closed, inner⟩ a amem b bmem c cmem ab bc same other
        have bound : last ≤ a := by
          rcases List.mem_cons.mp amem with rfl | amem
          · exact le_rfl
          · exact least a amem
        have brest := after bmem bound ab
        have crest := after cmem (bound.trans ab.le) bc
        rcases List.mem_cons.mp amem with rfl | amem
        · exact rel_of_lt tail closed brest crest bc other same
        · exact inner a amem b brest c crest ab bc same other
      · intro unbroken
        refine ⟨List.Pairwise.imp_of_mem ?_ tail, fun a amem b bmem c cmem =>
          unbroken a (List.mem_cons_of_mem _ amem) b (List.mem_cons_of_mem _ bmem) c (List.mem_cons_of_mem _ cmem)⟩
        intro b c bmem cmem order other same
        have ab : last < b := lt_of_le_of_ne (least b bmem) fun is => other (is ▸ rfl)
        have bc : b < c := lt_of_le_of_ne order fun is => other (is ▸ same)
        exact unbroken last List.mem_cons_self b (List.mem_cons_of_mem _ bmem) c (List.mem_cons_of_mem _ cmem) ab bc
          same other

/-- A length that does not fit comes from 2^32 addresses on end. -/
theorem long_of_not_exact (placed : Placed (last :: rest)) (lost : ¬Exact last rest) :
    ∃ e s, ∀ i < 2 ^ 32, Covered (last :: rest) (e + i) (s + i) := by
  induction rest generalizing last with
  | nil => exact absurd trivial lost
  | cons item rest ih =>
      rw [Exact] at lost
      by_cases joins : Joins last item
      · rw [if_pos joins] at lost
        by_cases fits : max last.lastEnd item.lastEnd - last.execution.toNat < 2 ^ 32
        · obtain ⟨e, s, all⟩ := ih placed.join fun fitting => lost ⟨fits, fitting⟩
          exact ⟨e, s, fun i inside => (covered_join (placed.head List.mem_cons_self) joins fits).mp (all i inside)⟩
        · have reach := (join_before joins fits).2.2
          have delta : last.delta = (last.execution.toNat : ℤ) - last.source.toNat := rfl
          refine ⟨last.execution.toNat, last.source.toNat, fun i inside => ?_⟩
          rcases Nat.lt_or_ge (last.execution.toNat + i) last.lastEnd with before | after
          · refine covered_cons.mpr (Or.inl (pairs_iff.mpr ⟨Nat.le_add_right _ i, before, ?_⟩))
            rw [delta]
            push_cast
            ring
          · refine covered_cons.mpr (Or.inr (covered_cons.mpr (Or.inl (pairs_iff.mpr ⟨?_, ?_, ?_⟩))))
            · exact joins.2.trans after
            · exact (Nat.add_lt_add_left inside _).trans_le reach
            · rw [joins.1, delta]
              push_cast
              ring
      · rw [if_neg joins] at lost
        obtain ⟨e, s, all⟩ := ih placed.tail lost
        exact ⟨e, s, fun i inside => covered_cons.mpr (Or.inr (all i inside))⟩

theorem Touch.symm (touch : a.Touch b) : b.Touch a := ⟨touch.1.symm, touch.2.2, touch.2.1⟩

/-- Pairs on end that are covered where no two runs touch are covered by one run. -/
theorem exists_one_run {merged : List CopyAlias} (apart : merged.Pairwise fun a b => ¬a.Touch b) {n : ℕ} (pos : 0 < n)
    (all : ∀ i < n, Covered merged (e + i) (s + i)) :
    ∃ m ∈ merged, m.execution.toNat ≤ e ∧ e + n ≤ m.lastEnd ∧ (e : ℤ) - s = m.delta := by
  induction n, pos using Nat.le_induction with
  | base =>
      obtain ⟨m, mem, pairs⟩ := all 0 Nat.one_pos
      obtain ⟨above, below, delta⟩ := pairs_iff.mp pairs
      exact ⟨m, mem, above, below, delta⟩
  | succ n pos ih =>
      obtain ⟨m, mem, above, reach, delta⟩ := ih fun i inside => all i (Nat.lt_succ_of_lt inside)
      obtain ⟨n', known, pairs⟩ := all n (Nat.lt_succ_self n)
      obtain ⟨begins, ends, delta'⟩ := pairs_iff.mp pairs
      by_cases same : n' = m
      · exact ⟨m, mem, above, same ▸ ends, delta⟩
      · have symm : Std.Symm fun a b : CopyAlias => ¬a.Touch b := ⟨fun _ _ away touch => away (Touch.symm touch)⟩
        have away := apart.forall known mem same
        refine absurd ⟨?_, begins.trans reach, above.trans ?_⟩ away
        · rw [← delta, ← delta']
          push_cast
          ring
        · exact (Nat.le_add_right e n).trans ends.le

/-! ## A proposal that adds nothing -/

theorem mergeStep_unjoined {front : List CopyAlias} (chain : Unjoined (front ++ [item])) :
    mergeStep front item = front ++ [item] := by
  rcases List.eq_nil_or_concat front with rfl | ⟨former, last, rfl⟩
  · rfl
  · rw [List.concat_eq_append] at chain ⊢
    have away := (List.isChain_append.mp chain).2.2 last (List.getLast?_concat ..) item rfl
    rw [mergeStep_append, if_neg away]

theorem foldl_unjoined {front : List CopyAlias} (chain : Unjoined (front ++ rest)) :
    rest.foldl mergeStep front = front ++ rest := by
  induction rest generalizing front with
  | nil => exact (List.append_nil front).symm
  | cons item rest ih =>
      rw [List.append_cons] at chain
      rw [List.foldl_cons, mergeStep_unjoined (List.isChain_append.mp chain).1, ih chain, ← List.append_cons]

theorem join_inside (inside : b.lastEnd ≤ a.lastEnd) : join a b = a := by
  have length : max a.lastEnd b.lastEnd - a.execution.toNat = a.length.toNat := by
    rw [max_eq_left inside]
    exact Nat.add_sub_cancel_left ..
  rw [join, length, BitVec.ofNat_toNat, BitVec.setWidth_eq]

theorem insertionSort_eq {sorted : List CopyAlias} (perm : sorted.Perm aliases) (order : sorted.Pairwise (· ≤ ·)) :
    aliases.insertionSort (· ≤ ·) = sorted :=
  ((List.perm_insertionSort _ aliases).trans perm.symm).eq_of_pairwise
    (fun _ _ _ _ le ge => le_antisymm le ge) (List.pairwise_insertionSort _ aliases) order

section Proposal

variable {merged front back : List CopyAlias} {p : CopyAlias}

/-- The proposal sorts just before the run that holds it: both begin alike. -/
theorem merge_before (fixed : Unjoined (front ++ a :: back)) (ordered : (front ++ a :: back).Pairwise fun a b => a.place < b.place)
    (same : p.place = a.place) (le : p ≤ a) (inside : p.lastEnd ≤ a.lastEnd) :
    mergeCopyAliases ((front ++ a :: back) ++ [p]) = front ++ a :: back := by
  obtain ⟨lower, upper, between⟩ := List.pairwise_append.mp ordered
  have sorted : (front ++ p :: a :: back).Pairwise (· ≤ ·) := by
    refine List.pairwise_append.mpr ⟨lower.imp fun lt => (lt_of_place_lt lt).le, ?_, ?_⟩
    · refine List.pairwise_cons.mpr ⟨fun x mem => ?_, upper.imp fun lt => (lt_of_place_lt lt).le⟩
      rcases List.mem_cons.mp mem with rfl | later
      · exact le
      · exact le.trans (lt_of_place_lt ((List.pairwise_cons.mp upper).1 x later)).le
    · intro x mem y known
      rcases List.mem_cons.mp known with rfl | known
      · exact (lt_of_place_lt (same ▸ between x mem a List.mem_cons_self)).le
      · exact (lt_of_place_lt (between x mem y known)).le
  have perm : (front ++ p :: a :: back).Perm ((front ++ a :: back) ++ [p]) :=
    List.perm_middle.trans (List.perm_append_singleton p _).symm
  obtain ⟨first, -, away⟩ := List.isChain_append.mp fixed
  have chain : Unjoined (front ++ [p]) := by
    refine List.isChain_append.mpr ⟨first, List.isChain_singleton p, fun x last y is => ?_⟩
    cases Option.some.inj is
    exact not_joins_congr same (away x last a rfl)
  have whole : join p a = a := by
    obtain ⟨execution, source⟩ := Prod.mk.inj (toLex.injective same)
    have length : max p.lastEnd a.lastEnd - p.execution.toNat = a.length.toNat := by
      rw [max_eq_right inside, execution]
      exact Nat.add_sub_cancel_left ..
    rw [join, length, BitVec.ofNat_toNat, BitVec.setWidth_eq, BitVec.eq_of_toNat_eq execution,
      BitVec.eq_of_toNat_eq source]
  rw [mergeCopyAliases, insertionSort_eq perm sorted, List.foldl_append, List.foldl_cons, List.foldl_cons,
    @foldl_unjoined _ [] first, List.nil_append, mergeStep_unjoined chain, mergeStep_append,
    if_pos (joins_of_place same), whole, foldl_unjoined]
  · rw [← List.append_cons]
  · rwa [← List.append_cons]

/-- The proposal sorts just after the run that holds it. -/
theorem merge_after (fixed : Unjoined (front ++ a :: back)) (ordered : (front ++ a :: back).Pairwise fun a b => a.place < b.place)
    (le : a ≤ p) (next : ∀ x ∈ back, p ≤ x) (joins : Joins a p) (inside : p.lastEnd ≤ a.lastEnd) :
    mergeCopyAliases ((front ++ a :: back) ++ [p]) = front ++ a :: back := by
  obtain ⟨lower, upper, between⟩ := List.pairwise_append.mp ordered
  have sorted : (front ++ a :: p :: back).Pairwise (· ≤ ·) := by
    refine List.pairwise_append.mpr ⟨lower.imp fun lt => (lt_of_place_lt lt).le, ?_, ?_⟩
    · refine List.pairwise_cons.mpr ⟨fun x mem => ?_, List.pairwise_cons.mpr ⟨next, ?_⟩⟩
      · rcases List.mem_cons.mp mem with rfl | later
        · exact le
        · exact le.trans (next x later)
      · exact (List.pairwise_cons.mp upper).2.imp fun lt => (lt_of_place_lt lt).le
    · intro x mem y known
      have first := (lt_of_place_lt (between x mem a List.mem_cons_self)).le
      rcases List.mem_cons.mp known with rfl | known
      · exact first
      · rcases List.mem_cons.mp known with rfl | known
        · exact first.trans le
        · exact first.trans (le.trans (next y known))
  have perm : (front ++ a :: p :: back).Perm ((front ++ a :: back) ++ [p]) := by
    rw [List.append_cons]
    refine List.perm_middle.trans ?_
    rw [← List.append_cons]
    exact (List.perm_append_singleton p _).symm
  obtain ⟨first, -, away⟩ := List.isChain_append.mp fixed
  have chain : Unjoined (front ++ [a]) := by
    rw [List.append_cons] at fixed
    exact (List.isChain_append.mp fixed).1
  rw [mergeCopyAliases, insertionSort_eq perm sorted, List.foldl_append, List.foldl_cons, List.foldl_cons,
    @foldl_unjoined _ [] first, List.nil_append, mergeStep_unjoined chain, mergeStep_append,
    if_pos joins, join_inside inside, foldl_unjoined]
  · rw [← List.append_cons]
  · rwa [← List.append_cons]

end Proposal

/-! ## Canonical merges -/

/-- The round stopped in work RAM, at the address of a copy: `proposal`. -/
structure Proposes (rom : List Byte) (observed : RoundObservation) (proposal : CopyAlias) : Prop where
  ran : observed.toolFailure = false
  stopped : observed.guestStop = true
  recorded : ∃ record, observed.record = some record ∧ record.workRam.length = kWorkRamBytes ∧
    (record.stopClass = kStopKnownButUnemittedTarget ∨ record.stopClass = kStopInternalDispatchInconsistency) ∧
    deriveCopyAlias rom record.workRam record.pc = some proposal

/-- The merged list is a function of the covered pairs: sorted, with no two runs of one displacement that
touch, the same for every order of the aliases and when merged again; and where the last alias is the
proposal of a round, the round makes no progress exactly when the proposal adds no pair. -/
structure Canonical (aliases : List CopyAlias) : Prop where
  sorted : (mergeCopyAliases aliases).Pairwise (· ≤ ·)
  covered : ∀ e s, Covered (mergeCopyAliases aliases) e s ↔ Covered aliases e s
  apart : (mergeCopyAliases aliases).Pairwise fun a b => ¬a.Touch b
  idempotent : mergeCopyAliases (mergeCopyAliases aliases) = mergeCopyAliases aliases
  order : ∀ other, other.Perm aliases → mergeCopyAliases other = mergeCopyAliases aliases
  progress : ∀ former proposal rom observed thunks recognizer, aliases = mergeCopyAliases former ++ [proposal] →
    Proposes rom observed proposal →
    ((nextStep rom observed (mergeCopyAliases former) thunks recognizer).termination = some .repeatedAliasNoProgress ↔
      ∀ e s, proposal.Pairs e s → Covered (mergeCopyAliases former) e s)

theorem covered_sorted (aliases : List CopyAlias) :
    Covered (aliases.insertionSort (· ≤ ·)) e s ↔ Covered aliases e s :=
  exists_congr fun _ => and_congr_left fun _ => List.mem_insertionSort _

theorem covered_of_subset {larger : List CopyAlias} (sub : aliases ⊆ larger) (covered : Covered aliases e s) :
    Covered larger e s := by
  obtain ⟨a, mem, pairs⟩ := covered
  exact ⟨a, sub mem, pairs⟩

theorem Mergeable.subset {larger : List CopyAlias} (mergeable : Mergeable larger) (sub : aliases ⊆ larger) :
    Mergeable aliases := by
  refine ⟨fun a amem b bmem c cmem => mergeable.unbroken a (sub amem) b (sub bmem) c (sub cmem), fun e s => ?_⟩
  obtain ⟨i, inside, gap⟩ := mergeable.short e s
  exact ⟨i, inside, fun covered => gap (covered_of_subset sub covered)⟩

theorem sorted_cases (aliases : List CopyAlias) :
    aliases.insertionSort (· ≤ ·) = [] ∧ mergeCopyAliases aliases = [] ∨
      ∃ first rest, aliases.insertionSort (· ≤ ·) = first :: rest ∧ mergeCopyAliases aliases = absorb first rest ∧
        Placed (first :: rest) := by
  have sorted := List.pairwise_insertionSort (α := CopyAlias) (· ≤ ·) aliases
  rw [merge_eq]
  cases shape : aliases.insertionSort (· ≤ ·) with
  | nil => exact Or.inl ⟨rfl, rfl⟩
  | cons first rest =>
      rw [shape] at sorted
      exact Or.inr ⟨first, rest, rfl, rfl, sorted.imp place_le_of_le⟩

theorem covered_merge (mergeable : Mergeable aliases) : Covered (mergeCopyAliases aliases) e s ↔ Covered aliases e s := by
  rw [← covered_sorted aliases]
  rcases sorted_cases aliases with ⟨shape, merged⟩ | ⟨first, rest, shape, merged, placed⟩
  · rw [shape, merged]
  · have fitting : Exact first rest := by
      by_contra lost
      obtain ⟨e, s, all⟩ := long_of_not_exact placed lost
      obtain ⟨i, inside, gap⟩ := mergeable.short e s
      exact gap ((covered_sorted aliases).mp (shape ▸ all i inside))
    rw [shape, merged]
    exact covered_absorb placed fitting

theorem merge_apart (mergeable : Mergeable aliases) : (mergeCopyAliases aliases).Pairwise fun a b => ¬a.Touch b := by
  have sorted := List.pairwise_insertionSort (α := CopyAlias) (· ≤ ·) aliases
  have known (a : CopyAlias) : a ∈ aliases.insertionSort (· ≤ ·) ↔ a ∈ aliases := List.mem_insertionSort _
  rcases sorted_cases aliases with ⟨shape, merged⟩ | ⟨first, rest, shape, merged, placed⟩
  · rw [merged]
    exact List.Pairwise.nil
  · have fitting : Exact first rest := by
      by_contra lost
      obtain ⟨e, s, all⟩ := long_of_not_exact placed lost
      obtain ⟨i, inside, gap⟩ := mergeable.short e s
      exact gap ((covered_sorted aliases).mp (shape ▸ all i inside))
    rw [shape] at sorted known
    rw [merged]
    refine absorb_apart placed fitting ((separated_iff sorted).mpr fun a amem b bmem c cmem => ?_)
    exact mergeable.unbroken a ((known a).mp amem) b ((known b).mp bmem) c ((known c).mp cmem)

theorem mergeable_of_merge (covered : ∀ e s, Covered (mergeCopyAliases aliases) e s ↔ Covered aliases e s)
    (apart : (mergeCopyAliases aliases).Pairwise fun a b => ¬a.Touch b) : Mergeable aliases := by
  have sorted := List.pairwise_insertionSort (α := CopyAlias) (· ≤ ·) aliases
  have known (a : CopyAlias) : a ∈ aliases.insertionSort (· ≤ ·) ↔ a ∈ aliases := List.mem_insertionSort _
  refine ⟨?_, fun e s => ?_⟩
  · rcases sorted_cases aliases with ⟨shape, merged⟩ | ⟨first, rest, shape, merged, placed⟩
    · rw [shape] at known
      exact fun a mem => absurd ((known a).mpr mem) List.not_mem_nil
    · have fitting : Exact first rest := by
        by_contra lost
        obtain ⟨e, s, there, n, mem, -, begins, delta, others⟩ := lost_of_not_exact placed lost
        rw [← shape, covered_sorted, ← covered e s, merged] at there
        obtain ⟨m, held, pairs⟩ := there
        obtain ⟨-, ends, same⟩ := pairs_iff.mp pairs
        have before := others m held pairs
        have symm : Std.Symm fun a b : CopyAlias => ¬a.Touch b := ⟨fun _ _ away touch => away (Touch.symm touch)⟩
        rw [merged] at apart
        refine apart.forall held mem (fun is => lt_irrefl _ (is ▸ before)) ⟨same.symm.trans delta, ?_, ?_⟩
        · exact (execution_le before.le).trans (Nat.le_add_right _ _)
        · exact begins.trans ends.le
      rw [merged] at apart
      rw [shape] at sorted known
      have unbroken := (separated_iff sorted).mp (separated_of_apart placed fitting apart)
      exact fun a amem b bmem c cmem =>
        unbroken a ((known a).mpr amem) b ((known b).mpr bmem) c ((known c).mpr cmem)
  · by_contra none
    push Not at none
    obtain ⟨m, -, above, reach, -⟩ :=
      exists_one_run (e := e) (s := s) apart (Nat.two_pow_pos 32) fun i inside => (covered _ _).mpr (none i inside)
    have most := lastEnd_lt m
    omega

/-- A proposal that adds no pair leaves the merged list as it is. -/
theorem merge_of_covered {former : List CopyAlias} {p : CopyAlias}
    (mergeable : Mergeable (mergeCopyAliases former ++ [p])) (some : 0 < p.length.toNat)
    (covered : ∀ e s, p.Pairs e s → Covered (mergeCopyAliases former) e s) :
    mergeCopyAliases (mergeCopyAliases former ++ [p]) = mergeCopyAliases former := by
  have ordered := merge_ordered former
  have unjoined := merge_unjoined former
  have apart := merge_apart (mergeable.subset (List.subset_append_left _ [p]))
  rw [merge_merge] at apart
  obtain ⟨a, mem, above, reach, delta⟩ := exists_one_run (e := p.execution.toNat) (s := p.source.toNat) apart some
    fun i inside => covered _ _ ⟨i, inside, rfl, rfl⟩
  have same : p.delta = a.delta := delta
  obtain ⟨front, back, shape⟩ := List.append_of_mem mem
  have begins : p.execution.toNat ≤ a.lastEnd := (Nat.le_add_right _ _).trans reach
  rcases le_total p a with before | after
  · have place : p.place = a.place := by
      have execution := Nat.le_antisymm (execution_le (place_le_of_le before)) above
      have source : p.source.toNat = a.source.toNat := by
        rw [CopyAlias.delta, CopyAlias.delta, execution] at same
        omega
      rw [CopyAlias.place, CopyAlias.place, execution, source]
    rw [shape] at unjoined ordered ⊢
    exact merge_before unjoined ordered place before reach
  · have next : ∀ x ∈ back, p ≤ x := by
      intro x later
      by_contra lt
      have known : x ∈ mergeCopyAliases former := shape ▸ List.mem_append_right _ (List.mem_cons_of_mem _ later)
      have order : a.place < x.place := by
        rw [shape] at ordered
        exact (List.pairwise_cons.mp (List.pairwise_append.mp ordered).2.1).1 x later
      have under : x.execution.toNat ≤ p.execution.toNat := execution_le (place_le_of_le (le_of_not_ge lt))
      by_cases one : x.delta = a.delta
      · have away : ¬a.Touch x := by
          rw [shape] at apart
          exact (List.pairwise_cons.mp (List.pairwise_append.mp apart).2.1).1 x later
        refine away ⟨one.symm, ?_, under.trans begins⟩
        exact (execution_le order.le).trans (Nat.le_add_right _ _)
      · have far := mergeable.unbroken a (List.mem_append_left _ mem) x (List.mem_append_left _ known) p
          (List.mem_append_right _ (List.mem_singleton_self p)) (lt_of_place_lt order) (lt_of_not_ge lt) same one
        omega
    rw [shape] at unjoined ordered ⊢
    exact merge_after unjoined ordered after next ⟨same, begins⟩ reach

theorem nextStep_proposal {rom : List Byte} {observed : RoundObservation} {p : CopyAlias}
    (proposes : Proposes rom observed p) (thunks : List RamThunk) (recognizer : Option RamThunkRecognizer) :
    nextStep rom observed aliases thunks recognizer =
      if mergeCopyAliases (aliases ++ [p]) = aliases then { termination := some .repeatedAliasNoProgress }
      else { aliases := mergeCopyAliases (aliases ++ [p]), thunks } := by
  obtain ⟨ran, stopped, record, recorded, whole, stopClass, derived⟩ := proposes
  obtain ⟨even, above, below⟩ := (exists_run_of_derive derived).1
  have known : record.stopClass ≠ kStopUnsupportedInterrupt ∧
      ¬(record.stopClass ≠ kStopKnownButUnemittedTarget ∧ record.stopClass ≠ kStopInternalDispatchInconsistency) := by
    rcases stopClass with same | same
    · rw [same]
      decide
    · rw [same]
      decide
  have inside : ¬(record.pc.toNat % 2 ≠ 0 ∨ record.pc.toNat < kWorkRamBegin ∨
      kWorkRamBegin + kWorkRamBytes ≤ record.pc.toNat) := by omega
  rw [nextStep, ran, stopped, recorded]
  dsimp only
  rw [if_neg Bool.false_ne_true, Bool.not_true, if_neg Bool.false_ne_true, if_neg (not_not_intro whole),
    if_neg known.1, if_neg known.2, if_neg inside, derived]

theorem progress_of_mergeable {former : List CopyAlias} {p : CopyAlias} {rom : List Byte}
    {observed : RoundObservation} (mergeable : Mergeable (mergeCopyAliases former ++ [p]))
    (proposes : Proposes rom observed p) (thunks : List RamThunk) (recognizer : Option RamThunkRecognizer) :
    (nextStep rom observed (mergeCopyAliases former) thunks recognizer).termination = some .repeatedAliasNoProgress ↔
      ∀ e s, p.Pairs e s → Covered (mergeCopyAliases former) e s := by
  rw [nextStep_proposal proposes]
  constructor
  · intro stops e s pairs
    by_cases same : mergeCopyAliases (mergeCopyAliases former ++ [p]) = mergeCopyAliases former
    · rw [← same, covered_merge mergeable]
      exact ⟨p, List.mem_append_right _ (List.mem_singleton_self p), pairs⟩
    · rw [if_neg same] at stops
      exact absurd stops.symm (Option.some_ne_none _)
  · intro covered
    obtain ⟨-, -, record, -, whole, -, derived⟩ := proposes
    rw [if_pos (merge_of_covered mergeable (length_pos_of_derive whole derived) covered)]

/-- The merge is canonical exactly on the mergeable lists. -/
theorem canonical_iff_mergeable (aliases : List CopyAlias) : Canonical aliases ↔ Mergeable aliases := by
  constructor
  · exact fun canonical => mergeable_of_merge canonical.covered canonical.apart
  · intro mergeable
    refine ⟨merge_sorted aliases, fun e s => covered_merge mergeable, merge_apart mergeable, merge_merge aliases,
      fun other perm => merge_perm perm, ?_⟩
    rintro former p rom observed thunks recognizer rfl proposes
    exact progress_of_mergeable mergeable proposes thunks recognizer

/-- An alias of another displacement between two that overlap keeps them apart. -/
theorem not_canonical_interleaved : ¬Canonical [⟨0xFF0000, 0x1000, 100⟩, ⟨0xFF000A, 0x8000, 100⟩, ⟨0xFF0032, 0x1032, 100⟩] := by
  intro canonical
  have merged : mergeCopyAliases [⟨0xFF0000, 0x1000, 100⟩, ⟨0xFF000A, 0x8000, 100⟩, ⟨0xFF0032, 0x1032, 100⟩] =
      [⟨0xFF0000, 0x1000, 100⟩, ⟨0xFF000A, 0x8000, 100⟩, ⟨0xFF0032, 0x1032, 100⟩] := by decide
  have apart := canonical.apart
  rw [merged] at apart
  refine (List.pairwise_cons.mp apart).1 ⟨0xFF0032, 0x1032, 100⟩ ?_ ?_
  · exact List.mem_cons_of_mem _ List.mem_cons_self
  · exact ⟨by decide, by decide, by decide⟩

end Segarecomp.Genesis.M68kAlias

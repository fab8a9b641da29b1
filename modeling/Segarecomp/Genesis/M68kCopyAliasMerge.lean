import Segarecomp.Genesis.M68kCopyAliasRun

/-! The merge of copy aliases as a recursion over the sorted list: what it keeps of the covered pairs, and
where it leaves two runs of one displacement that touch. -/

namespace Segarecomp.Genesis.M68kAlias

variable {a b c last item m : CopyAlias} {rest aliases : List CopyAlias} {e s : ℕ}

namespace CopyAlias

/-- The execution and source addresses an alias pairs. -/
def Pairs (a : CopyAlias) (e s : ℕ) : Prop :=
  ∃ i < a.length.toNat, e = a.execution.toNat + i ∧ s = a.source.toNat + i

/-- One displacement, and the runs overlap or touch. -/
def Touch (a b : CopyAlias) : Prop :=
  a.delta = b.delta ∧ a.execution.toNat ≤ b.lastEnd ∧ b.execution.toNat ≤ a.lastEnd

/-- Where an alias begins, in the order of the merge. -/
def place (a : CopyAlias) : ℕ ×ₗ ℕ := toLex (a.execution.toNat, a.source.toNat)

theorem pairs_iff : a.Pairs e s ↔ a.execution.toNat ≤ e ∧ e < a.lastEnd ∧ (e : ℤ) - s = a.delta := by
  rw [Pairs, lastEnd, delta]
  constructor
  · rintro ⟨i, inside, rfl, rfl⟩
    refine ⟨Nat.le_add_right _ i, Nat.add_lt_add_left inside _, ?_⟩
    push_cast
    ring
  · rintro ⟨above, below, same⟩
    exact ⟨e - a.execution.toNat, by omega, by omega, by omega⟩

theorem place_le_of_le (le : a ≤ b) : a.place ≤ b.place := by
  have keys : a.key ≤ b.key := le
  rw [key, key, Prod.Lex.toLex_le_toLex] at keys
  rw [place, place, Prod.Lex.toLex_le_toLex]
  rcases keys with before | ⟨same, tail⟩
  · exact Or.inl before
  · rw [Prod.Lex.toLex_le_toLex] at tail
    refine Or.inr ⟨same, ?_⟩
    rcases tail with lower | ⟨equal, -⟩
    · exact lower.le
    · exact equal.le

theorem lt_of_place_lt (lt : a.place < b.place) : a < b := by
  have keys : a.key < b.key := by
    rw [place, place, Prod.Lex.toLex_lt_toLex] at lt
    rw [key, key, Prod.Lex.toLex_lt_toLex, Prod.Lex.toLex_lt_toLex]
    rcases lt with before | ⟨same, lower⟩
    · exact Or.inl before
    · exact Or.inr ⟨same, Or.inl lower⟩
  exact keys

theorem execution_le (le : a.place ≤ b.place) : a.execution.toNat ≤ b.execution.toNat := by
  rw [place, place, Prod.Lex.toLex_le_toLex] at le
  rcases le with before | ⟨same, -⟩
  · exact before.le
  · exact same.le

theorem same_base (same : a.place = b.place) : a.execution.toNat = b.execution.toNat ∧ a.delta = b.delta := by
  obtain ⟨execution, source⟩ := Prod.mk.inj (toLex.injective same)
  exact ⟨execution, by rw [delta, delta, execution, source]⟩

end CopyAlias

open CopyAlias

theorem joins_of_place (same : last.place = item.place) : Joins last item := by
  obtain ⟨execution, delta⟩ := same_base same
  exact ⟨delta.symm, execution.symm.le.trans (Nat.le_add_right _ _)⟩

@[simp] theorem delta_join : (join last item).delta = last.delta := rfl

@[simp] theorem execution_join : (join last item).execution = last.execution := rfl

theorem lastEnd_join (fits : max last.lastEnd item.lastEnd - last.execution.toNat < 2 ^ 32) :
    (join last item).lastEnd = max last.lastEnd item.lastEnd := by
  have inside : last.execution.toNat ≤ max last.lastEnd item.lastEnd :=
    (Nat.le_add_right _ _).trans (le_max_left _ _)
  rw [lastEnd, join, BitVec.toNat_ofNat, Nat.mod_eq_of_lt fits]
  exact Nat.add_sub_of_le inside

/-! ## The pass as a recursion -/

def absorb (last : CopyAlias) : List CopyAlias → List CopyAlias
  | [] => [last]
  | item :: rest => if Joins last item then absorb (join last item) rest else last :: absorb item rest

def mergeSorted : List CopyAlias → List CopyAlias
  | [] => []
  | first :: rest => absorb first rest

theorem mergeStep_append (front : List CopyAlias) :
    mergeStep (front ++ [last]) item =
      if Joins last item then front ++ [join last item] else front ++ [last] ++ [item] := by
  rw [mergeStep, List.getLast?_concat, List.dropLast_concat]

theorem foldl_mergeStep (front : List CopyAlias) (last : CopyAlias) (rest : List CopyAlias) :
    rest.foldl mergeStep (front ++ [last]) = front ++ absorb last rest := by
  induction rest generalizing front last with
  | nil => rfl
  | cons item rest ih =>
      rw [List.foldl_cons, mergeStep_append, absorb]
      by_cases joins : Joins last item
      · rw [if_pos joins, if_pos joins]
        exact ih front _
      · rw [if_neg joins, if_neg joins, ih, List.append_assoc]
        rfl

theorem merge_eq (aliases : List CopyAlias) :
    mergeCopyAliases aliases = mergeSorted (aliases.insertionSort (· ≤ ·)) := by
  rw [mergeCopyAliases]
  cases aliases.insertionSort (· ≤ ·) with
  | nil => rfl
  | cons first rest => exact foldl_mergeStep [] first rest

/-! ## Order -/

/-- The runs begin in order. -/
abbrev Placed (sorted : List CopyAlias) : Prop := sorted.Pairwise fun a b => a.place ≤ b.place

theorem Placed.join (placed : Placed (last :: item :: rest)) : Placed (join last item :: rest) :=
  List.pairwise_cons.mpr
    ⟨fun x mem => (List.pairwise_cons.mp placed).1 x (List.mem_cons_of_mem _ mem),
      (List.pairwise_cons.mp (List.pairwise_cons.mp placed).2).2⟩

theorem Placed.tail (placed : Placed (last :: rest)) : Placed rest := (List.pairwise_cons.mp placed).2

theorem Placed.head (placed : Placed (last :: rest)) (mem : m ∈ rest) : last.place ≤ m.place :=
  (List.pairwise_cons.mp placed).1 m mem

theorem exists_place_of_mem (mem : m ∈ absorb last rest) : ∃ x ∈ last :: rest, m.place = x.place := by
  induction rest generalizing last with
  | nil => exact ⟨last, List.mem_singleton_self last, by rw [List.mem_singleton.mp mem]⟩
  | cons item rest ih =>
      rw [absorb] at mem
      by_cases joins : Joins last item
      · rw [if_pos joins] at mem
        obtain ⟨x, known, same⟩ := ih mem
        rcases List.mem_cons.mp known with rfl | known
        · exact ⟨last, List.mem_cons_self, same⟩
        · exact ⟨x, List.mem_cons_of_mem _ (List.mem_cons_of_mem _ known), same⟩
      · rw [if_neg joins] at mem
        rcases List.mem_cons.mp mem with rfl | mem
        · exact ⟨m, List.mem_cons_self, rfl⟩
        · obtain ⟨x, known, same⟩ := ih mem
          exact ⟨x, List.mem_cons_of_mem _ known, same⟩

/-- A run that does not join begins after it. -/
theorem place_lt_of_not_joins (placed : Placed (last :: item :: rest)) (apart : ¬Joins last item)
    (mem : m ∈ absorb item rest) : last.place < m.place := by
  have first : last.place < item.place :=
    lt_of_le_of_ne (placed.head List.mem_cons_self) fun same => apart (joins_of_place same)
  obtain ⟨x, known, same⟩ := exists_place_of_mem mem
  rw [same]
  rcases List.mem_cons.mp known with rfl | known
  · exact first
  · exact first.trans_le (placed.tail.head known)

theorem absorb_ordered (placed : Placed (last :: rest)) :
    (absorb last rest).Pairwise fun a b => a.place < b.place := by
  induction rest generalizing last with
  | nil => exact List.pairwise_singleton _ _
  | cons item rest ih =>
      rw [absorb]
      by_cases joins : Joins last item
      · rw [if_pos joins]
        exact ih placed.join
      · rw [if_neg joins]
        exact List.pairwise_cons.mpr ⟨fun m mem => place_lt_of_not_joins placed joins mem, ih placed.tail⟩

/-! ## What the pass leaves is not joined again -/

theorem exists_absorb_cons (last : CopyAlias) (rest : List CopyAlias) :
    ∃ head tail, absorb last rest = head :: tail ∧ head.place = last.place := by
  induction rest generalizing last with
  | nil => exact ⟨last, [], rfl, rfl⟩
  | cons item rest ih =>
      rw [absorb]
      by_cases joins : Joins last item
      · rw [if_pos joins]
        exact ih (join last item)
      · rw [if_neg joins]
        exact ⟨last, _, rfl, rfl⟩

theorem not_joins_congr (same : a.place = b.place) (apart : ¬Joins last b) : ¬Joins last a := by
  obtain ⟨execution, delta⟩ := same_base same
  rintro ⟨equal, under⟩
  exact apart ⟨delta ▸ equal, execution ▸ under⟩

abbrev Unjoined (merged : List CopyAlias) : Prop := merged.IsChain fun a b => ¬Joins a b

theorem absorb_unjoined (last : CopyAlias) (rest : List CopyAlias) : Unjoined (absorb last rest) := by
  induction rest generalizing last with
  | nil => exact List.isChain_singleton _
  | cons item rest ih =>
      rw [absorb]
      by_cases joins : Joins last item
      · rw [if_pos joins]
        exact ih _
      · rw [if_neg joins]
        have chain := ih item
        obtain ⟨head, tail, shape, same⟩ := exists_absorb_cons item rest
        rw [shape] at chain ⊢
        exact List.isChain_cons_cons.mpr ⟨not_joins_congr same joins, chain⟩

theorem absorb_of_unjoined (chain : Unjoined (last :: rest)) : absorb last rest = last :: rest := by
  induction rest generalizing last with
  | nil => rfl
  | cons item rest ih =>
      obtain ⟨apart, tail⟩ := List.isChain_cons_cons.mp chain
      rw [absorb, if_neg apart, ih tail]

theorem mergeSorted_of_unjoined {merged : List CopyAlias} (chain : Unjoined merged) : mergeSorted merged = merged := by
  cases merged with
  | nil => rfl
  | cons first rest => exact absorb_of_unjoined chain

theorem merge_ordered (aliases : List CopyAlias) :
    (mergeCopyAliases aliases).Pairwise fun a b => a.place < b.place := by
  have sorted := List.pairwise_insertionSort (α := CopyAlias) (· ≤ ·) aliases
  rw [merge_eq]
  cases shape : aliases.insertionSort (· ≤ ·) with
  | nil => exact List.Pairwise.nil
  | cons first rest =>
      rw [shape] at sorted
      exact absorb_ordered (sorted.imp place_le_of_le)

theorem merge_sorted (aliases : List CopyAlias) : (mergeCopyAliases aliases).Pairwise (· ≤ ·) :=
  (merge_ordered aliases).imp fun before => (lt_of_place_lt before).le

theorem merge_unjoined (aliases : List CopyAlias) : Unjoined (mergeCopyAliases aliases) := by
  rw [merge_eq]
  cases aliases.insertionSort (· ≤ ·) with
  | nil => exact List.isChain_nil
  | cons first rest => exact absorb_unjoined first rest

theorem merge_merge (aliases : List CopyAlias) :
    mergeCopyAliases (mergeCopyAliases aliases) = mergeCopyAliases aliases := by
  rw [merge_eq (mergeCopyAliases aliases), (merge_sorted aliases).insertionSort_eq,
    mergeSorted_of_unjoined (merge_unjoined aliases)]

theorem merge_perm {other : List CopyAlias} (perm : other.Perm aliases) :
    mergeCopyAliases other = mergeCopyAliases aliases := by
  have same : other.insertionSort (· ≤ ·) = aliases.insertionSort (· ≤ ·) :=
    ((List.perm_insertionSort _ other).trans (perm.trans (List.perm_insertionSort _ aliases).symm)).eq_of_pairwise
      (fun _ _ _ _ le ge => le_antisymm le ge)
      (List.pairwise_insertionSort _ other) (List.pairwise_insertionSort _ aliases)
  rw [merge_eq, merge_eq, same]

/-! ## Lengths that fit -/

/-- No join of the pass loses a bit of the length. -/
def Exact (last : CopyAlias) : List CopyAlias → Prop
  | [] => True
  | item :: rest =>
      if Joins last item then
        max last.lastEnd item.lastEnd - last.execution.toNat < 2 ^ 32 ∧ Exact (join last item) rest
      else Exact item rest

/-- The pairs that a list of aliases covers. -/
def Covered (aliases : List CopyAlias) (e s : ℕ) : Prop := ∃ a ∈ aliases, a.Pairs e s

theorem covered_cons : Covered (a :: aliases) e s ↔ a.Pairs e s ∨ Covered aliases e s := by
  simp [Covered]

theorem pairs_join (placed : last.place ≤ item.place) (joins : Joins last item)
    (fits : max last.lastEnd item.lastEnd - last.execution.toNat < 2 ^ 32) :
    (join last item).Pairs e s ↔ last.Pairs e s ∨ item.Pairs e s := by
  have order := execution_le placed
  obtain ⟨same, under⟩ := joins
  rw [pairs_iff, pairs_iff, pairs_iff, lastEnd_join fits, delta_join, execution_join, same, lt_max_iff]
  constructor
  · rintro ⟨above, before | before, delta⟩
    · exact Or.inl ⟨above, before, delta⟩
    · rcases Nat.lt_or_ge e last.lastEnd with earlier | later
      · exact Or.inl ⟨above, earlier, delta⟩
      · exact Or.inr ⟨under.trans later, before, delta⟩
  · rintro (⟨above, before, delta⟩ | ⟨above, before, delta⟩)
    · exact ⟨above, Or.inl before, delta⟩
    · exact ⟨order.trans above, Or.inr before, delta⟩

theorem covered_join (placed : last.place ≤ item.place) (joins : Joins last item)
    (fits : max last.lastEnd item.lastEnd - last.execution.toNat < 2 ^ 32) :
    Covered (join last item :: rest) e s ↔ Covered (last :: item :: rest) e s := by
  rw [covered_cons, covered_cons, covered_cons, pairs_join placed joins fits, or_assoc]

theorem covered_absorb (placed : Placed (last :: rest)) (fitting : Exact last rest) :
    Covered (absorb last rest) e s ↔ Covered (last :: rest) e s := by
  induction rest generalizing last with
  | nil => rfl
  | cons item rest ih =>
      rw [Exact] at fitting
      rw [absorb]
      by_cases joins : Joins last item
      · rw [if_pos joins] at fitting ⊢
        rw [ih placed.join fitting.2, covered_join (placed.head List.mem_cons_self) joins fitting.1]
      · rw [if_neg joins] at fitting ⊢
        rw [covered_cons, ih placed.tail fitting, ← covered_cons]

/-! ## Lengths that do not -/

theorem lastEnd_lt (a : CopyAlias) : a.lastEnd < a.execution.toNat + 2 ^ 32 :=
  Nat.add_lt_add_left a.length.isLt _

/-- A join whose length does not fit ends before its second part begins. -/
theorem join_before (joins : Joins last item) (lost : ¬max last.lastEnd item.lastEnd - last.execution.toNat < 2 ^ 32) :
    last.execution.toNat < item.execution.toNat ∧ (join last item).lastEnd < item.execution.toNat ∧
      last.execution.toNat + 2 ^ 32 ≤ item.lastEnd := by
  have first := lastEnd_lt last
  have second := lastEnd_lt item
  have under := joins.2
  have reach : max last.lastEnd item.lastEnd = item.lastEnd := by omega
  rw [reach] at lost
  have wrapped : (item.lastEnd - last.execution.toNat) % 2 ^ 32 = item.lastEnd - last.execution.toNat - 2 ^ 32 := by
    rw [Nat.mod_eq_sub_mod (by omega), Nat.mod_eq_of_lt (by omega)]
  have ends : (join last item).lastEnd = last.execution.toNat + (item.lastEnd - last.execution.toNat - 2 ^ 32) := by
    rw [CopyAlias.lastEnd, join, BitVec.toNat_ofNat, reach, wrapped]
  omega

/-- A run that ends before the rest begins stays as it is. -/
theorem absorb_of_before (before : ∀ x ∈ rest, last.lastEnd < x.execution.toNat) :
    absorb last rest = last :: mergeSorted rest := by
  cases rest with
  | nil => rfl
  | cons item rest =>
      have apart : ¬Joins last item := fun joins => absurd joins.2 (Nat.not_le_of_lt (before item List.mem_cons_self))
      rw [absorb, if_neg apart]
      rfl

theorem exists_place_of_mem_mergeSorted (mem : m ∈ mergeSorted rest) : ∃ x ∈ rest, m.place = x.place := by
  cases rest with
  | nil => exact absurd mem List.not_mem_nil
  | cons first rest => exact exists_place_of_mem mem

/-- Where a length does not fit, a covered pair is lost, or it is covered by a run that touches
another one. -/
theorem lost_of_not_exact (placed : Placed (last :: rest)) (lost : ¬Exact last rest) :
    ∃ e s, Covered (last :: rest) e s ∧ ∃ n ∈ absorb last rest, last.place ≤ n.place ∧ n.execution.toNat ≤ e ∧
      (e : ℤ) - s = n.delta ∧ ∀ m ∈ absorb last rest, m.Pairs e s → m.place < n.place := by
  induction rest generalizing last with
  | nil => exact absurd trivial lost
  | cons item rest ih =>
      rw [Exact] at lost
      rw [absorb]
      by_cases joins : Joins last item
      · rw [if_pos joins] at lost ⊢
        have first : last.place ≤ item.place := placed.head List.mem_cons_self
        by_cases fits : max last.lastEnd item.lastEnd - last.execution.toNat < 2 ^ 32
        · obtain ⟨e, s, covered, rest'⟩ := ih placed.join fun fitting => lost ⟨fits, fitting⟩
          exact ⟨e, s, (covered_join first joins fits).mp covered, rest'⟩
        · obtain ⟨after, ends, -⟩ := join_before joins fits
          have under := joins.2
          have later : ∀ x ∈ rest, item.execution.toNat ≤ x.execution.toNat := fun x mem =>
            execution_le (placed.tail.head mem)
          have shape := @absorb_of_before (join last item) _ fun x mem => ends.trans_le (later x mem)
          have origin : last.Pairs (item.execution.toNat - 1)
              (last.source.toNat + (item.execution.toNat - 1 - last.execution.toNat)) := by
            have reach : item.execution.toNat ≤ last.execution.toNat + last.length.toNat := under
            exact ⟨item.execution.toNat - 1 - last.execution.toNat, by omega, by omega, rfl⟩
          refine ⟨_, _, covered_cons.mpr (Or.inl origin), join last item, ?_, le_rfl, ?_, ?_, fun m mem pairs => ?_⟩
          · rw [shape]
            exact List.mem_cons_self
          · exact (pairs_iff.mp origin).1
          · exact (pairs_iff.mp origin).2.2
          · obtain ⟨above, below, -⟩ := pairs_iff.mp pairs
            rw [shape] at mem
            rcases List.mem_cons.mp mem with rfl | mem
            · omega
            · obtain ⟨x, known, same⟩ := exists_place_of_mem_mergeSorted mem
              have begins := (same_base same).1
              have := later x known
              omega
      · rw [if_neg joins] at lost ⊢
        obtain ⟨e, s, covered, n, mem, order, begins, delta, rest'⟩ := ih placed.tail lost
        have before : last.place < n.place := place_lt_of_not_joins placed joins mem
        refine ⟨e, s, covered_cons.mpr (Or.inr covered), n, List.mem_cons_of_mem _ mem, before.le, begins, delta,
          fun m known pairs => ?_⟩
        rcases List.mem_cons.mp known with rfl | known
        · exact before
        · exact rest' m known pairs

/-! ## Runs of one displacement that stand together -/

/-- Past an alias of another displacement, no run of the list touches `last` any more. -/
def Closed (last : CopyAlias) (rest : List CopyAlias) : Prop :=
  rest.Pairwise fun b c => b.delta ≠ last.delta → c.delta = last.delta → last.lastEnd < c.execution.toNat

def Separated : List CopyAlias → Prop
  | [] => True
  | last :: rest => Closed last rest ∧ Separated rest

theorem Closed.join (whole : Closed last (item :: rest)) (tail : Closed item rest) (joins : Joins last item)
    (fits : max last.lastEnd item.lastEnd - last.execution.toNat < 2 ^ 32) : Closed (join last item) rest := by
  have first := (List.pairwise_cons.mp whole).2
  rw [Closed, lastEnd_join fits, delta_join]
  refine (first.and tail).imp fun {b c} both other same => max_lt (both.1 other same) (both.2 ?_ ?_)
  · exact joins.1 ▸ other
  · exact same.trans joins.1.symm

theorem not_touch_of_closed (placed : Placed (last :: item :: rest)) (closed : Closed last (item :: rest))
    (apart : ¬Joins last item) (mem : m ∈ absorb item rest) : ¬last.Touch m := by
  rintro ⟨same, -, under⟩
  obtain ⟨x, known, begins⟩ := exists_place_of_mem mem
  obtain ⟨execution, delta⟩ := same_base begins
  rw [execution] at under
  have order : item.execution.toNat ≤ x.execution.toNat := by
    rcases List.mem_cons.mp known with rfl | later
    · exact le_rfl
    · exact execution_le (placed.tail.head later)
  by_cases one : item.delta = last.delta
  · exact apart ⟨one, order.trans under⟩
  · rcases List.mem_cons.mp known with rfl | later
    · exact one (delta.symm.trans same.symm)
    · have past := (List.pairwise_cons.mp closed).1 x later one (delta.symm.trans same.symm)
      exact Nat.not_le_of_lt past under

theorem absorb_apart (placed : Placed (last :: rest)) (fitting : Exact last rest)
    (separated : Separated (last :: rest)) : (absorb last rest).Pairwise fun a b => ¬a.Touch b := by
  induction rest generalizing last with
  | nil => exact List.pairwise_singleton _ _
  | cons item rest ih =>
      rw [Exact] at fitting
      rw [absorb]
      by_cases joins : Joins last item
      · rw [if_pos joins] at fitting ⊢
        exact ih placed.join fitting.2
          ⟨separated.1.join separated.2.1 joins fitting.1, separated.2.2⟩
      · rw [if_neg joins] at fitting ⊢
        exact List.pairwise_cons.mpr
          ⟨fun m mem => not_touch_of_closed placed separated.1 joins mem, ih placed.tail fitting separated.2⟩

/-- Every run went into a merged run that begins no later. -/
theorem exists_host (placed : Placed (last :: rest)) {x : CopyAlias} (mem : x ∈ last :: rest) :
    ∃ n ∈ absorb last rest, n.delta = x.delta ∧ n.execution.toNat ≤ x.execution.toNat := by
  induction rest generalizing last x with
  | nil => exact ⟨last, List.mem_singleton_self last, by rw [List.mem_singleton.mp mem], by rw [List.mem_singleton.mp mem]⟩
  | cons item rest ih =>
      rw [absorb]
      by_cases joins : Joins last item
      · rw [if_pos joins]
        have host := ih placed.join (@List.mem_cons_self _ (join last item) _)
        rcases List.mem_cons.mp mem with rfl | mem
        · exact host
        rcases List.mem_cons.mp mem with rfl | mem
        · obtain ⟨n, known, delta, begins⟩ := host
          exact ⟨n, known, delta.trans joins.1.symm, begins.trans (execution_le (placed.head List.mem_cons_self))⟩
        · exact ih placed.join (List.mem_cons_of_mem _ mem)
      · rw [if_neg joins]
        rcases List.mem_cons.mp mem with rfl | mem
        · exact ⟨x, List.mem_cons_self, rfl, le_rfl⟩
        · obtain ⟨n, known, begins⟩ := ih placed.tail mem
          exact ⟨n, List.mem_cons_of_mem _ known, begins⟩

theorem separated_of_apart (placed : Placed (last :: rest)) (fitting : Exact last rest)
    (apart : (absorb last rest).Pairwise fun a b => ¬a.Touch b) : Separated (last :: rest) := by
  induction rest generalizing last with
  | nil => exact ⟨List.Pairwise.nil, trivial⟩
  | cons item rest ih =>
      rw [Exact] at fitting
      rw [absorb] at apart
      by_cases joins : Joins last item
      · rw [if_pos joins] at fitting apart
        obtain ⟨closed, tail⟩ := ih placed.join fitting.2 apart
        rw [Closed, lastEnd_join fitting.1, delta_join] at closed
        refine ⟨List.pairwise_cons.mpr ⟨fun c _ other _ => absurd joins.1 other, ?_⟩, ?_, tail⟩
        · exact closed.imp fun far other same => (le_max_left _ _).trans_lt (far other same)
        · refine closed.imp fun {b c} far other same => (le_max_right _ _).trans_lt (far ?_ ?_)
          · exact joins.1 ▸ other
          · exact same.trans joins.1
      · rw [if_neg joins] at fitting apart
        obtain ⟨first, others⟩ := List.pairwise_cons.mp apart
        refine ⟨?_, ih placed.tail fitting others⟩
        rw [Closed]
        refine List.Pairwise.imp_of_mem ?_ (List.pairwise_of_forall fun _ _ => trivial : (item :: rest).Pairwise fun _ _ => True)
        intro b c _ mem _ other same
        obtain ⟨n, known, delta, begins⟩ := exists_host placed.tail mem
        have order := execution_le (place_lt_of_not_joins placed joins known).le
        by_contra close
        refine first n known ⟨same.symm.trans delta.symm, ?_, ?_⟩
        · exact order.trans (Nat.le_add_right _ _)
        · exact begins.trans (Nat.le_of_not_lt close)

end Segarecomp.Genesis.M68kAlias

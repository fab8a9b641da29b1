import Mathlib.Data.Fintype.Card
import Mathlib.Data.Finset.Card
import Mathlib.Logic.Relation

/-! Depth-first search of a finite graph with a stack and a visited set. -/

namespace Segarecomp.Lib.Search

variable {α β : Type*} [DecidableEq α]

theorem unvisited_lt [Fintype α] {visited : Finset α} {a : α} (new : a ∉ visited) :
    (Finset.univ \ insert a visited).card < (Finset.univ \ visited).card := by
  apply Finset.card_lt_card
  rw [Finset.ssubset_iff_of_subset (Finset.sdiff_subset_sdiff subset_rfl (Finset.subset_insert _ _))]
  exact ⟨a, by simp [new], by simp⟩

/-- Pops a node; a node seen for the first time is collected and its successors are pushed in order, so the
last one is popped next. -/
def run [Fintype α] (next : α → List α) (collect : α → β → β) (visited : Finset α) (work : List α) (found : β) :
    Finset α × β :=
  match work with
  | [] => (visited, found)
  | a :: rest =>
    if a ∈ visited then run next collect visited rest found
    else run next collect (insert a visited) ((next a).reverse ++ rest) (collect a found)
termination_by ((Finset.univ \ visited).card, work.length)
decreasing_by
  · exact .right _ (Nat.lt_succ_self _)
  · exact .left _ _ (unvisited_lt ‹_›)

variable [Fintype α]

/-- Reachable in any number of edges. -/
def Reaches (next : α → List α) : α → α → Prop := Relation.ReflTransGen fun a b => b ∈ next a

variable {next : α → List α} {collect : α → β → β} {visited : Finset α} {work : List α} {found : β}

theorem run_keeps {a : α} (member : a ∈ visited) : a ∈ (run next collect visited work found).1 := by
  induction visited, work, found using run.induct next collect with
  | case1 visited found =>
      rw [run]
      exact member
  | case2 visited found b rest old ih =>
      rw [run, if_pos old]
      exact ih member
  | case3 visited found b rest new ih =>
      rw [run, if_neg new]
      exact ih (Finset.mem_insert_of_mem member)

/-- The search visits its worklist. -/
theorem run_queued {a : α} (member : a ∈ work) : a ∈ (run next collect visited work found).1 := by
  induction visited, work, found using run.induct next collect with
  | case1 visited found => exact absurd member List.not_mem_nil
  | case2 visited found b rest old ih =>
      rw [run, if_pos old]
      rcases List.mem_cons.mp member with same | queued
      · exact run_keeps (same ▸ old)
      · exact ih queued
  | case3 visited found b rest new ih =>
      rw [run, if_neg new]
      rcases List.mem_cons.mp member with same | queued
      · exact run_keeps (same ▸ Finset.mem_insert_self b visited)
      · exact ih (List.mem_append_right _ queued)

/-- It is closed under successors of what it visits. -/
theorem run_closed {a b : α} (member : a ∈ (run next collect visited work found).1) (fresh : a ∉ visited)
    (edge : b ∈ next a) : b ∈ (run next collect visited work found).1 := by
  induction visited, work, found using run.induct next collect with
  | case1 visited found =>
      rw [run] at member
      exact absurd member fresh
  | case2 visited found c rest old ih =>
      rw [run, if_pos old] at member ⊢
      exact ih member fresh
  | case3 visited found c rest new ih =>
      rw [run, if_neg new] at member ⊢
      by_cases same : a = c
      · subst same
        exact run_queued (List.mem_append_left _ (List.mem_reverse.mpr edge))
      · exact ih member (by simp [same, fresh])

/-- Everything it visits is reachable from the worklist. -/
theorem run_reachable {a : α} (member : a ∈ (run next collect visited work found).1) :
    a ∈ visited ∨ ∃ b ∈ work, Reaches next b a := by
  induction visited, work, found using run.induct next collect with
  | case1 visited found =>
      rw [run] at member
      exact .inl member
  | case2 visited found b rest old ih =>
      rw [run, if_pos old] at member
      rcases ih member with known | ⟨c, queued, path⟩
      · exact .inl known
      · exact .inr ⟨c, List.mem_cons_of_mem b queued, path⟩
  | case3 visited found b rest new ih =>
      rw [run, if_neg new] at member
      rcases ih member with known | ⟨c, queued, path⟩
      · rcases Finset.mem_insert.mp known with same | known
        · exact .inr ⟨b, List.mem_cons_self .., same ▸ .refl⟩
        · exact .inl known
      · rcases List.mem_append.mp queued with edge | queued
        · exact .inr ⟨b, List.mem_cons_self .., .head (List.mem_reverse.mp edge) path⟩
        · exact .inr ⟨c, List.mem_cons_of_mem b queued, path⟩

/-- From nothing visited, the search visits the reachable nodes. -/
theorem run_visits {a b : α} : b ∈ (run next collect ∅ [a] found).1 ↔ Reaches next a b := by
  constructor
  · intro member
    rcases run_reachable member with none | ⟨c, queued, path⟩
    · exact absurd none (Finset.notMem_empty b)
    · rwa [List.mem_singleton.mp queued] at path
  · intro path
    induction path with
    | refl => exact run_queued (List.mem_singleton_self a)
    | tail _ edge ih => exact run_closed ih (Finset.notMem_empty _) edge

/-- The nodes are collected once each, in the order in which they are visited. -/
theorem run_order (next : α → List α) (collect : α → β → β) (visited : Finset α) (work : List α) (found : β) :
    ∃ order : List α, order.Nodup ∧ (run next collect visited work found).2 = order.foldl (fun found a => collect a found) found ∧
      ∀ a, a ∈ order ↔ a ∈ (run next collect visited work found).1 ∧ a ∉ visited := by
  induction visited, work, found using run.induct next collect with
  | case1 visited found =>
      rw [run]
      exact ⟨[], List.nodup_nil, rfl, fun a => by simp⟩
  | case2 visited found b rest old ih =>
      rw [run, if_pos old]
      exact ih
  | case3 visited found b rest new ih =>
      rw [run, if_neg new]
      obtain ⟨order, once, collected, members⟩ := ih
      have kept : b ∈ (run next collect (insert b visited) ((next b).reverse ++ rest) (collect b found)).1 :=
        run_keeps (Finset.mem_insert_self b visited)
      refine ⟨b :: order, ?_, collected, ?_⟩
      · refine List.nodup_cons.mpr ⟨fun member => ?_, once⟩
        exact ((members b).mp member).2 (Finset.mem_insert_self b visited)
      · intro a
        rw [List.mem_cons, members a, Finset.mem_insert]
        by_cases same : a = b
        · subst same
          simp [kept, new]
        · simp [same]

end Segarecomp.Lib.Search

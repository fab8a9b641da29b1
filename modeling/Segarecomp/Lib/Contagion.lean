import Mathlib.Data.Finset.Card
import Mathlib.Logic.Relation
import Mathlib.Order.Bounds.Basic
import Mathlib.Tactic

/-! The largest set whose members are sound and need members only. What lies outside of it is found backwards from the
flawed elements with a worklist, and each element found takes over the mark of the one it was found from. -/

namespace Segarecomp.Lib.Contagion

open Relation (ReflTransGen)

section Largest

variable {α : Type*} {flawed : α → Prop} {needs : α → α → Prop}

/-- No member is flawed, and what a member needs is a member. -/
structure Supported (flawed : α → Prop) (needs : α → α → Prop) (S : Set α) : Prop where
  sound : ∀ a ∈ S, ¬flawed a
  closed : ∀ a ∈ S, ∀ b, needs a b → b ∈ S

theorem isGreatest_supported :
    IsGreatest {S | Supported flawed needs S} {a | ∀ b, ReflTransGen needs a b → ¬flawed b} := by
  constructor
  · constructor
    · exact fun a member => member a ReflTransGen.refl
    · exact fun a member b edge c path => member c (path.head edge)
  · intro S supported a member b path
    have reached : b ∈ S := by
      induction path with
      | refl => exact member
      | tail _ edge ih => exact supported.closed _ ih _ edge
    exact supported.sound b reached

/-- A smaller relation that loses nothing at elements without a flaw reaches the same flaws. -/
theorem unflawed_congr {smaller : α → α → Prop} (sub : ∀ a b, smaller a b → needs a b)
    (same : ∀ a, ¬flawed a → ∀ b, needs a b → smaller a b) (a : α) :
    (∀ b, ReflTransGen smaller a b → ¬flawed b) ↔ ∀ b, ReflTransGen needs a b → ¬flawed b := by
  constructor
  · intro unflawed b path
    have reached : ReflTransGen smaller a b := by
      induction path with
      | refl => exact ReflTransGen.refl
      | tail _ edge ih => exact ih.tail (same _ (unflawed _ ih) _ edge)
    exact unflawed b reached
  · exact fun unflawed b path => unflawed b (ReflTransGen.mono sub a b path)

end Largest

section Spread

variable {α δ : Type*} [DecidableEq α]

/-- A user of `i` without a mark takes over the mark of `i`, and is queued. -/
def visit (i : α) (state : (α → Option δ) × List α) (u : α) : (α → Option δ) × List α :=
  if (state.1 u).isSome then state else (Function.update state.1 u (state.1 i), u :: state.2)

def spread (users : α → List α) : ℕ → (α → Option δ) × List α → (α → Option δ) × List α
  | 0, state => state
  | _ + 1, (marks, []) => (marks, [])
  | fuel + 1, (marks, i :: work) => spread users fuel ((users i).foldl (visit i) (marks, work))

variable {users : α → List α} {domain : Finset α} {first marks : α → Option δ} {work us : List α} {i a : α}
  {fuel : ℕ}

def unmarked (domain : Finset α) (marks : α → Option δ) : ℕ := (domain.filter fun a => ¬(marks a).isSome).card

/-- What the visits to `us` have done: they mark and queue those without a mark. -/
structure Visits (domain : Finset α) (i : α) (us : List α) (before after : (α → Option δ) × List α) : Prop where
  kept : ∀ a, (before.1 a).isSome → after.1 a = before.1 a
  taken : ∀ a, ¬(before.1 a).isSome → (after.1 a).isSome → a ∈ us ∧ after.1 a = before.1 i
  all : ∀ a ∈ us, (after.1 a).isSome
  queue : ∀ a, a ∈ after.2 ↔ a ∈ before.2 ∨ ¬(before.1 a).isSome ∧ (after.1 a).isSome
  size : after.2.length + unmarked domain after.1 = before.2.length + unmarked domain before.1

theorem unmarked_update {mark : Option δ} (inside : a ∈ domain) (none : ¬(marks a).isSome) (some : mark.isSome) :
    unmarked domain (Function.update marks a mark) + 1 = unmarked domain marks := by
  have erased : (domain.filter fun b => ¬(Function.update marks a mark b).isSome) =
      (domain.filter fun b => ¬(marks b).isSome).erase a := by
    ext b
    rw [Finset.mem_erase, Finset.mem_filter, Finset.mem_filter]
    by_cases same : b = a
    · rw [same, Function.update_self]
      exact ⟨fun left => absurd some left.2, fun left => absurd rfl left.1⟩
    · rw [Function.update_of_ne same]
      exact ⟨fun left => ⟨same, left⟩, fun left => left.2⟩
  rw [unmarked, erased]
  exact Finset.card_erase_add_one (Finset.mem_filter.mpr ⟨inside, none⟩)

theorem foldl_visit (state : (α → Option δ) × List α) (marked : (state.1 i).isSome) (inside : ∀ u ∈ us, u ∈ domain) :
    Visits domain i us state (us.foldl (visit i) state) := by
  induction us generalizing state with
  | nil =>
      constructor
      case kept => exact fun a _ => rfl
      case taken => exact fun a none some => absurd some none
      case all => exact fun a none => absurd none List.not_mem_nil
      case queue => exact fun a => ⟨Or.inl, fun either => either.elim id fun both => absurd both.2 both.1⟩
      case size => rfl
  | cons u us ih =>
      have later : ∀ v ∈ us, v ∈ domain := fun v member => inside v (List.mem_cons_of_mem _ member)
      rw [List.foldl_cons, visit]
      by_cases old : (state.1 u).isSome
      · rw [if_pos old]
        have rest := ih state marked later
        constructor
        case kept => exact rest.kept
        case taken =>
          intro a none some
          exact ⟨List.mem_cons_of_mem _ (rest.taken a none some).1, (rest.taken a none some).2⟩
        case all =>
          intro a member
          rcases List.mem_cons.mp member with rfl | late
          · rw [rest.kept a old]
            exact old
          · exact rest.all a late
        case queue => exact rest.queue
        case size => exact rest.size
      · rw [if_neg old]
        have different : i ≠ u := fun same => old (same ▸ marked)
        have size : unmarked domain (Function.update state.1 u (state.1 i)) + 1 = unmarked domain state.1 :=
          unmarked_update (inside u List.mem_cons_self) old marked
        have self : Function.update state.1 u (state.1 i) u = state.1 i := Function.update_self u _ _
        have others : ∀ a, a ≠ u → Function.update state.1 u (state.1 i) a = state.1 a :=
          fun a apart => Function.update_of_ne apart _ _
        generalize Function.update state.1 u (state.1 i) = marks at *
        have still : marks i = state.1 i := others i different
        have marked' : (marks i).isSome := still.symm ▸ marked
        have known : (marks u).isSome := self.symm ▸ marked
        have rest := ih (marks, u :: state.2) marked' later
        have given : (us.foldl (visit i) (marks, u :: state.2)).1 u = state.1 i := (rest.kept u known).trans self
        constructor
        case kept =>
          intro a some
          have same := others a fun same => old (same ▸ some)
          have some' : (marks a).isSome := same.symm ▸ some
          exact (rest.kept a some').trans same
        case taken =>
          intro a none some
          by_cases same : a = u
          · exact ⟨same ▸ List.mem_cons_self, same ▸ given⟩
          · have none' : ¬(marks a).isSome := (others a same).symm ▸ none
            have both := rest.taken a none' some
            exact ⟨List.mem_cons_of_mem _ both.1, both.2.trans still⟩
        case all =>
          intro a member
          rcases List.mem_cons.mp member with rfl | late
          · exact given.symm ▸ marked
          · exact rest.all a late
        case queue =>
          intro a
          rw [rest.queue a]
          change a ∈ u :: state.2 ∨ ¬(marks a).isSome ∧ _ ↔ _
          by_cases same : a = u
          · rw [same, given]
            exact ⟨fun _ => Or.inr ⟨old, marked⟩, fun _ => Or.inl List.mem_cons_self⟩
          · rw [others a same, List.mem_cons, or_iff_right same]
        case size =>
          have whole : _ + _ = state.2.length + 1 + unmarked domain marks := rest.size
          omega

/-- Marks come along uses from the first marks, and what is marked and no longer queued has marked its users. -/
structure Spreading (users : α → List α) (first : α → Option δ) (state : (α → Option δ) × List α) : Prop where
  own : ∀ a, (first a).isSome → state.1 a = first a
  traced : ∀ a, (state.1 a).isSome → ∃ b, ReflTransGen (fun a b => a ∈ users b) a b ∧ (first b).isSome ∧ state.1 a = first b
  queued : ∀ a ∈ state.2, (state.1 a).isSome
  done : ∀ b, (state.1 b).isSome → b ∉ state.2 → ∀ a ∈ users b, (state.1 a).isSome

theorem Spreading.step (inside : ∀ u ∈ users i, u ∈ domain) (now : Spreading users first (marks, i :: work)) :
    Spreading users first ((users i).foldl (visit i) (marks, work)) := by
  have marked : (marks i).isSome := now.queued i List.mem_cons_self
  have visits := foldl_visit (marks, work) marked inside
  generalize (users i).foldl (visit i) (marks, work) = next at *
  constructor
  case own =>
    intro a some
    have same : marks a = first a := now.own a some
    have some' : (marks a).isSome := same.symm ▸ some
    exact (visits.kept a some').trans same
  case traced =>
    intro a some
    by_cases old : (marks a).isSome
    · rcases now.traced a old with ⟨b, path, mark, same⟩
      exact ⟨b, path, mark, (visits.kept a old).trans same⟩
    · rcases visits.taken a old some with ⟨edge, taken⟩
      rcases now.traced i marked with ⟨b, path, mark, same⟩
      exact ⟨b, path.head edge, mark, taken.trans same⟩
  case queued =>
    intro a member
    rcases (visits.queue a).mp member with waiting | new
    · have old := now.queued a (List.mem_cons_of_mem _ waiting)
      rw [visits.kept a old]
      exact old
    · exact new.2
  case done =>
    intro b some absent a user
    rw [visits.queue b, not_or, not_and] at absent
    have old : (marks b).isSome := by
      by_contra new
      exact absent.2 new some
    by_cases same : b = i
    · exact visits.all a (same ▸ user)
    · have known := now.done b old (fun member => (List.mem_cons.mp member).elim same absent.1) a user
      rw [visits.kept a known]
      exact known

/-- Enough fuel empties the worklist. -/
theorem Spreading.run {state : (α → Option δ) × List α} (inside : ∀ i, ∀ u ∈ users i, u ∈ domain)
    (now : Spreading users first state) (enough : state.2.length + unmarked domain state.1 ≤ fuel) :
    Spreading users first (spread users fuel state) ∧ (spread users fuel state).2 = [] := by
  induction fuel generalizing state with
  | zero =>
      have empty : state.2 = [] := List.length_eq_zero_iff.mp (by omega)
      exact ⟨now, empty⟩
  | succ fuel ih =>
      rcases state with ⟨marks, work⟩
      cases work with
      | nil => exact ⟨now, rfl⟩
      | cons i work =>
          have marked : (marks i).isSome := now.queued i List.mem_cons_self
          have size : _ + _ = work.length + unmarked domain marks := (foldl_visit (marks, work) marked (inside i)).size
          have room : work.length + 1 + unmarked domain marks ≤ fuel + 1 := enough
          rw [spread]
          apply ih (now.step (inside i))
          omega

/-- What stays without a mark does not lead to a first mark, and a mark is a first mark that it leads to. -/
theorem spread_spec (inside : ∀ i, ∀ u ∈ users i, u ∈ domain) (queue : ∀ a, a ∈ work ↔ (first a).isSome)
    (enough : work.length + unmarked domain first ≤ fuel) :
    ∀ a, (¬((spread users fuel (first, work)).1 a).isSome ↔
        ∀ b, ReflTransGen (fun a b => a ∈ users b) a b → ¬(first b).isSome) ∧
      ∀ d, (spread users fuel (first, work)).1 a = some d →
        ∃ b, ReflTransGen (fun a b => a ∈ users b) a b ∧ first b = some d := by
  have start : Spreading users first (first, work) := by
    constructor
    case own => exact fun a _ => rfl
    case traced => exact fun a some => ⟨a, ReflTransGen.refl, some, rfl⟩
    case queued => exact fun a member => (queue a).mp member
    case done => exact fun b some absent => absurd ((queue b).mpr some) absent
  rcases start.run inside enough with ⟨finished, empty⟩
  generalize spread users fuel (first, work) = final at *
  have reached : ∀ a b, ReflTransGen (fun a b => a ∈ users b) a b → (first b).isSome → (final.1 a).isSome := by
    intro a b path mark
    induction path using ReflTransGen.head_induction_on with
    | refl =>
        rw [finished.own b mark]
        exact mark
    | head edge _ ih => exact finished.done _ ih (empty ▸ List.not_mem_nil) _ edge
  intro a
  constructor
  · constructor
    · exact fun clean b path mark => clean (reached a b path mark)
    · intro unflawed some
      rcases finished.traced a some with ⟨b, path, mark, -⟩
      exact unflawed b path mark
  · intro d given
    rcases finished.traced a (given ▸ rfl) with ⟨b, path, -, same⟩
    exact ⟨b, path, same ▸ given⟩

end Spread

end Segarecomp.Lib.Contagion

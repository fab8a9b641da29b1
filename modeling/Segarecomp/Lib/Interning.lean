import Mathlib.Tactic

/-! Names numbered in the order of their first appearance. -/

namespace Segarecomp.Interning

variable {α : Type*} [DecidableEq α]

/-- The map from names to their numbers and the names by number. -/
structure Interned (α : Type*) where
  idOf : List (α × ℕ)
  names : List α

namespace Interned

def empty : Interned α := ⟨[], []⟩

/-- The number of a name, a new one when it has none. -/
def emplace (t : Interned α) (x : α) : Interned α :=
  match t.idOf.lookup x with
  | some _ => t
  | none => ⟨(x, t.names.length) :: t.idOf, t.names ++ [x]⟩

def all (t : Interned α) (xs : List α) : Interned α := xs.foldl emplace t

def id (t : Interned α) (x : α) : ℕ := (t.idOf.lookup x).getD 0

/-- The numbers of a list in its order, each read when its name is met. -/
def numbers (t : Interned α) : List α → Interned α × List ℕ
  | [] => (t, [])
  | x :: xs => (((t.emplace x).numbers xs).1, (t.emplace x).id x :: ((t.emplace x).numbers xs).2)

/-- Every number names what it was given to. -/
def Faithful (t : Interned α) : Prop := ∀ x n, t.idOf.lookup x = some n → t.names[n]? = some x

variable {t : Interned α} {x y : α}

theorem emplace_of_some {n : ℕ} (known : t.idOf.lookup x = some n) : t.emplace x = t := by
  rw [emplace, known]

theorem emplace_of_none (new : t.idOf.lookup x = none) :
    t.emplace x = ⟨(x, t.names.length) :: t.idOf, t.names ++ [x]⟩ := by
  rw [emplace, new]

theorem Faithful.emplace (faithful : t.Faithful) (x : α) : (t.emplace x).Faithful := by
  cases known : t.idOf.lookup x with
  | some n =>
      rw [emplace_of_some known]
      exact faithful
  | none =>
      rw [emplace_of_none known]
      intro y n is
      dsimp only at is ⊢
      rw [List.lookup_cons] at is
      by_cases same : y = x
      · subst same
        rw [beq_self_eq_true] at is
        cases Option.some.inj is
        exact List.getElem?_concat_length
      · rw [beq_false_of_ne same] at is
        have old := faithful y n is
        rw [List.getElem?_append_left (List.getElem?_eq_some_iff.mp old).1]
        exact old

theorem known_emplace_self : (t.emplace x).idOf.lookup x ≠ none := by
  cases known : t.idOf.lookup x with
  | some n =>
      rw [emplace_of_some known, known]
      exact Option.some_ne_none n
  | none =>
      rw [emplace_of_none known]
      dsimp only
      rw [List.lookup_cons, beq_self_eq_true]
      exact Option.some_ne_none _

theorem known_emplace (known : t.idOf.lookup y ≠ none) : (t.emplace x).idOf.lookup y ≠ none := by
  cases is : t.idOf.lookup x with
  | some n => rwa [emplace_of_some is]
  | none =>
      rw [emplace_of_none is]
      dsimp only
      rw [List.lookup_cons]
      by_cases same : y = x
      · subst same
        exact absurd is known
      · rwa [beq_false_of_ne same]

theorem length_emplace_le (x : α) : (t.emplace x).names.length ≤ t.names.length + 1 := by
  cases known : t.idOf.lookup x with
  | some n =>
      rw [emplace_of_some known]
      omega
  | none =>
      rw [emplace_of_none known]
      exact List.length_append.le

theorem all_cons (xs : List α) : t.all (x :: xs) = (t.emplace x).all xs := rfl

theorem Faithful.all (faithful : t.Faithful) (xs : List α) : (t.all xs).Faithful := by
  induction xs generalizing t with
  | nil => exact faithful
  | cons x xs ih => exact ih (faithful.emplace x)

theorem known_all_of_known {xs : List α} (known : t.idOf.lookup y ≠ none) : (t.all xs).idOf.lookup y ≠ none := by
  induction xs generalizing t with
  | nil => exact known
  | cons x xs ih => exact ih (known_emplace known)

theorem known_all {xs : List α} (is : y ∈ xs) : (t.all xs).idOf.lookup y ≠ none := by
  induction xs generalizing t with
  | nil => exact absurd is List.not_mem_nil
  | cons x xs ih =>
      rcases List.mem_cons.mp is with rfl | later
      · exact @known_all_of_known _ _ (t.emplace y) y xs known_emplace_self
      · exact ih later

theorem length_all_le (xs : List α) : (t.all xs).names.length ≤ t.names.length + xs.length := by
  induction xs generalizing t with
  | nil => exact le_rfl
  | cons x xs ih =>
      have step := @length_emplace_le _ _ t x
      have rest := @ih (t.emplace x)
      rw [all_cons, List.length_cons]
      omega

/-- A name keeps the number it was given. -/
theorem id_emplace (known : t.idOf.lookup y ≠ none) : (t.emplace x).id y = t.id y := by
  cases is : t.idOf.lookup x with
  | some n => rw [emplace_of_some is]
  | none =>
      have other : y ≠ x := by
        rintro rfl
        exact known is
      rw [emplace_of_none is, id, id]
      dsimp only
      rw [List.lookup_cons, beq_false_of_ne other]

theorem id_all {xs : List α} (known : t.idOf.lookup y ≠ none) : (t.all xs).id y = t.id y := by
  induction xs generalizing t with
  | nil => rfl
  | cons x xs ih => rw [all_cons, ih (known_emplace known), id_emplace known]

theorem numbers_eq (t : Interned α) (xs : List α) : t.numbers xs = (t.all xs, xs.map (t.all xs).id) := by
  induction xs generalizing t with
  | nil => rfl
  | cons x xs ih =>
      rw [numbers, ih, all_cons, List.map_cons, id_all known_emplace_self]

theorem faithful_empty : (empty : Interned α).Faithful := fun _ _ is => absurd is.symm (Option.some_ne_none _)

theorem names_id {xs : List α} (is : y ∈ xs) : (empty.all xs).names[(empty.all xs).id y]? = some y := by
  have known : (empty.all xs).idOf.lookup y ≠ none := known_all is
  obtain ⟨n, found⟩ := Option.ne_none_iff_exists'.mp known
  rw [id, found]
  exact faithful_empty.all xs y n found

theorem length_names_le (xs : List α) : (empty.all xs).names.length ≤ xs.length := by
  have le := @length_all_le _ _ (empty : Interned α) xs
  change _ ≤ 0 + xs.length at le
  omega

/-- Names that are all different are numbered by their places. -/
theorem names_all_of_nodup {xs : List α} (different : xs.Nodup) (new : ∀ x ∈ xs, t.idOf.lookup x = none) :
    (t.all xs).names = t.names ++ xs := by
  induction xs generalizing t with
  | nil => exact (List.append_nil _).symm
  | cons x xs ih =>
      obtain ⟨fresh, rest⟩ := List.nodup_cons.mp different
      have first := new x List.mem_cons_self
      rw [all_cons, ih rest, emplace_of_none first, List.append_assoc]
      · rfl
      · intro y is
        have other : y ≠ x := by
          rintro rfl
          exact fresh is
        rw [emplace_of_none first]
        dsimp only
        rw [List.lookup_cons, beq_false_of_ne other]
        exact new y (List.mem_cons_of_mem x is)

theorem id_of_nodup {xs : List α} (different : xs.Nodup) {i : ℕ} (is : xs[i]? = some y) : (empty.all xs).id y = i := by
  have names : (empty.all xs).names = xs := names_all_of_nodup different fun _ _ => rfl
  have named := names_id (List.mem_of_getElem? is)
  rw [names] at named
  obtain ⟨inside, at_id⟩ := List.getElem?_eq_some_iff.mp named
  obtain ⟨within, at_i⟩ := List.getElem?_eq_some_iff.mp is
  exact (List.Nodup.getElem_inj_iff different).mp (at_id.trans at_i.symm)

end Interned

end Segarecomp.Interning

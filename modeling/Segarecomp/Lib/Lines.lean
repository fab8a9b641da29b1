import Mathlib.Data.List.Basic
import Mathlib.Tactic

/-! Text as lines and separated fields. -/

namespace Segarecomp.Lib.Lines

/-- The lines of a text; a final line feed starts no further line. -/
def lines (text : List Char) : List (List Char) :=
  let parts := text.splitOn '\n'
  if parts.getLast? = some [] then parts.dropLast else parts

theorem splitOn_flatMap {parts : List (List Char)} (clean : ∀ line ∈ parts, '\n' ∉ line) :
    (parts.flatMap (· ++ ['\n'])).splitOn '\n' = parts ++ [[]] := by
  induction parts with
  | nil => rfl
  | cons line parts ih =>
      have rest := ih fun other mem => clean other (List.mem_cons_of_mem _ mem)
      have first : '\n' ∉ line := clean line List.mem_cons_self
      calc
        ((line :: parts).flatMap (· ++ ['\n'])).splitOn '\n' =
            (line ++ '\n' :: parts.flatMap (· ++ ['\n'])).splitOn '\n' := by
          rw [List.flatMap_cons, List.append_assoc]
          rfl
        _ = line :: (parts.flatMap (· ++ ['\n'])).splitOn '\n' :=
          List.splitOn_append_cons_self_of_not_mem first _
        _ = line :: parts ++ [[]] := by rw [rest, List.cons_append]

/-- Lines that are each ended by a line feed are read back. -/
theorem lines_flatMap {parts : List (List Char)} (clean : ∀ line ∈ parts, '\n' ∉ line) :
    lines (parts.flatMap (· ++ ['\n'])) = parts := by
  simp [lines, splitOn_flatMap clean]

/-- The lines of a text of which each is ended by a line feed; `line` is the one begun. -/
def terminatedFrom (line : List Char) : List Char → Option (List (List Char))
  | [] => if line = [] then some [] else none
  | c :: rest => if c = '\n' then (terminatedFrom [] rest).map (line :: ·) else terminatedFrom (line ++ [c]) rest

def terminated (text : List Char) : Option (List (List Char)) := terminatedFrom [] text

theorem terminatedFrom_line {line part : List Char} (rest : List Char) (clean : '\n' ∉ part) :
    terminatedFrom line (part ++ '\n' :: rest) = (terminated rest).map ((line ++ part) :: ·) := by
  induction part generalizing line with
  | nil => rw [List.nil_append, terminatedFrom, if_pos rfl, List.append_nil, terminated]
  | cons c part ih =>
      have here : c ≠ '\n' := fun same => clean (same ▸ List.mem_cons_self)
      rw [List.cons_append, terminatedFrom, if_neg here, ih fun later => clean (List.mem_cons_of_mem _ later),
        List.append_assoc, List.singleton_append]

theorem terminated_flatMap {parts : List (List Char)} (clean : ∀ line ∈ parts, '\n' ∉ line) :
    terminated (parts.flatMap (· ++ ['\n'])) = some parts := by
  induction parts with
  | nil => rfl
  | cons line parts ih =>
      have rest := ih fun other mem => clean other (List.mem_cons_of_mem _ mem)
      have first : terminatedFrom [] (line ++ '\n' :: parts.flatMap (· ++ ['\n'])) = _ :=
        terminatedFrom_line _ (clean line List.mem_cons_self)
      rw [rest] at first
      rw [List.flatMap_cons, List.append_assoc]
      exact first

theorem terminatedFrom_eq_some {line text : List Char} {parts : List (List Char)}
    (taken : terminatedFrom line text = some parts) : line ++ text = parts.flatMap (· ++ ['\n']) := by
  induction text generalizing line parts with
  | nil =>
      rw [terminatedFrom] at taken
      split_ifs at taken with empty
      rw [← Option.some.inj taken, empty]
      rfl
  | cons c text ih =>
      rw [terminatedFrom] at taken
      split_ifs at taken with ended
      · rcases Option.map_eq_some_iff.mp taken with ⟨others, went, rfl⟩
        have rest := ih went
        rw [List.nil_append] at rest
        rw [List.flatMap_cons, List.append_assoc, ← rest, ended]
        rfl
      · rw [← ih taken, List.append_assoc, List.singleton_append]

theorem terminated_eq_some {text : List Char} {parts : List (List Char)} (taken : terminated text = some parts) :
    text = parts.flatMap (· ++ ['\n']) :=
  terminatedFrom_eq_some taken

theorem mem_intercalate {sep c : Char} {parts : List (List Char)}
    (h : c ∈ [sep].intercalate parts) : c = sep ∨ ∃ part ∈ parts, c ∈ part := by
  induction parts with
  | nil => cases h
  | cons part parts ih =>
      cases parts with
      | nil =>
          rw [List.intercalate_singleton] at h
          exact .inr ⟨part, List.mem_cons_self, h⟩
      | cons next parts =>
          rw [List.intercalate_cons_cons, List.mem_append, List.mem_append] at h
          rcases h with (mem | mem) | mem
          · exact .inr ⟨part, List.mem_cons_self, mem⟩
          · exact .inl (List.mem_singleton.mp mem)
          · exact (ih mem).imp_right fun ⟨other, present, mem⟩ =>
              ⟨other, List.mem_cons_of_mem _ present, mem⟩

/-- A separator of another class of characters does not occur in a field. -/
theorem not_mem_field {s : List Char} {sep : Char} (plain : ∀ c ∈ s, c.isAlphanum = true)
    (h : sep.isAlphanum = false) : sep ∉ s := by
  intro mem
  have := plain sep mem
  rw [h] at this
  cases this

end Segarecomp.Lib.Lines

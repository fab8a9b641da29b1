import Segarecomp.Z80.RuntimeRun

/-! `z80_run` starts no instruction at or after its deadline. -/

namespace Segarecomp.Z80.Runtime

variable {H C α : Type} {program : Program C} {host : Z80Host H C} {d : ℕ}

/-- What ran so far began before cycle `d`, and nothing else can begin later. -/
structure StartsBefore (d : ℕ) (before after : Z80Runtime H) : Prop where
  deadline : after.state.deadline ≤ d
  starts : ∃ later, after.observed = before.observed ++ later ∧ ∀ start ∈ later, start.cycles < d

variable {before rt : Z80Runtime H}

theorem StartsBefore.same {after : Z80Runtime H} (starts : StartsBefore d before rt)
    (observed : after.observed = rt.observed) (deadline : after.state.deadline ≤ rt.state.deadline) :
    StartsBefore d before after := by
  rcases starts.starts with ⟨later, shape, early⟩
  exact ⟨deadline.trans starts.deadline, later, observed.trans shape, early⟩

theorem StartsBefore.begin (starts : StartsBefore d before rt) (early : rt.state.cycles < d) :
    StartsBefore d before (z80OwnerStart rt) := by
  rcases starts.starts with ⟨later, shape, earlier⟩
  refine ⟨starts.deadline, later ++ [⟨rt.state.pc, rt.state.cycles, rt.state.intLine⟩], ?_, ?_⟩
  · calc
      (z80OwnerStart rt).observed = rt.observed ++ [⟨rt.state.pc, rt.state.cycles, rt.state.intLine⟩] := rfl
      _ = before.observed ++ (later ++ [⟨rt.state.pc, rt.state.cycles, rt.state.intLine⟩]) := by
        rw [shape, List.append_assoc]
  · intro start member
    rcases List.mem_append.mp member with old | new
    · exact earlier start old
    · rw [List.mem_singleton.mp new]
      exact early

theorem Bus.run_deadline (host : Z80Host H C) (b : Bus α) :
    ∀ rt : Z80Runtime H, (b.run host rt).2.state.deadline ≤ rt.state.deadline := by
  induction b with
  | done _ => exact fun rt => le_rfl
  | access request next ih =>
    intro rt
    let reply := host.serve rt.host rt.state.cycles request
    have lowered : (reply.apply rt).state.deadline ≤ rt.state.deadline := by
      change (if reply.stop then 0 else rt.state.deadline) ≤ rt.state.deadline
      split_ifs
      · exact Nat.zero_le _
      · exact le_rfl
    exact (ih reply.value (reply.apply rt)).trans lowered

theorem StartsBefore.perform (starts : StartsBefore d before rt) (body : Instruction) :
    StartsBefore d before (perform host rt body) :=
  starts.same (perform_observed body rt) (Bus.run_deadline host (body rt.state.toCore) rt)

theorem StartsBefore.acceptInt (starts : StartsBefore d before rt) :
    StartsBefore d before (z80AcceptInt host rt).2 := by
  have lowered := Bus.run_deadline host (intResponse rt.state.toCore) rt
  refine starts.same (acceptInt_observed host rt).2 ?_
  rw [z80AcceptInt]
  cases answer : (intResponse rt.state.toCore).run host rt with
  | mk result last =>
    rw [answer] at lowered
    cases result <;> exact lowered

variable (host) in
theorem StartsBefore.boundary (starts : StartsBefore d before rt) :
    StartsBefore d before (z80Boundary host rt).2 ∧
      ((z80Boundary host rt).1 = .enter → (z80Boundary host rt).2.state.cycles < d) := by
  have bound := starts.deadline
  rw [z80Boundary]
  dsimp only
  split_ifs
  · exact ⟨starts.same rfl le_rfl, by simp⟩
  · exact ⟨starts, fun _ => by change rt.state.cycles < d; omega⟩
  · exact ⟨starts.same rfl le_rfl, by simp⟩
  · exact ⟨starts.same rfl le_rfl, fun _ => by change rt.state.cycles < d; omega⟩
  · let taken : Z80Runtime H := { rt with state := { rt.state with nmiPending := false, nmiReject := true } }
    have opened : StartsBefore d before taken := starts.same rfl le_rfl
    exact ⟨opened.perform nmiResponse, by simp⟩
  · exact ⟨starts.acceptInt, fun enter => absurd enter (acceptInt_observed host rt).1⟩
  · exact ⟨starts.same rfl le_rfl, by simp⟩
  · exact ⟨starts, fun _ => by change rt.state.cycles < d; omega⟩

theorem StartsBefore.dispatch (starts : StartsBefore d before rt) (early : rt.state.cycles < d) :
    StartsBefore d before (z80Dispatch program host rt) := by
  have begun := starts.begin early
  rw [z80Dispatch]
  cases program.entry (host.code rt.host) rt.state.pc with
  | reject e => exact starts.same rfl le_rfl
  | stub live e =>
    dsimp only
    split_ifs
    · exact starts
    · exact starts.same rfl le_rfl
    · exact begun.same rfl le_rfl
  | lock =>
    dsimp only [z80LockEnter]
    split_ifs
    · exact starts.same rfl le_rfl
    · exact starts
    · exact starts
    · exact begun.same rfl le_rfl
  | instr body =>
    dsimp only
    split_ifs
    · exact starts
    · exact begun.perform body

variable (program host) in
theorem StartsBefore.turn (starts : StartsBefore d before rt) :
    StartsBefore d before (z80Turn program host rt).1 := by
  rcases starts.boundary host with ⟨kept, enter⟩
  rw [z80Turn]
  cases boundary : z80Boundary host rt with
  | mk answer last =>
    rw [boundary] at kept enter
    cases answer with
    | leave => exact kept
    | again => exact kept
    | enter => exact kept.dispatch (enter rfl)

theorem StartsBefore.loop (fuel : ℕ) : ∀ rt : Z80Runtime H, StartsBefore d before rt →
    StartsBefore d before (z80Loop program host fuel rt) := by
  induction fuel with
  | zero => exact fun rt starts => starts
  | succ fuel ih =>
    intro rt starts
    have turned := starts.turn program host
    rw [z80Loop]
    cases turn : z80Turn program host rt with
    | mk last go =>
      rw [turn] at turned
      cases go with
      | true => exact ih last turned
      | false => exact turned

variable (program host) in
theorem z80Run_starts (rt : Z80Runtime H) (d : ℕ) : StartsBefore d rt (z80Run program host rt d) :=
  StartsBefore.loop _ _ ⟨le_rfl, [], (List.append_nil _).symm, fun _ none => absurd none List.not_mem_nil⟩

/-! ## What a whole run keeps -/

section Keeps

variable {P : H → Bool → ℕ → Prop}

variable (program) in
/-- A property that callbacks and the passing of cycles keep outlasts a run. -/
theorem KeptBy.loop (kept : KeptBy host P) (later : ∀ h level c e, P h level c → c ≤ e → P h level e) (fuel : ℕ) :
    ∀ rt : Z80Runtime H, P rt.host rt.state.intLine rt.state.cycles →
      P (z80Loop program host fuel rt).host (z80Loop program host fuel rt).state.intLine
        (z80Loop program host fuel rt).state.cycles := by
  induction fuel with
  | zero => exact fun rt start => start
  | succ fuel ih =>
    intro rt start
    have turned : P (z80Turn program host rt).1.host (z80Turn program host rt).1.state.intLine
        (z80Turn program host rt).1.state.cycles := by
      rcases kept.turn program host rt start with ⟨c, passed, at_⟩
      exact later _ _ _ _ at_ passed
    rw [z80Loop]
    cases turn : z80Turn program host rt with
    | mk last go =>
      rw [turn] at turned
      cases go with
      | true => exact ih last turned
      | false => exact turned

end Keeps

end Segarecomp.Z80.Runtime

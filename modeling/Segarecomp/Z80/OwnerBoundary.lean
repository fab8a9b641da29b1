import Segarecomp.Z80.RuntimeRun

/-! The inlined prologue of an owner against the boundary of the dispatcher: what one lets through the other
does, and the two cannot keep handing the processor to each other. -/

namespace Segarecomp.Z80.Runtime

variable {H C : Type} {program : Program C} {host : Z80Host H C} {rt : Z80Runtime H}

/-- Within `rounds` turns of the dispatcher an instruction begins or the run returns. -/
def Settles (program : Program C) (host : Z80Host H C) : ℕ → Z80Runtime H → Prop
  | 0, _ => False
  | rounds + 1, rt =>
    (z80Turn program host rt).2 = false ∨ (z80Turn program host rt).1.observed ≠ rt.observed ∨
      Settles program host rounds (z80Turn program host rt).1

theorem Settles.mono {m n : ℕ} (settles : Settles program host m rt) (le : m ≤ n) : Settles program host n rt := by
  induction m generalizing n rt with
  | zero => exact absurd settles id
  | succ m ih =>
      obtain ⟨n, rfl⟩ := Nat.exists_eq_add_of_le' (Nat.one_le_of_lt le)
      rcases settles with ended | begun | next
      · exact .inl ended
      · exact .inr (.inl begun)
      · exact .inr (.inr (ih next (by omega)))

/-! ## One boundary -/

theorem ownerBoundary_open :
    z80OwnerBoundary rt.state = false ↔
      rt.state.cycles < rt.state.deadline ∧ rt.state.nmiPending = false ∧ rt.state.nmiReject = false ∧
        intAsserted rt.state = false := by
  simp only [z80OwnerBoundary, intAsserted, Bool.or_eq_false_iff, decide_eq_false_iff_not, Nat.not_le, and_assoc]

/-- Away from HALT and prefix runs, the prologue lets through what the boundary passes unchanged. -/
theorem ownerBoundary_iff (running : rt.state.halted = false) (outside : rt.state.inPrefixRun = false) :
    z80OwnerBoundary rt.state = false ↔ z80Boundary host rt = (.enter, rt) := by
  rw [ownerBoundary_open]
  constructor
  · rintro ⟨early, pending, reject, low⟩
    unfold intAsserted at low
    simp [z80Boundary, running, outside, pending, reject, low, Nat.not_le.mpr early]
  · intro passed
    rw [z80Boundary] at passed
    dsimp only at passed
    split at passed
    · simp at passed
    · rename_i early
      rw [outside, if_neg Bool.false_ne_true] at passed
      split at passed
      · rename_i reject
        rw [running, if_neg Bool.false_ne_true] at passed
        have same := congrArg (fun result => result.2.state.nmiReject) passed
        simp [reject] at same
      · rename_i reject
        split at passed
        · simp at passed
        · rename_i pending
          split at passed
          · have enter := congrArg Prod.fst passed
            exact absurd enter (acceptInt_observed host rt).1
          · rename_i low
            exact ⟨Nat.lt_of_not_le early, by simpa using pending, by simpa using reject, by simpa [intAsserted] using low⟩

variable (host) in
theorem boundary_passes (early : rt.state.cycles < rt.state.deadline) (outside : rt.state.inPrefixRun = false)
    (quiet : Quiet rt.state) :
    z80Boundary host rt = if rt.state.halted then (.leave, z80HaltRun rt.passed) else (.enter, rt.passed) := by
  cases reject : rt.state.nmiReject with
  | true => simp [z80Boundary, Z80Runtime.passed, outside, reject, Nat.not_le.mpr early]
  | false =>
      obtain ⟨none, low⟩ := quiet.resolve_left (by simp [reject])
      have same := passed_eq reject none
      simp only [intAsserted] at low
      simp [same, z80Boundary, outside, reject, none, low, Nat.not_le.mpr early]

/-! ## One turn -/

variable (program host) in
/-- What the prologue lets through begins, or has no instruction and ends the run. -/
theorem dispatch_open (passed : z80OwnerBoundary rt.state = false) (outside : rt.state.inPrefixRun = false) :
    (z80Dispatch program host rt).outcome ≠ .none ∨ (z80Dispatch program host rt).observed ≠ rt.observed := by
  have grows : ∀ start : Start, rt.observed ++ [start] ≠ rt.observed := fun start => by simp
  rw [z80Dispatch]
  cases program.entry (host.code rt.host) rt.state.pc with
  | reject e => exact .inl (by simp)
  | stub live e =>
      simp only [passed, Bool.false_eq_true, if_false]
      exact .inl (by simp)
  | lock =>
      simp only [z80LockEnter, outside, passed, Bool.false_eq_true, if_false]
      exact .inr (grows _)
  | instr body =>
      simp only [passed, Bool.false_eq_true, if_false]
      right
      rw [perform_observed]
      exact grows _

variable (program host) in
/-- What the prologue refuses goes back to the dispatcher as it was. -/
theorem dispatch_refused (refused : z80OwnerBoundary rt.state = true) (outside : rt.state.inPrefixRun = false) :
    (z80Dispatch program host rt).outcome ≠ .none ∨ z80Dispatch program host rt = rt := by
  rw [z80Dispatch]
  cases program.entry (host.code rt.host) rt.state.pc with
  | reject e => exact .inl (by simp)
  | stub live e =>
      simp only [refused, if_true]
      exact .inr trivial
  | lock =>
      simp only [z80LockEnter, outside, refused, Bool.false_eq_true, if_false, if_true]
      exact .inr trivial
  | instr body =>
      simp only [refused, if_true]
      exact .inr trivial

theorem turn_leave {last : Z80Runtime H} (left : z80Boundary host rt = (.leave, last)) (rounds : ℕ) :
    Settles program host (rounds + 1) rt := by
  left
  rw [z80Turn, left]

theorem turn_again {next : Z80Runtime H} {rounds : ℕ} (again : z80Boundary host rt = (.again, next))
    (settles : Settles program host rounds next) : Settles program host (rounds + 1) rt := by
  right
  right
  rw [z80Turn, again]
  exact settles

variable (program) in
theorem turn_enter {next : Z80Runtime H} (enter : z80Boundary host rt = (.enter, next)) :
    z80Turn program host rt =
      (z80Dispatch program host next, decide ((z80Dispatch program host next).outcome = .none)) := by
  rw [z80Turn, enter]

/-! ## The responses -/

/-- A property of every result an access tree can end with. -/
def Bus.Results {α : Type} (p : α → Prop) : Bus α → Prop
  | .done result => p result
  | .access _ next => ∀ value, (next value).Results p

variable (host) in
theorem Bus.Results.run {α : Type} {p : α → Prop} {b : Bus α} (results : b.Results p) (rt : Z80Runtime H) :
    p (b.run host rt).1 := by
  induction b generalizing rt with
  | done result => exact results
  | access request next ih => exact ih _ (results _) _

theorem intResponse_iff1 (c : Core) :
    (intResponse c).Results fun result => ∀ taken, result = some taken → taken.1.iff1 = false := by
  intro byte
  beta_reduce
  by_cases rejected : c.im = 0 ∧ byte &&& 0xC7 ≠ 0xC7
  · rw [if_pos rejected]
    intro taken none
    simp at none
  · rw [if_neg rejected]
    extract_lets f core
    have clear : core.iff1 = false := rfl
    clear_value core
    intro high low
    dsimp only
    split
    · intro taken same
      rw [← Option.some.inj same]
      exact clear
    · split
      · intro first second taken same
        rw [← Option.some.inj same]
        exact clear
      · intro taken same
        rw [← Option.some.inj same]
        exact clear

/-! ## The rounds -/

theorem settles_late (late : rt.state.deadline ≤ rt.state.cycles) : Settles program host 1 rt :=
  turn_leave (boundary_late late) 0

/-- No interrupt is asserted: the first round settles. -/
theorem settles_low (outside : rt.state.inPrefixRun = false) (quiet : Quiet rt.state)
    (low : intAsserted rt.state = false) : Settles program host 1 rt := by
  rcases Nat.lt_or_ge rt.state.cycles rt.state.deadline with early | late
  · have boundary := boundary_passes host early outside quiet
    cases halted : rt.state.halted with
    | true =>
        rw [halted, if_pos rfl] at boundary
        exact turn_leave boundary 0
    | false =>
        rw [halted, if_neg Bool.false_ne_true] at boundary
        have passed : z80OwnerBoundary rt.passed.state = false := ownerBoundary_open.mpr ⟨early, rfl, rfl, low⟩
        have turn := turn_enter program boundary
        rcases dispatch_open program host passed outside with ended | begun
        · left
          rw [turn]
          exact decide_eq_false ended
        · right
          left
          rw [turn]
          exact begun
  · exact settles_late late

/-- An NMI is taken, then the edge that came with it is dropped. -/
theorem settles_nmi (outside : rt.state.inPrefixRun = false) (accepted : rt.state.nmiReject = false)
    (pending : rt.state.nmiPending = true) : Settles program host 2 rt := by
  rcases Nat.lt_or_ge rt.state.cycles rt.state.deadline with early | late
  · have boundary : z80Boundary host rt = (.again, z80AcceptNmi host rt) := by
      simp [z80Boundary, outside, accepted, pending, Nat.not_le.mpr early]
    apply turn_again boundary
    apply settles_low
    · exact (perform_inPrefix nmiResponse _).trans outside
    · exact .inl (perform_reject nmiResponse _)
    · have clear : (z80AcceptNmi host rt).state.iff1 = false := rfl
      simp [intAsserted, clear]
  · exact (settles_late late).mono (by decide)

/-- An INT is refused by the acknowledge, or leaves IFF1 clear. -/
theorem settles_accepted (outside : rt.state.inPrefixRun = false) (accepted : rt.state.nmiReject = false) :
    Settles program host 3 rt := by
  rcases Nat.lt_or_ge rt.state.cycles rt.state.deadline with early | late
  · cases pending : rt.state.nmiPending with
    | true => exact (settles_nmi outside accepted pending).mono (by decide)
    | false =>
        cases asserted : intAsserted rt.state with
        | false => exact (settles_low outside (.inr ⟨pending, asserted⟩) asserted).mono (by decide)
        | true =>
            have boundary : z80Boundary host rt = z80AcceptInt host rt := by
              unfold intAsserted at asserted
              simp [z80Boundary, outside, accepted, pending, asserted, Nat.not_le.mpr early]
            have framed := Bus.run_framed host (intResponse rt.state.toCore) rt
            have clear := (intResponse_iff1 rt.state.toCore).run host rt
            cases answer : (intResponse rt.state.toCore).run host rt with
            | mk result last =>
                rw [answer] at framed clear
                rw [z80AcceptInt, answer] at boundary
                cases result with
                | none => exact turn_leave boundary 2
                | some taken =>
                    apply turn_again boundary
                    have iff1 : (finish last taken).state.iff1 = false := clear taken rfl
                    have low : intAsserted (finish last taken).state = false := by simp [intAsserted, iff1]
                    have free : (finish last taken).state.inPrefixRun = false := framed.prefix_run.trans outside
                    cases edge : (finish last taken).state.nmiPending with
                    | true => exact settles_nmi free (framed.reject.trans accepted) edge
                    | false => exact (settles_low free (.inr ⟨edge, low⟩) low).mono (by decide)
  · exact (settles_late late).mono (by decide)

/-- An edge that came with an NMI response is dropped first, even when an INT is refused by it. -/
theorem settles_outside (outside : rt.state.inPrefixRun = false) : Settles program host 4 rt := by
  rcases Nat.lt_or_ge rt.state.cycles rt.state.deadline with early | late
  · cases reject : rt.state.nmiReject with
    | false => exact (settles_accepted outside reject).mono (by decide)
    | true =>
        have boundary := boundary_passes host early outside (.inl reject)
        cases halted : rt.state.halted with
        | true =>
            rw [halted, if_pos rfl] at boundary
            exact turn_leave boundary 3
        | false =>
            rw [halted, if_neg Bool.false_ne_true] at boundary
            have turn := turn_enter program boundary
            cases refused : z80OwnerBoundary rt.passed.state with
            | true =>
                rcases dispatch_refused program host refused outside with ended | same
                · left
                  rw [turn]
                  exact decide_eq_false ended
                · right
                  right
                  rw [turn, same]
                  exact settles_accepted outside rfl
            | false =>
                rcases dispatch_open program host refused outside with ended | begun
                · left
                  rw [turn]
                  exact decide_eq_false ended
                · right
                  left
                  rw [turn]
                  exact begun
  · exact (settles_late late).mono (by decide)

/-- Inside a prefix run only the deadline is looked at. -/
theorem settles_inside (inside : rt.state.inPrefixRun = true)
    (lock : program.entry (host.code rt.host) rt.state.pc = .lock) : Settles program host 1 rt := by
  rcases Nat.lt_or_ge rt.state.cycles rt.state.deadline with early | late
  · have boundary : z80Boundary host rt = (.enter, rt) := by
      simp [z80Boundary, inside, Nat.not_le.mpr early]
    left
    rw [turn_enter program boundary]
    simp [z80Dispatch, lock, z80LockEnter, inside, early, z80LockRun]
  · exact settles_late late

/-- The prologue and the boundary agree away from HALT and prefix runs, and from every state whose prefix-run
flag is set at a prefix lock only, four rounds suffice for an instruction to begin or the run to return. -/
theorem owner_boundary_agrees (program : Program C) (host : Z80Host H C) (rt : Z80Runtime H) (deadline : ℕ)
    (lock : rt.state.inPrefixRun = true → program.entry (host.code rt.host) rt.state.pc = .lock) :
    (rt.state.halted = false → rt.state.inPrefixRun = false →
      (z80OwnerBoundary (rt.until deadline).state = false ↔
        z80Boundary host (rt.until deadline) = (.enter, rt.until deadline))) ∧
      Settles program host 4 (rt.until deadline) := by
  constructor
  · intro running outside
    exact ownerBoundary_iff running outside
  · cases inside : rt.state.inPrefixRun with
    | false => exact settles_outside inside
    | true =>
        have one : Settles program host 1 (rt.until deadline) := settles_inside inside (lock inside)
        exact one.mono (by decide)

/-- A program of no-operations on a host with nothing attached. -/
def nopProgram : Program Unit := { entry := fun _ _ => .instr nop, lock_next := fun _ _ lock => by simp at lock }

def bareHost : Z80Host Unit Unit :=
  { read := fun _ _ _ => { host := () }
    write := fun _ _ _ _ => { host := () }
    ioIn := fun _ _ _ => { host := () }
    ioOut := fun _ _ _ _ => { host := () }
    interruptAcknowledge := fun _ _ => { host := () }
    code := fun _ => () }

/-- An INT right after an NMI response that brought a second edge: the longest way. -/
theorem owner_boundary_pending :
    Settles nopProgram bareHost 4
      (Z80Runtime.until { state := { intLine := true, iff1 := true, nmiReject := true, nmiPending := true }, host := () } 100) :=
  (owner_boundary_agrees nopProgram bareHost
    { state := { intLine := true, iff1 := true, nmiReject := true, nmiPending := true }, host := () } 100
    (fun inside => by simp at inside)).2

/-- With the prefix-run flag set away from a prefix lock, the boundary lets a pending NMI through to an owner that
refuses it, for ever. -/
theorem prefix_flag_livelock :
    ¬ ∃ rounds, Settles nopProgram bareHost rounds
      { state := { inPrefixRun := true, nmiPending := true, deadline := 100 }, host := () } := by
  intro found
  obtain ⟨rounds, settles⟩ := found
  induction rounds with
  | zero => exact settles
  | succ rounds ih =>
      rcases settles with ended | begun | next
      · exact Bool.noConfusion ended
      · exact begun rfl
      · exact ih next

end Segarecomp.Z80.Runtime

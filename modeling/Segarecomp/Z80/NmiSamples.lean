import Segarecomp.Z80.RuntimeRun

/-! What `z80_run` does with an NMI edge: the boundary that samples it accepts or discards it, and a
run whose callbacks raise none settles a pending one at its first boundary. -/

namespace Segarecomp.Z80.Runtime

variable {H H' C α : Type}

/-! ## A run that is watched -/

/-- A press, and what a boundary makes of the NMI latch. -/
inductive NmiEvent
  | pressed (cycles : ℕ)
  | accepted (cycles : ℕ)
  | discarded (cycles : ℕ)
  | idle (cycles : ℕ)
  deriving DecidableEq, Repr

/-- What the boundary of a state does with the NMI latch: nothing is sampled at the deadline and
inside a prefix run. -/
def sampleNmi (s : Z80State) : List NmiEvent :=
  if s.deadline ≤ s.cycles then []
  else if s.inPrefixRun then []
  else if s.nmiReject then if s.nmiPending then [.discarded s.cycles] else [.idle s.cycles]
  else if s.nmiPending then [.accepted s.cycles]
  else [.idle s.cycles]

section Boundary

variable {host : Z80Host H C} {rt : Z80Runtime H} {cycles : ℕ}

/-- A boundary that notes an acceptance performs the NMI response. -/
theorem boundary_accepts (noted : .accepted cycles ∈ sampleNmi rt.state) :
    cycles = rt.state.cycles ∧ z80Boundary host rt = (.again, z80AcceptNmi host rt) := by
  rw [sampleNmi] at noted
  rw [z80Boundary]
  dsimp only
  split_ifs at noted ⊢ <;> simp_all

/-- A boundary that notes a discard drops the pending NMI and takes no interrupt. -/
theorem boundary_discards (noted : .discarded cycles ∈ sampleNmi rt.state) :
    cycles = rt.state.cycles ∧ rt.state.nmiPending = true ∧
      z80Boundary host rt = if rt.state.halted then (.leave, z80HaltRun rt.passed) else (.enter, rt.passed) := by
  rw [sampleNmi] at noted
  rw [z80Boundary]
  dsimp only
  split_ifs at noted ⊢ <;> simp_all [Z80Runtime.passed]

end Boundary

/-- `z80_run` with every boundary noted in the host before it is taken. -/
def watchedLoop (program : Program C) (host : Z80Host H C) (note : H → List NmiEvent → H) :
    ℕ → Z80Runtime H → Z80Runtime H
  | 0, rt => rt
  | fuel + 1, rt =>
      match z80Turn program host { rt with host := note rt.host (sampleNmi rt.state) } with
      | (rt, true) => watchedLoop program host note fuel rt
      | (rt, false) => rt

def watchedRun (program : Program C) (host : Z80Host H C) (note : H → List NmiEvent → H)
    (rt : Z80Runtime H) (deadline : ℕ) : Z80Runtime H :=
  watchedLoop program host note (2 * (deadline - rt.state.cycles) + 2) (rt.until deadline)

/-! ## Runs over an abstracted host -/

def Reply.map (f : H → H') (reply : Reply H) : Reply H' := { reply with host := f reply.host }

def Z80Runtime.map (f : H → H') (rt : Z80Runtime H) : Z80Runtime H' := { rt with host := f rt.host }

/-- `f` forgets what the callbacks do not look at. -/
structure Forgets (f : H → H') (host : Z80Host H C) (host' : Z80Host H' C) : Prop where
  serve : ∀ h cycles request, host'.serve (f h) cycles request = (host.serve h cycles request).map f
  code : ∀ h, host'.code (f h) = host.code h

section Forgets

variable {f : H → H'} {host : Z80Host H C} {host' : Z80Host H' C} (forgets : Forgets f host host')
  (program : Program C)

include forgets

theorem Forgets.run (b : Bus α) (rt : Z80Runtime H) :
    b.run host' (rt.map f) = ((b.run host rt).1, (b.run host rt).2.map f) := by
  induction b generalizing rt with
  | done _ => rfl
  | access request next ih =>
      have served := forgets.serve rt.host rt.state.cycles request
      change (next (host'.serve (f rt.host) rt.state.cycles request).value).run host'
        ((host'.serve (f rt.host) rt.state.cycles request).apply (rt.map f)) = _
      rw [served]
      exact ih _ ((host.serve rt.host rt.state.cycles request).apply rt)

theorem Forgets.perform (body : Instruction) (rt : Z80Runtime H) :
    perform host' (rt.map f) body = (perform host rt body).map f := by
  have ran := forgets.run (body rt.state.toCore) rt
  change finish ((body rt.state.toCore).run host' (rt.map f)).2 ((body rt.state.toCore).run host' (rt.map f)).1 = _
  rw [ran]
  rfl

theorem Forgets.acceptInt (rt : Z80Runtime H) :
    z80AcceptInt host' (rt.map f) = ((z80AcceptInt host rt).1, (z80AcceptInt host rt).2.map f) := by
  have ran := forgets.run (intResponse rt.state.toCore) rt
  have core : (rt.map f).state.toCore = rt.state.toCore := rfl
  rw [z80AcceptInt, z80AcceptInt, core, ran]
  cases (intResponse rt.state.toCore).run host rt with
  | mk result last => cases result <;> rfl

theorem Forgets.boundary (rt : Z80Runtime H) :
    z80Boundary host' (rt.map f) = ((z80Boundary host rt).1, (z80Boundary host rt).2.map f) := by
  have same : (rt.map f).state = rt.state := rfl
  rw [z80Boundary, z80Boundary, same]
  dsimp only
  by_cases late : rt.state.deadline ≤ rt.state.cycles
  · rw [if_pos late, if_pos late]
    rfl
  rw [if_neg late, if_neg late]
  by_cases inside : rt.state.inPrefixRun = true
  · rw [if_pos inside, if_pos inside]
  rw [if_neg inside, if_neg inside]
  by_cases reject : rt.state.nmiReject = true
  · rw [if_pos reject, if_pos reject]
    by_cases halted : rt.state.halted = true
    · rw [if_pos halted, if_pos halted]
      rfl
    · rw [if_neg halted, if_neg halted]
      rfl
  rw [if_neg reject, if_neg reject]
  by_cases pending : rt.state.nmiPending = true
  · rw [if_pos pending, if_pos pending]
    have taken := forgets.perform nmiResponse
      { rt with state := { rt.state with nmiPending := false, nmiReject := true } }
    exact congrArg (Prod.mk Boundary.again) taken
  rw [if_neg pending, if_neg pending]
  by_cases asserted : (rt.state.intLine && rt.state.iff1 && !rt.state.intDeferral) = true
  · rw [if_pos asserted, if_pos asserted]
    exact forgets.acceptInt rt
  rw [if_neg asserted, if_neg asserted, same]
  by_cases halted : rt.state.halted = true
  · rw [if_pos halted, if_pos halted]
    rfl
  · rw [if_neg halted, if_neg halted]

theorem Forgets.dispatch (rt : Z80Runtime H) :
    z80Dispatch program host' (rt.map f) = (z80Dispatch program host rt).map f := by
  have code : host'.code (rt.map f).host = host.code rt.host := forgets.code rt.host
  have same : (rt.map f).state = rt.state := rfl
  rw [z80Dispatch, z80Dispatch, code, same]
  cases program.entry (host.code rt.host) rt.state.pc with
  | reject e => rfl
  | stub live e =>
      dsimp only
      split_ifs <;> rfl
  | lock =>
      dsimp only [z80LockEnter]
      rw [same]
      split_ifs <;> rfl
  | instr body =>
      dsimp only
      split_ifs
      · rfl
      · exact forgets.perform body (z80OwnerStart rt)

theorem Forgets.turn (rt : Z80Runtime H) :
    z80Turn program host' (rt.map f) = ((z80Turn program host rt).1.map f, (z80Turn program host rt).2) := by
  rw [z80Turn, z80Turn, forgets.boundary]
  cases z80Boundary host rt with
  | mk answer last =>
      cases answer with
      | leave => rfl
      | again => rfl
      | enter =>
          dsimp only
          rw [forgets.dispatch program]
          rfl

/-- Watching changes nothing but what is forgotten. -/
theorem Forgets.loop {note : H → List NmiEvent → H} (unseen : ∀ h events, f (note h events) = f h) (fuel : ℕ)
    (rt : Z80Runtime H) :
    (watchedLoop program host note fuel rt).map f = z80Loop program host' fuel (rt.map f) := by
  induction fuel generalizing rt with
  | zero => rfl
  | succ fuel ih =>
      have noted : ({ rt with host := note rt.host (sampleNmi rt.state) } : Z80Runtime H).map f = rt.map f := by
        rw [Z80Runtime.map, Z80Runtime.map, unseen]
      have turned := forgets.turn program { rt with host := note rt.host (sampleNmi rt.state) }
      rw [noted] at turned
      rw [watchedLoop, z80Loop, turned]
      cases z80Turn program host { rt with host := note rt.host (sampleNmi rt.state) } with
      | mk last go =>
          cases go with
          | true => exact ih last
          | false => rfl

theorem Forgets.watchedRun (note : H → List NmiEvent → H) (unseen : ∀ h events, f (note h events) = f h)
    (rt : Z80Runtime H) (deadline : ℕ) :
    (watchedRun program host note rt deadline).map f = z80Run program host' (rt.map f) deadline :=
  forgets.loop program unseen _ _

end Forgets

/-! ## Runs without a press -/

/-- Before cycle `d` the callbacks keep `P`, take no wait states and raise no NMI. -/
def Calm (host : Z80Host H C) (P : H → Prop) (d : ℕ) : Prop :=
  ∀ h cycles request, P h → cycles < d →
    P (host.serve h cycles request).host ∧ (host.serve h cycles request).nmi = false ∧
      (host.serve h cycles request).wait = 0

/-- What a step of a calm run leaves of a runtime, `nmi` being the latch after it. -/
structure Calmed (P : H → Prop) (before : Z80Runtime H) (nmi : Bool) (after : Z80Runtime H) : Prop where
  host : P after.host
  deadline : after.state.deadline ≤ before.state.deadline
  prefix_run : before.state.inPrefixRun = true → after.state.inPrefixRun = true
  nmi : after.state.nmiPending = nmi

/-- The NMI latch after a boundary: a boundary that samples it settles it. -/
def settled (s : Z80State) : Bool :=
  if s.deadline ≤ s.cycles then s.nmiPending else if s.inPrefixRun then s.nmiPending else false

section Calm

variable {host : Z80Host H C} {P : H → Prop} {d : ℕ} {rt : Z80Runtime H}

theorem Calmed.refl (h : P rt.host) : Calmed P rt rt.state.nmiPending rt := ⟨h, le_rfl, id, rfl⟩

theorem Calmed.trans {first second : Z80Runtime H} {nmi : Bool} (calmed : Calmed P rt nmi first)
    (later : Calmed P first first.state.nmiPending second) : Calmed P rt nmi second :=
  ⟨later.host, later.deadline.trans calmed.deadline, fun inside => later.prefix_run (calmed.prefix_run inside),
    later.nmi.trans calmed.nmi⟩

theorem Calm.run (calm : Calm host P d) (b : Bus α) (rt : Z80Runtime H) (h : P rt.host) (early : rt.state.cycles < d) :
    Calmed P rt rt.state.nmiPending (b.run host rt).2 := by
  induction b generalizing rt with
  | done _ => exact Calmed.refl h
  | access request next ih =>
      obtain ⟨kept, quiet, prompt⟩ := calm rt.host rt.state.cycles request h early
      let reply := host.serve rt.host rt.state.cycles request
      have cycles : (reply.apply rt).state.cycles = rt.state.cycles := by
        change rt.state.cycles + reply.wait = _
        rw [prompt, Nat.add_zero]
      have applied : Calmed P rt rt.state.nmiPending (reply.apply rt) := by
        refine ⟨kept, ?_, id, ?_⟩
        · change (if reply.stop then 0 else rt.state.deadline) ≤ rt.state.deadline
          split_ifs
          · exact Nat.zero_le _
          · exact le_rfl
        · change (rt.state.nmiPending || reply.nmi) = _
          rw [quiet, Bool.or_false]
      exact applied.trans (ih reply.value (reply.apply rt) kept (by rw [cycles]; exact early))

theorem Calm.perform (calm : Calm host P d) (body : Instruction) (rt : Z80Runtime H) (h : P rt.host)
    (early : rt.state.cycles < d) :
    Calmed P rt rt.state.nmiPending (perform host rt body) := by
  have ran := calm.run (body rt.state.toCore) rt h early
  exact ⟨ran.host, ran.deadline, ran.prefix_run, ran.nmi⟩

theorem Calm.acceptInt (calm : Calm host P d) (h : P rt.host) (early : rt.state.cycles < d) :
    Calmed P rt rt.state.nmiPending (z80AcceptInt host rt).2 := by
  have ran := calm.run (intResponse rt.state.toCore) rt h early
  rw [z80AcceptInt]
  cases answer : (intResponse rt.state.toCore).run host rt with
  | mk result last =>
      rw [answer] at ran
      cases result with
      | none => exact ⟨ran.host, ran.deadline, ran.prefix_run, ran.nmi⟩
      | some _ => exact ⟨ran.host, ran.deadline, ran.prefix_run, ran.nmi⟩

theorem Calm.boundary (calm : Calm host P d) (h : P rt.host) (below : rt.state.deadline ≤ d) :
    Calmed P rt (settled rt.state) (z80Boundary host rt).2 ∧
      ((z80Boundary host rt).1 = .enter → (z80Boundary host rt).2.state.cycles < d) := by
  rw [z80Boundary]
  dsimp only
  by_cases late : rt.state.deadline ≤ rt.state.cycles
  · rw [if_pos late]
    exact ⟨⟨h, le_rfl, id, by rw [settled, if_pos late]⟩, fun enter => absurd enter Boundary.noConfusion⟩
  have early : rt.state.cycles < d := by omega
  rw [if_neg late]
  by_cases inside : rt.state.inPrefixRun = true
  · rw [if_pos inside]
    exact ⟨⟨h, le_rfl, id, by rw [settled, if_neg late, if_pos inside]⟩, fun _ => early⟩
  have settles : settled rt.state = false := by rw [settled, if_neg late, if_neg inside]
  rw [if_neg inside]
  by_cases reject : rt.state.nmiReject = true
  · rw [if_pos reject]
    split_ifs
    · exact ⟨⟨h, le_rfl, id, settles.symm⟩, False.elim⟩
    · exact ⟨⟨h, le_rfl, id, settles.symm⟩, fun _ => early⟩
  rw [if_neg reject]
  by_cases pending : rt.state.nmiPending = true
  · rw [if_pos pending]
    have taken := calm.perform nmiResponse
      { rt with state := { rt.state with nmiPending := false, nmiReject := true } } h early
    exact ⟨⟨taken.host, taken.deadline, taken.prefix_run, taken.nmi.trans settles.symm⟩,
      fun enter => absurd enter Boundary.noConfusion⟩
  have clear := eq_false_of_ne_true pending
  rw [if_neg pending]
  by_cases asserted : (rt.state.intLine && rt.state.iff1 && !rt.state.intDeferral) = true
  · rw [if_pos asserted]
    have taken := calm.acceptInt h early
    refine ⟨⟨taken.host, taken.deadline, taken.prefix_run, ?_⟩, fun enter => ?_⟩
    · rw [taken.nmi, clear, settles]
    · rw [z80AcceptInt] at enter
      split at enter <;> exact absurd enter Boundary.noConfusion
  rw [if_neg asserted]
  split_ifs
  · exact ⟨⟨h, le_rfl, id, clear.trans settles.symm⟩, False.elim⟩
  · exact ⟨⟨h, le_rfl, id, clear.trans settles.symm⟩, fun _ => early⟩

variable (program : Program C)

theorem Calm.dispatch (calm : Calm host P d) (h : P rt.host) (early : rt.state.cycles < d) :
    Calmed P rt rt.state.nmiPending (z80Dispatch program host rt) := by
  rw [z80Dispatch]
  cases program.entry (host.code rt.host) rt.state.pc with
  | reject e => exact ⟨h, le_rfl, id, rfl⟩
  | stub live e =>
      dsimp only
      split_ifs
      · exact Calmed.refl h
      · exact ⟨h, le_rfl, id, rfl⟩
      · exact ⟨h, le_rfl, id, rfl⟩
  | lock =>
      dsimp only [z80LockEnter]
      split_ifs
      · exact ⟨h, le_rfl, id, rfl⟩
      · exact Calmed.refl h
      · exact Calmed.refl h
      · exact ⟨h, le_rfl, fun _ => rfl, rfl⟩
  | instr body =>
      dsimp only
      split_ifs
      · exact Calmed.refl h
      · have began : Calmed P rt rt.state.nmiPending (z80OwnerStart rt) := ⟨h, le_rfl, id, rfl⟩
        exact began.trans (calm.perform body (z80OwnerStart rt) h early)

theorem Calm.turn (calm : Calm host P d) (rt : Z80Runtime H) (h : P rt.host) (below : rt.state.deadline ≤ d) :
    Calmed P rt (settled rt.state) (z80Turn program host rt).1 := by
  obtain ⟨kept, entered⟩ := calm.boundary h below
  rw [z80Turn]
  cases boundary : z80Boundary host rt with
  | mk answer last =>
      rw [boundary] at kept entered
      cases answer with
      | leave => exact kept
      | again => exact kept
      | enter => exact kept.trans (calm.dispatch program kept.host (entered rfl))

/-- A host that keeps what was noted in it. -/
structure Noted (host : Z80Host H C) (note : H → List NmiEvent → H) (P : List NmiEvent → H → Prop) (d : ℕ) :
    Prop where
  calm : ∀ events, Calm host (P events) d
  notes : ∀ events later h, P events h → P (events ++ later) (note h later)

variable {note : H → List NmiEvent → H} {Q : List NmiEvent → H → Prop} {events : List NmiEvent}

theorem Noted.turn (noted : Noted host note Q d) (rt : Z80Runtime H) (h : Q events rt.host) (below : rt.state.deadline ≤ d) :
    Calmed (Q (events ++ sampleNmi rt.state)) rt (settled rt.state)
      (z80Turn program host { rt with host := note rt.host (sampleNmi rt.state) }).1 := by
  have started := noted.notes events (sampleNmi rt.state) rt.host h
  have turned := (noted.calm (events ++ sampleNmi rt.state)).turn program
    { rt with host := note rt.host (sampleNmi rt.state) } started below
  exact ⟨turned.host, turned.deadline, turned.prefix_run, turned.nmi⟩

/-- No NMI is pending, or none is looked at. -/
def Unsettling (s : Z80State) : Prop := s.inPrefixRun = true ∨ s.nmiPending = false

theorem Unsettling.sample {s : Z80State} (idle : Unsettling s) :
    settled s = s.nmiPending ∧
      ∃ cycles : List ℕ, sampleNmi s = cycles.map .idle ∧ (s.inPrefixRun = true → cycles = []) := by
  rw [settled, sampleNmi]
  by_cases late : s.deadline ≤ s.cycles
  · rw [if_pos late, if_pos late]
    exact ⟨rfl, [], rfl, fun _ => rfl⟩
  rw [if_neg late, if_neg late]
  by_cases inside : s.inPrefixRun = true
  · rw [if_pos inside, if_pos inside]
    exact ⟨rfl, [], rfl, fun _ => rfl⟩
  have clear := idle.resolve_left inside
  rw [if_neg inside, if_neg inside, clear, if_neg Bool.false_ne_true, if_neg Bool.false_ne_true, ite_self]
  exact ⟨rfl, [s.cycles], rfl, fun locked => absurd locked inside⟩

/-- With no NMI pending, or inside a prefix run, the boundaries of a run settle nothing. -/
theorem Noted.quiet (noted : Noted host note Q d) (fuel : ℕ) (rt : Z80Runtime H) (h : Q events rt.host)
    (below : rt.state.deadline ≤ d) (idle : Unsettling rt.state) :
    ∃ cycles : List ℕ, Q (events ++ cycles.map .idle) (watchedLoop program host note fuel rt).host ∧
      (watchedLoop program host note fuel rt).state.nmiPending = rt.state.nmiPending ∧
      (rt.state.inPrefixRun = true → cycles = []) := by
  induction fuel generalizing rt events with
  | zero => exact ⟨[], by rwa [List.map_nil, List.append_nil], rfl, fun _ => rfl⟩
  | succ fuel ih =>
      obtain ⟨still, sampled, shape, locked⟩ := idle.sample
      have turned := noted.turn program rt h below
      rw [watchedLoop]
      generalize z80Turn program host { rt with host := note rt.host (sampleNmi rt.state) } = turn at turned
      obtain ⟨last, go⟩ := turn
      have nmi : last.state.nmiPending = rt.state.nmiPending := turned.nmi.trans still
      rw [shape] at turned
      cases go with
      | false => exact ⟨sampled, turned.host, nmi, locked⟩
      | true =>
          have idle' : Unsettling last.state := idle.imp turned.prefix_run nmi.trans
          obtain ⟨later, kept, same, deeper⟩ := ih last turned.host (turned.deadline.trans below) idle'
          refine ⟨sampled ++ later, ?_, same.trans nmi, fun inside => ?_⟩
          · rw [List.map_append, ← List.append_assoc]
            exact kept
          · rw [locked inside, deeper (turned.prefix_run inside)]
            rfl

/-- A calm run notes what its first boundary does with the NMI latch, then idle boundaries only. -/
theorem Noted.watchedRun (noted : Noted host note Q d) (rt : Z80Runtime H) (h : Q events rt.host)
    (early : rt.state.cycles < d) :
    ∃ cycles : List ℕ, Q (events ++ sampleNmi (rt.until d).state ++ cycles.map .idle)
        (watchedRun program host note rt d).host ∧
      (watchedRun program host note rt d).state.nmiPending = settled (rt.until d).state ∧
      (rt.state.inPrefixRun = true → cycles = []) := by
  have turned := noted.turn program (rt.until d) h le_rfl
  rw [Runtime.watchedRun, watchedLoop]
  generalize z80Turn program host { rt.until d with host := note (rt.until d).host (sampleNmi (rt.until d).state) } =
    turn at turned
  obtain ⟨last, go⟩ := turn
  cases go with
  | false => exact ⟨[], by rw [List.map_nil, List.append_nil]; exact turned.host, turned.nmi, fun _ => rfl⟩
  | true =>
      have idle : Unsettling last.state := by
        by_cases inside : rt.state.inPrefixRun = true
        · exact .inl (turned.prefix_run inside)
        · have ahead : ¬ d ≤ rt.state.cycles := Nat.not_le.mpr early
          have settles : settled (rt.until d).state = false := by
            change (if d ≤ rt.state.cycles then rt.state.nmiPending else
              if rt.state.inPrefixRun then rt.state.nmiPending else false) = false
            rw [if_neg ahead, if_neg inside]
          exact .inr (turned.nmi.trans settles)
      obtain ⟨later, kept, same, deeper⟩ := noted.quiet program _ last turned.host turned.deadline idle
      exact ⟨later, kept, same.trans turned.nmi, fun inside => deeper (turned.prefix_run inside)⟩

end Calm

end Segarecomp.Z80.Runtime

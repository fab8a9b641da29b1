import Segarecomp.SegaCd.HintCounterLines
import Mathlib.Order.Bounds.Basic

/-! The scheduled event of the H-interrupt counter is the next line that latches, in every run. -/

namespace Segarecomp.SegaCd.HintCounter

open scoped Genesis.Schedule
open Genesis.Schedule (VdpState linesPerFrame)

variable {reload : BitVec 8} {vdp : VdpState} {h : ScdHint}

/-! ## Looking ahead -/

theorem scdHintScan_of_latches {count line : ℕ} {counter : BitVec 8}
    (here : latchesHere reload (counter, line % linesPerFrame)) :
    scdHintScan reload (count + 1) counter line = some line :=
  if_pos here

theorem scdHintScan_of_quiet {count line : ℕ} {counter : BitVec 8}
    (here : ¬latchesHere reload (counter, line % linesPerFrame)) :
    scdHintScan reload (count + 1) counter line =
      scdHintScan reload count (scdHintStep counter (line % linesPerFrame) reload).1 (line + 1) :=
  if_neg here

theorem scdHintScan_some {count line found : ℕ} {counter : BitVec 8}
    (eq : scdHintScan reload count counter line = some found) :
    ∃ k < count, found = line + k ∧
      latchesHere reload ((nextPosition reload)^[k] (counter, line % linesPerFrame)) ∧
      ∀ j < k, ¬latchesHere reload ((nextPosition reload)^[j] (counter, line % linesPerFrame)) := by
  induction count generalizing counter line with
  | zero => cases eq
  | succ count ih =>
    by_cases here : latchesHere reload (counter, line % linesPerFrame)
    · rw [scdHintScan_of_latches here] at eq
      exact ⟨0, by omega, (Option.some.inj eq).symm, here, fun j lt => absurd lt (Nat.not_lt_zero j)⟩
    · rw [scdHintScan_of_quiet here] at eq
      obtain ⟨k, inside, rfl, latches, quiet⟩ := ih eq
      simp only [← nextPosition_line, ← Function.iterate_succ_apply] at latches quiet
      refine ⟨k + 1, by omega, by omega, latches, fun j lt => ?_⟩
      cases j with
      | zero => exact here
      | succ j => exact quiet j (by omega)

theorem scdHintScan_none {count line : ℕ} {counter : BitVec 8}
    (eq : scdHintScan reload count counter line = none) :
    ∀ k < count, ¬latchesHere reload ((nextPosition reload)^[k] (counter, line % linesPerFrame)) := by
  induction count generalizing counter line with
  | zero => exact fun k lt => absurd lt (Nat.not_lt_zero k)
  | succ count ih =>
    by_cases here : latchesHere reload (counter, line % linesPerFrame)
    · rw [scdHintScan_of_latches here] at eq
      cases eq
    · rw [scdHintScan_of_quiet here] at eq
      have quiet := ih eq
      simp only [← nextPosition_line, ← Function.iterate_succ_apply] at quiet
      intro k lt
      cases k with
      | zero => exact here
      | succ k => exact quiet k (by omega)

theorem reaches_loaded (counter : BitVec 8) {line : ℕ} (inFrame : line < 262) :
    ∃ k ≤ 262, (nextPosition reload)^[k] (counter, line) = (reload, 0) :=
  ⟨261 - line + 1, by omega, iterate_last counter (by omega)⟩

/-- Two frames without a latch hold a frame from its line 0 with the reload value, and that frame
repeats for ever. -/
theorem never_latches {p : Position} (inFrame : p.2 < 262)
    (quiet : ∀ k < 2 * 262, ¬latchesHere reload ((nextPosition reload)^[k] p)) (k : ℕ) :
    ¬latchesHere reload ((nextPosition reload)^[k] p) := by
  have loads : ∃ k ≤ 262, (nextPosition reload)^[k] (p.1, p.2) = (reload, 0) := reaches_loaded p.1 inFrame
  obtain ⟨first, bound, loaded⟩ := loads
  rcases Nat.lt_or_ge k first with before | after
  · exact quiet k (by omega)
  · have phase : (k - first) % 262 < 262 := Nat.mod_lt _ (by omega)
    have same : (nextPosition reload)^[k] p = (nextPosition reload)^[(k - first) % 262 + first] p := by
      calc (nextPosition reload)^[k] p
          = (nextPosition reload)^[k - first] ((nextPosition reload)^[first] p) := by
            rw [← Function.iterate_add_apply, Nat.sub_add_cancel after]
        _ = (nextPosition reload)^[k - first] (reload, 0) := by rw [← loaded]
        _ = (nextPosition reload)^[(k - first) % 262] (reload, 0) := (loaded_periodic.iterate_mod_apply _).symm
        _ = (nextPosition reload)^[(k - first) % 262 + first] p := by rw [Function.iterate_add_apply, ← loaded]
    rw [same]
    exact quiet _ (by omega)

/-! ## The lines that latch -/

/-- The line latches the request when the lines from the counter's next one on are stepped one by
one. -/
def LineLatches (vdp : VdpState) (h : ScdHint) (line : ℕ) : Prop :=
  h.next ≤ line ∧ latchesHere vdp.register10 ((scdHintLine vdp.register10)^[line - h.next] h).position

/-- The armed tick is where the first latching line starts; with no tick armed no line can raise
the request. -/
def HintExact (vdp : VdpState) (h : ScdHint) : Prop :=
  (h.hintAt ≠ 0 →
    hintEnabled vdp = true ∧ h.pending = false ∧
      ∃ line, IsLeast {line | LineLatches vdp h line} line ∧ h.hintAt + SCD_HINT_BIAS = line * SCD_LINE_TICKS) ∧
  (h.hintAt = 0 → hintEnabled vdp = false ∨ h.pending = true ∨ ∀ line, ¬LineLatches vdp h line)

theorem lineLatches_add (k : ℕ) :
    LineLatches vdp h (h.next + k) ↔
      latchesHere vdp.register10 ((nextPosition vdp.register10)^[k] h.position) := by
  rw [LineLatches, iterate_position, Nat.add_sub_cancel_left]
  exact and_iff_right (Nat.le_add_right _ _)

theorem lineLatches_iff {line : ℕ} :
    LineLatches vdp h line ↔
      ∃ k, line = h.next + k ∧ latchesHere vdp.register10 ((nextPosition vdp.register10)^[k] h.position) := by
  constructor
  · rintro latches
    obtain ⟨k, rfl⟩ := Nat.exists_eq_add_of_le latches.1
    exact ⟨k, rfl, (lineLatches_add k).mp latches⟩
  · rintro ⟨k, rfl, latches⟩
    exact (lineLatches_add k).mpr latches

theorem lineLatches_hintAt (tick : ℕ) {line : ℕ} :
    LineLatches vdp { h with hintAt := tick } line ↔ LineLatches vdp h line := by
  rw [lineLatches_iff, lineLatches_iff]
  rfl

/-- After some lines the latching lines are those not yet passed. -/
theorem lineLatches_iterate (n : ℕ) {line : ℕ} :
    LineLatches vdp ((scdHintLine vdp.register10)^[n] h) line ↔ h.next + n ≤ line ∧ LineLatches vdp h line := by
  rw [LineLatches, LineLatches, iterate_next]
  constructor
  · rintro ⟨after, latches⟩
    rw [← Function.iterate_add_apply] at latches
    refine ⟨after, by omega, ?_⟩
    rwa [show line - h.next = line - (h.next + n) + n by omega]
  · rintro ⟨after, -, latches⟩
    rw [← Function.iterate_add_apply]
    refine ⟨after, ?_⟩
    rwa [show line - (h.next + n) + n = line - h.next by omega]

theorem iterate_pending {n : ℕ} (quiet : ∀ line < h.next + n, ¬LineLatches vdp h line) :
    ((scdHintLine vdp.register10)^[n] h).pending = h.pending := by
  have none_within : ¬LatchesWithin vdp.register10 n h.position := by
    rintro ⟨k, inside, latches⟩
    exact quiet (h.next + k) (by omega) ((lineLatches_add k).mpr latches)
  rw [iterate_eq, if_neg none_within]
  rfl

theorem iterate_pending_of (n : ℕ) (pending : h.pending = true) :
    ((scdHintLine reload)^[n] h).pending = true := by
  rw [iterate_eq, scdHintLatch, if_pos pending, ite_self]
  exact pending

/-! ## Arming and sampling -/

/-- Below the horizon a look-ahead of two frames stays in 64 bits. -/
def hintHorizon : ℕ := 2 ^ 64 - SCD_HINT_BIAS - 525 * SCD_LINE_TICKS

def AheadInside (next : ℕ) : Prop := (next + 524) * SCD_LINE_TICKS < 2 ^ 64

/-- The line starts after tick 0. -/
def StartsLate (line : ℕ) : Prop := SCD_HINT_BIAS < line * SCD_LINE_TICKS

theorem scdHintLineStart_add {line : ℕ} (low : SCD_HINT_BIAS ≤ line * SCD_LINE_TICKS)
    (high : line * SCD_LINE_TICKS < 2 ^ 64) :
    scdHintLineStart line + SCD_HINT_BIAS = line * SCD_LINE_TICKS := by
  have wraps : line * SCD_LINE_TICKS + (2 ^ 64 - SCD_HINT_BIAS) =
      line * SCD_LINE_TICKS - SCD_HINT_BIAS + 2 ^ 64 := by
    have : SCD_HINT_BIAS ≤ 2 ^ 64 := by decide
    omega
  rw [scdHintLineStart, wraps, Nat.add_mod_right, Nat.mod_eq_of_lt (by omega)]
  omega

theorem disarmed_exact (idle : hintEnabled vdp = false ∨ h.pending = true ∨ ∀ line, ¬LineLatches vdp h line) :
    HintExact vdp { h with hintAt := 0 } := by
  refine ⟨fun armed => absurd rfl armed, fun _ => idle.imp_right fun rest => rest.imp_right fun never line => ?_⟩
  rw [lineLatches_hintAt]
  exact never line

/-- The grid has no line at tick 0: its origin is not a multiple of the line. -/
theorem bias_indivisible : ¬SCD_LINE_TICKS ∣ SCD_HINT_BIAS := by decide

theorem armed_exact {line tick : ℕ} (enabled : hintEnabled vdp = true) (idle : h.pending = false)
    (least : IsLeast {line | LineLatches vdp h line} line) (start : tick + SCD_HINT_BIAS = line * SCD_LINE_TICKS) :
    HintExact vdp { h with hintAt := tick } := by
  constructor
  · intro _
    refine ⟨enabled, idle, line, ?_, start⟩
    simp only [lineLatches_hintAt]
    exact least
  · intro zero
    have none_armed : tick = 0 := zero
    rw [none_armed, Nat.zero_add] at start
    exact absurd (Dvd.intro_left line start.symm) bias_indivisible

theorem never_of_scan (scan : scdHintScan vdp.register10 (2 * linesPerFrame) h.counter h.next = none) (line : ℕ) :
    ¬LineLatches vdp h line := by
  intro latches
  obtain ⟨k, rfl, here⟩ := lineLatches_iff.mp latches
  exact never_latches (p := h.position) (Nat.mod_lt _ (by decide)) (scdHintScan_none scan) k here

theorem least_of_scan {count line : ℕ} (scan : scdHintScan vdp.register10 count h.counter h.next = some line) :
    line < h.next + count ∧ IsLeast {line | LineLatches vdp h line} line := by
  obtain ⟨k, bound, rfl, latches, quiet⟩ := scdHintScan_some scan
  refine ⟨by omega, (lineLatches_add k).mpr latches, fun other latches' => ?_⟩
  obtain ⟨j, rfl, here⟩ := lineLatches_iff.mp latches'
  by_contra early
  exact quiet j (by omega) here

theorem scdHintArm_exact (past : StartsLate h.next)
    (inside : AheadInside h.next) : HintExact vdp (scdHintArm vdp h) := by
  rw [scdHintArm]
  by_cases off : hintEnabled vdp = false ∨ h.pending = true
  · rw [if_pos off]
    exact disarmed_exact (off.imp_right .inl)
  · rw [if_neg off]
    obtain ⟨enabled, idle⟩ := not_or.mp off
    cases scan : scdHintScan vdp.register10 (2 * linesPerFrame) h.counter h.next with
    | none => exact disarmed_exact (.inr (.inr (never_of_scan scan)))
    | some line =>
      obtain ⟨bound, least⟩ := least_of_scan scan
      have low : h.next * SCD_LINE_TICKS ≤ line * SCD_LINE_TICKS := Nat.mul_le_mul_right _ least.1.1
      have high : line * SCD_LINE_TICKS ≤ (h.next + 524) * SCD_LINE_TICKS := Nat.mul_le_mul_right _ bound.le
      apply armed_exact (Bool.eq_true_of_not_eq_false enabled) (Bool.eq_false_of_not_eq_true idle) least
      exact scdHintLineStart_add ((Nat.le_of_lt past).trans low) (high.trans_lt inside)

theorem lineOf_bounds {t : ℕ} (inside : t + SCD_HINT_BIAS < 2 ^ 64) :
    scdHintLineOf t * SCD_LINE_TICKS ≤ t + SCD_HINT_BIAS ∧
      t + SCD_HINT_BIAS < (scdHintLineOf t + 1) * SCD_LINE_TICKS := by
  rw [scdHintLineOf, Nat.mod_eq_of_lt inside]
  refine ⟨Nat.div_mul_le_self _ _, ?_⟩
  rw [← Nat.div_lt_iff_lt_mul (by decide)]
  exact Nat.lt_succ_self _

theorem scdHintSync_next (t : ℕ) :
    (scdHintSync vdp h t).next = h.next + (scdHintLineOf t + 1 - h.next) := by
  rw [scdHintSync_eq, iterate_next]

theorem scdHintSync_past {t : ℕ} (inside : t + SCD_HINT_BIAS < 2 ^ 64) :
    StartsLate (scdHintSync vdp h t).next := by
  have bounds := (lineOf_bounds inside).2
  have le : (scdHintLineOf t + 1) * SCD_LINE_TICKS ≤ (scdHintSync vdp h t).next * SCD_LINE_TICKS := by
    rw [scdHintSync_next]
    exact Nat.mul_le_mul_right _ (by omega)
  exact Nat.lt_of_le_of_lt (Nat.le_add_left _ t) (bounds.trans_le le)

theorem horizon_inside {t : ℕ} (early : t < hintHorizon) : t + SCD_HINT_BIAS < 2 ^ 64 := by
  simp only [hintHorizon] at early
  omega

theorem scdHintSync_ahead {t : ℕ} (early : t < hintHorizon) (inside : AheadInside h.next) :
    AheadInside (scdHintSync vdp h t).next := by
  have bounds := (lineOf_bounds (horizon_inside early)).1
  rw [scdHintSync_next, AheadInside]
  rcases Nat.le_total (scdHintLineOf t + 1) h.next with passed | behind
  · rwa [Nat.sub_eq_zero_of_le passed, Nat.add_zero]
  · rw [Nat.add_sub_cancel' behind, Nat.add_assoc, Nat.add_mul]
    simp only [hintHorizon] at early
    omega

/-- A sample before the armed tick passes no latching line. -/
theorem scdHintSync_exact {t : ℕ} (inside : t + SCD_HINT_BIAS < 2 ^ 64)
    (before : h.hintAt ≠ 0 → t < h.hintAt) (exact_h : HintExact vdp h) :
    HintExact vdp (scdHintSync vdp h t) := by
  have bounds := (lineOf_bounds inside).1
  rw [scdHintSync_eq]
  set n := scdHintLineOf t + 1 - h.next with count
  constructor
  · intro armed
    rw [iterate_hintAt] at armed
    obtain ⟨enabled, idle, line, least, start⟩ := exact_h.1 armed
    have ahead : h.next + n ≤ line := by
      have first := least.1.1
      have later : scdHintLineOf t < line := by
        by_contra reached
        have le := Nat.mul_le_mul_right SCD_LINE_TICKS (not_lt.mp reached)
        have := before armed
        omega
      omega
    have quiet : ∀ other < h.next + n, ¬LineLatches vdp h other := fun other lt latches =>
      absurd (least.2 latches) (by omega)
    refine ⟨enabled, (iterate_pending quiet).trans idle, line, ⟨?_, ?_⟩, by rwa [iterate_hintAt]⟩
    · exact (lineLatches_iterate n).mpr ⟨ahead, least.1⟩
    · exact fun other latches => least.2 ((lineLatches_iterate n).mp latches).2
  · intro disarmed
    rw [iterate_hintAt] at disarmed
    rcases exact_h.2 disarmed with off | pending | never
    · exact .inl off
    · exact .inr (.inl (iterate_pending_of n pending))
    · exact .inr (.inr fun line latches => never line ((lineLatches_iterate n).mp latches).2)

/-! ## Runs -/

/-- The states of a run below the horizon. The machine lets a processor run only before the next
event of the devices, and an event happens when it is due. -/
inductive Reachable : ScdVdp → Prop
  | init : Reachable scdVdpInit
  | access {m m' : ScdVdp} (now bytes : ℕ) (inner : VdpState × ℕ → Option (VdpState × ℕ)) :
      Reachable m → now < scdVdpNextEvent m → now < hintHorizon →
        scdVdpAccess now bytes inner m = some m' → Reachable m'
  | acknowledge {m : ScdVdp} (now level : ℕ) :
      Reachable m → now < scdVdpNextEvent m → now < hintHorizon →
        Reachable (scdMainInterruptAcknowledge now level m)
  | event {m : ScdVdp} (sampled : ℕ → Bool) :
      Reachable m → scdVdpNextEvent m < hintHorizon → Reachable (scdVdpEvent sampled m)

structure HintInvariant (m : ScdVdp) : Prop where
  exact_hint : HintExact m.vdp m.hint
  inside : AheadInside m.hint.next

theorem hintExact_congr {vdp' : VdpState} (register0 : vdp'.registers 0 = vdp.registers 0)
    (register10 : vdp'.registers 10 = vdp.registers 10) (exact_h : HintExact vdp h) : HintExact vdp' h := by
  have enabled : hintEnabled vdp' = hintEnabled vdp := by rw [hintEnabled, hintEnabled, register0]
  have same : vdp'.register10 = vdp.register10 := by rw [VdpState.register10, VdpState.register10, register10]
  have lines : LineLatches vdp' h = LineLatches vdp h := by
    funext line
    rw [LineLatches, LineLatches, same]
  rw [HintExact, enabled, lines]
  exact exact_h

theorem scdHintArm_next (vdp : VdpState) (h : ScdHint) : (scdHintArm vdp h).next = h.next := by
  rw [scdHintArm]
  split_ifs
  · rfl
  · split <;> rfl

theorem first_of_armed {armed : Prop} [Decidable armed] {tick next : ℕ} (holds : armed) :
    (if armed ∧ tick < next then tick else next) ≤ tick := by
  split_ifs with due
  · exact le_rfl
  · exact not_lt.mp fun lt => due ⟨holds, lt⟩

theorem nextEvent_le_hintAt {m : ScdVdp} (armed : m.hint.hintAt ≠ 0) : scdVdpNextEvent m ≤ m.hint.hintAt :=
  first_of_armed armed

theorem nextEvent_of_armed {m : ScdVdp}
    (armed : m.hint.hintAt ≠ 0 ∧ m.hint.hintAt ≤ m.vdpOnset ∧
      (m.vintAt = 0 ∨ m.hint.hintAt ≤ m.vintAt) ∧ beforeCapture m.hint.hintAt m.capture = true) :
    scdVdpNextEvent m = m.hint.hintAt := by
  obtain ⟨nonzero, onset, vint, capture⟩ := armed
  apply le_antisymm (nextEvent_le_hintAt nonzero)
  have vint_le : m.hint.hintAt ≤ if m.vintAt ≠ 0 ∧ m.vintAt < m.vdpOnset then m.vintAt else m.vdpOnset := by
    split_ifs with before
    · exact vint.resolve_left before.1
    · exact onset
  rw [scdVdpNextEvent]
  generalize (if m.vintAt ≠ 0 ∧ m.vintAt < m.vdpOnset then m.vintAt else m.vdpOnset) = next at vint_le ⊢
  cases sample : m.capture with
  | none =>
    dsimp only
    split_ifs
    · exact le_rfl
    · exact vint_le
  | some next =>
    rw [sample] at capture
    have line_le : m.hint.hintAt ≤ next.2 := by simpa [beforeCapture] using capture
    dsimp only
    split_ifs <;> first | exact le_rfl | exact line_le | exact vint_le

theorem sync_past {t : ℕ} (early : t < hintHorizon) (h : ScdHint) :
    StartsLate (scdHintSync vdp h t).next :=
  scdHintSync_past (horizon_inside early)

theorem HintInvariant.access {m m' : ScdVdp} {now bytes : ℕ} {inner : VdpState × ℕ → Option (VdpState × ℕ)}
    (inv : HintInvariant m) (before : now < scdVdpNextEvent m) (early : now < hintHorizon)
    (eq : scdVdpAccess now bytes inner m = some m') : HintInvariant m' := by
  have ahead : AheadInside (scdHintSync m.vdp m.hint now).next := scdHintSync_ahead early inv.inside
  have current : HintExact m.vdp (scdHintSync m.vdp m.hint now) :=
    scdHintSync_exact (horizon_inside early)
      (fun armed => before.trans_le (nextEvent_le_hintAt armed)) inv.exact_hint
  rw [scdVdpAccess] at eq
  dsimp only at eq
  cases inside : inner (m.vdp, m.mainIrqDelay) with
  | none =>
    rw [inside] at eq
    cases eq
  | some answer =>
    rw [inside] at eq
    dsimp only at eq
    by_cases changed : answer.1.registers 0 ≠ m.vdp.registers 0 ∨ answer.1.registers 10 ≠ m.vdp.registers 10
    · rw [if_pos changed] at eq
      cases eq
      refine ⟨scdHintArm_exact (sync_past early m.hint) ahead, ?_⟩
      rw [scdHintArm_next]
      exact ahead
    · rw [if_neg changed] at eq
      cases eq
      obtain ⟨same0, same10⟩ := not_or.mp changed
      exact ⟨hintExact_congr (not_not.mp same0) (not_not.mp same10) current, ahead⟩

theorem rearmed_invariant (m : ScdVdp) (past : StartsLate h.next) (ahead : AheadInside h.next) :
    HintInvariant { m with hint := scdHintArm m.vdp h } := by
  refine ⟨scdHintArm_exact past ahead, ?_⟩
  rw [scdHintArm_next]
  exact ahead

theorem cleared_invariant (m : ScdVdp) (past : StartsLate h.next) (ahead : AheadInside h.next) :
    HintInvariant { m with hint := scdHintArm m.vdp { h with pending := false } } :=
  rearmed_invariant (h := { h with pending := false }) m past ahead

theorem HintInvariant.acknowledge {m : ScdVdp} {now : ℕ} (inv : HintInvariant m) (early : now < hintHorizon)
    (level : ℕ) : HintInvariant (scdMainInterruptAcknowledge now level m) := by
  by_cases vertical : level = 6
  · rw [scdMainInterruptAcknowledge, if_pos vertical]
    exact ⟨hintExact_congr rfl rfl inv.exact_hint, inv.inside⟩
  by_cases horizontal : level = 4
  · rw [scdMainInterruptAcknowledge, if_neg vertical, if_pos horizontal]
    exact cleared_invariant m (sync_past early m.hint) (scdHintSync_ahead early inv.inside)
  · rw [scdMainInterruptAcknowledge, if_neg vertical, if_neg horizontal]
    exact inv

theorem HintInvariant.event {m : ScdVdp} (inv : HintInvariant m) (early : scdVdpNextEvent m < hintHorizon)
    (sampled : ℕ → Bool) : HintInvariant (scdVdpEvent sampled m) := by
  by_cases armed : m.hint.hintAt ≠ 0 ∧ m.hint.hintAt ≤ m.vdpOnset ∧
      (m.vintAt = 0 ∨ m.hint.hintAt ≤ m.vintAt) ∧ beforeCapture m.hint.hintAt m.capture = true
  · rw [scdVdpEvent, if_pos armed]
    rw [nextEvent_of_armed armed] at early
    exact rearmed_invariant m (sync_past early m.hint) (scdHintSync_ahead early inv.inside)
  rw [scdVdpEvent, if_neg armed]
  by_cases capture : captureDue m
  · rw [if_pos capture]
    exact ⟨inv.exact_hint, inv.inside⟩
  rw [if_neg capture]
  by_cases vint : m.vintAt ≠ 0 ∧ m.vintAt < m.vdpOnset
  · rw [if_pos vint]
    exact ⟨hintExact_congr rfl rfl inv.exact_hint, inv.inside⟩
  · rw [if_neg vint]
    exact ⟨inv.exact_hint, inv.inside⟩

theorem init_invariant : HintInvariant scdVdpInit := by
  refine ⟨⟨fun armed => absurd rfl armed, fun _ => .inl (by decide)⟩, ?_⟩
  rw [AheadInside]
  decide

theorem Reachable.invariant {m : ScdVdp} (reach : Reachable m) : HintInvariant m := by
  induction reach with
  | init => exact init_invariant
  | access now bytes inner reach before early eq ih => exact ih.access before early eq
  | acknowledge now level reach before early ih => exact ih.acknowledge early level
  | event sampled reach early ih => exact ih.event early sampled

/-- The counter does not depend on when it is sampled, and the armed tick is exact in every run. -/
theorem hint_counter_exact :
    (∀ (vdp : VdpState) (h : ScdHint) (ticks : List ℕ) (t : ℕ),
      (∀ s ∈ ticks, s ≤ t) → t + SCD_HINT_BIAS < 2 ^ 64 →
        (ticks ++ [t]).foldl (scdHintSync vdp) h =
          (scdHintLine vdp.register10)^[scdHintLineOf t + 1 - h.next] h) ∧
    ∀ m, Reachable m → HintExact m.vdp m.hint := by
  refine ⟨fun vdp h ticks t le inside => ?_, fun m reach => reach.invariant.exact_hint⟩
  rw [List.foldl_append, List.foldl_cons, List.foldl_nil, foldl_scdHintSync le inside]
  exact scdHintSync_eq h t

/-- Near the end of the 64-bit clock the origin of the grid wraps a tick to an early line, and an
earlier sample has stepped a line the last one does not see. -/
theorem wrapped_sample_differs :
    ¬∀ (vdp : VdpState) (h : ScdHint) (ticks : List ℕ) (t : ℕ),
      t < 2 ^ 64 → (∀ s ∈ ticks, s ≤ t) →
        (ticks ++ [t]).foldl (scdHintSync vdp) h =
          (scdHintLine vdp.register10)^[scdHintLineOf t + 1 - h.next] h := by
  intro same
  have samples := same scdVdpInit.vdp
    { scdVdpInit.hint with next := scdHintLineOf (2 ^ 64 - SCD_HINT_BIAS - 1) }
    [2 ^ 64 - SCD_HINT_BIAS - 1] (2 ^ 64 - 1) (by decide) (by decide)
  have next := congrArg ScdHint.next samples
  rw [List.foldl_append, List.foldl_cons, List.foldl_nil, List.foldl_cons, List.foldl_nil,
    scdHintSync_next, scdHintSync_next, iterate_next] at next
  exact absurd next (by decide)

end Segarecomp.SegaCd.HintCounter

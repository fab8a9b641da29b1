import Segarecomp.M68k.ExceptionCore

/-! Exception entry and RTE are inverse over well-nested runs, and refusals change nothing. -/

namespace Segarecomp.M68k.ExceptionCore

variable {M : Type}

/-- The byte a machine holds at each address. -/
abbrev View (M : Type) := M → BitVec 32 → BitVec 8

def wordBytes (v : BitVec 32) : ℕ → BitVec 8
  | 0 => (v >>> 8).setWidth 8
  | _ => v.setWidth 8

def longBytes (v : BitVec 32) : ℕ → BitVec 8
  | 0 => (v >>> 24).setWidth 8
  | 1 => (v >>> 16).setWidth 8
  | 2 => (v >>> 8).setWidth 8
  | _ => v.setWidth 8

def wordAt (view : BitVec 32 → BitVec 8) (a : BitVec 32) : BitVec 32 :=
  (view a).setWidth 32 <<< 8 ||| (view (a + 1)).setWidth 32

def longAt (view : BitVec 32 → BitVec 8) (a : BitVec 32) : BitVec 32 :=
  (view a).setWidth 32 <<< 24 ||| (view (a + 1)).setWidth 32 <<< 16 |||
    (view (a + 2)).setWidth 32 <<< 8 ||| (view (a + 3)).setWidth 32

/-- The hook contract: a memory whose validated frame extents stay readable and writable. Only
`frameWrite` changes memory, and inside a validated extent it changes exactly what it is given. -/
structure Backed (hooks : MachineHooks M) (view : View M) : Prop where
  bound : hooks.bound = true
  validateKeeps : ∀ m base length direction, view (hooks.validateStackExtent m base length direction).2 = view m
  readKeeps : ∀ m address size, view (hooks.stackRead m address size).2 = view m
  resolveKeeps : ∀ m vector, view (hooks.resolveVector m vector).2.2 = view m
  entryKeeps : ∀ notify, hooks.onExceptionEntry = some notify → ∀ m vector base handler,
    view (notify m vector base handler) = view m
  returnKeeps : ∀ notify, hooks.onExceptionReturn = some notify → ∀ m base, view (notify m base) = view m
  readable : ∀ m m' base, (hooks.validateStackExtent m base exceptionFrameBytes .write).1 = true →
    (hooks.validateStackExtent m' base exceptionFrameBytes .read).1 = true
  readWord : ∀ m m' base, (hooks.validateStackExtent m base exceptionFrameBytes .read).1 = true →
    (hooks.stackRead m' base 2).1 = some (wordAt (view m') base)
  readLong : ∀ m m' base, (hooks.validateStackExtent m base exceptionFrameBytes .read).1 = true →
    (hooks.stackRead m' (base + 2) 4).1 = some (longAt (view m') (base + 2))
  writeWord : ∀ m m' base v, (hooks.validateStackExtent m base exceptionFrameBytes .write).1 = true →
    ∀ i < 2, view (hooks.frameWrite m' base 2 v) (base + BitVec.ofNat 32 i) = wordBytes v i
  writeLong : ∀ m m' base v, (hooks.validateStackExtent m base exceptionFrameBytes .write).1 = true →
    (∀ i < 4, view (hooks.frameWrite m' (base + 2) 4 v) (base + 2 + BitVec.ofNat 32 i) = longBytes v i) ∧
      ∀ i < 2, view (hooks.frameWrite m' (base + 2) 4 v) (base + BitVec.ofNat 32 i) =
        view m' (base + BitVec.ofNat 32 i)

/-- A synchronous exception as its callers raise it: S forced, T cleared. -/
structure SoftwareEntry where
  vector : BitVec 32
  stackedPc : BitVec 32
  srKeepMask : BitVec 16
  srForcedBits : BitVec 16
  forcesSupervisor : srForcedBits &&& srSupervisor = srSupervisor
  clearsTrace : (srKeepMask ||| srForcedBits) &&& srTrace = 0

inductive Raise
  | exception (entry : SoftwareEntry)
  | interrupt (level vector stackedPc : BitVec 32)

def Raise.stackedPc : Raise → BitVec 32
  | .exception entry => entry.stackedPc
  | .interrupt _ _ stackedPc => stackedPc

def Raise.run (hooks : MachineHooks M) (s : State M) : Raise → Outcome M
  | .exception entry =>
      exceptionEnter hooks s entry.vector entry.stackedPc entry.srKeepMask entry.srForcedBits
  | .interrupt level vector stackedPc => interruptEnter hooks s level vector stackedPc

/-- Trace clear and only implemented status bits. -/
structure Sane (s : State M) : Prop where
  implemented : s.sr &&& srImplemented = s.sr
  untraced : s.sr &&& srTrace = 0

/-- The frame at the active stack pointer of `s` still holds its six bytes in `s'`. -/
def FrameIntact (view : View M) (s s' : State M) : Prop :=
  ∀ i < 6, view s'.machine (s.activeSp + BitVec.ofNat 32 i) = view s.machine (s.activeSp + BitVec.ofNat 32 i)

/-- What runs between the operations: it may change memory, the PC, the interrupt state and the
SR inside its mode, but neither stack pointer. -/
structure Between (s s' : State M) : Prop where
  activeSp : s'.activeSp = s.activeSp
  inactiveSp : s'.inactiveSp = s.inactiveSp
  mode : s'.sr &&& srSupervisor = s.sr &&& srSupervisor
  sane : Sane s → Sane s'

/-- A completed pair: the state before an entry, the entry, and the outcome of its RTE. -/
structure Matched (M : Type) where
  before : State M
  entry : Raise
  returned : Outcome M

/-- A well-nested run of entries, RTEs and whatever runs between them, with its completed pairs. A
refused entry has no RTE. Before an RTE its frame is what the matching entry wrote. -/
inductive Nest (hooks : MachineHooks M) (view : View M) : State M → List (Matched M) → State M → Prop
  | done (s : State M) : Nest hooks view s [] s
  | between {s s' s'' : State M} {pairs : List (Matched M)} (step : Between s s')
      (rest : Nest hooks view s' pairs s'') : Nest hooks view s pairs s''
  | refused {s s' : State M} {pairs : List (Matched M)} (entry : Raise)
      (failed : (entry.run hooks s).status ≠ .ok)
      (rest : Nest hooks view (entry.run hooks s).state pairs s') : Nest hooks view s pairs s'
  | pair {s inner after : State M} {pairs later : List (Matched M)} (entry : Raise)
      (entered : (entry.run hooks s).status = .ok)
      (handler : Nest hooks view (entry.run hooks s).state pairs inner)
      (intact : FrameIntact view (entry.run hooks s).state inner)
      (rest : Nest hooks view (exceptionReturn hooks inner).state later after) :
      Nest hooks view s (pairs ++ ⟨s, entry, exceptionReturn hooks inner⟩ :: later) after

/-- The RTE of a pair restores the state before its entry, with the PC that was stacked. -/
structure Restored (p : Matched M) : Prop where
  status : p.returned.status = .ok
  sr : p.returned.state.sr = p.before.sr
  activeSp : p.returned.state.activeSp = p.before.activeSp
  inactiveSp : p.returned.state.inactiveSp = p.before.inactiveSp
  pc : p.returned.state.pc = p.entry.stackedPc
  out : p.returned.out = some p.entry.stackedPc

/-- Memory, registers and interrupt state are as they were. -/
structure Unchanged (view : View M) (s s' : State M) : Prop where
  sr : s'.sr = s.sr
  activeSp : s'.activeSp = s.activeSp
  inactiveSp : s'.inactiveSp = s.inactiveSp
  pc : s'.pc = s.pc
  irq : s'.irq = s.irq
  memory : view s'.machine = view s.machine

theorem unchanged_machine {view : View M} {s : State M} {m : M} (h : view m = view s.machine) :
    Unchanged view s { s with machine := m } :=
  ⟨rfl, rfl, rfl, rfl, rfl, h⟩

theorem Unchanged.refl (view : View M) (s : State M) : Unchanged view s s :=
  ⟨rfl, rfl, rfl, rfl, rfl, rfl⟩

section entry
variable {hooks : MachineHooks M} {view : View M}

/-- Everything a successful entry does. -/
structure Entered (hooks : MachineHooks M) (view : View M) (s s' : State M) (stackedPc : BitVec 32)
    (keep forced : BitVec 16) : Prop where
  even : entrySsp s &&& 1 = 0
  activeSp : s'.activeSp = entrySsp s - exceptionFrameBytes
  inactiveSp : s'.inactiveSp = if supervisor s.sr then s.inactiveSp else s.activeSp
  sr : s'.sr = ((s.sr &&& keep) ||| forced) &&& srImplemented
  valid : ∃ m, (hooks.validateStackExtent m s'.activeSp exceptionFrameBytes .write).1 = true
  savedSr : ∀ i < 2, view s'.machine (s'.activeSp + BitVec.ofNat 32 i) = wordBytes (s.sr.setWidth 32) i
  savedPc : ∀ i < 4, view s'.machine (s'.activeSp + 2 + BitVec.ofNat 32 i) = longBytes stackedPc i

/-- A frame written inside a validated extent holds the SR word and the PC long. -/
theorem writeFrame_view (backed : Backed hooks view) {m : M} {base : BitVec 32}
    (valid : (hooks.validateStackExtent m base exceptionFrameBytes .write).1 = true)
    (m' : M) (vector handler : BitVec 32) (savedSr : BitVec 16) (stackedPc : BitVec 32) :
    (∀ i < 2, view (writeFrame hooks m' vector base handler savedSr stackedPc) (base + BitVec.ofNat 32 i) =
      wordBytes (savedSr.setWidth 32) i) ∧
    ∀ i < 4, view (writeFrame hooks m' vector base handler savedSr stackedPc) (base + 2 + BitVec.ofNat 32 i) =
      longBytes stackedPc i := by
  have notified : view (writeFrame hooks m' vector base handler savedSr stackedPc) =
      view (hooks.frameWrite (hooks.frameWrite m' base 2 (savedSr.setWidth 32)) (base + 2) 4 stackedPc) := by
    unfold writeFrame
    cases hook : hooks.onExceptionEntry with
    | none => rfl
    | some notify => exact backed.entryKeeps notify hook _ _ _ _
  rcases backed.writeLong m (hooks.frameWrite m' base 2 (savedSr.setWidth 32)) base stackedPc valid with
    ⟨long, kept⟩
  rw [notified]
  constructor
  · intro i hi
    rw [kept i hi, backed.writeWord m m' base _ valid i hi]
  · exact long

theorem exceptionEnter_cases (backed : Backed hooks view) (s : State M) (vector stackedPc : BitVec 32)
    (keep forced : BitVec 16) :
    ((exceptionEnter hooks s vector stackedPc keep forced).status ≠ .ok ∧
      Unchanged view s (exceptionEnter hooks s vector stackedPc keep forced).state) ∨
    ((exceptionEnter hooks s vector stackedPc keep forced).status = .ok ∧
      (exceptionEnter hooks s vector stackedPc keep forced).state.irq = s.irq ∧
      Entered hooks view s (exceptionEnter hooks s vector stackedPc keep forced).state stackedPc keep forced) := by
  unfold exceptionEnter
  have validKeeps := backed.validateKeeps s.machine (entrySsp s - exceptionFrameBytes) exceptionFrameBytes .write
  have resolveKeeps := backed.resolveKeeps (hooks.validateStackExtent s.machine
    (entrySsp s - exceptionFrameBytes) exceptionFrameBytes .write).2 vector
  simp only [backed.bound, Bool.not_true, Bool.false_eq_true, if_false]
  split
  · exact .inl ⟨by simp, Unchanged.refl view s⟩
  · next even =>
      split
      · exact .inl ⟨by simp, unchanged_machine validKeeps⟩
      · next valid =>
          split
          · exact .inl ⟨by simp, unchanged_machine (resolveKeeps.trans validKeeps)⟩
          · have accepted : (hooks.validateStackExtent s.machine (entrySsp s - exceptionFrameBytes)
                exceptionFrameBytes .write).1 = true := by
              simpa using valid
            have frame := fun m handler => writeFrame_view backed accepted m vector handler s.sr stackedPc
            exact .inr ⟨rfl, rfl, {
              even := by simpa using even
              activeSp := rfl
              inactiveSp := rfl
              sr := rfl
              valid := ⟨s.machine, accepted⟩
              savedSr := (frame _ _).1
              savedPc := (frame _ _).2 }⟩

/-- The entry masks of a raise, which force S and clear T. -/
structure EntryMasks (keep forced : BitVec 16) : Prop where
  supervisor : forced &&& srSupervisor = srSupervisor
  trace : (keep ||| forced) &&& srTrace = 0

theorem interrupt_masks (level : BitVec 32) (high : level ≤ 7) :
    EntryMasks (0xFFFF &&& ~~~(srTrace ||| srInterruptMask)) (srSupervisor ||| (level <<< 8).setWidth 16) := by
  have all : ∀ l : Fin 8, EntryMasks (0xFFFF &&& ~~~(srTrace ||| srInterruptMask))
      (srSupervisor ||| ((BitVec.ofNat 32 l.val) <<< 8).setWidth 16) := by
    intro l
    fin_cases l <;> exact ⟨by decide, by decide⟩
  have small : level.toNat < 8 := by
    have : level.toNat ≤ 7 := high
    omega
  simpa using all ⟨level.toNat, small⟩

theorem interruptEnter_cases (backed : Backed hooks view) (s : State M) (level vector stackedPc : BitVec 32) :
    ((interruptEnter hooks s level vector stackedPc).status ≠ .ok ∧
      Unchanged view s (interruptEnter hooks s level vector stackedPc).state) ∨
    ((interruptEnter hooks s level vector stackedPc).status = .ok ∧
      ∃ keep forced, EntryMasks keep forced ∧
        Entered hooks view s (interruptEnter hooks s level vector stackedPc).state stackedPc keep forced) := by
  unfold interruptEnter
  split
  · exact .inl ⟨by simp, Unchanged.refl view s⟩
  · next range =>
      split
      · exact .inl ⟨by simp, Unchanged.refl view s⟩
      · rcases exceptionEnter_cases backed s vector stackedPc
          (0xFFFF &&& ~~~(srTrace ||| srInterruptMask)) (srSupervisor ||| (level <<< 8).setWidth 16) with
          ⟨failed, unchanged⟩ | ⟨ok, _, entered⟩
        · rw [if_pos failed]
          exact .inl ⟨failed, unchanged⟩
        · have masks := interrupt_masks level (by
            rw [not_or] at range
            exact BitVec.not_lt.mp range.2)
          rw [if_neg (not_not.mpr ok)]
          exact .inr ⟨ok, _, _, masks, {
            even := entered.even
            activeSp := entered.activeSp
            inactiveSp := entered.inactiveSp
            sr := entered.sr
            valid := entered.valid
            savedSr := entered.savedSr
            savedPc := entered.savedPc }⟩

theorem Raise.run_cases (backed : Backed hooks view) (s : State M) (entry : Raise) :
    ((entry.run hooks s).status ≠ .ok ∧ Unchanged view s (entry.run hooks s).state) ∨
    ((entry.run hooks s).status = .ok ∧ ∃ keep forced, EntryMasks keep forced ∧
      Entered hooks view s (entry.run hooks s).state entry.stackedPc keep forced) := by
  cases entry with
  | exception e =>
      rcases exceptionEnter_cases backed s e.vector e.stackedPc e.srKeepMask e.srForcedBits with
        failed | ⟨ok, _, entered⟩
      · exact .inl failed
      · exact .inr ⟨ok, _, _, ⟨e.forcesSupervisor, e.clearsTrace⟩, entered⟩
  | interrupt level vector stackedPc => exact interruptEnter_cases backed s level vector stackedPc

theorem Entered.sane {s s' : State M} {stackedPc : BitVec 32} {keep forced : BitVec 16}
    (entered : Entered hooks view s s' stackedPc keep forced) (masks : EntryMasks keep forced) : Sane s' := by
  constructor
  · rw [entered.sr, BitVec.and_assoc, BitVec.and_self]
  · rw [entered.sr]
    apply BitVec.eq_of_getLsbD_eq
    intro i hi
    have bit := congrArg (fun x => BitVec.getLsbD x i) masks.trace
    simp only [BitVec.getLsbD_and, BitVec.getLsbD_or] at bit ⊢
    cases ht : srTrace.getLsbD i with
    | false => simp
    | true => simp_all

end entry

section return_
variable {hooks : MachineHooks M} {view : View M}

theorem wordAt_wordBytes {v : BitVec 32 → BitVec 8} {a : BitVec 32} {sr : BitVec 16}
    (bytes : ∀ i < 2, v (a + BitVec.ofNat 32 i) = wordBytes (sr.setWidth 32) i) :
    (wordAt v a).setWidth 16 = sr := by
  have b0 : v a = wordBytes (sr.setWidth 32) 0 := by simpa using bytes 0 (by decide)
  have b1 : v (a + 1) = wordBytes (sr.setWidth 32) 1 := bytes 1 (by decide)
  rw [wordAt, b0, b1]
  simp only [wordBytes]
  apply BitVec.eq_of_getLsbD_eq
  intro i hi
  simp only [BitVec.getLsbD_or, BitVec.getLsbD_shiftLeft, BitVec.getLsbD_setWidth, BitVec.getLsbD_ushiftRight]
  interval_cases i <;> simp

theorem longAt_longBytes {v : BitVec 32 → BitVec 8} {a x : BitVec 32}
    (bytes : ∀ i < 4, v (a + BitVec.ofNat 32 i) = longBytes x i) : longAt v a = x := by
  have b0 : v a = longBytes x 0 := by simpa using bytes 0 (by decide)
  have b1 : v (a + 1) = longBytes x 1 := bytes 1 (by decide)
  have b2 : v (a + 2) = longBytes x 2 := bytes 2 (by decide)
  have b3 : v (a + 3) = longBytes x 3 := bytes 3 (by decide)
  rw [longAt, b0, b1, b2, b3]
  simp only [longBytes]
  apply BitVec.eq_of_getLsbD_eq
  intro i hi
  simp only [BitVec.getLsbD_or, BitVec.getLsbD_shiftLeft, BitVec.getLsbD_setWidth, BitVec.getLsbD_ushiftRight]
  interval_cases i <;> simp

theorem readFrame_valid (backed : Backed hooks view) {m base : _}
    (valid : (hooks.validateStackExtent m base exceptionFrameBytes .read).1 = true) (m' : M) :
    (readFrame hooks m' base).1 = some (wordAt (view m') base, longAt (view m') (base + 2)) ∧
      view (readFrame hooks m' base).2 = view m' := by
  have word := backed.readWord m m' base valid
  have long := backed.readLong m (hooks.stackRead m' base 2).2 base valid
  have wordKeeps := backed.readKeeps m' base 2
  have longKeeps := backed.readKeeps (hooks.stackRead m' base 2).2 (base + 2) 4
  rw [readFrame]
  simp only [word, long, wordKeeps, true_and]
  exact longKeeps.trans wordKeeps

theorem readFrame_keeps (backed : Backed hooks view) (m : M) (sp : BitVec 32) :
    view (readFrame hooks m sp).2 = view m := by
  have word := backed.readKeeps m sp 2
  have long := backed.readKeeps (hooks.stackRead m sp 2).2 (sp + 2) 4
  unfold readFrame
  simp only
  split
  · exact word
  · split
    · exact long.trans word
    · exact long.trans word

theorem even_sub_frame {x : BitVec 32} (even : x &&& 1 = 0) : (x - exceptionFrameBytes) &&& 1 = 0 := by
  have bit : ∀ y : BitVec 32, y &&& 1 = 0 ↔ y.toNat % 2 = 0 := by
    intro y
    rw [← BitVec.toNat_inj, BitVec.toNat_and]
    simp [Nat.and_one_is_mod]
  rw [bit] at even ⊢
  rw [BitVec.toNat_sub]
  have : exceptionFrameBytes.toNat = 6 := by decide
  omega

/-- RTE of an intact frame, on the stack its entry left, undoes the entry. -/
theorem exceptionReturn_restores (backed : Backed hooks view) {s s1 s2 : State M} (sane : Sane s)
    {entry : Raise} {keep forced : BitVec 16}
    (entered : Entered hooks view s s1 entry.stackedPc keep forced)
    (activeSp : s2.activeSp = s1.activeSp) (inactiveSp : s2.inactiveSp = s1.inactiveSp)
    (intact : FrameIntact view s1 s2) :
    Restored ⟨s, entry, exceptionReturn hooks s2⟩ := by
  rcases entered.valid with ⟨m0, writable⟩
  have base := entered.activeSp
  have even : ¬ s2.activeSp &&& 1 ≠ 0 := by
    rw [activeSp, base, not_not]
    exact even_sub_frame entered.even
  have readable : (hooks.validateStackExtent s2.machine s2.activeSp exceptionFrameBytes .read).1 = true := by
    rw [activeSp]
    exact backed.readable m0 s2.machine s1.activeSp writable
  generalize validated : (hooks.validateStackExtent s2.machine s2.activeSp exceptionFrameBytes .read).2 = m1
  have memory : view m1 = view s2.machine := by
    rw [← validated]
    exact backed.validateKeeps _ _ _ _
  have savedSr : (wordAt (view m1) s2.activeSp).setWidth 16 = s.sr := by
    apply wordAt_wordBytes
    intro i hi
    rw [memory, activeSp, intact i (by omega), entered.savedSr i hi]
  have savedPc : longAt (view m1) (s2.activeSp + 2) = entry.stackedPc := by
    apply longAt_longBytes
    intro i hi
    have shift : s1.activeSp + 2 + BitVec.ofNat 32 i = s1.activeSp + BitVec.ofNat 32 (2 + i) := by
      rw [BitVec.add_assoc, BitVec.ofNat_add]
      rfl
    rw [memory, activeSp, shift, intact (2 + i) (by omega), ← shift, entered.savedPc i hi]
  have frame := (readFrame_valid backed readable m1).1
  rw [savedPc] at frame
  have top : s2.activeSp + exceptionFrameBytes = entrySsp s := by
    rw [activeSp, base, BitVec.sub_add_cancel]
  have untraced : ¬ s.sr &&& srTrace ≠ 0 := by simp [sane.untraced]
  have result : ∃ m, exceptionReturn hooks s2 = {
      status := .ok
      state := { s2 with
        activeSp := if supervisor s.sr then entrySsp s else s2.inactiveSp
        inactiveSp := if supervisor s.sr then s2.inactiveSp else entrySsp s
        sr := s.sr
        pc := entry.stackedPc
        machine := m }
      out := some entry.stackedPc } := by
    simp only [exceptionReturn, popFrame, backed.bound, Bool.not_true, Bool.false_eq_true, if_false, if_neg even,
      readable, validated, frame, savedSr, sane.implemented, if_neg untraced, top]
    exact ⟨_, rfl⟩
  rcases result with ⟨m, result⟩
  rw [result]
  have inactive := inactiveSp.trans entered.inactiveSp
  constructor
  · rfl
  · rfl
  · cases mode : supervisor s.sr <;> simp [inactive, mode, entrySsp]
  · cases mode : supervisor s.sr <;> simp [inactive, mode, entrySsp]
  · rfl
  · rfl

theorem popFrame_unchanged (backed : Backed hooks view) (s : State M)
    (commit : M → (savedWord savedPc : BitVec 32) → Outcome M)
    (atomic : ∀ m word pc, view m = view s.machine → (commit m word pc).status ≠ .ok →
      Unchanged view s (commit m word pc).state)
    (failed : (popFrame hooks s commit).status ≠ .ok) : Unchanged view s (popFrame hooks s commit).state := by
  have validKeeps := backed.validateKeeps s.machine s.activeSp exceptionFrameBytes .read
  have frameKeeps := readFrame_keeps backed
    (hooks.validateStackExtent s.machine s.activeSp exceptionFrameBytes .read).2 s.activeSp
  simp only [popFrame, backed.bound, Bool.not_true, Bool.false_eq_true, if_false] at failed ⊢
  split
  · exact Unchanged.refl view s
  · next even =>
      rw [if_neg even] at failed
      split
      · exact unchanged_machine validKeeps
      · next valid =>
          rw [if_neg valid] at failed
          cases frame : (readFrame hooks (hooks.validateStackExtent s.machine s.activeSp
              exceptionFrameBytes .read).2 s.activeSp).1 with
          | none => exact unchanged_machine (frameKeeps.trans validKeeps)
          | some saved =>
              simp only [frame] at failed
              exact atomic _ _ _ (frameKeeps.trans validKeeps) failed

theorem exceptionReturn_unchanged (backed : Backed hooks view) (s : State M)
    (failed : (exceptionReturn hooks s).status ≠ .ok) : Unchanged view s (exceptionReturn hooks s).state := by
  refine popFrame_unchanged backed s _ ?_ failed
  intro m word pc memory notOk
  simp only at notOk ⊢
  split
  · exact unchanged_machine memory
  · next untraced =>
      rw [if_neg untraced] at notOk
      simp at notOk

theorem returnRestoreCcr_unchanged (backed : Backed hooks view) (s : State M)
    (failed : (returnRestoreCcr hooks s).status ≠ .ok) : Unchanged view s (returnRestoreCcr hooks s).state := by
  refine popFrame_unchanged backed s _ ?_ failed
  intro m word pc memory notOk
  simp at notOk

end return_

inductive Operation
  | raise (entry : Raise)
  | rte
  | rtr

def Operation.run (hooks : MachineHooks M) (s : State M) : Operation → Outcome M
  | .raise entry => entry.run hooks s
  | .rte => exceptionReturn hooks s
  | .rtr => returnRestoreCcr hooks s

section nest
variable {hooks : MachineHooks M} {view : View M}

theorem Operation.run_unchanged (backed : Backed hooks view) (s : State M) (operation : Operation)
    (failed : (operation.run hooks s).status ≠ .ok) : Unchanged view s (operation.run hooks s).state := by
  cases operation with
  | raise entry =>
      rcases entry.run_cases backed s with ⟨_, unchanged⟩ | ⟨ok, _⟩
      · exact unchanged
      · exact absurd ok failed
  | rte => exact exceptionReturn_unchanged backed s failed
  | rtr => exact returnRestoreCcr_unchanged backed s failed

/-- What a whole nest keeps: the mode, both stack pointers, and a sane SR. -/
structure Kept (s s' : State M) : Prop where
  activeSp : s'.activeSp = s.activeSp
  inactiveSp : s'.inactiveSp = s.inactiveSp
  mode : s'.sr &&& srSupervisor = s.sr &&& srSupervisor
  sane : Sane s'

theorem Kept.trans {s s' s'' : State M} (first : Kept s s') (second : Kept s' s'') : Kept s s'' :=
  ⟨second.activeSp.trans first.activeSp, second.inactiveSp.trans first.inactiveSp,
    second.mode.trans first.mode, second.sane⟩

/-- By induction on the nest: it keeps the stacks, and every RTE in it restores its pair. -/
theorem nest_restores (backed : Backed hooks view) {s s' : State M} {pairs : List (Matched M)}
    (nest : Nest hooks view s pairs s') (sane : Sane s) : Kept s s' ∧ ∀ p ∈ pairs, Restored p := by
  induction nest with
  | done s => exact ⟨⟨rfl, rfl, rfl, sane⟩, by simp⟩
  | between step rest ih =>
      rcases ih (step.sane sane) with ⟨kept, restored⟩
      exact ⟨Kept.trans ⟨step.activeSp, step.inactiveSp, step.mode, step.sane sane⟩ kept, restored⟩
  | @refused s s' pairs entry failed rest ih =>
      rcases entry.run_cases backed s with ⟨_, same⟩ | ⟨ok, _⟩
      · have still : Sane (entry.run hooks s).state :=
          ⟨by rw [same.sr]; exact sane.implemented, by rw [same.sr]; exact sane.untraced⟩
        rcases ih still with ⟨kept, restored⟩
        exact ⟨Kept.trans ⟨same.activeSp, same.inactiveSp, by rw [same.sr], still⟩ kept, restored⟩
      · exact absurd ok failed
  | @pair s inner after pairs later entry entered handler intact rest ihHandler ihRest =>
      rcases entry.run_cases backed s with ⟨failed, _⟩ | ⟨_, keep, forced, masks, effect⟩
      · exact absurd entered failed
      · rcases ihHandler (effect.sane masks) with ⟨kept, restoredInner⟩
        have undone := exceptionReturn_restores backed sane effect kept.activeSp kept.inactiveSp intact
        have still : Sane (exceptionReturn hooks inner).state :=
          ⟨by rw [undone.sr]; exact sane.implemented, by rw [undone.sr]; exact sane.untraced⟩
        rcases ihRest still with ⟨keptRest, restoredLater⟩
        refine ⟨Kept.trans ⟨undone.activeSp, undone.inactiveSp, by rw [undone.sr], still⟩ keptRest, ?_⟩
        intro p member
        rcases List.mem_append.mp member with before | member
        · exact restoredInner p before
        · rcases List.mem_cons.mp member with rfl | after_
          · exact undone
          · exact restoredLater p after_

end nest

/-- Every RTE of a well-nested run restores the SR, both stack pointers and the PC that its
matching entry stacked, and no refused operation changes anything. -/
theorem nest_inverse (hooks : MachineHooks M) (view : View M) (backed : Backed hooks view) :
    (∀ (s s' : State M) (pairs : List (Matched M)), Nest hooks view s pairs s' → Sane s →
      ∀ p ∈ pairs, Restored p) ∧
    ∀ (s : State M) (operation : Operation), (operation.run hooks s).status ≠ .ok →
      Unchanged view s (operation.run hooks s).state :=
  ⟨fun _ _ _ nest sane => (nest_restores backed nest sane).2, Operation.run_unchanged backed⟩

/-! A flat memory behind the hooks. -/

abbrev Flat := BitVec 32 → BitVec 8

def store (m : Flat) (a : BitVec 32) (n : ℕ) (bytes : ℕ → BitVec 8) : Flat :=
  fun b => if (b - a).toNat < n then bytes (b - a).toNat else m b

def flatHooks : MachineHooks Flat where
  validateStackExtent m _ _ _ := (true, m)
  stackRead m a size := (some (if size = 2 then wordAt m a else longAt m a), m)
  frameWrite m a size v := if size = 2 then store m a 2 (wordBytes v) else store m a 4 (longBytes v)
  resolveVector m vector := (.handler, 0x400 + vector <<< 2, m)

theorem add_sub_self (a b : BitVec 32) : a + b - a = b := by
  rw [BitVec.add_comm, BitVec.add_sub_cancel]

theorem flatHooks_backed : Backed flatHooks (id : View Flat) where
  bound := rfl
  validateKeeps _ _ _ _ := rfl
  readKeeps _ _ _ := rfl
  resolveKeeps _ _ := rfl
  entryKeeps _ h := by simp [flatHooks] at h
  returnKeeps _ h := by simp [flatHooks] at h
  readable _ _ _ _ := rfl
  readWord _ _ _ _ := rfl
  readLong _ _ _ _ := rfl
  writeWord _ m base v _ i hi := by
    have offset : (base + BitVec.ofNat 32 i - base).toNat = i := by
      rw [add_sub_self, BitVec.toNat_ofNat, Nat.mod_eq_of_lt (by omega)]
    simp only [flatHooks, id, store, if_true, offset, if_pos hi]
  writeLong _ m base v _ := by
    constructor
    · intro i hi
      have offset : (base + 2 + BitVec.ofNat 32 i - (base + 2)).toNat = i := by
        rw [add_sub_self, BitVec.toNat_ofNat, Nat.mod_eq_of_lt (by omega)]
      show store m (base + 2) 4 (longBytes v) (base + 2 + BitVec.ofNat 32 i) = longBytes v i
      simp only [store, offset, if_pos hi]
    · intro i hi
      have offset : (base + BitVec.ofNat 32 i - (base + 2)).toNat = 2 ^ 32 - 2 + i := by
        have two : (2 : BitVec 32).toNat = 2 := by decide
        rw [BitVec.toNat_sub, BitVec.toNat_add, BitVec.toNat_add, BitVec.toNat_ofNat, two]
        omega
      show store m (base + 2) 4 (longBytes v) (base + BitVec.ofNat 32 i) = m (base + BitVec.ofNat 32 i)
      simp only [store, offset]
      rw [if_neg (by omega)]

/-- User mode, about to execute a trap. -/
def sampleState : State Flat :=
  { sr := 0x0004, activeSp := 0x8000, inactiveSp := 0x1000, pc := 0x200, machine := fun _ => 0 }

def sampleTrap : Raise := .exception ⟨32, 0x202, 0x7FFF, srSupervisor, by decide, by decide⟩

def sampleInterrupt : Raise := .interrupt 6 30 0x480

def sampleInner : State Flat :=
  (exceptionReturn flatHooks (sampleInterrupt.run flatHooks (sampleTrap.run flatHooks sampleState).state).state).state

theorem sampleNest : Nest flatHooks id sampleState
    [⟨(sampleTrap.run flatHooks sampleState).state, sampleInterrupt, exceptionReturn flatHooks
        (sampleInterrupt.run flatHooks (sampleTrap.run flatHooks sampleState).state).state⟩,
      ⟨sampleState, sampleTrap, exceptionReturn flatHooks sampleInner⟩]
    (exceptionReturn flatHooks sampleInner).state :=
  .pair sampleTrap rfl
    (.pair sampleInterrupt rfl (.done _) (fun _ _ => rfl) (.done _))
    (by unfold FrameIntact; decide) (.done _)

theorem nest_inverse_sample :
    Restored ⟨sampleState, sampleTrap, exceptionReturn flatHooks sampleInner⟩ :=
  (nest_inverse flatHooks id flatHooks_backed).1 _ _ _ sampleNest ⟨by decide, by decide⟩ _ (by simp)

/-- The PC an entry stacks need not be the PC before it: a trap stacks the next instruction. -/
theorem nest_pc_moved :
    ¬ ∀ (M : Type) (hooks : MachineHooks M) (view : View M), Backed hooks view →
      ∀ (s s' : State M) (pairs : List (Matched M)), Nest hooks view s pairs s' → Sane s →
        ∀ p ∈ pairs, p.returned.state.sr = p.before.sr ∧ p.returned.state.activeSp = p.before.activeSp ∧
          p.returned.state.inactiveSp = p.before.inactiveSp ∧ p.returned.state.pc = p.before.pc := by
  intro claim
  have := (claim Flat flatHooks id flatHooks_backed _ _ _ sampleNest ⟨by decide, by decide⟩
    ⟨sampleState, sampleTrap, exceptionReturn flatHooks sampleInner⟩ (by simp)).2.2.2
  revert this
  decide

end Segarecomp.M68k.ExceptionCore

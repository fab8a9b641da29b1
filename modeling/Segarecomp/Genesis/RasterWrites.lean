import Segarecomp.Genesis.DmaDrain

/-! What an access of the 68000 does to the picture: whatever path it takes, VRAM changes byte by
byte, each byte offered to the journal, and nothing else the schedule or the capture keeps moves. -/

namespace Segarecomp.Genesis.RasterWrites

open Schedule VdpPort Route DmaDrain

variable {D F : Type} {s s' t : Screen F} {r : Runtime D F}

def withVdp (s : Screen F) (vdp : VdpState) : Screen F := { s with vdp := vdp }

/-- A VRAM byte and its journal entry. -/
def putByte (s : Screen F) (address : ℕ) (value : Byte) : Screen F :=
  journalVram (withVdp s (storeByte s.vdp .vram address value)) address value

/-- Changes of the VDP that keep VRAM, and journaled VRAM bytes, in any order. -/
inductive Written (s : Screen F) : Screen F → Prop
  | refl : Written s s
  | vdp {s' : Screen F} (written : Written s s') (vdp : VdpState) (vram : vdp.vram = s'.vdp.vram) :
      Written s (withVdp s' vdp)
  | byte {s' : Screen F} (written : Written s s') (address : ℕ) (value : Byte) :
      Written s (putByte s' address value)

theorem Written.trans (first : Written s s') (second : Written s' t) : Written s t := by
  induction second with
  | refl => exact first
  | vdp _ vdp vram ih => exact ih.vdp vdp vram
  | byte _ address value ih => exact ih.byte address value

theorem written_vdp (vdp : VdpState) (vram : vdp.vram = s.vdp.vram) : Written s (withVdp s vdp) :=
  Written.refl.vdp vdp vram

theorem journalVram_withVdp (s : Screen F) (vdp : VdpState) (address : ℕ) (value : Byte) :
    journalVram (withVdp s vdp) address value = withVdp (journalVram s address value) vdp := by
  obtain ⟨ticks, old, latch, raster, frames, observer, live⟩ := s
  rw [journalVram, journalVram, withVdp]
  cases live with
  | none => rfl
  | some capture =>
      dsimp only
      split_ifs <;> rfl

theorem putByte_eq (s : Screen F) (address : ℕ) (value : Byte) :
    putByte s address value = withVdp (journalVram s address value) (storeByte s.vdp .vram address value) :=
  journalVram_withVdp s _ address value

/-! ## Storage -/

theorem storeHalfword_bytes (s : Screen F) (destination : ℕ) (first second : Byte) :
    storeHalfword s .vram destination first second =
      putByte (putByte s destination first) ((destination + 1) % 65536) second := by
  let next := (destination + 1) % 65536
  let once := storeByte s.vdp .vram destination first
  let twice := storeByte once .vram next second
  calc
    storeHalfword s .vram destination first second =
        journalVram (journalVram (withVdp s twice) destination first) next second := rfl
    _ = journalVram (withVdp (journalVram s destination first) twice) next second := by
      rw [journalVram_withVdp]
    _ = journalVram (withVdp (withVdp (journalVram s destination first) once) twice) next second := rfl
    _ = putByte (withVdp (journalVram s destination first) once) next second := rfl
    _ = putByte (putByte s destination first) next second := by rw [putByte_eq s]

theorem storeHalfword_written (s : Screen F) (target : Target) (destination : ℕ) (first second : Byte) :
    Written s (storeHalfword s target destination first second) := by
  cases target with
  | vram =>
      rw [storeHalfword_bytes]
      exact (Written.refl.byte destination first).byte _ second
  | cram => exact written_vdp _ rfl
  | vsram => exact written_vdp _ rfl

/-! ## The control port -/

theorem controlPortWriteWord_vram {vdp vdp' : VdpState} {word : BitVec 16}
    (accepted : controlPortWriteWord vdp word = some vdp') : vdp'.vram = vdp.vram := by
  rw [controlPortWriteWord, secondWord, armDma, setRegister] at accepted
  dsimp only at accepted
  split_ifs at accepted
  all_goals
    cases accepted
    rfl

/-! ## Transfers -/

variable {read : SourceRead}

theorem transferWord_written (s : Screen F) (target : Target) (value : BitVec 32) :
    Written s (transferWord s target value) := by
  rw [transferWord]
  apply (storeHalfword_written s target _ _ _).vdp
  split_ifs <;> rfl

theorem progressDma_written (ok : progressDma read s = .ok s') : Written s s' := by
  rw [progressDma] at ok
  split_ifs at ok
  · cases ok
    exact .refl
  · cases ok
    exact .refl
  · split at ok <;> cases ok
  · split at ok
    · cases ok
    · split at ok
      · cases ok
      · split_ifs at ok
        cases ok
        exact transferWord_written _ _ _

theorem drainLoop_written (steps : ℕ) (s : Screen F) : Written s (drainLoop read steps s).2 := by
  induction steps generalizing s with
  | zero => exact .refl
  | succ steps ih =>
      rw [drainLoop]
      by_cases idle : s.vdp.dma.phase ≠ .busy
      · rw [if_pos idle]
        exact .refl
      · rw [if_neg idle]
        cases progressed : progressDma read s with
        | error stop => exact .refl
        | ok s' => exact (progressDma_written progressed).trans (ih s')

theorem drain_written (s : Screen F) : Written s (drainMemoryToVdpDma read s).2 := by
  rw [drainMemoryToVdpDma]
  split_ifs
  · exact .refl
  · exact drainLoop_written _ s

theorem suspend_written (s : Screen F) (word : BitVec 16) :
    Written s (controlPortWriteWordAndSuspend read s word).2 := by
  rw [controlPortWriteWordAndSuspend]
  cases accepted : controlPortWriteWord s.vdp word with
  | none => exact .refl
  | some vdp => exact (written_vdp vdp (controlPortWriteWord_vram accepted)).trans (drain_written _)

/-! ## The data port -/

theorem fillStep_written (increment : ℕ) (high : Byte) (n : ℕ) (p : Screen F × ℕ) :
    Written p.1 ((fillStep increment high)^[n] p).1 := by
  induction n with
  | zero => exact .refl
  | succ n ih =>
      rw [Function.iterate_succ_apply']
      exact ih.byte _ _

theorem dataPortFillWrite_written (s : Screen F) (value : BitVec 16) : Written s (dataPortFillWrite s value).2 := by
  rw [dataPortFillWrite]
  dsimp only
  split_ifs
  · exact .refl
  · apply Written.vdp
    · exact (storeHalfword_written s .vram _ _ _).trans (fillStep_written _ _ _ (_, _))
    · rfl

theorem dataPortTargetWriteHalfword_written (s : Screen F) (target : Target) (halfword : BitVec 16) :
    Written s (dataPortTargetWriteHalfword s target halfword).2 := by
  rw [dataPortTargetWriteHalfword]
  dsimp only
  split_ifs
  · exact .refl
  · exact (storeHalfword_written s target _ _ _).vdp _ rfl
  · exact (storeHalfword_written s target _ _ _).vdp _ rfl

theorem cancelCommand_written (s : Screen F) : Written s (withVdp s (cancelCommand s.vdp)) := by
  apply written_vdp
  rw [cancelCommand]
  split_ifs <;> rfl

theorem dataPortCpuWrite_written (s : Screen F) (width : Width) (value : BitVec 32) :
    Written s (dataPortCpuWrite s width value).2 := by
  rw [dataPortCpuWrite]
  dsimp only
  split_ifs
  · exact .refl
  · exact cancelCommand_written s
  · split
    · exact cancelCommand_written s
    · cases width with
      | long =>
          dsimp only
          split_ifs
          · exact ((cancelCommand_written s).trans (dataPortTargetWriteHalfword_written _ _ _)).trans
              (dataPortTargetWriteHalfword_written _ _ _)
          · exact (cancelCommand_written s).trans (dataPortTargetWriteHalfword_written _ _ _)
      | word => exact (cancelCommand_written s).trans (dataPortTargetWriteHalfword_written _ _ _)
      | byte => exact (cancelCommand_written s).trans (dataPortTargetWriteHalfword_written _ _ _)

theorem dataPortTargetReadHalfword_written (s : Screen F) (target : Target) :
    Written s (dataPortTargetReadHalfword s target).2 := by
  rw [dataPortTargetReadHalfword]
  dsimp only
  split_ifs
  · exact .refl
  · exact written_vdp _ rfl
  · exact written_vdp _ rfl

theorem dataPortCpuRead_written (s : Screen F) (width : Width) : Written s (dataPortCpuRead s width).2 := by
  rw [dataPortCpuRead]
  dsimp only
  split_ifs
  · exact .refl
  · exact cancelCommand_written s
  · split
    · exact cancelCommand_written s
    · have first (target : Target) :=
        (cancelCommand_written s).trans (dataPortTargetReadHalfword_written _ target)
      cases width with
      | byte => exact cancelCommand_written s
      | word => exact first _
      | long =>
          dsimp only
          split
          · exact first _
          · exact (first _).trans (dataPortTargetReadHalfword_written _ _)

/-! ## Routed accesses -/

theorem vdpRead_written (s : Screen F) (a : Access) : Written s (vdpRead s a).2 := by
  rw [vdpRead]
  split_ifs
  · exact written_vdp _ rfl
  · exact .refl
  · exact dataPortCpuRead_written s a.width
  · exact .refl

theorem vdpWrite_written (s : Screen F) (a : Access) : Written s (vdpWrite s a).2 := by
  rw [vdpWrite]
  split_ifs
  · cases a.width with
    | byte => exact dataPortFillWrite_written s _
    | word => exact dataPortFillWrite_written s _
    | long => exact .refl
  · exact dataPortCpuWrite_written s _ _
  · cases accepted : controlPortWriteWord s.vdp (halfLow a.value) with
    | none => exact .refl
    | some vdp => exact written_vdp vdp (controlPortWriteWord_vram accepted)
  · exact .refl

theorem vdpAccess_written (s : Screen F) (a : Access) : Written s (vdpAccess s a).2 := by
  rw [vdpAccess]
  cases a.direction with
  | read => exact vdpRead_written s a
  | write =>
      dsimp only
      split_ifs
      · exact vdpWrite_written s a
      · exact vdpWrite_written s a

theorem progressed_written {a : Access} (ok : progressed read s a = .ok s') : Written s s' := by
  rw [progressed] at ok
  split_ifs at ok
  · exact progressDma_written ok
  · cases ok
    exact .refl

theorem controlPortWriteLong_written (s : Screen F) (value : BitVec 32) :
    Written s (controlPortWriteLong read s value).2 := by
  have first := @suspend_written _ read s (halfHigh value)
  rw [controlPortWriteLong]
  generalize controlPortWriteWordAndSuspend read s (halfHigh value) = out at first ⊢
  obtain ⟨answer, s'⟩ := out
  cases answer with
  | error stop => exact first
  | ok _ => exact first.trans (suspend_written s' _)

theorem routeVdp_written (machine : Machine D) (r : Runtime D F) (a : Access) :
    Written r.toScreen (routeVdp machine r a).2.toScreen := by
  rw [routeVdp]
  dsimp only
  cases began : progressed (sourceRead machine r.rest) r.toScreen a with
  | error stop => exact .refl
  | ok s =>
      have start := progressed_written began
      dsimp only
      split_ifs
      · exact start.trans (controlPortWriteLong_written s a.value)
      · have accessed := vdpAccess_written s a
        generalize vdpAccess s a = out at accessed ⊢
        obtain ⟨answer, s'⟩ := out
        cases answer with
        | none => exact start.trans accessed
        | some value => exact (start.trans accessed).trans (drain_written s')

/-- Every access, whatever it answers. -/
theorem routeAccess_written (machine : Machine D) (r : Runtime D F) (a : Access) (discarded : Bool) :
    Written r.toScreen (routeAccess machine r a discarded).2.toScreen := by
  have unrecorded : Written r.toScreen (routeAccessUnrecorded machine r a).2.toScreen := by
    rw [routeAccessUnrecorded]
    split
    · exact .refl
    · split_ifs
      · exact .refl
      · exact .refl
      · exact routeVdp_written machine r a
      · exact .refl
  rw [routeAccess]
  split_ifs
  · exact .refl
  · generalize routeAccessUnrecorded machine r a = out at unrecorded ⊢
    obtain ⟨answer, r'⟩ := out
    cases answer with
    | error stop => exact unrecorded
    | ok value => exact unrecorded

end Segarecomp.Genesis.RasterWrites

import Segarecomp.Genesis.M68kCopyAlias

/-! A derived alias is the longest verbatim run around the address, over all even occurrences of the
bytes that stand there. -/

namespace Segarecomp.Genesis.M68kAlias

variable {rom workRam : List Byte} {offset position length back start : ℕ} {best : Option Best}

/-! ## Runs -/

/-- Work RAM from `offset` on and the image from `position` on agree for `length` bytes. -/
def Forward (rom workRam : List Byte) (offset position length : ℕ) : Prop :=
  offset + length ≤ workRam.length ∧ position + length ≤ rom.length ∧
    ∀ i < length, byteAt workRam (offset + i) = byteAt rom (position + i)

/-- The `back` bytes before them agree. -/
def Backward (rom workRam : List Byte) (offset position back : ℕ) : Prop :=
  back ≤ offset ∧ back ≤ position ∧
    ∀ i < back, byteAt workRam (offset - back + i) = byteAt rom (position - back + i)

/-- The bytes at the address stand at an even place of the image. -/
def Occurs (rom workRam : List Byte) (offset position : ℕ) : Prop :=
  position % 2 = 0 ∧ Forward rom workRam offset position kMinRun

/-- The run around an occurrence: as many bytes forward as agree, as many words backward. -/
structure LongestRun (rom workRam : List Byte) (offset position length back : ℕ) : Prop where
  forward : Forward rom workRam offset position length
  forward_max : ∀ n, Forward rom workRam offset position n → n ≤ length
  backward : Backward rom workRam offset position back
  backward_words : back % 2 = 0
  backward_max : ∀ n, n % 2 = 0 → Backward rom workRam offset position n → n ≤ back

theorem Forward.prefix_le {n : ℕ} (forward : Forward rom workRam offset position length) (le : n ≤ length) :
    Forward rom workRam offset position n :=
  ⟨(Nat.add_le_add_left le offset).trans forward.1, (Nat.add_le_add_left le position).trans forward.2.1,
    fun i inside => forward.2.2 i (inside.trans_le le)⟩

theorem Forward.succ (forward : Forward rom workRam offset position length) (ram : offset + length < workRam.length)
    (image : position + length < rom.length)
    (same : byteAt workRam (offset + length) = byteAt rom (position + length)) :
    Forward rom workRam offset position (length + 1) := by
  refine ⟨ram, image, fun i inside => ?_⟩
  rcases Nat.lt_succ_iff_lt_or_eq.mp inside with before | rfl
  · exact forward.2.2 i before
  · exact same

theorem extendForward_spec (forward : Forward rom workRam offset position length) :
    length ≤ extendForward rom workRam offset position length ∧
      Forward rom workRam offset position (extendForward rom workRam offset position length) ∧
      ¬Forward rom workRam offset position (extendForward rom workRam offset position length + 1) := by
  fun_induction extendForward rom workRam offset position length with
  | case1 length goes ih =>
      obtain ⟨longer, whole, stops⟩ := ih (forward.succ goes.1 goes.2.1 goes.2.2)
      exact ⟨Nat.le_of_succ_le longer, whole, stops⟩
  | case2 length stops =>
      refine ⟨le_rfl, forward, fun more => stops ⟨more.1, more.2.1, ?_⟩⟩
      exact more.2.2 length (Nat.lt_succ_self length)

theorem Backward.words {n : ℕ} (backward : Backward rom workRam offset position back) (le : n ≤ back) :
    Backward rom workRam offset position n := by
  obtain ⟨ram, image, same⟩ := backward
  refine ⟨le.trans ram, le.trans image, fun i inside => ?_⟩
  have at_i := same (back - n + i) (by omega)
  rw [show offset - back + (back - n + i) = offset - n + i by omega,
    show position - back + (back - n + i) = position - n + i by omega] at at_i
  exact at_i

theorem Backward.add_two (backward : Backward rom workRam offset position back) (ram : back + 2 ≤ offset)
    (image : back + 2 ≤ position)
    (first : byteAt workRam (offset - back - 2) = byteAt rom (position - back - 2))
    (second : byteAt workRam (offset - back - 1) = byteAt rom (position - back - 1)) :
    Backward rom workRam offset position (back + 2) := by
  refine ⟨ram, image, fun i inside => ?_⟩
  match i with
  | 0 => rwa [Nat.add_zero, Nat.add_zero, Nat.sub_add_eq, Nat.sub_add_eq]
  | 1 => rwa [show offset - (back + 2) + 1 = offset - back - 1 by omega,
      show position - (back + 2) + 1 = position - back - 1 by omega]
  | i + 2 =>
      rw [show offset - (back + 2) + (i + 2) = offset - back + i by omega,
        show position - (back + 2) + (i + 2) = position - back + i by omega]
      exact backward.2.2 i (by omega)

theorem extendBack_spec (backward : Backward rom workRam offset position back) (words : back % 2 = 0) :
    extendBack rom workRam offset position back % 2 = 0 ∧
      Backward rom workRam offset position (extendBack rom workRam offset position back) ∧
      ¬Backward rom workRam offset position (extendBack rom workRam offset position back + 2) := by
  fun_induction extendBack rom workRam offset position back with
  | case1 back goes ih =>
      exact ih (backward.add_two goes.1 goes.2.1 goes.2.2.1 goes.2.2.2) (by omega)
  | case2 back stops =>
      refine ⟨words, backward, fun more => stops ⟨more.1, more.2.1, ?_, ?_⟩⟩
      · have first := more.2.2 0 (by omega)
        rwa [Nat.add_zero, Nat.add_zero, Nat.sub_add_eq, Nat.sub_add_eq] at first
      · have second := more.2.2 1 (by omega)
        have ram := more.1
        have image := more.2.1
        rwa [show offset - (back + 2) + 1 = offset - back - 1 by omega,
          show position - (back + 2) + 1 = position - back - 1 by omega] at second

theorem longestRun (occurs : Occurs rom workRam offset position) :
    LongestRun rom workRam offset position (extendForward rom workRam offset position kMinRun)
      (extendBack rom workRam offset position 0) := by
  obtain ⟨-, forward, stops⟩ := extendForward_spec occurs.2
  obtain ⟨words, backward, ends⟩ :=
    @extendBack_spec rom workRam offset position 0
      ⟨Nat.zero_le _, Nat.zero_le _, fun i none => absurd none (Nat.not_lt_zero i)⟩ rfl
  refine ⟨forward, fun n longer => ?_, backward, words, fun n even longer => ?_⟩
  · by_contra past
    exact stops (longer.prefix_le (Nat.lt_of_not_le past))
  · by_contra past
    exact ends (longer.words (by omega))

theorem LongestRun.unique {length' back' : ℕ} (run : LongestRun rom workRam offset position length back)
    (other : LongestRun rom workRam offset position length' back') : length = length' ∧ back = back' :=
  ⟨Nat.le_antisymm (other.forward_max _ run.forward) (run.forward_max _ other.forward),
    Nat.le_antisymm (other.backward_max _ run.backward_words run.backward)
      (run.backward_max _ other.backward_words other.backward)⟩

/-! ## The searcher -/

theorem getElem?_eq_byteAt {bytes : List Byte} {i : ℕ} (inside : i < bytes.length) :
    bytes[i]? = some (byteAt bytes i) := by
  rw [byteAt, List.getD_eq_getElem?_getD, List.getElem?_eq_getElem inside, Option.getD_some]

theorem needle_isPrefixOf (room : offset + kMinRun ≤ workRam.length) :
    (needle workRam offset).isPrefixOf (rom.drop position) = true ↔
      Forward rom workRam offset position kMinRun := by
  have length : (needle workRam offset).length = kMinRun := by
    rw [needle, List.length_take, List.length_drop]
    omega
  rw [List.isPrefixOf_iff_prefix, List.prefix_iff_eq_take, length]
  constructor
  · intro same
    have image : position + kMinRun ≤ rom.length := by
      have lengths := congrArg List.length same
      have least : 0 < kMinRun := by decide
      rw [length, List.length_take, List.length_drop] at lengths
      omega
    refine ⟨room, image, fun i inside => ?_⟩
    have at_i := congrArg (·[i]?) same
    rw [needle, List.getElem?_take_of_lt inside, List.getElem?_take_of_lt inside, List.getElem?_drop,
      List.getElem?_drop, getElem?_eq_byteAt (by omega), getElem?_eq_byteAt (by omega)] at at_i
    exact Option.some.inj at_i
  · rintro ⟨-, image, same⟩
    refine List.ext_getElem? fun i => ?_
    rw [needle, List.getElem?_take, List.getElem?_take, List.getElem?_drop, List.getElem?_drop]
    by_cases inside : i < kMinRun
    · rw [if_pos inside, if_pos inside, getElem?_eq_byteAt (by omega), getElem?_eq_byteAt (by omega),
        same i inside]
    · rw [if_neg inside, if_neg inside]

theorem search_some (room : offset + kMinRun ≤ workRam.length)
    (found : search rom (needle workRam offset) start = some position) :
    start ≤ position ∧ Forward rom workRam offset position kMinRun ∧
      ∀ other, start ≤ other → other < position → ¬Forward rom workRam offset other kMinRun := by
  have range := search_range found
  refine ⟨range.1, (needle_isPrefixOf room).mp ?_, fun other after before forward => ?_⟩
  · rw [search] at found
    have stands := List.find?_some found
    exact stands
  rw [search, List.find?_range'_eq_some] at found
  have not_there := found.2.2 other after before
  rw [(needle_isPrefixOf room).mpr forward] at not_there
  exact absurd not_there (by decide)

theorem search_none (room : offset + kMinRun ≤ workRam.length)
    (found : search rom (needle workRam offset) start = none) (after : start ≤ position) :
    ¬Forward rom workRam offset position kMinRun := by
  intro forward
  have image := forward.2.1
  have inside : position ∈ List.range' start (rom.length + 1 - start) := by
    rw [List.mem_range'_1]
    omega
  have not_there := List.find?_eq_none.mp found position inside
  exact not_there ((needle_isPrefixOf room).mpr forward)

/-! ## The best of the occurrences -/

/-- The held run is the best of the occurrences below `start`, the lowest of the longest ones. -/
structure Leads (rom workRam : List Byte) (offset start : ℕ) (best : Option Best) : Prop where
  none : best = none → ∀ other < start, ¬Occurs rom workRam offset other
  some : ∀ held, best = some held → Occurs rom workRam offset held.position ∧ held.position < start ∧
    held = runAt rom workRam offset held.position ∧
    ∀ other < start, Occurs rom workRam offset other →
      (runAt rom workRam offset other).total ≤ held.total ∧
        ((runAt rom workRam offset other).total = held.total → held.position ≤ other)

theorem Leads.extend {stop : ℕ} (leads : Leads rom workRam offset start best)
    (free : ∀ other, start ≤ other → other < stop → ¬Occurs rom workRam offset other) (le : start ≤ stop) :
    Leads rom workRam offset stop best := by
  refine ⟨fun empty other before occurs => ?_, fun held is => ?_⟩
  · rcases Nat.lt_or_ge other start with earlier | later
    · exact leads.none empty other earlier occurs
    · exact free other later before occurs
  · obtain ⟨stands, inside, run, most⟩ := leads.some held is
    refine ⟨stands, inside.trans_le le, run, fun other before occurs => ?_⟩
    rcases Nat.lt_or_ge other start with earlier | later
    · exact most other earlier occurs
    · exact absurd occurs (free other later before)

theorem Leads.orBetter (leads : Leads rom workRam offset position best) (occurs : Occurs rom workRam offset position) :
    Leads rom workRam offset (position + 1) (Best.orBetter best (runAt rom workRam offset position)) := by
  have at_run : (runAt rom workRam offset position).position = position := rfl
  cases best with
  | none =>
      refine ⟨fun empty => absurd empty (Option.some_ne_none _), fun held is => ?_⟩
      cases Option.some.inj is
      refine ⟨occurs, Nat.lt_succ_self position, rfl, fun other before stands => ?_⟩
      rcases Nat.lt_succ_iff_lt_or_eq.mp before with earlier | rfl
      · exact absurd stands (leads.none rfl other earlier)
      · exact ⟨le_rfl, fun _ => le_rfl⟩
  | some former =>
      obtain ⟨stands, inside, run, most⟩ := leads.some former rfl
      rw [Best.orBetter]
      by_cases better : former.total < (runAt rom workRam offset position).total
      · rw [if_pos better]
        refine ⟨fun empty => absurd empty (Option.some_ne_none _), fun held is => ?_⟩
        cases Option.some.inj is
        refine ⟨occurs, Nat.lt_succ_self position, rfl, fun other before known => ?_⟩
        rcases Nat.lt_succ_iff_lt_or_eq.mp before with earlier | rfl
        · have below := (most other earlier known).1.trans_lt better
          exact ⟨below.le, fun same => absurd same below.ne⟩
        · exact ⟨le_rfl, fun _ => le_rfl⟩
      · rw [if_neg better]
        refine ⟨fun empty => absurd empty (Option.some_ne_none _), fun held is => ?_⟩
        cases Option.some.inj is
        refine ⟨stands, Nat.lt_succ_of_lt inside, run, fun other before known => ?_⟩
        rcases Nat.lt_succ_iff_lt_or_eq.mp before with earlier | rfl
        · exact most other earlier known
        · exact ⟨Nat.le_of_not_lt better, fun _ => inside.le⟩

theorem bestRun_leads (room : offset + kMinRun ≤ workRam.length) (leads : Leads rom workRam offset start best)
    (stop : ℕ) (past : rom.length < stop) (le : start ≤ stop) :
    Leads rom workRam offset stop (bestRun rom workRam offset start best) := by
  fun_induction bestRun rom workRam offset start best with
  | case1 start best found =>
      exact leads.extend (fun other after _ occurs => search_none room found after occurs.2) le
  | case2 start best position found ih =>
      obtain ⟨after, forward, first⟩ := search_some room found
      have inside := (search_range found).2
      have here : Leads rom workRam offset position best :=
        leads.extend (fun other from_start before occurs => first other from_start before occurs.2) after
      refine ih ?_ (by omega)
      rw [Best.consider]
      by_cases even : position % 2 = 0
      · rw [if_pos even]
        exact here.orBetter ⟨even, forward⟩
      · rw [if_neg even]
        refine here.extend (fun other above below occurs => even ?_) (Nat.le_succ position)
        rw [Nat.le_antisymm above (Nat.le_of_lt_succ below)]
        exact occurs.1

theorem leads_start : Leads rom workRam offset 0 none :=
  ⟨fun _ _ before => absurd before (Nat.not_lt_zero _), fun _ is => absurd is.symm (Option.some_ne_none _)⟩

theorem bestRun_some {held : Best} (room : offset + kMinRun ≤ workRam.length)
    (is : bestRun rom workRam offset 0 none = some held) :
    Occurs rom workRam offset held.position ∧ held = runAt rom workRam offset held.position ∧
      ∀ other, Occurs rom workRam offset other →
        (runAt rom workRam offset other).total ≤ held.total ∧
          ((runAt rom workRam offset other).total = held.total → held.position ≤ other) := by
  have led (stop : ℕ) (past : rom.length < stop) := (bestRun_leads room leads_start stop past (Nat.zero_le _)).some held is
  obtain ⟨occurs, -, run, -⟩ := led (rom.length + 1) (Nat.lt_succ_self _)
  refine ⟨occurs, run, fun other known => ?_⟩
  exact (led (rom.length + other + 1) (by omega)).2.2.2 other (by omega) known

/-! ## The alias -/

/-- The run around `position`, its forward part rounded down to words, is the alias. -/
structure Covers (pc : BitVec 32) (position length back : ℕ) (found : CopyAlias) : Prop where
  execution : found.execution.toNat = pc.toNat - back
  source : found.source.toNat = position - back
  length : found.length.toNat = back + (length - length % 2)

theorem runAt_total (occurs : Occurs rom workRam offset position) (run : LongestRun rom workRam offset position length back) :
    runAt rom workRam offset position = { total := back + (length - length % 2), back, position } := by
  obtain ⟨rfl, rfl⟩ := run.unique (longestRun occurs)
  rfl

variable {pc : BitVec 32}

/-- The alias of a run. -/
def aliasOf (pc : BitVec 32) (position length back : ℕ) : CopyAlias where
  execution := BitVec.ofNat 32 (kWorkRamBegin + (pc.toNat - kWorkRamBegin) - back)
  source := BitVec.ofNat 32 (position - back)
  length := BitVec.ofNat 32 (back + (length - length % 2))

theorem exists_run_of_derive {found : CopyAlias} (derived : deriveCopyAlias rom workRam pc = some found) :
    (pc.toNat % 2 = 0 ∧ kWorkRamBegin ≤ pc.toNat ∧ pc.toNat < kWorkRamBegin + kWorkRamBytes) ∧
      ∃ position length back, Occurs rom workRam (pc.toNat - kWorkRamBegin) position ∧
        LongestRun rom workRam (pc.toNat - kWorkRamBegin) position length back ∧
        found = aliasOf pc position length back ∧
        ∀ other length' back', Occurs rom workRam (pc.toNat - kWorkRamBegin) other →
          LongestRun rom workRam (pc.toNat - kWorkRamBegin) other length' back' →
          back' + (length' - length' % 2) ≤ back + (length - length % 2) ∧
            (back' + (length' - length' % 2) = back + (length - length % 2) → position ≤ other) := by
  rw [deriveCopyAlias] at derived
  by_cases outside : pc.toNat % 2 ≠ 0 ∨ pc.toNat < kWorkRamBegin ∨ kWorkRamBegin + kWorkRamBytes ≤ pc.toNat
  · rw [if_pos outside] at derived
    exact absurd derived.symm (Option.some_ne_none _)
  rw [if_neg outside] at derived
  dsimp only at derived
  by_cases short : workRam.length < pc.toNat - kWorkRamBegin ∨ workRam.length - (pc.toNat - kWorkRamBegin) < kMinRun
  · rw [if_pos short] at derived
    exact absurd derived.symm (Option.some_ne_none _)
  rw [if_neg short] at derived
  have room : pc.toNat - kWorkRamBegin + kMinRun ≤ workRam.length := by omega
  refine ⟨by omega, ?_⟩
  cases is : bestRun rom workRam (pc.toNat - kWorkRamBegin) 0 none with
  | none =>
      rw [is] at derived
      exact absurd derived.symm (Option.some_ne_none _)
  | some held =>
      rw [is] at derived
      obtain ⟨occurs, runs, most⟩ := bestRun_some room is
      have total := congrArg Best.total runs
      have back := congrArg Best.back runs
      refine ⟨held.position, _, _, occurs, longestRun occurs, ?_, fun other length' back' stands run => ?_⟩
      · rw [← Option.some.inj derived, total, back]
        rfl
      · have better := most other stands
        rw [runAt_total stands run, total] at better
        exact better

theorem length_pos_of_derive {found : CopyAlias} (ram : workRam.length = kWorkRamBytes)
    (derived : deriveCopyAlias rom workRam pc = some found) : 0 < found.length.toNat := by
  obtain ⟨-, position, length, back, occurs, run, rfl, -⟩ := exists_run_of_derive derived
  have inRam := run.forward.1
  have backRam := run.backward.1
  have least := run.forward_max kMinRun occurs.2
  have sixteen : kMinRun = 16 := rfl
  have bytes : kWorkRamBytes = 0x10000 := rfl
  rw [aliasOf, BitVec.toNat_ofNat, Nat.mod_eq_of_lt (by omega)]
  omega

end Segarecomp.Genesis.M68kAlias

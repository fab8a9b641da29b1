import Mathlib.Tactic
import Segarecomp.Lib.Fallible
import Segarecomp.Lib.Leaders
import Segarecomp.M68k.DirectFlow

/-! What discovery leaves behind: the decoded set is closed under fall-through and under branches,
and splits at the entries. -/

namespace Segarecomp.M68k.DirectFlow

open Lib.Fallible Lib.Leaders

variable {image : List Byte} {program : DirectFlowProgram}

abbrev Line := Address × DirectInstruction × M68kDecodedInstruction

def DirectFlowKind.straight : DirectFlowKind → Bool
  | .moveqD0 | .subqL1D0 => true
  | .bneShort | .braShort => false

/-- The entries a branch at `pc` adds. -/
def branchSuccessors (pc : Address) (instruction : DirectInstruction) : List Address :=
  match instruction.kind with
  | .moveqD0 | .subqL1D0 => []
  | .bneShort => [pc + 2, branchTarget pc instruction.operand]
  | .braShort => [branchTarget pc instruction.operand]

def Known (decoded : List Line) (pc : Address) : Prop := pc ∈ decoded.map Prod.fst

def Straight (decoded : List Line) (pc : Address) : Prop :=
  ∃ i shared, (pc, i, shared) ∈ decoded ∧ i.kind.straight = true

/-- The discovery invariant. `pending` is the fall-through the current scan still has to decode. -/
structure Consistent (image : List Byte) (program : DirectFlowProgram) (pending : Option Address)
    (s : Discovery) : Prop where
  keys_nodup : (s.decoded.map Prod.fst).Nodup
  fifo_nodup : s.fifo.Nodup
  decodes : ∀ pc i shared, (pc, i, shared) ∈ s.decoded → decode image program pc = .ok (i, shared)
  preceded : ∀ pc, Known s.decoded pc → pc ∈ s.fifo ∨ ∃ q, Straight s.decoded q ∧ q + 2 = pc
  bounded : ∀ pc, Straight s.decoded pc → pc ≤ 0xFFFFFFFD
  follows : ∀ pc, Straight s.decoded pc →
    Known s.decoded (pc + 2) ∨ pc + 2 ∈ s.fifo ∨ pending = some (pc + 2)
  branches : ∀ pc i shared, (pc, i, shared) ∈ s.decoded → ∀ t ∈ branchSuccessors pc i, t ∈ s.fifo

theorem lookup_isSome_iff (decoded : List Line) (pc : Address) :
    (decoded.lookup pc).isSome = true ↔ Known decoded pc := by
  simp [Known]

theorem lookup_eq_some_iff {decoded : List Line} (distinct : (decoded.map Prod.fst).Nodup) (pc : Address)
    (value : DirectInstruction × M68kDecodedInstruction) :
    decoded.lookup pc = some value ↔ (pc, value) ∈ decoded := by
  induction decoded with
  | nil => simp
  | cons line rest ih =>
      rcases line with ⟨key, found⟩
      rw [List.map_cons, List.nodup_cons] at distinct
      by_cases same : pc = key
      · subst same
        have absent : (pc, value) ∉ rest := fun member =>
          distinct.1 (List.mem_map.mpr ⟨_, member, rfl⟩)
        simp [List.lookup, absent, eq_comm]
      · have differs : (pc == key) = false := by simpa using same
        simpa [List.lookup, differs, same] using ih distinct.2

theorem Discovery.insert_fifo_grows (s : Discovery) (entry : Address) : s.fifo <+: (s.insert entry).fifo := by
  unfold Discovery.insert
  split
  · exact List.prefix_refl _
  · exact List.prefix_append _ _

theorem Discovery.mem_insert (s : Discovery) (entry : Address) : entry ∈ (s.insert entry).fifo := by
  unfold Discovery.insert
  split
  · next member => exact member
  · simp

theorem Discovery.insert_nodup {s : Discovery} (distinct : s.fifo.Nodup) (entry : Address) :
    (s.insert entry).fifo.Nodup := by
  unfold Discovery.insert
  split
  · exact distinct
  · next absent =>
      rw [List.nodup_append]
      exact ⟨distinct, by simp, by rintro a member b last; simp at last; exact fun same => absent (last ▸ same ▸ member)⟩

@[simp] theorem Discovery.insert_decoded (s : Discovery) (entry : Address) :
    (s.insert entry).decoded = s.decoded := by
  unfold Discovery.insert
  split <;> rfl

theorem decode_kind {pc : Address} {i : DirectInstruction} {shared : M68kDecodedInstruction}
    (ok : decode image program pc = .ok (i, shared)) :
    i.provenance = shared.provenance ∧ i.kind = directKind shared.kind ∧ i.operand = shared.operand := by
  unfold decode at ok
  split at ok
  · cases ok
  · cases found : mappingFor program pc (reject .oddInstructionAddress pc) with
    | error failure => simp [found, bind, Except.bind] at ok
    | ok mapping =>
        simp only [found, bind, Except.bind] at ok
        split at ok
        · cases ok
        · injection ok with pair
          injection pair with first second
          subst first
          subst second
          exact ⟨rfl, rfl, rfl⟩

theorem decodeM68kInstruction_provenance {bytes : List Byte} {pc : Address} {offset : ℕ}
    {shared : M68kDecodedInstruction} (ok : decodeM68kInstruction bytes pc offset = .ok shared) :
    shared.provenance.address = pc ∧ shared.provenance.length = 2 := by
  unfold decodeM68kInstruction at ok
  split at ok
  · cases ok
  · simp only at ok
    split_ifs at ok <;> injection ok with same <;> subst same <;> exact ⟨rfl, rfl⟩

theorem decode_provenance {pc : Address} {i : DirectInstruction} {shared : M68kDecodedInstruction}
    (ok : decode image program pc = .ok (i, shared)) :
    i.provenance.address = pc ∧ i.provenance.length = 2 := by
  unfold decode at ok
  split at ok
  · cases ok
  · cases found : mappingFor program pc (reject .oddInstructionAddress pc) with
    | error failure => simp [found, bind, Except.bind] at ok
    | ok mapping =>
        simp only [found, bind, Except.bind] at ok
        split at ok
        · cases ok
        · next inner decoded =>
            injection ok with pair
            injection pair with first second
            subst first
            exact decodeM68kInstruction_provenance decoded

theorem Known.grow {decoded more : List Line} {pc : Address} (known : Known decoded pc) :
    Known (decoded ++ more) pc := by
  simp only [Known, List.map_append, List.mem_append]
  exact .inl known

theorem Known.mono {decoded more : List Line} {pc : Address} (known : Known decoded pc)
    (grown : decoded <+: more) : Known more pc := by
  rcases grown with ⟨rest, whole⟩
  exact whole ▸ known.grow

theorem Consistent.extend {s s' : Discovery} {pc : Address} {i : DirectInstruction}
    {shared : M68kDecodedInstruction} {pending : Option Address}
    (h : Consistent image program (some pc) s) (fresh : ¬ Known s.decoded pc)
    (decodes : decode image program pc = .ok (i, shared))
    (start : pc ∈ s.fifo ∨ ∃ q, Straight s.decoded q ∧ q + 2 = pc)
    (lines : s'.decoded = s.decoded ++ [(pc, i, shared)])
    (grown : s.fifo <+: s'.fifo) (distinct : s'.fifo.Nodup)
    (branches : ∀ t ∈ branchSuccessors pc i, t ∈ s'.fifo)
    (falls : i.kind.straight = true → pc ≤ 0xFFFFFFFD ∧ (pc + 2 ∈ s'.fifo ∨ pending = some (pc + 2))) :
    Consistent image program pending s' := by
  rcases s' with ⟨decoded, fifo⟩
  simp only at lines grown distinct branches falls
  subst lines
  have old : ∀ q, Straight (s.decoded ++ [(pc, i, shared)]) q →
      Straight s.decoded q ∨ (q = pc ∧ i.kind.straight = true) := by
    rintro q ⟨j, other, member, straight⟩
    rw [List.mem_append] at member
    rcases member with earlier | last
    · exact .inl ⟨j, other, earlier, straight⟩
    · simp only [List.mem_singleton, Prod.mk.injEq] at last
      exact .inr ⟨last.1, last.2.1 ▸ straight⟩
  have keeps : ∀ q, Straight s.decoded q → Straight (s.decoded ++ [(pc, i, shared)]) q := by
    rintro q ⟨j, other, member, straight⟩
    exact ⟨j, other, List.mem_append_left _ member, straight⟩
  constructor
  · rw [List.map_append, List.nodup_append]
    refine ⟨h.keys_nodup, by simp, ?_⟩
    intro a member b last same
    simp only [List.map_cons, List.map_nil, List.mem_singleton] at last
    exact fresh (last ▸ same ▸ member)
  · exact distinct
  · intro q j other member
    rcases List.mem_append.mp member with earlier | last
    · exact h.decodes q j other earlier
    · simp only [List.mem_singleton, Prod.mk.injEq] at last
      rcases last with ⟨rfl, rfl, rfl⟩
      exact decodes
  · intro q known
    simp only [Known, List.map_append, List.mem_append, List.map_cons, List.map_nil,
      List.mem_singleton] at known
    rcases known with earlier | rfl
    · rcases h.preceded q earlier with entry | ⟨p, straight, into⟩
      · exact .inl (grown.subset entry)
      · exact .inr ⟨p, keeps p straight, into⟩
    · rcases start with entry | ⟨p, straight, into⟩
      · exact .inl (grown.subset entry)
      · exact .inr ⟨p, keeps p straight, into⟩
  · intro q straight
    rcases old q straight with earlier | ⟨rfl, here⟩
    · exact h.bounded q earlier
    · exact (falls here).1
  · intro q straight
    rcases old q straight with earlier | ⟨rfl, here⟩
    · rcases h.follows q earlier with known | entry | waiting
      · exact .inl known.grow
      · exact .inr (.inl (grown.subset entry))
      · injection waiting with here
        left
        simp [Known, here]
    · exact .inr (falls here).2
  · intro q j other member t successor
    rcases List.mem_append.mp member with earlier | last
    · exact grown.subset (h.branches q j other earlier t successor)
    · simp only [List.mem_singleton, Prod.mk.injEq] at last
      rcases last with ⟨rfl, rfl, rfl⟩
      exact branches t successor

theorem Consistent.settle {s : Discovery} {pc : Address} (h : Consistent image program (some pc) s)
    (known : Known s.decoded pc) : Consistent image program none s where
  keys_nodup := h.keys_nodup
  fifo_nodup := h.fifo_nodup
  decodes := h.decodes
  preceded := h.preceded
  bounded := h.bounded
  follows := by
    intro q straight
    rcases h.follows q straight with earlier | entry | waiting
    · exact .inl earlier
    · exact .inr (.inl entry)
    · injection waiting with here
      exact .inl (here ▸ known)
  branches := h.branches

theorem Consistent.begin_ {s : Discovery} (h : Consistent image program none s) (pc : Address) :
    Consistent image program (some pc) s where
  keys_nodup := h.keys_nodup
  fifo_nodup := h.fifo_nodup
  decodes := h.decodes
  preceded := h.preceded
  bounded := h.bounded
  follows := by
    intro q straight
    rcases h.follows q straight with earlier | entry | waiting
    · exact .inl earlier
    · exact .inr (.inl entry)
    · cases waiting
  branches := h.branches

/-- What a scan or the whole loop guarantees of its final state. -/
structure Advanced (image : List Byte) (program : DirectFlowProgram) (s s' : Discovery) : Prop where
  consistent : Consistent image program none s'
  decoded : s.decoded <+: s'.decoded
  fifo : s.fifo <+: s'.fifo

theorem step_toNat {pc : Address} (below : pc ≤ 0xFFFFFFFD) : (pc + 2).toNat = pc.toNat + 2 := by
  have small : pc.toNat ≤ 0xFFFFFFFD := by simpa [BitVec.le_def] using below
  rw [BitVec.toNat_add]
  simp
  omega

theorem scan_spec {entry pc : Address} {s s' : Discovery} {room : ℕ}
    (h : Consistent image program (some pc) s)
    (start : pc ∈ s.fifo ∨ ∃ q, Straight s.decoded q ∧ q + 2 = pc)
    (enough : 2 ^ 32 ≤ room + pc.toNat)
    (ok : scan image program entry room pc s = .ok s') :
    Advanced image program s s' ∧ Known s'.decoded pc := by
  induction room generalizing pc s with
  | zero =>
      have small := pc.isLt
      omega
  | succ room ih =>
      rw [scan] at ok
      by_cases known : (s.decoded.lookup pc).isSome = true
      · rw [if_pos known] at ok
        injection ok with same
        subst same
        rw [lookup_isSome_iff] at known
        exact ⟨⟨h.settle known, List.prefix_refl _, List.prefix_refl _⟩, known⟩
      · rw [if_neg known, bind_ok_iff] at ok
        rw [lookup_isSome_iff] at known
        rcases ok with ⟨⟨i, shared⟩, decodes, ok⟩
        have more : ∀ t : Discovery, t.decoded = s.decoded ++ [(pc, i, shared)] →
            s.decoded <+: t.decoded ∧ Known t.decoded pc := by
          intro t lines
          rw [lines]
          exact ⟨List.prefix_append _ _, by simp [Known]⟩
        -- the two straight kinds take the same path
        have straightOn : i.kind.straight = true →
            (if pc > 0xFFFFFFFD then Except.error (reject .unmappedInstructionAddress entry)
              else if pc + 2 ∈ s.fifo ∧ pc + 2 ≠ entry then .ok ⟨s.decoded ++ [(pc, i, shared)], s.fifo⟩
              else scan image program entry room (pc + 2) ⟨s.decoded ++ [(pc, i, shared)], s.fifo⟩) =
              .ok s' → Advanced image program s s' ∧ Known s'.decoded pc := by
          intro straight ok
          have into : ∀ t ∈ branchSuccessors pc i, t ∈ s.fifo := by
            unfold branchSuccessors
            cases kind : i.kind <;> simp [kind, DirectFlowKind.straight] at straight ⊢
          split at ok
          · cases ok
          · next low =>
              have below : pc ≤ 0xFFFFFFFD := BitVec.not_lt.mp low
              split at ok
              · next stops =>
                  injection ok with same
                  subst same
                  have ended : Consistent image program none ⟨s.decoded ++ [(pc, i, shared)], s.fifo⟩ :=
                    h.extend known decodes start rfl (List.prefix_refl _) h.fifo_nodup into
                      (fun _ => ⟨below, .inl stops.1⟩)
                  rcases more ⟨s.decoded ++ [(pc, i, shared)], s.fifo⟩ rfl with ⟨kept, here⟩
                  exact ⟨⟨ended, kept, List.prefix_refl _⟩, here⟩
              · have going : Consistent image program (some (pc + 2))
                    ⟨s.decoded ++ [(pc, i, shared)], s.fifo⟩ :=
                  h.extend known decodes start rfl (List.prefix_refl _) h.fifo_nodup into
                    (fun _ => ⟨below, .inr rfl⟩)
                have next_ := step_toNat below
                have origin : Straight (s.decoded ++ [(pc, i, shared)]) pc :=
                  ⟨i, shared, by simp, straight⟩
                rcases ih going (.inr ⟨pc, origin, rfl⟩) (by omega) ok with ⟨advanced, _⟩
                rcases more ⟨s.decoded ++ [(pc, i, shared)], s.fifo⟩ rfl with ⟨kept, here⟩
                exact ⟨⟨advanced.consistent, kept.trans advanced.decoded, advanced.fifo⟩,
                  here.mono advanced.decoded⟩
        have branchOn : i.kind.straight = false → s'.decoded = s.decoded ++ [(pc, i, shared)] →
            s.fifo <+: s'.fifo → s'.fifo.Nodup → (∀ t ∈ branchSuccessors pc i, t ∈ s'.fifo) →
            Advanced image program s s' ∧ Known s'.decoded pc := by
          intro bent lines grown distinct into
          have ended : Consistent image program none s' :=
            h.extend known decodes start lines grown distinct into (by simp [bent])
          rcases more s' lines with ⟨kept, here⟩
          exact ⟨⟨ended, kept, grown⟩, here⟩
        cases kind : i.kind with
        | moveqD0 =>
            simp only [kind] at ok
            exact straightOn (by simp [kind, DirectFlowKind.straight]) ok
        | subqL1D0 =>
            simp only [kind] at ok
            exact straightOn (by simp [kind, DirectFlowKind.straight]) ok
        | bneShort =>
            simp only [kind, bind_ok_iff] at ok
            rcases ok with ⟨_, _, _, _, ok⟩
            injection ok with same
            have first := Discovery.insert_fifo_grows ⟨s.decoded ++ [(pc, i, shared)], s.fifo⟩ (pc + 2)
            have second := Discovery.insert_fifo_grows
              (Discovery.insert ⟨s.decoded ++ [(pc, i, shared)], s.fifo⟩ (pc + 2)) (branchTarget pc i.operand)
            rw [same] at second
            apply branchOn (by simp [kind, DirectFlowKind.straight])
            · simp [← same]
            · exact first.trans second
            · rw [← same]
              apply Discovery.insert_nodup
              apply Discovery.insert_nodup
              exact h.fifo_nodup
            · intro t member
              simp only [branchSuccessors, kind, List.mem_cons, List.not_mem_nil, or_false] at member
              rcases member with rfl | rfl
              · exact second.subset (Discovery.mem_insert _ _)
              · exact same ▸ Discovery.mem_insert _ _
        | braShort =>
            simp only [kind, bind_ok_iff] at ok
            rcases ok with ⟨_, _, ok⟩
            injection ok with same
            have grown := Discovery.insert_fifo_grows ⟨s.decoded ++ [(pc, i, shared)], s.fifo⟩
              (branchTarget pc i.operand)
            rw [same] at grown
            apply branchOn (by simp [kind, DirectFlowKind.straight])
            · simp [← same]
            · exact grown
            · rw [← same]
              apply Discovery.insert_nodup
              exact h.fifo_nodup
            · intro t member
              simp only [branchSuccessors, kind, List.mem_cons, List.not_mem_nil, or_false] at member
              exact member ▸ same ▸ Discovery.mem_insert _ _

theorem nodup_length_le {fifo : List Address} (distinct : fifo.Nodup) : fifo.length ≤ 2 ^ 32 := by
  have values : (fifo.map BitVec.toNat).Nodup := distinct.map (fun _ _ same => BitVec.eq_of_toNat_eq same)
  have inside : fifo.map BitVec.toNat ⊆ List.range (2 ^ 32) := by
    intro n member
    rcases List.mem_map.mp member with ⟨a, _, rfl⟩
    exact List.mem_range.mpr a.isLt
  simpa using (values.subperm inside).length_le

theorem processed_all {s : Discovery} {next : ℕ} (distinct : s.fifo.Nodup)
    (done : ∀ k < next, ∀ e, s.fifo[k]? = some e → Known s.decoded e)
    (ended : 2 ^ 32 ≤ next ∨ s.fifo[next]? = none) : ∀ e ∈ s.fifo, Known s.decoded e := by
  intro e member
  rcases List.mem_iff_getElem?.mp member with ⟨k, found⟩
  have short := nodup_length_le distinct
  have inside : k < s.fifo.length := (List.getElem?_eq_some_iff.mp found).1
  rcases ended with far | last
  · exact done k (by omega) e found
  · have past : s.fifo.length ≤ next := List.getElem?_eq_none_iff.mp last
    exact done k (by omega) e found

theorem discoverFifo_spec {s s' : Discovery} {room next : ℕ} (h : Consistent image program none s)
    (done : ∀ k < next, ∀ e, s.fifo[k]? = some e → Known s.decoded e) (enough : 2 ^ 32 ≤ room + next)
    (ok : discoverFifo image program room next s = .ok s') :
    Advanced image program s s' ∧ ∀ e ∈ s'.fifo, Known s'.decoded e := by
  induction room generalizing next s with
  | zero =>
      injection ok with same
      subst same
      exact ⟨⟨h, List.prefix_refl _, List.prefix_refl _⟩,
        processed_all h.fifo_nodup done (.inl (by omega))⟩
  | succ room ih =>
      rw [discoverFifo] at ok
      cases found : s.fifo[next]? with
      | none =>
          simp only [found] at ok
          injection ok with same
          subst same
          exact ⟨⟨h, List.prefix_refl _, List.prefix_refl _⟩,
            processed_all h.fifo_nodup done (.inr found)⟩
      | some entry =>
          simp only [found, bind_ok_iff] at ok
          rcases ok with ⟨t, scanned, ok⟩
          have member : entry ∈ s.fifo := List.mem_of_getElem? found
          rcases scan_spec (h.begin_ entry) (.inl member) (Nat.le_add_right _ _) scanned with
            ⟨first, known⟩
          have doneMore : ∀ k < next + 1, ∀ e, t.fifo[k]? = some e → Known t.decoded e := by
            intro k below e at_
            rcases first.fifo with ⟨rest, whole⟩
            have inside : next < s.fifo.length := (List.getElem?_eq_some_iff.mp found).1
            rw [← whole, List.getElem?_append_left (by omega)] at at_
            by_cases here : k = next
            · subst here
              rw [found] at at_
              injection at_ with same
              exact same ▸ known
            · exact (done k (by omega) e at_).mono first.decoded
          rcases ih first.consistent doneMore (by omega) ok with ⟨second, all⟩
          exact ⟨⟨second.consistent, first.decoded.trans second.decoded, first.fifo.trans second.fifo⟩, all⟩

/-! The decoded set as basic blocks. -/

/-- Discovery has ended: every entry is decoded. -/
structure Finished (image : List Byte) (program : DirectFlowProgram) (s : Discovery) : Prop where
  consistent : Consistent image program none s
  entries : ∀ e ∈ s.fifo, Known s.decoded e

def fallsTo (decoded : List Line) (pc : Address) : Option Address :=
  match decoded.lookup pc with
  | some (i, _) => if i.kind.straight then some (pc + 2) else none
  | none => none

theorem fallsTo_eq_some_iff {s : Discovery} (h : Consistent image program none s) (pc next : Address) :
    fallsTo s.decoded pc = some next ↔ Straight s.decoded pc ∧ next = pc + 2 := by
  unfold fallsTo
  constructor
  · intro falls
    split at falls
    · next i shared found =>
        rw [lookup_eq_some_iff h.keys_nodup] at found
        split at falls
        · next straight =>
            injection falls with same
            exact ⟨⟨i, shared, found, straight⟩, same.symm⟩
        · cases falls
    · cases falls
  · rintro ⟨⟨i, shared, member, straight⟩, rfl⟩
    rw [← lookup_eq_some_iff h.keys_nodup] at member
    simp [member, straight]

theorem Finished.splittable {s : Discovery} (h : Finished image program s) {leaders : List Address}
    (same : leaders.Perm s.fifo) :
    Splittable (fallsTo s.decoded) BitVec.toNat (2 ^ 32) (s.decoded.map Prod.fst) leaders where
  points_nodup := h.consistent.keys_nodup
  leaders_nodup := same.nodup_iff.mpr h.consistent.fifo_nodup
  leaders_inside := fun a leader => h.entries a (same.mem_iff.mp leader)
  closed := by
    intro a _ b falls
    rw [fallsTo_eq_some_iff h.consistent] at falls
    rcases falls with ⟨straight, rfl⟩
    rcases h.consistent.follows a straight with known | entry | waiting
    · exact known
    · exact h.entries _ entry
    · cases waiting
  climbs := by
    intro a _ b falls
    rw [fallsTo_eq_some_iff h.consistent] at falls
    rcases falls with ⟨straight, rfl⟩
    rw [step_toNat (h.consistent.bounded a straight)]
    omega
  bounded := fun a => a.isLt
  injective := by
    intro a b c first second
    rw [fallsTo_eq_some_iff h.consistent] at first second
    exact (BitVec.add_left_inj _).mp (first.2.symm.trans second.2)
  preceded := by
    intro a known plain
    rcases h.consistent.preceded a known with entry | ⟨q, straight, into⟩
    · exact absurd (same.mem_iff.mpr entry) plain
    · rcases straight with ⟨i, shared, member, kind⟩
      exact ⟨q, List.mem_map.mpr ⟨_, member, rfl⟩,
        (fallsTo_eq_some_iff h.consistent q a).mpr ⟨⟨i, shared, member, kind⟩, into.symm⟩⟩

theorem Finished.decoded_at {s : Discovery} (h : Finished image program s) {pc : Address}
    (known : Known s.decoded pc) : ∃ i shared, s.decoded.lookup pc = some (i, shared) ∧
      decode image program pc = .ok (i, shared) := by
  rcases List.mem_map.mp known with ⟨⟨_, i, shared⟩, member, rfl⟩
  exact ⟨i, shared, (lookup_eq_some_iff h.consistent.keys_nodup _ _).mpr member,
    h.consistent.decodes _ i shared member⟩

theorem transfer_iff {pc : Address} {i : DirectInstruction} {shared : M68kDecodedInstruction}
    (ok : decode image program pc = .ok (i, shared)) :
    transfer (projectDirectOperation (liftM68kInstruction shared)) = !i.kind.straight := by
  rw [(decode_kind ok).2.1]
  cases kind : shared.kind <;>
    simp [transfer, sharedOperation, m68kIrIsTransfer, projectDirectOperation, liftM68kInstruction, kind,
      directKind, DirectFlowKind.straight]

/-- The provenance and operation a block holds for the instruction at `pc`. -/
def lineAt (decoded : List Line) (pc : Address) : InstructionProvenance × DirectFlowIrOperation :=
  match decoded.lookup pc with
  | some (i, shared) => (i.provenance, projectDirectOperation (liftM68kInstruction shared))
  | none => ({}, ⟨{}, .writeMoveqD0, 0⟩)

theorem blockLines_eq {s : Discovery} (h : Finished image program s) {entry pc : Address} {room : ℕ}
    (known : Known s.decoded pc) (later : entry ≤ pc) :
    blockLines s.decoded s.fifo entry room pc =
      (block (fallsTo s.decoded) s.fifo room pc).map (lineAt s.decoded) := by
  induction room generalizing pc with
  | zero => rfl
  | succ room ih =>
      rcases h.decoded_at known with ⟨i, shared, found, decodes⟩
      have line : lineAt s.decoded pc =
          (i.provenance, projectDirectOperation (liftM68kInstruction shared)) := by
        simp only [lineAt, found]
      rw [blockLines, block, List.map_cons, line]
      simp only [found, transfer_iff decodes]
      congr 1
      by_cases straight : i.kind.straight = true
      · have falls : fallsTo s.decoded pc = some (pc + 2) := by
          simp only [fallsTo, found, straight, if_true]
        have splits := h.splittable (List.Perm.refl _)
        have higher := splits.climbs pc known _ falls
        have inside := splits.closed pc known _ falls
        have differs : pc + 2 ≠ entry := by
          intro same
          rw [same] at higher
          rw [BitVec.le_def] at later
          omega
        have after : entry ≤ pc + 2 := by
          rw [BitVec.le_def] at later ⊢
          omega
        simp only [falls, straight, Bool.not_true, Bool.false_eq_true, false_or, differs, ne_eq,
          not_false_eq_true, true_and]
        split
        · rfl
        · exact ih inside after
      · have falls : fallsTo s.decoded pc = none := by
          simp [fallsTo, found, straight]
        simp [falls, straight]

def blockPcs (s : Discovery) (entry : Address) : List Address :=
  block (fallsTo s.decoded) s.fifo (2 ^ 32) entry

def blockOf (s : Discovery) (entry : Address) : DirectBlock where
  provenance := ⟨entry, (lineAt s.decoded entry).1, (blockPcs s entry).map (fun pc => (lineAt s.decoded pc).1)⟩
  operations := (blockPcs s entry).map (fun pc => (lineAt s.decoded pc).2)

theorem buildBlock_eq {s : Discovery} (h : Finished image program s) {entry : Address}
    (known : Known s.decoded entry) : buildBlock s.decoded s.fifo entry = .ok (blockOf s entry) := by
  have shape : ∃ rest, blockPcs s entry = entry :: rest := ⟨_, rfl⟩
  rcases shape with ⟨rest, shape⟩
  have lines : blockLines s.decoded s.fifo entry (2 ^ 32) entry = (blockPcs s entry).map (lineAt s.decoded) :=
    blockLines_eq h known (BitVec.le_refl entry)
  unfold buildBlock blockOf
  rw [lines, shape]
  simp

theorem mapM_ok_of_forall {ε α β : Type} (f : α → Except ε β) (g : α → β) (l : List α)
    (each : ∀ a ∈ l, f a = .ok (g a)) : l.mapM f = .ok (l.map g) := by
  induction l with
  | nil => rfl
  | cons a rest ih =>
      rw [List.mapM_cons, each a (List.mem_cons_self ..), ih (fun b member => each b (List.mem_cons_of_mem _ member))]
      rfl

theorem insert_consistent {s : Discovery} (h : Consistent image program none s) (empty : s.decoded = [])
    (entry : Address) : Consistent image program none (s.insert entry) := by
  constructor <;> simp [empty, Known, Straight, Discovery.insert_nodup h.fifo_nodup]

theorem seeded_consistent (entries : List Address) {s : Discovery} (h : Consistent image program none s)
    (empty : s.decoded = []) : Consistent image program none (entries.foldl Discovery.insert s) := by
  induction entries generalizing s with
  | nil => exact h
  | cons entry rest ih => exact ih (insert_consistent h empty entry) (by simp [empty])

/-- An accepted analysis, read off its final discovery state. -/
structure Analysed (image : List Byte) (program : DirectFlowProgram) (s : Discovery)
    (analysis : DirectFlowAnalysis) : Prop where
  finished : Finished image program s
  blocks : analysis.blocks.Perm (s.fifo.map (blockOf s))
  edges : ∀ edge, edge ∈ analysis.edges ↔ ∃ entry ∈ s.fifo, edge ∈ blockEdges program (blockOf s entry)
  decoded : analysis.decoded = s.decoded.map (·.2.2)

theorem discoverEntries_analysed {entries : List Address} {analysis : DirectFlowAnalysis}
    (accepted : discoverEntries image program entries = .ok analysis) :
    ∃ s, Analysed image program s analysis := by
  unfold discoverEntries at accepted
  split at accepted
  · cases accepted
  · split at accepted
    · cases accepted
    · split at accepted
      · cases accepted
      · simp only [bind_ok_iff] at accepted
        rcases accepted with ⟨s, found, blocks, built, accepted⟩
        injection accepted with same
        subst same
        have start : Consistent image program none { fifo := [] } := by
          constructor <;> simp [Known, Straight]
        rcases discoverFifo_spec (seeded_consistent entries start rfl) (by simp) (by simp) found with
          ⟨advanced, all⟩
        have finished : Finished image program s := ⟨advanced.consistent, all⟩
        have sorted : (s.fifo.insertionSort (· ≤ ·)).Perm s.fifo := List.perm_insertionSort _ _
        have each := mapM_ok_of_forall (buildBlock s.decoded s.fifo) (blockOf s)
          (s.fifo.insertionSort (· ≤ ·))
          (fun e member => buildBlock_eq finished (all e (sorted.mem_iff.mp member)))
        rw [each] at built
        injection built with same
        subst same
        refine ⟨s, finished, ?_, ?_, rfl⟩
        · exact (List.perm_insertionSort _ _).trans (sorted.map _)
        · intro edge
          simp [List.mem_flatMap]

end Segarecomp.M68k.DirectFlow

import Segarecomp.Z80.Classify
import Segarecomp.Z80.FormTable

/-! A decoded start is a function of the bytes it counts: they are what `replayBytes` returns,
they are all resolved, and no other byte is looked at. -/

namespace Segarecomp.Z80

open Lib.CircularRun

/-- `n` bytes from `address` on, or nothing when one of them does not resolve. -/
def replayLoop (fetch : LogicalFetch) : ℕ → Addr → Option (List (BitVec 8))
  | 0, _ => some []
  | n + 1, address =>
    let b := fetch address
    if b.kind ≠ .byte then none
    else (replayLoop fetch n (address + 1)).map (b.value :: ·)

def replayBytes (fetch : LogicalFetch) (provenance : Provenance) : Option (List (BitVec 8)) :=
  replayLoop fetch provenance.logicalByteCount provenance.address

/-- The first `n` addresses from `a` on hold resolved bytes. -/
def Resolved (fetch : LogicalFetch) (a : Addr) (n : ℕ) : Prop :=
  ∀ i < n, (fetch (a + BitVec.ofNat 16 i)).kind = .byte

/-- Two mappings agree on the first `n` addresses from `a` on. -/
def AgreeOn (fetch other : LogicalFetch) (a : Addr) (n : ℕ) : Prop :=
  ∀ i < n, other (a + BitVec.ofNat 16 i) = fetch (a + BitVec.ofNat 16 i)

section Windows

variable {fetch other : LogicalFetch} {a : Addr} {m n : ℕ}

theorem add_ofNat_add (a : Addr) (i j : ℕ) :
    a + BitVec.ofNat 16 i + BitVec.ofNat 16 j = a + BitVec.ofNat 16 (i + j) := by
  rw [BitVec.add_assoc, BitVec.ofNat_add]

theorem AgreeOn.mono (agree : AgreeOn fetch other a n) (le : m ≤ n) : AgreeOn fetch other a m :=
  fun i hi => agree i (lt_of_lt_of_le hi le)

theorem AgreeOn.symm (agree : AgreeOn fetch other a n) : AgreeOn other fetch a n :=
  fun i hi => (agree i hi).symm

theorem AgreeOn.drop (agree : AgreeOn fetch other a (m + n)) :
    AgreeOn fetch other (a + BitVec.ofNat 16 m) n := by
  intro i hi
  rw [add_ofNat_add]
  exact agree (m + i) (by omega)

theorem AgreeOn.head (agree : AgreeOn fetch other a n) (pos : 0 < n) : other a = fetch a := by
  simpa using agree 0 pos

theorem Resolved.append (first : Resolved fetch a m)
    (second : Resolved fetch (a + BitVec.ofNat 16 m) n) : Resolved fetch a (m + n) := by
  intro i hi
  by_cases h : i < m
  · exact first i h
  · have := second (i - m) (by omega)
    rwa [add_ofNat_add, show m + (i - m) = i by omega] at this

theorem replayLoop_spec (resolved : Resolved fetch a n) :
    replayLoop fetch n a =
      some ((List.range n).map fun i => (fetch (a + BitVec.ofNat 16 i)).value) := by
  induction n generalizing a with
  | zero => rfl
  | succ n ih =>
      have here : (fetch a).kind = .byte := by simpa using resolved 0 (Nat.succ_pos n)
      have rest : Resolved fetch (a + 1) n := by
        intro i hi
        have := resolved (1 + i) (by omega)
        rwa [← add_ofNat_add] at this
      rw [replayLoop, if_neg (by simp [here]), ih rest, List.range_succ_eq_map]
      have shift : ∀ i : ℕ, a + 1#16 + BitVec.ofNat 16 i = a + BitVec.ofNat 16 (i + 1) := by
        intro i
        rw [Nat.add_comm i 1]
        exact add_ofNat_add a 1 i
      simp only [List.map_cons, List.map_map, Option.map_some, Function.comp_def, BitVec.ofNat_eq_ofNat,
        BitVec.add_zero, shift, Nat.succ_eq_add_one]

end Windows

/-! ## The form's length -/

/-- How many bytes an opcode of the space takes, escape bytes and displacement included. -/
def Space.opcodeBytes : Space → ℕ
  | .base => 1
  | .ddcb | .fdcb => 4
  | _ => 2

theorem describe_opcodeIndex (id : FormId) (k : Key) :
    (describe id k).opcodeIndex + 1 = k.space.opcodeBytes := by
  unfold describe Space.opcodeBytes
  cases k.space <;> rfl

theorem describe_length (id : FormId) (k : Key) :
    (describe id k).opcodeIndex + 1 ≤ (describe id k).length := by
  unfold describe
  cases k.space <;> simp <;> split <;> omega

theorem describe_space (id : FormId) (k : Key) : (describe id k).space = k.space := by
  unfold describe
  cases k.space <;> rfl

theorem indexed_operands {id : FormId} {k : Key} (indexed : k.space = .ddcb ∨ k.space = .fdcb) :
    operandTotal (describe id k) = 0 := by
  unfold operandTotal describe
  rcases indexed with h | h <;> simp [h]

/-- What a byte class says of the form it names. -/
structure FormOf (c : Classified) (found : ByteClass) : Prop where
  kind : found.kind = c.kind
  space : c.kind.named → (formDescriptor found.form).space = c.key.space
  length : c.kind.named → (formDescriptor found.form).length =
    c.key.space.opcodeBytes + operandTotal (formDescriptor found.form)
  indexed : c.kind.named → c.key.space = .ddcb ∨ c.key.space = .fdcb →
    operandTotal (formDescriptor found.form) = 0

theorem classifyOpcodeByte_spec (space : Space) (b : BitVec 8) :
    FormOf (classifyKey space b) (classifyOpcodeByte space b) where
  kind := classifyOpcodeByte_kind space b
  space named := by
    rw [formDescriptor_classify named]
    exact describe_space _ _
  length named := by
    have index := describe_opcodeIndex (classifyOpcodeByte space b).form (classifyKey space b).key
    have fits := describe_length (classifyOpcodeByte space b).form (classifyKey space b).key
    rw [formDescriptor_classify named]
    simp only [operandTotal]
    omega
  indexed named := by
    rw [formDescriptor_classify named]
    exact indexed_operands

/-- What the tables say of the kind of a byte, by its space. -/
theorem kind_facts :
    (∀ (space : Space) (b : BitVec 8), (classifyKey space b).kind = .form → (classifyKey space b).key.space = space) ∧
    (∀ (space : Space) (b : BitVec 8),
      (classifyKey space b).kind = .prefix_ignored → (classifyKey space b).key.space = .base) ∧
    (∀ b : BitVec 8, (classifyKey .cb b).kind = .form ∧ (classifyKey .ed b).kind = .form ∧
      (classifyKey .ddcb b).kind = .form ∧ (classifyKey .fdcb b).kind = .form) ∧
    ∀ b : BitVec 8, (classifyKey .base b).kind ≠ .escape_ddcb ∧ (classifyKey .base b).kind ≠ .escape_fdcb ∧
      (classifyKey .base b).kind ≠ .prefix_ignored := by
  refine ⟨?_, ?_, by decide +kernel, by decide +kernel⟩
  · intro space
    cases space <;> decide +kernel
  · intro space
    cases space <;> decide +kernel

theorem form_space (space : Space) (b : BitVec 8) (named : (classifyKey space b).kind = .form) :
    (classifyKey space b).key.space = space := kind_facts.1 space b named

theorem ignored_space (space : Space) (b : BitVec 8) (named : (classifyKey space b).kind = .prefix_ignored) :
    (classifyKey space b).key.space = .base := kind_facts.2.1 space b named

theorem escaped_form (b : BitVec 8) :
    (classifyKey .cb b).kind = .form ∧ (classifyKey .ed b).kind = .form ∧
      (classifyKey .ddcb b).kind = .form ∧ (classifyKey .fdcb b).kind = .form := kind_facts.2.2.1 b

theorem indexed_escape (b : BitVec 8) :
    (classifyKey .base b).kind ≠ .escape_ddcb ∧ (classifyKey .base b).kind ≠ .escape_fdcb ∧
      (classifyKey .base b).kind ≠ .prefix_ignored := kind_facts.2.2.2 b

/-! ## What the decoder reads -/

/-- What decoding the opcode bytes has read and settled. -/
structure OpcodeRead (get : LogicalFetch) (prefixCount : ℕ) (effective : EffectivePrefix)
    (opAddr : Addr) (part : OpcodePart) : Prop where
  pos : 0 < part.consumed
  resolved : Resolved get opAddr part.consumed
  indexed : (formDescriptor part.form).space = .ddcb ∨ (formDescriptor part.form).space = .fdcb →
    1 < part.consumed ∧ operandTotal (formDescriptor part.form) = 0
  length : part.extra + (formDescriptor part.form).length =
    prefixCount + part.consumed + operandTotal (formDescriptor part.form)
  congr : ∀ other, AgreeOn get other opAddr part.consumed →
    opcodePart other prefixCount effective opAddr (other opAddr) = .ok part

theorem resolved_one {get : LogicalFetch} {a : Addr} (h : (get a).kind = .byte) :
    Resolved get a 1 := by
  intro i hi
  obtain rfl : i = 0 := by omega
  simpa using h

theorem resolved_two {get : LogicalFetch} {a : Addr} (first : (get a).kind = .byte)
    (second : (get (a + 1)).kind = .byte) : Resolved get a 2 :=
  (resolved_one first).append (resolved_one second)

theorem resolved_three {get : LogicalFetch} {a : Addr} (first : (get a).kind = .byte)
    (second : (get (a + 1)).kind = .byte) (third : (get (a + 2)).kind = .byte) :
    Resolved get a 3 :=
  (resolved_two first second).append (resolved_one third)

section Opcode

variable {get other : LogicalFetch} {prefixCount : ℕ} {effective : EffectivePrefix}
variable {opAddr : Addr} {part : OpcodePart} {lead : ByteClass}

/-- `opcodePart` once its first byte is classified. -/
def partOf (get : LogicalFetch) (prefixCount : ℕ) (effective : EffectivePrefix) (opAddr : Addr)
    (opcode : BitVec 8) (lead : ByteClass) : Except StartClassification OpcodePart :=
  match lead.kind with
  | .form => .ok ⟨lead.form, opcode, 1, if effective = .none then 0 else prefixCount - 1⟩
  | .prefix_ignored => .ok ⟨lead.form, opcode, 1, prefixCount⟩
  | .escape_cb | .escape_ed | .prefix_ignored_before_ed =>
    let second := get (opAddr + 1)
    if second.kind ≠ .byte then .error (blocked second (opAddr + 1))
    else
      let space : Space := if lead.kind = .escape_cb then .cb else .ed
      .ok ⟨(classifyOpcodeByte space second.value).form, second.value, 2, prefixCount⟩
  | .escape_ddcb | .escape_fdcb =>
    let d := get (opAddr + 1)
    if d.kind ≠ .byte then .error (blocked d (opAddr + 1))
    else
      let last := get (opAddr + 2)
      if last.kind ≠ .byte then .error (blocked last (opAddr + 2))
      else
        let space : Space := if lead.kind = .escape_ddcb then .ddcb else .fdcb
        .ok ⟨(classifyOpcodeByte space last.value).form, last.value, 3, prefixCount - 1⟩
  | _ => .error {}

theorem opcodePart_eq {op : FetchedByte}
    (at_ : classifyOpcodeByte (leadSpace effective) op.value = lead) :
    opcodePart get prefixCount effective opAddr op =
      partOf get prefixCount effective opAddr op.value lead := by
  -- The body is exposed by way of an equation between functions: the kernel would
  -- evaluate the tables to compare an applied `opcodePart` with its body.
  generalize body : opcodePart = f
  delta opcodePart at body
  subst body
  beta_reduce
  generalize classifyOpcodeByte (leadSpace effective) op.value = found at at_ ⊢
  subst at_
  obtain ⟨kind, form⟩ := found
  cases kind <;> rfl

theorem leadSpace_bytes (count : effective = .none ↔ prefixCount = 0) (total : ℕ) :
    (if effective = .none then 0 else prefixCount - 1) + ((leadSpace effective).opcodeBytes + total) =
      prefixCount + 1 + total := by
  cases effective
  all_goals
    simp only [leadSpace, Space.opcodeBytes, reduceCtorEq, if_true, if_false, true_iff, false_iff]
      at count ⊢
    omega

theorem form_read (count : effective = .none ↔ prefixCount = 0) (here : (get opAddr).kind = .byte)
    (at_ : classifyOpcodeByte (leadSpace effective) (get opAddr).value = lead)
    (spec : FormOf (classifyKey (leadSpace effective) (get opAddr).value) lead)
    (kind : lead.kind = .form) :
    OpcodeRead get prefixCount effective opAddr
      ⟨lead.form, (get opAddr).value, 1, if effective = .none then 0 else prefixCount - 1⟩ := by
  have named := spec.kind.symm.trans kind
  have space := form_space _ _ named
  constructor
  · exact Nat.one_pos
  · exact resolved_one here
  · intro indexed
    simp only [spec.space (.inl named), space] at indexed
    cases effective <;> simp [leadSpace] at indexed
  · simp only [spec.length (.inl named), space]
    exact leadSpace_bytes count _
  · intro other agree
    have same := agree.head Nat.one_pos
    rw [opcodePart_eq (same ▸ at_), same]
    simp only [partOf, kind]

theorem ignored_read (here : (get opAddr).kind = .byte)
    (at_ : classifyOpcodeByte (leadSpace effective) (get opAddr).value = lead)
    (spec : FormOf (classifyKey (leadSpace effective) (get opAddr).value) lead)
    (kind : lead.kind = .prefix_ignored) :
    OpcodeRead get prefixCount effective opAddr ⟨lead.form, (get opAddr).value, 1, prefixCount⟩ := by
  have named := spec.kind.symm.trans kind
  have space := ignored_space _ _ named
  constructor
  · exact Nat.one_pos
  · exact resolved_one here
  · intro indexed
    simp [spec.space (.inr named), space] at indexed
  · simp only [spec.length (.inr named), space, Space.opcodeBytes]
    exact (Nat.add_assoc _ _ _).symm
  · intro other agree
    have same := agree.head Nat.one_pos
    rw [opcodePart_eq (same ▸ at_), same]
    simp only [partOf, kind]

theorem escaped_spec {space : Space} (escape : space = .cb ∨ space = .ed) {b : BitVec 8}
    {found : ByteClass} (at_ : classifyOpcodeByte space b = found) :
    ((formDescriptor found.form).space ≠ .ddcb ∧ (formDescriptor found.form).space ≠ .fdcb) ∧
      (formDescriptor found.form).length = 2 + operandTotal (formDescriptor found.form) := by
  have spec := at_ ▸ classifyOpcodeByte_spec space b
  have form : (classifyKey space b).kind = .form := by
    obtain ⟨cb, ed, _⟩ := escaped_form b
    rcases escape with rfl | rfl
    · exact cb
    · exact ed
  have inside := form_space _ _ form
  have length := spec.length (.inl form)
  have place := spec.space (.inl form)
  rw [inside] at length place
  rw [place]
  rcases escape with rfl | rfl
  · exact ⟨by decide, length⟩
  · exact ⟨by decide, length⟩

theorem escape_read (here : (get opAddr).kind = .byte) (second : (get (opAddr + 1)).kind = .byte)
    (at_ : classifyOpcodeByte (leadSpace effective) (get opAddr).value = lead)
    (kind : lead.kind = .escape_cb ∨ lead.kind = .escape_ed ∨ lead.kind = .prefix_ignored_before_ed)
    {space : Space} (chosen : space = if lead.kind = .escape_cb then .cb else .ed)
    {found : ByteClass} (next : classifyOpcodeByte space (get (opAddr + 1)).value = found) :
    OpcodeRead get prefixCount effective opAddr
      ⟨found.form, (get (opAddr + 1)).value, 2, prefixCount⟩ := by
  have escape : space = .cb ∨ space = .ed := by
    rw [chosen]
    split
    · exact .inl rfl
    · exact .inr rfl
  obtain ⟨⟨notDdcb, notFdcb⟩, length⟩ := escaped_spec escape next
  constructor
  · exact Nat.two_pos
  · exact resolved_two here second
  · rintro (indexed | indexed)
    · exact absurd indexed notDdcb
    · exact absurd indexed notFdcb
  · simp only [length]
    exact (Nat.add_assoc _ _ _).symm
  · intro other agree
    have same := agree.head Nat.two_pos
    have same₁ : other (opAddr + 1) = get (opAddr + 1) := agree 1 (Nat.lt_succ_self 1)
    rw [opcodePart_eq (same ▸ at_), same]
    rcases kind with kind | kind | kind
    all_goals
      simp only [kind, reduceCtorEq, if_true, if_false] at chosen
      subst chosen next
      simp only [partOf, kind, same₁, second, ne_eq, not_true_eq_false, if_false, if_true, reduceCtorEq]

theorem indexed_read (count : effective = .none ↔ prefixCount = 0)
    (here : (get opAddr).kind = .byte) (second : (get (opAddr + 1)).kind = .byte)
    (third : (get (opAddr + 2)).kind = .byte)
    (at_ : classifyOpcodeByte (leadSpace effective) (get opAddr).value = lead)
    (spec : FormOf (classifyKey (leadSpace effective) (get opAddr).value) lead)
    (kind : lead.kind = .escape_ddcb ∨ lead.kind = .escape_fdcb)
    {space : Space} (chosen : space = if lead.kind = .escape_ddcb then .ddcb else .fdcb)
    {found : ByteClass} (next : classifyOpcodeByte space (get (opAddr + 2)).value = found) :
    OpcodeRead get prefixCount effective opAddr
      ⟨found.form, (get (opAddr + 2)).value, 3, prefixCount - 1⟩ := by
  have inForce : 0 < prefixCount := by
    by_contra none
    obtain rfl := count.mpr (by omega)
    obtain ⟨notDdcb, notFdcb, _⟩ := indexed_escape (get opAddr).value
    rw [spec.kind] at kind
    rcases kind with kind | kind
    · exact notDdcb kind
    · exact notFdcb kind
  have escape : space = .ddcb ∨ space = .fdcb := by
    rw [chosen]
    split
    · exact .inl rfl
    · exact .inr rfl
  have inner := next ▸ classifyOpcodeByte_spec space (get (opAddr + 2)).value
  have form : (classifyKey space (get (opAddr + 2)).value).kind = .form := by
    obtain ⟨_, _, ddcb, fdcb⟩ := escaped_form (get (opAddr + 2)).value
    rcases escape with h | h
    · rw [h, ddcb]
    · rw [h, fdcb]
  have inside := form_space _ _ form
  have operands : operandTotal (formDescriptor found.form) = 0 :=
    inner.indexed (.inl form) (inside.symm ▸ escape)
  have length : (formDescriptor found.form).length = 4 := by
    rw [inner.length (.inl form), operands, inside]
    rcases escape with h | h <;> rw [h] <;> rfl
  constructor
  · exact Nat.succ_pos 2
  · exact resolved_three here second third
  · intro _
    exact ⟨Nat.one_lt_succ_succ 1, operands⟩
  · simp only [length, operands]
    omega
  · intro other agree
    have same := agree.head (Nat.succ_pos 2)
    have same₁ : other (opAddr + 1) = get (opAddr + 1) := agree 1 (Nat.one_lt_succ_succ 1)
    have same₂ : other (opAddr + 2) = get (opAddr + 2) := agree 2 (Nat.lt_succ_self 2)
    rw [opcodePart_eq (same ▸ at_), same]
    rcases kind with kind | kind
    all_goals
      simp only [kind, reduceCtorEq, if_true, if_false] at chosen
      subst chosen next
      simp only [partOf, kind, same₁, same₂, second, third, ne_eq, not_true_eq_false, if_false, if_true,
        reduceCtorEq]

theorem blocked_kind (b : FetchedByte) (address : Addr) : (blocked b address).kind ≠ .decoded := by
  unfold blocked
  simp only
  split <;> simp

/-- Every successful read of the opcode bytes is one of the four above; every other one is
not a decoded start. -/
theorem opcodePart_read (count : effective = .none ↔ prefixCount = 0)
    (here : (get opAddr).kind = .byte)
    (h : opcodePart get prefixCount effective opAddr (get opAddr) = .ok part) :
    OpcodeRead get prefixCount effective opAddr part := by
  obtain ⟨lead, at_⟩ : ∃ lead, classifyOpcodeByte (leadSpace effective) (get opAddr).value = lead :=
    ⟨_, rfl⟩
  have spec := at_ ▸ classifyOpcodeByte_spec (leadSpace effective) (get opAddr).value
  rw [opcodePart_eq at_] at h
  cases kind : lead.kind with
  | form =>
      simp only [partOf, kind, Except.ok.injEq] at h
      exact h ▸ form_read count here at_ spec kind
  | prefix_ignored =>
      simp only [partOf, kind, Except.ok.injEq] at h
      exact h ▸ ignored_read here at_ spec kind
  | escape_cb | escape_ed | prefix_ignored_before_ed =>
      simp only [partOf, kind, reduceCtorEq, if_true, if_false] at h
      split at h
      · cases h
      · have second : (get (opAddr + 1)).kind = .byte := by
          simpa using ‹¬ (get (opAddr + 1)).kind ≠ .byte›
        generalize next : classifyOpcodeByte _ (get (opAddr + 1)).value = found at h
        obtain rfl := Except.ok.inj h
        exact escape_read here second at_ (by simp [kind]) (by simp [kind]) next
  | escape_ddcb | escape_fdcb =>
      simp only [partOf, kind, reduceCtorEq, if_true, if_false] at h
      split at h
      · cases h
      · split at h
        · cases h
        · have second : (get (opAddr + 1)).kind = .byte := by
            simpa using ‹¬ (get (opAddr + 1)).kind ≠ .byte›
          have third : (get (opAddr + 2)).kind = .byte := by
            simpa using ‹¬ (get (opAddr + 2)).kind ≠ .byte›
          generalize next : classifyOpcodeByte _ (get (opAddr + 2)).value = found at h
          obtain rfl := Except.ok.inj h
          exact indexed_read count here second third at_ spec (by simp [kind]) (by simp [kind]) next
  | escape_dd | escape_fd | prefix_chain => simp [partOf, kind] at h

theorem partOf_error {opcode : BitVec 8} {c : StartClassification}
    (h : partOf get prefixCount effective opAddr opcode lead = .error c) : c.kind ≠ .decoded := by
  have given : c ∈ [blocked (get (opAddr + 1)) (opAddr + 1), blocked (get (opAddr + 2)) (opAddr + 2),
      {}] := by
    unfold partOf at h
    cases kind : lead.kind
    all_goals
      simp only [kind] at h
      repeat' split at h
      all_goals
        simp at h
        try simp [← h]
  simp only [List.mem_cons, List.not_mem_nil, or_false] at given
  rcases given with rfl | rfl | rfl
  · exact blocked_kind _ _
  · exact blocked_kind _ _
  · simp

theorem readOperands_error {n : ℕ} {a : Addr} {c : StartClassification}
    (h : readOperands get n a = .error c) : c.kind ≠ .decoded := by
  induction n generalizing a with
  | zero => cases h
  | succ n ih =>
      simp only [readOperands] at h
      split at h
      · obtain rfl := Except.error.inj h
        exact blocked_kind _ _
      · split at h
        · cases h
        · next rest =>
            obtain rfl := Except.error.inj h
            exact ih rest

theorem readOperands_resolved {n : ℕ} {a : Addr} {operands : List (BitVec 8)}
    (h : readOperands get n a = .ok operands) : Resolved get a n := by
  induction n generalizing a operands with
  | zero => exact fun i hi => absurd hi (Nat.not_lt_zero i)
  | succ n ih =>
      simp only [readOperands] at h
      split at h
      · cases h
      · have here : (get a).kind = .byte := by simpa using ‹¬ (get a).kind ≠ .byte›
        split at h
        · next rest =>
            rw [Nat.add_comm]
            exact (resolved_one here).append (ih rest)
        · cases h

theorem readOperands_congr {n : ℕ} {a : Addr} (agree : AgreeOn get other a n) :
    readOperands other n a = readOperands get n a := by
  induction n generalizing a with
  | zero => rfl
  | succ n ih =>
      have tail : AgreeOn get other (a + 1) n := by
        rw [Nat.add_comm] at agree
        exact agree.drop
      simp only [readOperands, agree.head (Nat.succ_pos n), ih tail]

/-! ## The finished start -/

def IndexedCb (desc : FormDescriptor) : Prop := desc.space = .ddcb ∨ desc.space = .fdcb

instance (desc : FormDescriptor) : Decidable (IndexedCb desc) :=
  inferInstanceAs (Decidable (_ ∨ _))

/-- The operand bytes of a form: an indexed one has its displacement before the opcode byte. -/
def operandsOf (get : LogicalFetch) (desc : FormDescriptor) (opAddr : Addr) (consumed : ℕ) :
    Except StartClassification (List (BitVec 8)) :=
  if IndexedCb desc then .ok [(get (opAddr + 1)).value]
  else readOperands get (operandTotal desc) (opAddr + BitVec.ofNat 16 consumed)

/-- All bytes from the opcode address on. -/
def OpcodePart.total (part : OpcodePart) (desc : FormDescriptor) : ℕ :=
  if IndexedCb desc then part.consumed else part.consumed + operandTotal desc

/-- The start of an opcode part whose form has the descriptor `desc`. -/
def finishPart (get : LogicalFetch) (start : Addr) (first : FetchedByte) (prefixCount : ℕ)
    (effective : EffectivePrefix) (opAddr : Addr) (part : OpcodePart) (desc : FormDescriptor) :
    StartClassification :=
  match operandsOf get desc opAddr part.consumed with
  | .error c => c
  | .ok operands =>
    { kind := .decoded
      instruction :=
        { provenance :=
            { imageId := first.imageId, address := start, imageOffset := first.imageOffset
              logicalByteCount := prefixCount + part.total desc, prefixCount
              effectivePrefix := effective, form := part.form, opcode := part.opcode, operands }
          form := part.form
          extraPrefixCount := part.extra } }

/-- `finish` over any opcode reader and any form table, which the kernel cannot evaluate. -/
def finishWith
    (reader : LogicalFetch → ℕ → EffectivePrefix → Addr → FetchedByte →
      Except StartClassification OpcodePart)
    (table : FormId → FormDescriptor) (get : LogicalFetch) (start : Addr) (first : FetchedByte)
    (prefixCount : ℕ) (effective : EffectivePrefix) (opAddr : Addr) : StartClassification :=
  let op := get opAddr
  if op.kind ≠ .byte then blocked op opAddr
  else
    match reader get prefixCount effective opAddr op with
    | .error c => c
    | .ok part =>
      let desc := table part.form
      let indexedCb := desc.space = .ddcb ∨ desc.space = .fdcb
      let operands : Except StartClassification (List (BitVec 8)) :=
        if indexedCb then .ok [(get (opAddr + 1)).value]
        else readOperands get (operandTotal desc) (opAddr + BitVec.ofNat 16 part.consumed)
      match operands with
      | .error c => c
      | .ok operands =>
        let consumed := if indexedCb then part.consumed else part.consumed + operandTotal desc
        { kind := .decoded
          instruction :=
            { provenance :=
                { imageId := first.imageId, address := start, imageOffset := first.imageOffset
                  logicalByteCount := prefixCount + consumed, prefixCount
                  effectivePrefix := effective, form := part.form, opcode := part.opcode, operands }
              form := part.form
              extraPrefixCount := part.extra } }

theorem finish_with : finish = finishWith opcodePart formDescriptor := by
  obtain ⟨reader, reader_eq⟩ : ∃ r, opcodePart = r := ⟨_, rfl⟩
  obtain ⟨table, table_eq⟩ : ∃ t, formDescriptor = t := ⟨_, rfl⟩
  delta finish finishWith
  rewrite [reader_eq, table_eq]
  funext get start first prefixCount effective opAddr
  dsimp only
  all_goals
    split
    · rfl
    · cases reader get prefixCount effective opAddr (get opAddr) with
      | error c => rfl
      | ok part => rfl

section FinishWith

variable {reader : LogicalFetch → ℕ → EffectivePrefix → Addr → FetchedByte →
  Except StartClassification OpcodePart}
variable {table : FormId → FormDescriptor} {start : Addr} {first : FetchedByte}

theorem finishWith_blocked (here : (get opAddr).kind ≠ .byte) :
    finishWith reader table get start first prefixCount effective opAddr =
      blocked (get opAddr) opAddr := by
  simp only [finishWith, here, ne_eq, not_false_eq_true, if_true]

theorem finishWith_error {c : StartClassification} (here : (get opAddr).kind = .byte)
    (at_ : reader get prefixCount effective opAddr (get opAddr) = .error c) :
    finishWith reader table get start first prefixCount effective opAddr = c := by
  simp only [finishWith, here, at_, ne_eq, not_true_eq_false, if_false]

variable (table start first) in
theorem finishWith_ok (here : (get opAddr).kind = .byte)
    (at_ : reader get prefixCount effective opAddr (get opAddr) = .ok part) :
    finishWith reader table get start first prefixCount effective opAddr =
      finishPart get start first prefixCount effective opAddr part (table part.form) := by
  simp only [finishWith, here, at_, ne_eq, not_true_eq_false, if_false]
  rfl

end FinishWith

/-- What a finished decode has read from `opAddr` on. -/
structure FinishRead (get : LogicalFetch) (start : Addr) (first : FetchedByte) (prefixCount : ℕ)
    (effective : EffectivePrefix) (opAddr : Addr) (consumed : ℕ) (c : StartClassification) :
    Prop where
  pos : 0 < consumed
  address : c.instruction.provenance.address = start
  count : c.instruction.provenance.logicalByteCount = prefixCount + consumed
  length : logicalLength c.instruction = prefixCount + consumed
  resolved : Resolved get opAddr consumed
  congr : ∀ other, AgreeOn get other opAddr consumed →
    finish other start first prefixCount effective opAddr = c

theorem operandsOf_read {desc : FormDescriptor} {operands : List (BitVec 8)}
    (behind : Resolved get opAddr part.consumed) (indexed : IndexedCb desc → 1 < part.consumed)
    (h : operandsOf get desc opAddr part.consumed = .ok operands) :
    Resolved get opAddr (part.total desc) ∧
      ∀ other, AgreeOn get other opAddr (part.total desc) →
        operandsOf other desc opAddr part.consumed = .ok operands := by
  unfold operandsOf OpcodePart.total at *
  by_cases cb : IndexedCb desc
  · simp only [cb, if_true] at h ⊢
    constructor
    · exact behind
    · intro other agree
      have same : other (opAddr + 1) = get (opAddr + 1) := agree 1 (indexed cb)
      rw [same]
      exact h
  · simp only [cb, if_false] at h ⊢
    constructor
    · exact behind.append (readOperands_resolved h)
    · intro other agree
      rw [readOperands_congr agree.drop]
      exact h

theorem finish_read {start : Addr} {first : FetchedByte} {c : StartClassification}
    (count : effective = .none ↔ prefixCount = 0)
    (h : finish get start first prefixCount effective opAddr = c) (decoded : c.kind = .decoded) :
    ∃ consumed, FinishRead get start first prefixCount effective opAddr consumed c := by
  have here : (get opAddr).kind = .byte := by
    by_contra here
    rw [finish_with, finishWith_blocked here] at h
    exact absurd (h ▸ decoded) (blocked_kind _ _)
  cases at_ : opcodePart get prefixCount effective opAddr (get opAddr) with
  | error e =>
      obtain ⟨lead, classified⟩ :
          ∃ lead, classifyOpcodeByte (leadSpace effective) (get opAddr).value = lead := ⟨_, rfl⟩
      rw [finish_with, finishWith_error here at_] at h
      rw [opcodePart_eq classified] at at_
      exact absurd (h ▸ decoded) (partOf_error at_)
  | ok part =>
      have read := opcodePart_read count here at_
      obtain ⟨desc, form⟩ : ∃ desc, formDescriptor part.form = desc := ⟨_, rfl⟩
      have finishes : ∀ {other}, AgreeOn get other opAddr part.consumed →
          finish other start first prefixCount effective opAddr =
            finishPart other start first prefixCount effective opAddr part desc := by
        intro other agree
        have byte : (other opAddr).kind = .byte := agree.head read.pos ▸ here
        rw [finish_with, finishWith_ok _ _ _ byte (read.congr other agree), form]
      have indexed := form ▸ read.indexed
      have length := form ▸ read.length
      have fits : part.consumed ≤ part.total desc := by
        unfold OpcodePart.total
        split <;> omega
      rw [finishes fun i _ => rfl, finishPart] at h
      cases operands : operandsOf get desc opAddr part.consumed with
      | error e =>
          rw [operands] at h
          have failed : e.kind ≠ .decoded := by
            unfold operandsOf at operands
            split at operands
            · cases operands
            · exact readOperands_error operands
          obtain rfl : e = c := h
          exact absurd decoded failed
      | ok bytes =>
          rw [operands] at h
          obtain ⟨resolved, congr⟩ := operandsOf_read read.resolved (fun cb => (indexed cb).1) operands
          refine ⟨part.total desc, ?_⟩
          subst h
          constructor
          · exact lt_of_lt_of_le read.pos fits
          · rfl
          · rfl
          · rw [logicalLength, form, length, OpcodePart.total]
            split
            · next cb => rw [(indexed cb).2, Nat.add_zero]
            · exact Nat.add_assoc _ _ _
          · exact resolved
          · intro other agree
            rw [finishes (agree.mono fits), finishPart, congr other agree]

end Opcode

/-! ## The whole decode -/

section Decode

variable {fetch other : LogicalFetch} {a : Addr}

theorem prefixOf_ne_none (b : FetchedByte) : prefixOf b ≠ .none := by
  unfold prefixOf
  split <;> simp

theorem scannedPrefix_none (fetch : LogicalFetch) (a k : ℕ) :
    scannedPrefix fetch .none a k = .none ↔ k = 0 := by
  unfold scannedPrefix
  by_cases h : k = 0
  · simp [h]
  · simp [h, prefixOf_ne_none]

/-- The scan stops at a byte that is no prefix, unless the whole address space is one run. -/
theorem decodeAt_cases (fetch : LogicalFetch) (a : Addr) :
    decodeAt fetch a = { kind := .prefix_lock } ∨
      ∃ k < kAddressSpace, IsRun (prefixAt fetch) a.toNat k := by
  by_cases all : ∀ x, isPrefix (fetch x) = true
  · left
    rw [decodeAt, scanPrefixes_lock fetch all]
  · right
    obtain ⟨anchor, other⟩ := not_forall.mp all
    have stop : prefixAt fetch anchor.toNat = false := by
      simpa [prefixAt] using other
    obtain ⟨k, bound, run, _⟩ := endTable_spec (prefixAt_periodic fetch) anchor.isLt stop a.isLt
    exact ⟨k, bound, run⟩

theorem agreeOn_nat {n i : ℕ} (agree : AgreeOn fetch other a n) (h : i < n) :
    other (BitVec.ofNat 16 (a.toNat + i)) = fetch (BitVec.ofNat 16 (a.toNat + i)) := by
  have := agree i h
  rwa [show a + BitVec.ofNat 16 i = BitVec.ofNat 16 (a.toNat + i) by simp [BitVec.ofNat_add]] at this

theorem isRun_agree {k n : ℕ} (run : IsRun (prefixAt fetch) a.toNat k) (h : k < n)
    (agree : AgreeOn fetch other a n) : IsRun (prefixAt other) a.toNat k := by
  constructor
  · intro i hi
    rw [prefixAt, agreeOn_nat agree (hi.trans h)]
    exact run.1 i hi
  · rw [prefixAt, agreeOn_nat agree h]
    exact run.2

theorem scannedPrefix_agree {k n : ℕ} (h : k < n) (agree : AgreeOn fetch other a n) :
    scannedPrefix other .none a.toNat k = scannedPrefix fetch .none a.toNat k := by
  cases k with
  | zero => rfl
  | succ k =>
      have last : k < n := Nat.lt_of_succ_lt h
      simp only [scannedPrefix, Nat.succ_ne_zero, if_false, Nat.add_succ_sub_one, agreeOn_nat agree last]

/-- What a decoded start has read. -/
structure DecodeRead (fetch : LogicalFetch) (a : Addr) (c : StartClassification) : Prop where
  address : c.instruction.provenance.address = a
  length : logicalLength c.instruction = c.instruction.provenance.logicalByteCount
  resolved : Resolved fetch a c.instruction.provenance.logicalByteCount
  congr : ∀ other, AgreeOn fetch other a c.instruction.provenance.logicalByteCount →
    decodeAt other a = c

theorem decodeAt_read {c : StartClassification} (h : decodeAt fetch a = c)
    (decoded : c.kind = .decoded) : DecodeRead fetch a c := by
  rcases decodeAt_cases fetch a with lock | ⟨k, bound, run⟩
  · rw [lock] at h
    exact absurd (h ▸ decoded) (by simp)
  · rw [decodeAt_of_isRun fetch a run bound] at h
    obtain ⟨consumed, read⟩ := finish_read (scannedPrefix_none fetch a.toNat k) h decoded
    have opAddr : BitVec.ofNat 16 (a.toNat + k) = a + BitVec.ofNat 16 k := by
      simp [BitVec.ofNat_add]
    have scanned : Resolved fetch a k := by
      intro i hi
      have here : isPrefix (fetch (BitVec.ofNat 16 (a.toNat + i))) = true := run.1 i hi
      rw [show a + BitVec.ofNat 16 i = BitVec.ofNat 16 (a.toNat + i) by simp [BitVec.ofNat_add]]
      simp only [isPrefix, Bool.and_eq_true, beq_iff_eq] at here
      exact here.1
    constructor
    · exact read.address
    · rw [read.length, read.count]
    · rw [read.count]
      exact scanned.append (opAddr ▸ read.resolved)
    · intro other agree
      rw [read.count] at agree
      have inside : k < k + consumed := Nat.lt_add_of_pos_right read.pos
      have behind : AgreeOn fetch other (BitVec.ofNat 16 (a.toNat + k)) consumed :=
        opAddr ▸ agree.drop
      rw [decodeAt_of_isRun other a (isRun_agree run inside agree) bound,
        scannedPrefix_agree inside agree, agree.head (Nat.lt_of_le_of_lt (Nat.zero_le k) inside)]
      exact read.congr other behind

/-- `fetch` with the byte `n` behind `a` taken out of the code. -/
def blank (fetch : LogicalFetch) (a : Addr) (n : ℕ) : LogicalFetch :=
  Function.update fetch (a + BitVec.ofNat 16 n) {}

theorem blank_agree {n : ℕ} (h : n < kAddressSpace) : AgreeOn fetch (blank fetch a n) a n := by
  intro i hi
  have apart : a + BitVec.ofNat 16 i ≠ a + BitVec.ofNat 16 n := by
    intro same
    have := congrArg BitVec.toNat (BitVec.add_right_inj _ |>.mp same)
    simp only [BitVec.toNat_ofNat, kAddressSpace] at this h
    omega
  exact Function.update_of_ne apart _ _

theorem decoded_start (fetch : LogicalFetch) (a : Addr) (h : (decodeAt fetch a).kind = .decoded) :
    let instruction := (decodeAt fetch a).instruction
    let count := instruction.provenance.logicalByteCount
    logicalLength instruction = count ∧
      replayBytes fetch instruction.provenance =
        some ((List.range count).map fun i => (fetch (a + BitVec.ofNat 16 i)).value) ∧
      (∀ other, AgreeOn fetch other a count → decodeAt other a = decodeAt fetch a) ∧
      ∀ n < min count kAddressSpace,
        ∃ other, AgreeOn fetch other a n ∧ decodeAt other a ≠ decodeAt fetch a := by
  have read := decodeAt_read rfl h
  refine ⟨read.length, ?_, read.congr, ?_⟩
  · rw [replayBytes, read.address]
    exact replayLoop_spec read.resolved
  · intro n hn
    refine ⟨blank fetch a n, blank_agree (lt_min_iff.mp hn).2, ?_⟩
    intro same
    have blanked := (decodeAt_read same h).resolved n (lt_min_iff.mp hn).1
    simp [blank] at blanked

/-- 65,535 prefixes and an escape: its displacement and opcode wrap onto the first prefixes. -/
def ring : LogicalFetch := fun x =>
  { kind := .byte, value := if x = 0xFFFF then 0xCB else kDd }

theorem ring_prefix {i : ℕ} (h : i < 65535) : (ring (BitVec.ofNat 16 i)).value = kDd := by
  have apart : BitVec.ofNat 16 i ≠ 0xFFFF := by
    intro same
    have := congrArg BitVec.toNat same
    simp at this
    omega
  rw [ring, if_neg apart]

theorem ring_isRun : IsRun (prefixAt ring) 0 65535 := by
  constructor
  · intro i hi
    rw [Nat.zero_add, prefixAt, isPrefix, ring_prefix hi]
    rfl
  · rfl

theorem ring_opcodePart {lead : ByteClass} {form : FormId}
    (at_ : classifyOpcodeByte .dd 0xCB = lead) (kind : lead.kind = .escape_ddcb)
    (next : (classifyOpcodeByte .ddcb kDd).form = form) :
    opcodePart ring 65535 .dd 0xFFFF (ring 0xFFFF) = .ok ⟨form, kDd, 3, 65534⟩ := by
  have second : ring (0xFFFF + 1) = { kind := .byte, value := kDd } := rfl
  have third : ring (0xFFFF + 2) = { kind := .byte, value := kDd } := rfl
  have lead_at : classifyOpcodeByte (leadSpace .dd) (ring 0xFFFF).value = lead := by
    rw [show leadSpace .dd = .dd from rfl, show (ring 0xFFFF).value = 0xCB from rfl]
    exact at_
  rw [opcodePart_eq lead_at]
  simp only [partOf, kind, second, third, next, ne_eq, not_true_eq_false, if_false, if_true]

theorem ring_decoded : (decodeAt ring 0).kind = .decoded ∧
    (decodeAt ring 0).instruction.provenance.logicalByteCount = 65538 := by
  have scanned : scannedPrefix ring .none 0 65535 = .dd := by
    rw [scannedPrefix, if_neg (by decide), prefixOf, ring_prefix (by decide)]
    rfl
  obtain ⟨lead, at_⟩ : ∃ lead, classifyOpcodeByte .dd 0xCB = lead := ⟨_, rfl⟩
  obtain ⟨last, next⟩ : ∃ last, classifyOpcodeByte .ddcb kDd = last := ⟨_, rfl⟩
  have escape := classifyOpcodeByte_spec .dd 0xCB
  rw [at_] at escape
  have kind : lead.kind = .escape_ddcb := escape.kind.trans (by decide +kernel)
  have part := ring_opcodePart at_ kind (congrArg ByteClass.form next)
  have spec := classifyOpcodeByte_spec .ddcb kDd
  rw [next] at spec
  have form : (classifyKey .ddcb kDd).kind = .form := (escaped_form kDd).2.2.1
  obtain ⟨desc, of_form⟩ : ∃ desc, formDescriptor last.form = desc := ⟨_, rfl⟩
  have indexed : IndexedCb desc := by
    left
    rw [← of_form, spec.space (.inl form), form_space _ _ form]
  have decoded := decodeAt_of_isRun ring 0 ring_isRun (by decide)
  have finished := finishWith_ok formDescriptor 0 (ring 0) rfl part
  rw [of_form] at finished
  have opAddr : BitVec.ofNat 16 ((0 : Addr).toNat + 65535) = 0xFFFF := rfl
  rw [opAddr, show (0 : Addr).toNat = 0 from rfl, scanned, finish_with, finished] at decoded
  simp only [decoded, finishPart, operandsOf, OpcodePart.total, indexed, if_true, and_self]

/-- The first 65,536 bytes of such a start already are the whole address space. -/
theorem shorter_start : (decodeAt ring 0).kind = .decoded ∧
    65536 < (decodeAt ring 0).instruction.provenance.logicalByteCount ∧
    ∀ other, AgreeOn ring other 0 65536 → decodeAt other 0 = decodeAt ring 0 := by
  obtain ⟨decoded, count⟩ := ring_decoded
  refine ⟨decoded, by rw [count]; decide, ?_⟩
  intro other agree
  have same : other = ring := by
    funext x
    simpa using agree x.toNat x.isLt
  rw [same]

theorem decoded_start_ring : (decodeAt ring 0).kind = .decoded ∧
    logicalLength (decodeAt ring 0).instruction = 65538 := by
  obtain ⟨decoded, count⟩ := ring_decoded
  have start := decoded_start ring 0 decoded
  exact ⟨decoded, start.1.trans count⟩

end Decode

end Segarecomp.Z80

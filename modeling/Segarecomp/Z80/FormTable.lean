import Segarecomp.Z80.Decode

/-! What the interned tables hold: every opcode byte is classified as `classifyKey` says, and
the form it names is the description of its own key. -/

namespace Segarecomp.Z80

/-- A byte class that names an interned form. -/
def ByteClassKind.named (kind : ByteClassKind) : Prop := kind = .form ∨ kind = .prefix_ignored

instance (kind : ByteClassKind) : Decidable kind.named :=
  inferInstanceAs (Decidable (kind = .form ∨ kind = .prefix_ignored))

/-- The cell holds its class, and its form number is the place of its key. -/
structure BuildState.Holds (st : BuildState) (cell : Space × BitVec 8) : Prop where
  kind : (st.bytes cell.1 cell.2).kind = (classifyKey cell.1 cell.2).kind
  key : (classifyKey cell.1 cell.2).kind.named →
    st.keys[(st.bytes cell.1 cell.2).form]? = some (classifyKey cell.1 cell.2).key

theorem intern_spec (keys : List Key) (key : Key) :
    keys <+: (intern keys key).1 ∧ (intern keys key).1[(intern keys key).2]? = some key := by
  unfold intern
  cases found : keys.idxOf? key with
  | none => simp
  | some i =>
      obtain ⟨inside, eq, _⟩ := List.idxOf?_eq_some_iff.mp found
      simpa [inside] using eq

theorem getElem?_of_grown {keys more : List Key} {i : ℕ} {key : Key} (grown : keys <+: more)
    (h : keys[i]? = some key) : more[i]? = some key := by
  obtain ⟨rest, rfl⟩ := grown
  obtain ⟨inside, eq⟩ := List.getElem?_eq_some_iff.mp h
  rw [List.getElem?_append_left inside, h]

theorem buildCell_named {st : BuildState} {cell : Space × BitVec 8}
    (named : (classifyKey cell.1 cell.2).kind.named) :
    buildCell st cell =
      { keys := (intern st.keys (classifyKey cell.1 cell.2).key).1
        bytes := fun s b =>
          if (s, b) = cell then
            ⟨(classifyKey cell.1 cell.2).kind, (intern st.keys (classifyKey cell.1 cell.2).key).2⟩
          else st.bytes s b } :=
  if_pos named

theorem buildCell_unnamed {st : BuildState} {cell : Space × BitVec 8}
    (unnamed : ¬ (classifyKey cell.1 cell.2).kind.named) :
    buildCell st cell =
      { keys := st.keys
        bytes := fun s b =>
          if (s, b) = cell then ⟨(classifyKey cell.1 cell.2).kind, kNoForm⟩ else st.bytes s b } :=
  if_neg unnamed

theorem buildCell_keys (st : BuildState) (cell : Space × BitVec 8) :
    st.keys <+: (buildCell st cell).keys := by
  by_cases h : (classifyKey cell.1 cell.2).kind.named
  · rw [buildCell_named h]
    exact (intern_spec _ _).1
  · rw [buildCell_unnamed h]

theorem buildCell_self (st : BuildState) (cell : Space × BitVec 8) :
    (buildCell st cell).Holds cell := by
  by_cases h : (classifyKey cell.1 cell.2).kind.named
  · rw [buildCell_named h]
    constructor
    · simp
    · intro _
      simpa using (intern_spec st.keys (classifyKey cell.1 cell.2).key).2
  · rw [buildCell_unnamed h]
    constructor
    · simp
    · exact fun named => absurd named h

theorem buildCell_bytes {st : BuildState} {cell other : Space × BitVec 8} (ne : other ≠ cell) :
    (buildCell st cell).bytes other.1 other.2 = st.bytes other.1 other.2 := by
  by_cases h : (classifyKey cell.1 cell.2).kind.named
  · rw [buildCell_named h]
    exact if_neg ne
  · rw [buildCell_unnamed h]
    exact if_neg ne

theorem buildCell_holds {st : BuildState} {cell other : Space × BitVec 8}
    (holds : st.Holds other) : (buildCell st cell).Holds other := by
  by_cases same : other = cell
  · rw [same]
    exact buildCell_self st cell
  · constructor
    · rw [buildCell_bytes same, holds.kind]
    · intro named
      rw [buildCell_bytes same]
      exact getElem?_of_grown (buildCell_keys st cell) (holds.key named)

theorem foldl_buildCell_holds (cells : List (Space × BitVec 8)) (st : BuildState)
    {cell : Space × BitVec 8} (h : cell ∈ cells ∨ st.Holds cell) :
    (cells.foldl buildCell st).Holds cell := by
  induction cells generalizing st with
  | nil => simpa using h
  | cons head cells ih =>
      apply ih
      rcases h with member | holds
      · rcases List.mem_cons.mp member with rfl | later
        · exact .inr (buildCell_self st cell)
        · exact .inl later
      · exact .inr (buildCell_holds holds)

theorem mem_allCells (space : Space) (b : BitVec 8) : (space, b) ∈ allCells := by
  refine List.mem_flatMap.mpr ⟨space, by cases space <;> decide, ?_⟩
  exact List.mem_map.mpr ⟨b.toNat, List.mem_range.mpr b.isLt, by simp⟩

theorem buildCells_holds (space : Space) (b : BitVec 8) : buildCells.Holds (space, b) := by
  unfold buildCells
  apply foldl_buildCell_holds
  exact .inl (mem_allCells space b)

/-- The tables a finished state stands for. -/
def BuildState.toTables (st : BuildState) : Tables :=
  { forms := st.keys.zipIdx.map fun (k, i) => { describe i k with aliasOf := aliasTarget st.keys k }
    bytes := st.bytes }

theorem tables_eq : tables = buildCells.toTables := rfl

theorem BuildState.Holds.kind_eq {st : BuildState} {space : Space} {b : BitVec 8}
    (holds : st.Holds (space, b)) : (st.toTables.bytes space b).kind = (classifyKey space b).kind :=
  holds.kind

theorem BuildState.Holds.descriptor_eq {st : BuildState} {space : Space} {b : BitVec 8}
    (holds : st.Holds (space, b)) (named : (classifyKey space b).kind.named) :
    st.toTables.forms.getD (st.toTables.bytes space b).form {} =
      { describe (st.toTables.bytes space b).form (classifyKey space b).key with
        aliasOf := aliasTarget st.keys (classifyKey space b).key } := by
  have key : st.keys[(st.toTables.bytes space b).form]? = some (classifyKey space b).key :=
    holds.key named
  simp only [BuildState.toTables] at key ⊢
  simp [key]

-- Both facts are stated of whole functions: applied to an argument, the kernel would
-- evaluate the tables to compare the two sides.
theorem classifyOpcodeByte_eq :
    classifyOpcodeByte = fun space byte => buildCells.toTables.bytes space byte := by
  have unfolded : classifyOpcodeByte = fun space byte => tables.bytes space byte := rfl
  rw [unfolded, tables_eq]

theorem formDescriptor_eq :
    formDescriptor = fun id => buildCells.toTables.forms.getD id {} := by
  have unfolded : formDescriptor = fun id => tables.forms.getD id {} := rfl
  rw [unfolded, tables_eq]

theorem classifyOpcodeByte_kind (space : Space) (b : BitVec 8) :
    (classifyOpcodeByte space b).kind = (classifyKey space b).kind := by
  have applied : classifyOpcodeByte space b = buildCells.toTables.bytes space b :=
    congrFun (congrFun classifyOpcodeByte_eq space) b
  rw [applied]
  exact (buildCells_holds space b).kind_eq

theorem formDescriptor_classify {space : Space} {b : BitVec 8}
    (named : (classifyKey space b).kind.named) :
    formDescriptor (classifyOpcodeByte space b).form =
      { describe (classifyOpcodeByte space b).form (classifyKey space b).key with
        aliasOf := aliasTarget buildCells.keys (classifyKey space b).key } := by
  have applied : classifyOpcodeByte space b = buildCells.toTables.bytes space b :=
    congrFun (congrFun classifyOpcodeByte_eq space) b
  have descriptor : ∀ id, formDescriptor id = buildCells.toTables.forms.getD id {} :=
    fun id => congrFun formDescriptor_eq id
  rw [descriptor, applied]
  exact (buildCells_holds space b).descriptor_eq named

end Segarecomp.Z80

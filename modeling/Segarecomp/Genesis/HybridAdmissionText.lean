import Segarecomp.Lib.Fallible
import Segarecomp.Lib.HexText
import Segarecomp.Lib.Lines
import Segarecomp.Genesis.HybridAdmission

/-! The text of a hybrid admission plan, one record a line, and its strict reader. -/

namespace Segarecomp.Genesis.HybridAdmission

open Lib.Fallible Lib.HexText Lib.Lines

abbrev Text := List Char

def genesisHybridAdmissionPlanSchema : Text := "segarecomp.m68k_hybrid_admission_plan.v1".toList

def genesisHybridAdmissionPlanMaxBytes : ℕ := 16 * 2 ^ 20

def genesisHybridAdmissionPlanMaxRanges : ℕ := 2 ^ 20

/-! ## Writing -/

def genesisAdmissionStrategyName : GenesisAdmissionStrategy → Text
  | .broad => "broad".toList
  | .hybrid => "hybrid".toList

def romLabel : Text := "rom_sha256 ".toList

def universeLabel : Text := "universe_sha256 ".toList

def aliasLine (entry : ImmutableCopyAlias) : Text :=
  "alias ".toList ++ ((hex8 entry.executionBase).toList ++ ':' :: ((hex8 entry.sourceBase).toList ++
    ':' :: (hex8 entry.length).toList))

def strategyLine (strategy : GenesisAdmissionStrategy) : Text :=
  "strategy ".toList ++ genesisAdmissionStrategyName strategy

def rangeLine (range : ImmutableRomAotRange) : Text :=
  "range ".toList ++ ((hex8 range.beginAddress).toList ++ ' ' :: (hex8 range.endAddress).toList)

def endLine : Text := "end".toList

def planLines (plan : GenesisHybridAdmissionPlan) : List Text :=
  genesisHybridAdmissionPlanSchema :: (romLabel ++ plan.romSha256.toList) ::
    (universeLabel ++ plan.universeSha256.toList) :: (plan.aliases.map aliasLine ++
      strategyLine plan.strategy :: ((if plan.strategy = .hybrid then plan.ranges.map rangeLine else []) ++ [endLine]))

def formatGenesisHybridAdmissionPlan (plan : GenesisHybridAdmissionPlan) : Text :=
  (planLines plan).flatMap (· ++ ['\n'])

/-! ## Reading -/

/-- The reasons of a refusal, by the text the source gives them. -/
inductive PlanError
  | plan_too_large | plan_unterminated_line | plan_schema | plan_rom_sha256 | plan_universe_sha256 | plan_alias
  | plan_alias_order | plan_strategy | plan_range_in_broad | plan_range | plan_range_order | plan_too_many_ranges
  | plan_trailer | plan_empty
  deriving DecidableEq, Repr

def parseHex8 (text : Text) : Option ℕ := if text.length ≠ 8 then none else read text

def validSha256 (text : Text) : Bool := decide (text.length = 64) && text.all isDigit

def parsePlanLines (text : Text) : Except PlanError (List Text) :=
  match terminated text with
  | some lines => .ok lines
  | none => .error .plan_unterminated_line

def parseSchema : List Text → Except PlanError (List Text)
  | [] => .error .plan_schema
  | line :: rest => if line = genesisHybridAdmissionPlanSchema then .ok rest else .error .plan_schema

/-- A line with a digest behind its label. -/
def parseDigest (label : Text) (error : PlanError) : List Text → Except PlanError (Text × List Text)
  | [] => .error error
  | line :: rest =>
    if line.take label.length ≠ label ∨ validSha256 (line.drop label.length) = false then .error error
    else .ok (line.drop label.length, rest)

def parseAlias (value : Text) : Option ImmutableCopyAlias :=
  if value.length ≠ 26 ∨ value[8]? ≠ some ':' ∨ value[17]? ≠ some ':' then none
  else do
    let execution ← parseHex8 (value.take 8)
    let source ← parseHex8 ((value.drop 9).take 8)
    let length ← parseHex8 ((value.drop 18).take 8)
    some ⟨execution, source, length⟩

/-- The aliases, and the lines from the first that is none. -/
def parseAliases (aliases : List ImmutableCopyAlias) :
    List Text → Except PlanError (List ImmutableCopyAlias × List Text)
  | [] => .ok (aliases, [])
  | line :: rest =>
    if line.take 6 = "alias ".toList then
      match parseAlias (line.drop 6) with
      | none => .error .plan_alias
      | some entry =>
        if aliases.getLast?.any fun last => entry.executionBase ≤ last.executionBase then .error .plan_alias_order
        else parseAliases (aliases ++ [entry]) rest
    else .ok (aliases, line :: rest)

def parseStrategy : List Text → Except PlanError (GenesisAdmissionStrategy × List Text)
  | [] => .error .plan_strategy
  | line :: rest =>
    if line = strategyLine .broad then .ok (.broad, rest)
    else if line = strategyLine .hybrid then .ok (.hybrid, rest)
    else .error .plan_strategy

def parseRange (value : Text) : Option ImmutableRomAotRange :=
  if value.length ≠ 17 ∨ value[8]? ≠ some ' ' then none
  else do
    let beginAddress ← parseHex8 (value.take 8)
    let endAddress ← parseHex8 ((value.drop 9).take 8)
    if endAddress ≤ beginAddress ∨ beginAddress % 2 ≠ 0 ∨ endAddress % 2 ≠ 0 ∨ 2 ^ 24 < endAddress then none
    else some ⟨beginAddress, endAddress⟩

def parseRanges (strategy : GenesisAdmissionStrategy) (ranges : List ImmutableRomAotRange) :
    List Text → Except PlanError (List ImmutableRomAotRange × List Text)
  | [] => .ok (ranges, [])
  | line :: rest =>
    if line.take 6 = "range ".toList then
      if strategy ≠ .hybrid then .error .plan_range_in_broad
      else
        match parseRange (line.drop 6) with
        | none => .error .plan_range
        | some range =>
          if ranges.getLast?.any fun last => range.beginAddress ≤ last.endAddress then .error .plan_range_order
          else if genesisHybridAdmissionPlanMaxRanges ≤ ranges.length then .error .plan_too_many_ranges
          else parseRanges strategy (ranges ++ [range]) rest
    else .ok (ranges, line :: rest)

def planEnd (strategy : GenesisAdmissionStrategy) (ranges : List ImmutableRomAotRange) (lines : List Text) :
    Except PlanError Unit :=
  if lines ≠ [endLine] then .error .plan_trailer
  else if strategy = .hybrid ∧ ranges = [] then .error .plan_empty
  else .ok ()

def parsePlanRecords (lines : List Text) : Except PlanError GenesisHybridAdmissionPlan := do
  let lines ← parseSchema lines
  let (romSha256, lines) ← parseDigest romLabel .plan_rom_sha256 lines
  let (universeSha256, lines) ← parseDigest universeLabel .plan_universe_sha256 lines
  let (aliases, lines) ← parseAliases [] lines
  let (strategy, lines) ← parseStrategy lines
  let (ranges, lines) ← parseRanges strategy [] lines
  planEnd strategy ranges lines
  return ⟨String.ofList romSha256, String.ofList universeSha256, aliases, strategy, ranges⟩

def parseGenesisHybridAdmissionPlan (text : Text) : Except PlanError GenesisHybridAdmissionPlan :=
  if genesisHybridAdmissionPlanMaxBytes < text.length then .error .plan_too_large
  else do
    let lines ← parsePlanLines text
    parsePlanRecords lines

/-! ## Fields of a line -/

variable {text : Text} {lines rest : List Text} {n : ℕ} {c : Char}

theorem hex8_toList (value : ℕ) : (hex8 value).toList = write 8 value := by
  simp only [hex8, String.toList_ofList, List.map_cons, List.map_nil, write, Nat.div_div_eq_div_mul, List.nil_append,
    List.cons_append, Nat.reducePow, Nat.reduceMul, Nat.div_one]
  rfl

theorem length_hex8 (value : ℕ) : (hex8 value).toList.length = 8 := by rw [hex8_toList, length_write]

theorem parseHex8_hex8 (small : n < 2 ^ 32) : parseHex8 (hex8 n).toList = some n := by
  rw [parseHex8, if_neg (not_not.mpr (length_hex8 n)), hex8_toList, read_write 8 small]

theorem parseHex8_some (taken : parseHex8 text = some n) : text = (hex8 n).toList := by
  rw [parseHex8] at taken
  split_ifs at taken with wide
  have written := (read_eq_some taken).2
  rw [not_not.mp wide] at written
  rw [hex8_toList, written]

theorem split_at (present : text[n]? = some c) : text = text.take n ++ c :: text.drop (n + 1) := by
  rcases List.getElem?_eq_some_iff.mp present with ⟨inside, rfl⟩
  rw [← List.drop_eq_getElem_cons inside, List.take_append_drop]

theorem take_label (label rest : Text) : (label ++ rest).take label.length = label ∧ (label ++ rest).drop label.length = rest :=
  ⟨List.take_left, List.drop_left⟩

theorem label_append {line : Text} (label : Text) (begins : line.take label.length = label) :
    line = label ++ line.drop label.length := by
  calc line = line.take label.length ++ line.drop label.length := (List.take_append_drop _ _).symm
    _ = label ++ line.drop label.length := by rw [begins]

/-! ## Aliases -/

/-- The fields are `uint32_t`. -/
def ImmutableCopyAlias.Narrow (entry : ImmutableCopyAlias) : Prop :=
  entry.executionBase < 2 ^ 32 ∧ entry.sourceBase < 2 ^ 32 ∧ entry.length < 2 ^ 32

def aliasText (entry : ImmutableCopyAlias) : Text :=
  (hex8 entry.executionBase).toList ++ ':' :: ((hex8 entry.sourceBase).toList ++ ':' :: (hex8 entry.length).toList)

theorem aliasLine_eq (entry : ImmutableCopyAlias) : aliasLine entry = "alias ".toList ++ aliasText entry := rfl

theorem take_field {first : Text} (width : first.length = 8) (c : Char) (rest : Text) :
    (first ++ c :: rest)[8]? = some c ∧ (first ++ c :: rest).take 8 = first ∧ (first ++ c :: rest).drop 9 = rest := by
  refine ⟨?_, List.take_left' width, ?_⟩
  · rw [List.getElem?_append_right width.le, width]
    rfl
  · rw [List.drop_append, width, List.drop_eq_nil_of_le (width.trans_le (by decide))]
    rfl

theorem parseAlias_text {entry : ImmutableCopyAlias} (narrow : entry.Narrow) : parseAlias (aliasText entry) = some entry := by
  rcases take_field (length_hex8 entry.executionBase) ':'
    ((hex8 entry.sourceBase).toList ++ ':' :: (hex8 entry.length).toList) with ⟨colon, first, behind⟩
  rcases take_field (length_hex8 entry.sourceBase) ':' (hex8 entry.length).toList with ⟨colon', second, behind'⟩
  have length : (aliasText entry).length = 26 := by simp [aliasText, length_hex8]
  have later : (aliasText entry)[17]? = some ':' := by
    rw [← colon', ← behind, List.getElem?_drop]
    rfl
  have last : (aliasText entry).drop 18 = (hex8 entry.length).toList := by
    rw [← behind', ← behind, List.drop_drop]
    rfl
  have whole : (hex8 entry.length).toList.take 8 = (hex8 entry.length).toList :=
    List.take_of_length_le (length_hex8 _).le
  have middle : (aliasText entry).drop 9 = (hex8 entry.sourceBase).toList ++ ':' :: (hex8 entry.length).toList := behind
  have shape : ¬((aliasText entry).length ≠ 26 ∨ (aliasText entry)[8]? ≠ some ':' ∨ (aliasText entry)[17]? ≠ some ':') := by
    rw [length, later, aliasText, colon]
    simp
  rw [parseAlias, if_neg shape, last, middle, second, whole]
  rw [aliasText, first, parseHex8_hex8 narrow.1, parseHex8_hex8 narrow.2.1, parseHex8_hex8 narrow.2.2]
  rfl

theorem parseAlias_some {entry : ImmutableCopyAlias} (taken : parseAlias text = some entry) : text = aliasText entry := by
  rw [parseAlias] at taken
  split_ifs at taken with shape
  simp only [not_or, not_not] at shape
  rcases shape with ⟨length, colon, colon'⟩
  simp only [Option.bind_eq_bind, Option.bind_eq_some_iff, Option.some.injEq] at taken
  rcases taken with ⟨execution, first, source, second, size, third, rfl⟩
  have behind : (text.drop 9)[8]? = some ':' := by
    rw [List.getElem?_drop]
    exact colon'
  have last : (text.drop 18).take 8 = text.drop 18 :=
    List.take_of_length_le (by rw [List.length_drop, length])
  have next := split_at behind
  rw [List.drop_drop] at next
  calc text = text.take 8 ++ ':' :: text.drop 9 := split_at colon
    _ = text.take 8 ++ ':' :: ((text.drop 9).take 8 ++ ':' :: text.drop 18) := congrArg (text.take 8 ++ ':' :: ·) next
    _ = aliasText ⟨execution, source, size⟩ := by
      rw [aliasText, ← parseHex8_some first, ← parseHex8_some second, ← parseHex8_some third, last]

theorem parseAliases_alias {aliases : List ImmutableCopyAlias} {line : Text} (begins : line.take 6 = "alias ".toList)
    {entry : ImmutableCopyAlias} (read : parseAlias (line.drop 6) = some entry) :
    parseAliases aliases (line :: rest) =
      if aliases.getLast?.any fun last => entry.executionBase ≤ last.executionBase then .error .plan_alias_order
      else parseAliases (aliases ++ [entry]) rest := by
  rw [parseAliases, if_pos begins, read]

/-- What the reader of aliases has taken is the text of the aliases it returns. -/
theorem parseAliases_ok {before after : List ImmutableCopyAlias} (taken : parseAliases before lines = .ok (after, rest)) :
    ∃ entries, after = before ++ entries ∧ lines = entries.map aliasLine ++ rest := by
  induction lines generalizing before with
  | nil =>
      cases taken
      exact ⟨[], (List.append_nil _).symm, rfl⟩
  | cons line lines ih =>
      rw [parseAliases] at taken
      split_ifs at taken with begins
      · split at taken
        next => cases taken
        next entry read =>
          split_ifs at taken
          rcases ih taken with ⟨entries, grown, later⟩
          have here : line = aliasLine entry := by
            rw [label_append "alias ".toList begins]
            exact congrArg ("alias ".toList ++ ·) (parseAlias_some read)
          refine ⟨entry :: entries, ?_, ?_⟩
          · rw [grown, List.append_assoc]
            rfl
          · rw [here, later]
            rfl
      · cases taken
        exact ⟨[], (List.append_nil _).symm, rfl⟩

theorem parseAliases_entries {before entries : List ImmutableCopyAlias} (narrow : ∀ entry ∈ entries, entry.Narrow)
    (ordered : (before ++ entries).Pairwise fun a b => a.executionBase < b.executionBase)
    (stop : ∀ line ∈ rest.head?, line.take 6 ≠ "alias ".toList) :
    parseAliases before (entries.map aliasLine ++ rest) = .ok (before ++ entries, rest) := by
  induction entries generalizing before with
  | nil =>
      cases rest with
      | nil =>
          simp only [List.map_nil, List.append_nil]
          rfl
      | cons line rest =>
          have other := stop line rfl
          rw [List.map_nil, List.nil_append, parseAliases, if_neg other, List.append_nil]
  | cons entry entries ih =>
      have regroup : before ++ entry :: entries = (before ++ [entry]) ++ entries := by simp
      have label := take_label "alias ".toList (aliasText entry)
      have begins : (aliasLine entry).take 6 = "alias ".toList := label.1
      have here : parseAlias ((aliasLine entry).drop 6) = some entry := by
        rw [aliasLine_eq]
        exact (congrArg parseAlias label.2).trans (parseAlias_text (narrow entry List.mem_cons_self))
      have above : ¬(before.getLast?.any fun last => decide (entry.executionBase ≤ last.executionBase)) = true := by
        rw [Option.any_eq_true]
        rintro ⟨last, is, le⟩
        have less := (List.pairwise_append.mp ordered).2.2 last (List.mem_of_getLast? is) entry List.mem_cons_self
        exact absurd (of_decide_eq_true le) (Nat.not_le_of_lt less)
      rw [List.map_cons, List.cons_append, parseAliases_alias begins here, if_neg above, regroup]
      apply ih fun other member => narrow other (List.mem_cons_of_mem _ member)
      rw [← regroup]
      exact ordered

/-! ## Ranges -/

/-- A range that the reader takes: valid, and not past the end of the bus. -/
def ImmutableRomAotRange.OnBus (range : ImmutableRomAotRange) : Prop := range.Valid ∧ range.endAddress ≤ 2 ^ 24

def rangeText (range : ImmutableRomAotRange) : Text :=
  (hex8 range.beginAddress).toList ++ ' ' :: (hex8 range.endAddress).toList

theorem rangeLine_eq (range : ImmutableRomAotRange) : rangeLine range = "range ".toList ++ rangeText range := rfl

theorem parseRange_text {range : ImmutableRomAotRange} (fits : range.OnBus) : parseRange (rangeText range) = some range := by
  rcases take_field (length_hex8 range.beginAddress) ' ' (hex8 range.endAddress).toList with ⟨space, first, behind⟩
  rcases fits with ⟨⟨nonempty, even, even'⟩, top⟩
  have length : (rangeText range).length = 17 := by simp [rangeText, length_hex8]
  have whole : (hex8 range.endAddress).toList.take 8 = (hex8 range.endAddress).toList :=
    List.take_of_length_le (length_hex8 _).le
  have shape : ¬((rangeText range).length ≠ 17 ∨ (rangeText range)[8]? ≠ some ' ') := by
    rw [length, rangeText, space]
    simp
  have low : range.beginAddress < 2 ^ 32 := by omega
  have high : range.endAddress < 2 ^ 32 := by omega
  rw [parseRange, if_neg shape, rangeText, first, behind, whole, parseHex8_hex8 low, parseHex8_hex8 high]
  exact if_neg (by omega)

theorem parseRange_some {range : ImmutableRomAotRange} (taken : parseRange text = some range) :
    text = rangeText range := by
  rw [parseRange] at taken
  split_ifs at taken with shape
  simp only [not_or, not_not] at shape
  rcases shape with ⟨length, space⟩
  simp only [Option.bind_eq_bind, Option.bind_eq_some_iff] at taken
  rcases taken with ⟨beginAddress, first, endAddress, second, taken⟩
  split_ifs at taken
  cases taken
  have last : (text.drop 9).take 8 = text.drop 9 := List.take_of_length_le (by rw [List.length_drop, length])
  calc text = text.take 8 ++ ' ' :: text.drop 9 := split_at space
    _ = rangeText ⟨beginAddress, endAddress⟩ := by
      rw [rangeText, ← parseHex8_some first, ← parseHex8_some second, last]

theorem parseRanges_ok {strategy : GenesisAdmissionStrategy} {before after : List ImmutableRomAotRange}
    (taken : parseRanges strategy before lines = .ok (after, rest)) :
    ∃ ranges, after = before ++ ranges ∧ lines = ranges.map rangeLine ++ rest ∧ (strategy ≠ .hybrid → ranges = []) := by
  induction lines generalizing before with
  | nil =>
      cases taken
      exact ⟨[], (List.append_nil _).symm, rfl, fun _ => rfl⟩
  | cons line lines ih =>
      rw [parseRanges] at taken
      by_cases begins : line.take 6 = "range ".toList
      · have broad : ¬strategy ≠ .hybrid := by
          intro other
          rw [if_pos begins, if_pos other] at taken
          cases taken
        rw [if_pos begins, if_neg broad] at taken
        split at taken
        next => cases taken
        next range read =>
          split_ifs at taken
          rcases ih taken with ⟨ranges, grown, later, -⟩
          have here : line = rangeLine range := by
            rw [label_append "range ".toList begins]
            exact congrArg ("range ".toList ++ ·) (parseRange_some read)
          refine ⟨range :: ranges, ?_, ?_, fun other => absurd other broad⟩
          · rw [grown, List.append_assoc]
            rfl
          · rw [here, later]
            rfl
      · rw [if_neg begins] at taken
        cases taken
        exact ⟨[], (List.append_nil _).symm, rfl, fun _ => rfl⟩

theorem parseRanges_range {before : List ImmutableRomAotRange} {line : Text}
    (begins : line.take 6 = "range ".toList) {range : ImmutableRomAotRange}
    (read : parseRange (line.drop 6) = some range) (few : before.length < genesisHybridAdmissionPlanMaxRanges) :
    parseRanges .hybrid before (line :: rest) =
      if before.getLast?.any fun last => range.beginAddress ≤ last.endAddress then .error .plan_range_order
      else parseRanges .hybrid (before ++ [range]) rest := by
  rw [parseRanges, if_pos begins, if_neg (not_not.mpr rfl), read]
  dsimp only
  rw [if_neg (Nat.not_le_of_lt few)]

theorem parseRanges_ranges {before ranges : List ImmutableRomAotRange} (fits : ∀ range ∈ ranges, range.OnBus)
    (apart : (before ++ ranges).Pairwise fun a b => a.endAddress < b.beginAddress)
    (few : (before ++ ranges).length ≤ genesisHybridAdmissionPlanMaxRanges)
    (stop : ∀ line ∈ rest.head?, line.take 6 ≠ "range ".toList) :
    parseRanges .hybrid before (ranges.map rangeLine ++ rest) = .ok (before ++ ranges, rest) := by
  induction ranges generalizing before with
  | nil =>
      cases rest with
      | nil =>
          simp only [List.map_nil, List.append_nil]
          rfl
      | cons line rest =>
          have other := stop line rfl
          rw [List.map_nil, List.nil_append, parseRanges, if_neg other, List.append_nil]
  | cons range ranges ih =>
      have regroup : before ++ range :: ranges = (before ++ [range]) ++ ranges := by simp
      have label := take_label "range ".toList (rangeText range)
      have begins : (rangeLine range).take 6 = "range ".toList := label.1
      have here : parseRange ((rangeLine range).drop 6) = some range := by
        rw [rangeLine_eq]
        exact (congrArg parseRange label.2).trans (parseRange_text (fits range List.mem_cons_self))
      have above : ¬(before.getLast?.any fun last => decide (range.beginAddress ≤ last.endAddress)) = true := by
        rw [Option.any_eq_true]
        rintro ⟨last, is, le⟩
        have less := (List.pairwise_append.mp apart).2.2 last (List.mem_of_getLast? is) range List.mem_cons_self
        exact absurd (of_decide_eq_true le) (Nat.not_le_of_lt less)
      have room : before.length < genesisHybridAdmissionPlanMaxRanges := by
        rw [List.length_append, List.length_cons] at few
        omega
      rw [List.map_cons, List.cons_append, parseRanges_range begins here room, if_neg above, regroup]
      apply ih fun other member => fits other (List.mem_cons_of_mem _ member)
      · rw [← regroup]
        exact apart
      · rw [← regroup]
        exact few

/-! ## Plans -/

theorem parseDigest_ok {label digest : Text} {error : PlanError} (taken : parseDigest label error lines = .ok (digest, rest)) :
    lines = (label ++ digest) :: rest := by
  cases lines with
  | nil => cases taken
  | cons line later =>
      rw [parseDigest] at taken
      split_ifs at taken with wrong
      cases taken
      rw [not_or, not_not] at wrong
      exact congrArg (· :: rest) (label_append _ wrong.1)

theorem parseDigest_digest (label : Text) (error : PlanError) {digest : Text} (valid : validSha256 digest = true) :
    parseDigest label error ((label ++ digest) :: rest) = .ok (digest, rest) := by
  rcases take_label label digest with ⟨before, behind⟩
  rw [parseDigest, before, behind, if_neg (by simp [valid])]

theorem parseStrategy_ok {strategy : GenesisAdmissionStrategy} (taken : parseStrategy lines = .ok (strategy, rest)) :
    lines = strategyLine strategy :: rest := by
  cases lines with
  | nil => cases taken
  | cons line lines =>
      rw [parseStrategy] at taken
      split_ifs at taken with broad hybrid
      · cases taken
        rw [broad]
      · cases taken
        rw [hybrid]

/-- A text that is accepted is the text of the plan it was read as. -/
theorem format_of_parse {plan : GenesisHybridAdmissionPlan} (accepted : parseGenesisHybridAdmissionPlan text = .ok plan) :
    formatGenesisHybridAdmissionPlan plan = text := by
  rw [parseGenesisHybridAdmissionPlan] at accepted
  split_ifs at accepted
  rcases bind_ok_iff.mp accepted with ⟨lines, split, records⟩
  have ended : text = lines.flatMap (· ++ ['\n']) := by
    rw [parsePlanLines] at split
    split at split
    next found taken => exact Except.ok.inj split ▸ terminated_eq_some taken
    next => cases split
  rcases bind_ok_iff.mp records with ⟨afterSchema, schema, records⟩
  rcases bind_ok_iff.mp records with ⟨⟨rom, afterRom⟩, romLine, records⟩
  rcases bind_ok_iff.mp records with ⟨⟨digest, afterUniverse⟩, universeLine, records⟩
  rcases bind_ok_iff.mp records with ⟨⟨aliases, afterAliases⟩, aliasLines, records⟩
  rcases bind_ok_iff.mp records with ⟨⟨strategy, afterStrategy⟩, strategyTaken, records⟩
  rcases bind_ok_iff.mp records with ⟨⟨ranges, afterRanges⟩, rangeLines, records⟩
  rcases bind_ok_iff.mp records with ⟨_, last, made⟩
  have first : lines = genesisHybridAdmissionPlanSchema :: afterSchema := by
    cases lines with
    | nil => cases schema
    | cons line lines =>
        rw [parseSchema] at schema
        split_ifs at schema with same
        rw [same, Except.ok.inj schema]
  have final : afterRanges = [endLine] := by
    rw [planEnd] at last
    split_ifs at last with trailer
    exact not_not.mp trailer
  rcases parseAliases_ok aliasLines with ⟨_, rfl, aliasesAre⟩
  rcases parseRanges_ok rangeLines with ⟨_, rfl, rangesAre, onlyHybrid⟩
  have planned : planLines plan = lines := by
    have records : (if strategy = .hybrid then ranges.map rangeLine else []) = ranges.map rangeLine := by
      by_cases hybrid : strategy = .hybrid
      · rw [if_pos hybrid]
      · rw [if_neg hybrid, onlyHybrid hybrid]
        rfl
    rw [first, parseDigest_ok romLine, parseDigest_ok universeLine, aliasesAre, parseStrategy_ok strategyTaken, rangesAre,
      final, ← Except.ok.inj made, planLines]
    simp only [String.toList_ofList, records]
  rw [formatGenesisHybridAdmissionPlan, planned, ended]

/-- What makes a hybrid plan one that the reader takes, its size apart. -/
structure Readable (plan : GenesisHybridAdmissionPlan) : Prop where
  rom : validSha256 plan.romSha256.toList = true
  digest : validSha256 plan.universeSha256.toList = true
  narrow : ∀ entry ∈ plan.aliases, entry.Narrow
  ordered : plan.aliases.Pairwise fun a b => a.executionBase < b.executionBase
  hybrid : plan.strategy = .hybrid
  some : plan.ranges ≠ []
  fits : ∀ range ∈ plan.ranges, range.OnBus
  apart : plan.ranges.Pairwise fun a b => a.endAddress < b.beginAddress

variable {plan : GenesisHybridAdmissionPlan}

theorem planLines_hybrid (hybrid : plan.strategy = .hybrid) :
    planLines plan = genesisHybridAdmissionPlanSchema :: (romLabel ++ plan.romSha256.toList) ::
      (universeLabel ++ plan.universeSha256.toList) :: (plan.aliases.map aliasLine ++
        strategyLine .hybrid :: (plan.ranges.map rangeLine ++ [endLine])) := by
  rw [planLines, hybrid, if_pos rfl]

theorem not_mem_digits (digits : text.all isDigit = true) : '\n' ∉ text := by
  intro inside
  have digit := List.all_eq_true.mp digits _ inside
  exact absurd digit (by decide)

theorem not_mem_hex8 (value : ℕ) : '\n' ∉ (hex8 value).toList := by
  rw [hex8_toList]
  exact not_mem_digits (all_isDigit_write 8 value)

theorem planLines_clean (readable : Readable plan) : ∀ line ∈ planLines plan, '\n' ∉ line := by
  have rom := readable.rom
  have digest := readable.digest
  rw [validSha256, Bool.and_eq_true] at rom digest
  have digits := not_mem_digits rom.2
  have digits' := not_mem_digits digest.2
  intro line member
  rw [planLines_hybrid readable.hybrid] at member
  simp only [List.mem_cons, List.mem_append, List.mem_map, List.not_mem_nil, or_false] at member
  rcases member with rfl | rfl | rfl | ⟨entry, -, rfl⟩ | rfl | ⟨range, -, rfl⟩ | rfl
  · decide
  · exact fun inside => (List.mem_append.mp inside).elim (by decide) digits
  · exact fun inside => (List.mem_append.mp inside).elim (by decide) digits'
  · simp [aliasLine, not_mem_hex8]
  · decide
  · simp [rangeLine, not_mem_hex8]
  · decide

theorem length_flatMap_lines (lines : List Text) :
    (lines.flatMap (· ++ ['\n'])).length = (lines.map fun line => line.length + 1).sum := by
  simp only [List.length_flatMap, List.length_append, List.length_singleton]

theorem length_format (hybrid : plan.strategy = .hybrid) :
    24 * plan.ranges.length ≤ (formatGenesisHybridAdmissionPlan plan).length := by
  have line : ∀ range, (rangeLine range).length + 1 = 24 := by
    intro range
    simp [rangeLine, length_hex8]
  have records : ((plan.ranges.map rangeLine).map fun line => line.length + 1).sum = plan.ranges.length * 24 := by
    have same : (fun line : Text => line.length + 1) ∘ rangeLine = fun _ => 24 := funext line
    rw [List.map_map, same, List.map_const', List.sum_replicate, smul_eq_mul]
  rw [formatGenesisHybridAdmissionPlan, length_flatMap_lines, planLines_hybrid hybrid]
  simp only [List.map_cons, List.map_append, List.sum_cons, List.sum_append, records]
  omega

theorem parsePlanRecords_planLines (readable : Readable plan)
    (few : plan.ranges.length ≤ genesisHybridAdmissionPlanMaxRanges) : parsePlanRecords (planLines plan) = .ok plan := by
  have aliases : parseAliases [] (plan.aliases.map aliasLine ++
      strategyLine .hybrid :: (plan.ranges.map rangeLine ++ [endLine])) =
      .ok ([] ++ plan.aliases, strategyLine .hybrid :: (plan.ranges.map rangeLine ++ [endLine])) :=
    parseAliases_entries readable.narrow readable.ordered (by simp; decide)
  have ranges : parseRanges .hybrid [] (plan.ranges.map rangeLine ++ [endLine]) = .ok ([] ++ plan.ranges, [endLine]) :=
    parseRanges_ranges readable.fits readable.apart few (by simp; decide)
  have strategy : parseStrategy (strategyLine .hybrid :: (plan.ranges.map rangeLine ++ [endLine])) =
      .ok (.hybrid, plan.ranges.map rangeLine ++ [endLine]) := by
    rw [parseStrategy, if_neg (by decide), if_pos rfl]
  have last : planEnd .hybrid plan.ranges [endLine] = .ok () := by
    rw [planEnd, if_neg (not_not.mpr rfl), if_neg fun both => readable.some both.2]
  rw [parsePlanRecords, planLines_hybrid readable.hybrid, parseSchema, if_pos rfl, ok_bind]
  simp only [parseDigest_digest _ _ readable.rom, parseDigest_digest _ _ readable.digest, ok_bind, aliases, strategy,
    ranges, List.nil_append, last, String.ofList_toList]
  rw [← readable.hybrid]
  rfl

/-- The text of a plan is read as the plan, unless it is too long. -/
theorem parse_format (readable : Readable plan) :
    parseGenesisHybridAdmissionPlan (formatGenesisHybridAdmissionPlan plan) =
      if (formatGenesisHybridAdmissionPlan plan).length ≤ genesisHybridAdmissionPlanMaxBytes then .ok plan
      else .error .plan_too_large := by
  rw [parseGenesisHybridAdmissionPlan]
  by_cases long : genesisHybridAdmissionPlanMaxBytes < (formatGenesisHybridAdmissionPlan plan).length
  · rw [if_pos long, if_neg (Nat.not_le_of_lt long)]
  · have short := Nat.le_of_not_lt long
    have few : plan.ranges.length ≤ genesisHybridAdmissionPlanMaxRanges := by
      have bytes := (length_format readable.hybrid).trans short
      rw [genesisHybridAdmissionPlanMaxBytes] at bytes
      rw [genesisHybridAdmissionPlanMaxRanges]
      omega
    have split : parsePlanLines (formatGenesisHybridAdmissionPlan plan) = .ok (planLines plan) := by
      rw [parsePlanLines, formatGenesisHybridAdmissionPlan, terminated_flatMap (planLines_clean readable)]
    rw [if_neg long, if_pos short, split, ok_bind, parsePlanRecords_planLines readable few]

end Segarecomp.Genesis.HybridAdmission

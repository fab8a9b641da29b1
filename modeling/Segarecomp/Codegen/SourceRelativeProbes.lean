import Segarecomp.Codegen.SourceRelativeSplice

/-! Where a source-relative text says the three lowerings at their program counters. -/

namespace Segarecomp.SourceRelative

open CTokens (Text Token Place isWordChar readable)
open Words (Spelled text)

/-- The base text holds a literal that differs where an expression may stand, a whole one, in no octal, and
in no call of a macro with a longer name. -/
structure Replaceable (place : Place) (passed : List Token) (t : Probe → Token) (rest : List (Probe → Token)) : Prop where
  free : place.free = true
  whole : point (texts .first rest) = false
  decimal : ∀ p, readable (t p).text = true
  name : ∀ init name, passed = init ++ [name, opening] → closes rest = true → macroName <:+ name.text → name.text = macroName

/-- Every token that the texts share is not the symbol, and every literal that differs is replaceable. -/
def Plain (symbol : Text) : Place → List Token → List (Probe → Token) → Prop
  | _, _, [] => True
  | place, passed, t :: rest =>
      (Same t → (t .first).text ≠ symbol) ∧ (¬ Same t → Replaceable place passed t rest) ∧
        Plain symbol (place.read (t .first)) (passed ++ [t .first]) rest

variable {pcs : Probe → BitVec 32} {symbol : Text} {t : Probe → Token} {ts rest : List (Probe → Token)}
  {delta : BitVec 32} {base out : Text} {count : ℕ} {place : Place}

/-! ## A literal -/

theorem Moves.not_same (moves : Moves pcs t delta) : ¬ Same t := by
  intro same
  obtain ⟨p, q, other⟩ := moves.different
  exact other (by rw [same p, same q])

theorem Moves.read (moves : Moves pcs t delta) (p : Probe) (place : Place) :
    place.read (t p) = place.read (t .first) := by
  have plain : ∀ p, ((t p).text == Place.caseWord) = false := by
    intro p
    obtain ⟨v, numeral⟩ := moves.numeral p
    obtain ⟨c, word, is, digit⟩ := CTokens.numeral_head numeral
    rw [is, beq_eq_false_iff_ne]
    rintro same
    rw [(List.cons.inj same).1] at digit
    exact absurd digit (by decide)
  rw [Place.read, Place.read, if_pos (moves.word p), if_pos (moves.word .first), Place.word, Place.word, plain p, plain .first]

theorem Moves.means_iff (moves : Moves pcs t delta) (p : Probe) :
    Means (pcs p) (t p).text (['0', 'x'] ++ hex8 delta) ↔ readable (t p).text = true := by
  obtain ⟨suffix, literal⟩ := moves.literal
  obtain ⟨value, parsed, means⟩ := literal p
  rw [means_hex8_iff]
  exact constant_literal_iff parsed means

theorem offset_letters (delta : BitVec 32) : ∀ c ∈ ['0', 'x'] ++ hex8 delta, isWordChar c = true :=
  fun c is => CTokens.isWordChar_of_constant (CTokens.constant_chars (constant_hex8 delta) c is)

theorem Aligned.point (aligned : Aligned pcs ts) (p : Probe) :
    SourceRelative.point (texts p ts) = SourceRelative.point (texts .first ts) := by
  cases ts with
  | nil => rfl
  | cons t rest =>
      change ((t p).text == ['.']) = ((t .first).text == ['.'])
      rcases aligned t List.mem_cons_self with same | ⟨delta, moves⟩
      · rw [same p]
      · have plain : ∀ p, ((t p).text == ['.']) = false := by
          intro p
          obtain ⟨v, numeral⟩ := moves.numeral p
          obtain ⟨c, word, is, digit⟩ := CTokens.numeral_head numeral
          rw [is, beq_eq_false_iff_ne]
          rintro same
          rw [(List.cons.inj same).1] at digit
          exact absurd digit (by decide)
        rw [plain p, plain .first]

theorem literal_step (moves : Moves pcs t delta) (aligned : Aligned pcs rest) :
    (∀ p, Reads symbol (pcs p) place (t p :: texts p rest) (expression symbol delta ++ out)) ↔
      (place.free = true ∧ point (texts .first rest) = false ∧ ∀ p, readable (t p).text = true) ∧
        ∀ p, Reads symbol (pcs p) (place.read (t .first)) (texts p rest) out := by
  have one : ∀ p, Reads symbol (pcs p) place (t p :: texts p rest) (expression symbol delta ++ out) ↔
      place.free = true ∧ point (texts .first rest) = false ∧ readable (t p).text = true ∧
        Reads symbol (pcs p) (place.read (t .first)) (texts p rest) out := by
    intro p
    obtain ⟨v, numeral⟩ := moves.numeral p
    obtain ⟨c, word, is, digit⟩ := CTokens.numeral_head numeral
    rw [expression_eq, reads_literal_iff digit is (offset_letters delta), moves.means_iff, aligned.point, moves.read]
  constructor
  · intro all
    obtain ⟨free, whole, -, -⟩ := (one .first).mp (all .first)
    exact ⟨⟨free, whole, fun p => ((one p).mp (all p)).2.2.1⟩, fun p => ((one p).mp (all p)).2.2.2⟩
  · rintro ⟨⟨free, whole, decimal⟩, reads⟩ p
    exact (one p).mpr ⟨free, whole, decimal p, reads p⟩

theorem call_step (moves : Moves pcs t delta) :
    (∀ p, Reads symbol (pcs p) place (macroToken :: opening :: t p :: closing :: texts p rest)
        (expression symbol delta ++ out)) ↔
      ((macroToken.text ≠ symbol ∧ opening.text ≠ symbol ∧ closing.text ≠ symbol) ∧
        ((place.read macroToken).read opening).free = true ∧ ∀ p, readable (t p).text = true) ∧
        ∀ p, Reads symbol (pcs p) ((((place.read macroToken).read opening).read (t .first)).read closing)
          (texts p rest) out := by
  have one : ∀ p, Reads symbol (pcs p) place (macroToken :: opening :: t p :: closing :: texts p rest)
      (expression symbol delta ++ out) ↔
      (macroToken.text ≠ symbol ∧ opening.text ≠ symbol ∧ closing.text ≠ symbol) ∧
        ((place.read macroToken).read opening).free = true ∧ readable (t p).text = true ∧
        Reads symbol (pcs p) ((((place.read macroToken).read opening).read (t .first)).read closing)
          (texts p rest) out := by
    intro p
    rw [expression_eq, reads_call_iff (offset_letters delta), moves.means_iff, moves.read]
  constructor
  · intro all
    obtain ⟨other, free, -, -⟩ := (one .first).mp (all .first)
    exact ⟨⟨other, free, fun p => ((one p).mp (all p)).2.2.1⟩, fun p => ((one p).mp (all p)).2.2.2⟩
  · rintro ⟨⟨other, free, decimal⟩, reads⟩ p
    exact (one p).mpr ⟨other, free, decimal p, reads p⟩

/-! ## The condition at a literal -/

variable {passed front pend : List Token}

theorem plain_same (same : Same t) :
    Plain symbol place passed (t :: rest) ↔
      (t .first).text ≠ symbol ∧ Plain symbol (place.read (t .first)) (passed ++ [t .first]) rest := by
  rw [Plain]
  constructor
  · rintro ⟨other, -, later⟩
    exact ⟨other same, later⟩
  · rintro ⟨other, later⟩
    exact ⟨fun _ => other, fun not => absurd same not, later⟩

theorem plain_moves (moves : Moves pcs t delta) :
    Plain symbol place passed (t :: rest) ↔
      Replaceable place passed t rest ∧ Plain symbol (place.read (t .first)) (passed ++ [t .first]) rest := by
  rw [Plain]
  constructor
  · rintro ⟨-, replaceable, later⟩
    exact ⟨replaceable moves.not_same, later⟩
  · rintro ⟨replaceable, later⟩
    exact ⟨fun same => absurd same moves.not_same, fun _ => replaceable, later⟩

theorem replaceable_alone (fenced : Fenced (text front) (text pend))
    (alone : (macroCall.isSuffixOf (text pend) && closes rest) = false) :
    Replaceable place (front ++ pend) t rest ↔
      place.free = true ∧ point (texts .first rest) = false ∧ ∀ p, readable (t p).text = true := by
  constructor
  · intro replaceable
    exact ⟨replaceable.free, replaceable.whole, replaceable.decimal⟩
  · rintro ⟨free, whole, decimal⟩
    refine ⟨free, whole, decimal, fun init name passed close ends => ?_⟩
    exfalso
    have call : macroCall.isSuffixOf (text front ++ text pend) = true := by
      obtain ⟨lead, is⟩ := ends
      rw [← Words.text_append, passed, List.isSuffixOf_iff_suffix]
      exact ⟨text init ++ lead, by simp [macroCall, ← is, opening]⟩
    rw [fenced.macroCall] at call
    rw [call, close] at alone
    cases alone

theorem replaceable_call {init : List Token} (close : closes rest = true)
    (spelled : Spelled isWordChar (texts .first rest)) :
    Replaceable place (init ++ [macroToken, opening]) t rest ↔
      place.free = true ∧ ∀ p, readable (t p).text = true := by
  constructor
  · intro replaceable
    exact ⟨replaceable.free, replaceable.decimal⟩
  · rintro ⟨free, decimal⟩
    refine ⟨free, ?_, decimal, fun init' name passed _ _ => ?_⟩
    · cases rest with
      | nil => rfl
      | cons u rest =>
          rw [texts_cons, closing_of_closes spelled close]
          rfl
    · have pair : [macroToken, opening] = [name, opening] := List.append_inj_right' passed rfl
      rw [← (List.cons.inj pair).1]
      rfl

/-! ## The run -/

/-- The text that is put out from here on reads as the tokens from here on, where the condition holds. -/
def Told (pcs : Probe → BitVec 32) (symbol : Text) (place : Place) (front pend : List Token) (ts : List (Probe → Token))
    (out result : Text) : Prop :=
  ∃ later, result = out ++ later ∧
    ((∀ p, Reads symbol (pcs p) place (pend ++ texts p ts) later) ↔
      (∀ t ∈ pend, t.text ≠ symbol) ∧ Plain symbol (pend.foldl Place.read place) (front ++ pend) ts)

theorem told_nil (nonempty : ∀ t ∈ pend, t.text ≠ []) : Told pcs symbol place front pend [] out (out ++ text pend) := by
  refine ⟨text pend, rfl, ?_⟩
  have one : ∀ p, Reads symbol (pcs p) place (pend ++ texts p []) (text pend) ↔ ∀ t ∈ pend, t.text ≠ symbol := by
    intro p
    rw [← List.append_nil (text pend), texts_nil, reads_append_iff nonempty, reads_done_iff]
    exact and_iff_left rfl
  constructor
  · intro reads
    exact ⟨(one .first).mp (reads .first), trivial⟩
  · rintro ⟨other, -⟩ p
    exact (one p).mpr other

theorem Told.keep {result : Text} (same : Same t)
    (told : Told pcs symbol place front (pend ++ [t .first]) ts out result) :
    Told pcs symbol place front pend (t :: ts) out result := by
  obtain ⟨later, is, reads⟩ := told
  refine ⟨later, is, ?_⟩
  have tokens : ∀ p, pend ++ [t .first] ++ texts p ts = pend ++ texts p (t :: ts) := by
    intro p
    rw [texts_cons, same p, List.append_assoc, List.singleton_append]
  rw [plain_same same]
  simp only [tokens, List.forall_mem_append, List.forall_mem_singleton, List.foldl_append, List.foldl_cons,
    List.foldl_nil, ← List.append_assoc] at reads
  rw [reads, and_assoc]

theorem forall_reads_append (nonempty : ∀ t ∈ pend, t.text ≠ []) {tokens : Probe → List Token} :
    (∀ p, Reads symbol (pcs p) place (pend ++ tokens p) (text pend ++ out)) ↔
      (∀ t ∈ pend, t.text ≠ symbol) ∧ ∀ p, Reads symbol (pcs p) (pend.foldl Place.read place) (tokens p) out := by
  constructor
  · intro reads
    exact ⟨((reads_append_iff nonempty).mp (reads .first)).1, fun p => ((reads_append_iff nonempty).mp (reads p)).2⟩
  · rintro ⟨other, reads⟩ p
    exact (reads_append_iff nonempty).mpr ⟨other, reads p⟩

theorem Told.move {result : Text} (moves : Moves pcs t delta) (aligned : Aligned pcs ts)
    (nonempty : ∀ t ∈ pend, t.text ≠ []) (fenced : Fenced (text front) (text pend))
    (alone : (macroCall.isSuffixOf (text pend) && closes ts) = false)
    (told : Told pcs symbol ((pend.foldl Place.read place).read (t .first)) (front ++ pend ++ [t .first]) [] ts
      (out ++ text pend ++ expression symbol delta) result) :
    Told pcs symbol place front pend (t :: ts) out result := by
  obtain ⟨later, is, reads⟩ := told
  refine ⟨text pend ++ (expression symbol delta ++ later), by rw [is]; simp, ?_⟩
  simp only [texts_cons]
  rw [forall_reads_append nonempty, literal_step moves aligned, plain_moves moves, replaceable_alone fenced alone]
  simp only [List.nil_append, List.append_nil, List.foldl_nil] at reads
  rw [reads]
  simp

theorem Told.call {result : Text} {close : Probe → Token} {before : List Token} {name : Token} {head : Text}
    (moves : Moves pcs t delta) (same : Same close) (is_close : close .first = closing)
    (spelled : Spelled isWordChar (texts .first (close :: ts))) (nonempty : ∀ t ∈ before, t.text ≠ [])
    (word : name.word = true) (spells : name.text = head ++ macroName)
    (told : Told pcs symbol ((((before ++ [name, opening]).foldl Place.read place).read (t .first)).read closing)
      (front ++ (before ++ [name, opening]) ++ [t .first] ++ [closing]) [] ts
      (out ++ (text before ++ head) ++ expression symbol delta) result) :
    Told pcs symbol place front (before ++ [name, opening]) (t :: close :: ts) out result := by
  obtain ⟨later, is, reads⟩ := told
  refine ⟨text before ++ (head ++ (expression symbol delta ++ later)), by rw [is]; simp, ?_⟩
  have close_all : ∀ p, close p = closing := fun p => (same p).trans is_close
  have closes_rest : closes (close :: ts) = true := by
    rw [closes, List.head?_cons, Option.any_some, is_close]
    rfl
  simp only [texts_cons, List.append_assoc, List.cons_append, List.nil_append, close_all]
  rw [forall_reads_append nonempty, plain_moves moves, plain_same same, is_close]
  rcases List.eq_nil_or_concat' head with rfl | ⟨head', c, split⟩
  · have name_is : name = macroToken := token_eq spells word
    subst name_is
    rw [List.nil_append, call_step moves, ← List.append_assoc front, replaceable_call closes_rest spelled]
    simp only [List.nil_append, List.append_nil, List.foldl_nil, List.append_assoc, List.cons_append] at reads
    simp only [List.append_assoc, List.cons_append, List.nil_append]
    simp only [List.foldl_append, List.foldl_cons, List.foldl_nil] at reads ⊢
    rw [reads, List.forall_mem_append, List.forall_mem_cons, List.forall_mem_singleton]
    have none_left : (∀ t ∈ ([] : List Token), t.text ≠ symbol) ↔ True := by simp
    rw [none_left, true_and]
    constructor
    · rintro ⟨other, ⟨⟨name, opens, closes⟩, free, decimal⟩, plain⟩
      exact ⟨⟨other, name, opens⟩, ⟨free, decimal⟩, closes, plain⟩
    · rintro ⟨⟨other, name, opens⟩, ⟨free, decimal⟩, closes, plain⟩
      exact ⟨other, ⟨⟨name, opens, closes⟩, free, decimal⟩, plain⟩
  · -- a longer name is cut in two
    have some_letter : head ≠ [] := by
      rw [split]
      simp
    constructor
    · rintro ⟨-, reads⟩
      have cut := reads .first
      rw [expression_eq] at cut
      exact absurd cut (not_reads_part some_letter spells)
    · rintro ⟨-, replaceable, -⟩
      have exact_name := replaceable.name (front ++ before) name (by simp) closes_rest ⟨head, spells.symm⟩
      rw [spells] at exact_name
      exact absurd (List.append_left_eq_self.mp exact_name) some_letter

theorem Aligned.same_of_letter (aligned : Aligned pcs (t :: ts)) (other : (t .first).word = false) : Same t := by
  rcases aligned t List.mem_cons_self with same | ⟨delta, moves⟩
  · exact same
  · have word := moves.word .first
    rw [other] at word
    cases word

theorem lead_call (before head : Text) : lead true (before ++ head ++ macroCall) = before ++ head := by
  rw [lead, if_pos rfl, List.length_append, Nat.add_sub_cancel, List.take_left]

theorem splice_told (ok : (splice pcs symbol ts false (text pend) out count).status = .ok)
    (passed : Passed base (text front) (text pend) false ts)
    (spelled : Spelled isWordChar (front ++ pend ++ texts .first ts)) :
    Told pcs symbol place front pend ts out (splice pcs symbol ts false (text pend) out count).text := by
  -- the induction is on the number of places: a macro call takes two
  induction size : ts.length using Nat.strong_induction_on generalizing ts front pend out count place with
  | _ n ih =>
    have aligned := aligned_of_splice ok
    have pend_spelled : Spelled isWordChar pend := spelled.left.right
    have nonempty : ∀ t ∈ pend, t.text ≠ [] := fun t is => (pend_spelled.proper t is).nonempty
    cases ts with
    | nil => exact told_nil nonempty
    | cons t rest =>
        rcases aligned t List.mem_cons_self with same | ⟨delta, moves⟩
        · have step : splice pcs symbol (t :: rest) false (text pend) out count =
              splice pcs symbol rest false (text (pend ++ [t .first])) out count := by
            rw [splice, judge_same same]
            simp
          have spelled' : Spelled isWordChar (front ++ (pend ++ [t .first]) ++ texts .first rest) := by
            simpa using spelled
          have next : Passed base (text front) (text (pend ++ [t .first])) false rest := by
            simpa using passed.keep
          rw [step] at ok ⊢
          apply Told.keep same
          exact ih rest.length (by rw [← size]; simp) ok next spelled' rfl
        · have fenced : Fenced (text front) (text pend) := passed.fenced.part (List.prefix_append _ _)
          rw [splice, judge_moves moves] at ok ⊢
          dsimp only at ok ⊢
          cases inside : (macroCall.isSuffixOf (text pend) && closes rest) with
          | false =>
              rw [inside] at ok
              split_ifs at ok ⊢ with refused
              · cases ok
              · have next : Passed base (text (front ++ pend ++ [t .first])) (text []) false rest := by
                  simpa using passed.move moves (fun is => Bool.noConfusion is)
                have spelled' : Spelled isWordChar (front ++ pend ++ [t .first] ++ [] ++ texts .first rest) := by
                  simpa using spelled
                apply Told.move moves aligned.tail nonempty fenced inside
                exact ih rest.length (by rw [← size]; simp) ok next spelled' rfl
          | true =>
              rw [inside] at ok
              split_ifs at ok ⊢ with refused
              · cases ok
              · obtain ⟨ends, close_is⟩ := Bool.and_eq_true_iff.mp inside
                have whole : macroName ++ ['('] <:+ text pend := List.isSuffixOf_iff_suffix.mp ends
                obtain ⟨most, rfl, part⟩ := pend_spelled.ends_letter (by decide) whole
                obtain ⟨before, name, rfl, word, head, spells⟩ :=
                  pend_spelled.left.ends_word (by decide) (List.all_eq_true.mp (by decide)) part
                cases rest with
                | nil => cases close_is
                | cons close rest =>
                    have rest_spelled : Spelled isWordChar (texts .first (close :: rest)) := passed.spelled.tail
                    have is_close : close .first = closing := closing_of_closes rest_spelled close_is
                    have same : Same close := aligned.tail.same_of_letter (by rw [is_close]; rfl)
                    have told_text : lead true (text (before ++ [name] ++ [⟨['('], false⟩])) = text before ++ head := by
                      rw [← lead_call (text before) head]
                      simp [← spells, macroCall]
                    have tokens : before ++ [name] ++ [⟨['('], false⟩] = before ++ [name, opening] := by simp [opening]
                    have next : Passed base
                        (text (front ++ (before ++ [name, opening]) ++ [t .first] ++ [closing])) (text []) false rest := by
                      have moved := (passed.move moves (fun _ => close_is) : Passed base _ [] true (close :: rest)).keep_call
                      simpa [closing, opening] using moved
                    have spelled' : Spelled isWordChar
                        (front ++ (before ++ [name, opening]) ++ [t .first] ++ [closing] ++ [] ++ texts .first rest) := by
                      simpa [is_close, opening] using spelled
                    rw [splice, judge_same same, told_text] at ok ⊢
                    rw [tokens]
                    apply Told.call moves same is_close rest_spelled
                      (fun u is => nonempty u (by simp [is])) word spells.symm
                    exact ih rest.length (by rw [← size]; simp) ok next spelled' rfl

/-! ## The whole text -/

theorem length_columns (tokens : Probe → List Token) : (columns tokens).length = (tokens .first).length := by
  rw [columns, List.length_map, List.length_range]

theorem texts_columns {tokens : Probe → List Token} (p : Probe) (same : (tokens p).length = (tokens .first).length) :
    texts p (columns tokens) = tokens p := by
  apply List.ext_getElem
  · rw [texts, List.length_map, length_columns, same]
  · intro i before after
    simp [texts, columns, column, after]

variable {letters : Probe → Text}

/-- Texts with as many tokens as the base text. -/
def Matched (letters : Probe → Text) : Prop := ∀ p, (tokenize (letters p)).length = (tokenize (letters .first)).length

/-- The places of the texts. -/
def places (letters : Probe → Text) : List (Probe → Token) := columns fun p => tokenize (letters p)

theorem matched_of_ok (ok : (deriveSourceRelativeText letters pcs symbol).status = .ok) : Matched letters := by
  rw [deriveSourceRelativeText] at ok
  dsimp only at ok
  split_ifs at ok with differ
  · cases ok
  · obtain ⟨second, third⟩ := not_or.mp differ
    intro p
    cases p with
    | first => rfl
    | second => exact (not_not.mp second).symm
    | third => exact (not_not.mp third).symm

theorem Matched.texts (matched : Matched letters) (p : Probe) :
    SourceRelative.texts p (places letters) = tokenize (letters p) := texts_columns p (matched p)

theorem Matched.begun (matched : Matched letters) : Passed (letters .first) [] [] false (places letters) where
  parts := by rw [matched.texts, tokenize, Words.text_tokenize]; rfl
  spelled := by rw [matched.texts]; exact Words.spelled_tokenize _
  fenced := .inl rfl
  calls no := Bool.noConfusion no

theorem Matched.derive (matched : Matched letters) :
    deriveSourceRelativeText letters pcs symbol = splice pcs symbol (places letters) false [] [] 0 := by
  rw [deriveSourceRelativeText]
  dsimp only
  rw [matched .second, matched .third, if_neg (by simp)]
  exact walk_eq_splice matched.begun

/-- What is put out reads as each of the texts at its program counter, where the condition holds. -/
theorem reads_iff_plain (ok : (deriveSourceRelativeText letters pcs symbol).status = .ok) :
    (∀ p, Reads symbol (pcs p) Place.start (tokenize (letters p)) (deriveSourceRelativeText letters pcs symbol).text) ↔
      Plain symbol Place.start [] (places letters) := by
  have matched := matched_of_ok ok
  rw [matched.derive] at ok ⊢
  have told : Told pcs symbol Place.start [] [] (places letters) [] _ :=
    splice_told ok matched.begun (by simpa using matched.begun.spelled)
  obtain ⟨later, put, reads⟩ := told
  rw [Words.text_nil] at put
  rw [put]
  simpa [matched.texts] using reads

theorem derive_perm (ok : (deriveSourceRelativeText letters pcs symbol).status = .ok) (σ : Equiv.Perm Probe) :
    deriveSourceRelativeText (letters ∘ σ) (pcs ∘ σ) symbol = deriveSourceRelativeText letters pcs symbol := by
  have matched := matched_of_ok ok
  have matched_perm : Matched (letters ∘ σ) := fun p => (matched (σ p)).trans (matched (σ .first)).symm
  have permuted : places (letters ∘ σ) = (places letters).map (· ∘ σ) := by
    rw [places, places, columns, columns, List.map_map, Function.comp_apply, matched (σ .first)]
    rfl
  have aligned : Aligned pcs (places letters) := by
    rw [matched.derive] at ok
    exact aligned_of_splice ok
  rw [matched_perm.derive, permuted, aligned.splice, matched.derive]

/-- A text that is derived reads as each of the three texts at its program counter, whichever is the base,
if and only if the symbol is no token of theirs and each literal that differs is replaceable. -/
theorem source_relative_reads (ok : (deriveSourceRelativeText letters pcs symbol).status = .ok) :
    (∀ p, Reads symbol (pcs p) Place.start (tokenize (letters p)) (deriveSourceRelativeText letters pcs symbol).text) ∧
      (∀ σ : Equiv.Perm Probe,
        deriveSourceRelativeText (letters ∘ σ) (pcs ∘ σ) symbol = deriveSourceRelativeText letters pcs symbol) ↔
      Plain symbol Place.start [] (places letters) := by
  constructor
  · rintro ⟨reads, -⟩
    exact (reads_iff_plain ok).mp reads
  · intro plain
    exact ⟨(reads_iff_plain ok).mpr plain, derive_perm ok⟩

/-! ## Two lowerings -/

/-- A text around the program counter, at three counters. -/
def lowering (before after : Text) : Probe → Text
  | .first => before ++ ['1', '6'] ++ after
  | .second => before ++ ['3', '2'] ++ after
  | .third => before ++ ['4', '8'] ++ after

def counters : Probe → BitVec 32
  | .first => 16
  | .second => 32
  | .third => 48

def pc0 : Text := ['p', 'c', '0']

/-- `pc=UINT32_C(16);` -/
def assignment : Probe → Text := lowering ['p', 'c', '=', 'U', 'I', 'N', 'T', '3', '2', '_', 'C', '('] [')', ';']

theorem plain_assignment : Plain pc0 Place.start [] (places assignment) := by
  have same : ∀ i ∈ [0, 1, 2, 3, 5, 6], Same (column (fun p => tokenize (assignment p)) i) := by
    intro i is p
    cases p <;> (revert i; decide)
  have differ : ¬ Same (column (fun p => tokenize (assignment p)) 4) := by
    intro all
    exact absurd (all .second) (by decide)
  have literal : Replaceable ⟨.code, none, false⟩ ((tokenize (assignment .first)).take 4)
      (column (fun p => tokenize (assignment p)) 4) ((places assignment).drop 5) := {
    free := by decide
    whole := by decide
    decimal := fun p => by cases p <;> decide
    name := fun init name is _ _ => by
      have passed : (tokenize (assignment .first)).take 4 = [⟨pc0.take 2, true⟩, ⟨['='], false⟩] ++ [macroToken, opening] := by
        decide
      have pair : [macroToken, opening] = [name, opening] := List.append_inj_right' (passed.symm.trans is) rfl
      rw [← (List.cons.inj pair).1]
      rfl }
  exact ⟨fun _ => by decide, absurd (same 0 (by decide)), fun _ => by decide, absurd (same 1 (by decide)),
    fun _ => by decide, absurd (same 2 (by decide)), fun _ => by decide, absurd (same 3 (by decide)),
    fun all => absurd all differ, fun _ => literal, fun _ => by decide, absurd (same 5 (by decide)),
    fun _ => by decide, absurd (same 6 (by decide)), trivial⟩

theorem assignment_reads :
    (deriveSourceRelativeText assignment counters pc0).status = .ok ∧ Plain pc0 Place.start [] (places assignment) ∧
      ((∀ p, Reads pc0 (counters p) Place.start (tokenize (assignment p))
          (deriveSourceRelativeText assignment counters pc0).text) ∧
        (∀ σ : Equiv.Perm Probe,
          deriveSourceRelativeText (assignment ∘ σ) (counters ∘ σ) pc0 = deriveSourceRelativeText assignment counters pc0) ↔
        Plain pc0 Place.start [] (places assignment)) :=
  ⟨by decide, plain_assignment, source_relative_reads (by decide)⟩

/-- `switch(x){case(16):;}` -/
def label : Probe → Text :=
  lowering ['s', 'w', 'i', 't', 'c', 'h', '(', 'x', ')', '{', 'c', 'a', 's', 'e', '('] [')', ':', ';', '}']

/-- The case label of the text is replaced. -/
theorem label_replaced :
    (deriveSourceRelativeText label counters pc0).status = .ok ∧
      ¬ ∀ p, Reads pc0 (counters p) Place.start (tokenize (label p)) (deriveSourceRelativeText label counters pc0).text := by
  have ok : (deriveSourceRelativeText label counters pc0).status = .ok := by decide
  refine ⟨ok, fun reads => ?_⟩
  have plain := (reads_iff_plain ok).mp reads
  have differ : ¬ Same (column (fun p => tokenize (label p)) 7) := by
    intro same
    exact absurd (same .second) (by decide)
  have free := (plain.2.2.2.2.2.2.2.2.2.2.2.2.2.2.2.1 differ).free
  exact absurd free (by decide)

end Segarecomp.SourceRelative

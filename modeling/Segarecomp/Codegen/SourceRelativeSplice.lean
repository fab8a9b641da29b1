import Segarecomp.Codegen.SourceRelativeReads

/-! The walk over offsets as a walk over the text that is not copied yet, and the three texts in another
order. -/

namespace Segarecomp.SourceRelative

open CTokens (Text Token isWordChar isConstantChar numeral)
open Words (Spelled text)

/-- The next token of the base text begins with `)`. -/
def closes (rest : List (Probe → Token)) : Bool := rest.head?.any fun t => (t .first).text.head? == some ')'

/-- What is put out before a literal when the text in `pending` is not copied yet. -/
def lead (call : Bool) (pending : Text) : Text :=
  if call then pending.take (pending.length - macroCall.length) else pending

/-- The walk with the text `pending` not copied yet; `call` when the next token is copied with the literal
before it. -/
def splice (pcs : Probe → BitVec 32) (symbol : Text) :
    List (Probe → Token) → Bool → Text → Text → ℕ → SourceRelativeText
  | [], _, pending, out, count => ⟨.ok, out ++ pending, count⟩
  | t :: rest, call, pending, out, count =>
      match judge pcs t with
      | .error status => fail status count
      | .ok none => splice pcs symbol rest false (if call then [] else pending ++ (t .first).text) out count
      | .ok (some delta) =>
          let inside := macroCall.isSuffixOf pending && closes rest
          if caseBlank.isSuffixOf (lead inside pending) || caseTab.isSuffixOf (lead inside pending) then
            fail .constant_context count
          else splice pcs symbol rest inside [] (out ++ lead inside pending ++ expression symbol delta) (count + 1)

/-! ## The end of what is passed -/

theorem endsWith_append (before after tail : Text) :
    endsWith (before ++ after) before.length tail = tail.isSuffixOf before := by
  rw [Bool.eq_iff_iff, endsWith, Bool.and_eq_true, decide_eq_true_iff, beq_iff_eq, List.isSuffixOf_iff_suffix]
  constructor
  · rintro ⟨le, same⟩
    rw [List.drop_append_of_le_length (Nat.sub_le _ _), List.take_append_of_le_length (by simp; omega),
      List.take_of_length_le (by simp; omega)] at same
    rw [← same]
    exact List.drop_suffix _ _
  · rintro ⟨front, rfl⟩
    refine ⟨by simp, ?_⟩
    rw [List.length_append, Nat.add_sub_cancel, List.append_assoc, List.drop_left, List.take_left]

/-- Where copied text meets text that is not copied: the copied text is empty, or ends in `)` or in a literal
that is a whole word. -/
def Fenced (copied pending : Text) : Prop :=
  copied = [] ∨ (∃ front, copied = front ++ [')']) ∨
    ∃ front word v, copied = front ++ word ∧ numeral word = some v ∧ ∀ c ∈ pending.head?, isWordChar c = false

theorem Fenced.part {copied pending part : Text} (fenced : Fenced copied pending) (is : part <+: pending) :
    Fenced copied part := by
  rcases fenced with empty | close | ⟨front, word, v, eq, literal, other⟩
  · exact .inl empty
  · exact .inr (.inl close)
  · refine .inr (.inr ⟨front, word, v, eq, literal, fun c member => other c ?_⟩)
    obtain ⟨rest, rfl⟩ := is
    cases part with
    | nil => cases member
    | cons d part => exact member

theorem numeral_last {word : Text} {v : ℕ} (is : numeral word = some v) :
    (∃ c, word = [c] ∧ c.isDigit = true) ∨
      ∃ front b c, word = front ++ [b, c] ∧ isConstantChar b = true ∧ isConstantChar c = true := by
  have chars := CTokens.numeral_chars is
  obtain ⟨c, rest, rfl, digit⟩ := CTokens.numeral_head is
  rcases List.eq_nil_or_concat' rest with rfl | ⟨rest, d, rfl⟩
  · exact .inl ⟨c, rfl, digit⟩
  · right
    rcases List.eq_nil_or_concat' rest with rfl | ⟨rest, b, rfl⟩
    · exact ⟨[], c, d, rfl, chars c (by simp), chars d (by simp)⟩
    · exact ⟨c :: rest, b, d, by simp, chars b (by simp), chars d (by simp)⟩

/-- A name after which another character stands is not half copied: no literal ends like the name. -/
theorem Fenced.suffix {copied pending front : Text} {y z c : Char} (fenced : Fenced copied pending)
    (letters : ∀ d ∈ front ++ [y, z], isWordChar d = true) (strange : isConstantChar y = false) (last : z.isDigit = false)
    (other : isWordChar c = false) (no_close : c ≠ ')') (ends : front ++ [y, z] ++ [c] <:+ copied ++ pending) :
    front ++ [y, z] ++ [c] <:+ pending := by
  rcases Words.suffix_append_cases ends with inside | ⟨head, eq, before⟩
  · exact inside
  · rcases List.eq_nil_or_concat' head with rfl | ⟨head, e, rfl⟩
    · rw [eq]
      exact List.suffix_refl _
    · exfalso
      rcases fenced with empty | ⟨x, close⟩ | ⟨x, word, v, copy, literal, apart⟩
      · rw [empty, List.suffix_nil] at before
        simp at before
      · rw [close] at before
        obtain ⟨lead, same⟩ := before
        rw [← List.append_assoc] at same
        have is : e = ')' := List.singleton_inj.mp (List.append_inj_right' same rfl)
        have member : e ∈ front ++ [y, z] ++ [c] := by rw [eq]; simp
        rcases List.mem_append.mp member with name | final
        · have := letters e name
          rw [is] at this
          exact absurd this (by decide)
        · exact no_close ((List.mem_singleton.mp final).symm.trans is)
      · rw [copy] at before
        obtain ⟨lead, same⟩ := before
        cases pending with
        | nil =>
            -- the other character would be of the literal
            have is : e = c := by
              rw [List.append_nil] at eq
              exact (List.singleton_inj.mp (List.append_inj_right' eq rfl)).symm
            have constant : isConstantChar e = true := by
              rcases numeral_last literal with ⟨d, rfl, digit⟩ | ⟨w, b, d, rfl, -, constant⟩
              · rw [← List.append_assoc] at same
                rw [List.singleton_inj.mp (List.append_inj_right' same rfl)]
                exact CTokens.numeral_chars literal d (by simp)
              · have tail : (lead ++ head) ++ [e] = (x ++ w ++ [b]) ++ [d] := by simpa using same
                rw [List.singleton_inj.mp (List.append_inj_right' tail rfl), constant]
            have word := CTokens.isWordChar_of_constant constant
            rw [is, other] at word
            cases word
        | cons d pending =>
            have d_other : isWordChar d = false := apart d rfl
            -- the pending text is the other character, and the literal ends like the name
            have name : front ++ [y, z] = head ++ [e] := by
              rcases List.eq_nil_or_concat' pending with rfl | ⟨pending, d', rfl⟩
              · exact List.append_inj_left' eq rfl
              · have tail : front ++ [y, z] ++ [c] = (head ++ [e] ++ d :: pending) ++ [d'] := by simpa using eq
                have inside : front ++ [y, z] = head ++ [e] ++ d :: pending := List.append_inj_left' tail rfl
                have := letters d (by rw [inside]; simp)
                rw [d_other] at this
                cases this
            have z_is : z = e := by
              have tail : (front ++ [y]) ++ [z] = head ++ [e] := by simpa using name
              exact List.singleton_inj.mp (List.append_inj_right' tail rfl)
            have y_head : head = front ++ [y] := by
              have tail : (front ++ [y]) ++ [z] = head ++ [e] := by simpa using name
              exact (List.append_inj_left' tail rfl).symm
            rw [y_head] at same
            rcases numeral_last literal with ⟨d, rfl, digit⟩ | ⟨w, b, d, rfl, constant, -⟩
            · rw [← List.append_assoc] at same
              rw [← List.singleton_inj.mp (List.append_inj_right' same rfl), ← z_is, last] at digit
              cases digit
            · have tail : (lead ++ front) ++ [y, e] = (x ++ w) ++ [b, d] := by simpa using same
              have pair : [y, e] = [b, d] := List.append_inj_right' tail rfl
              rw [← (List.cons.inj pair).1, strange] at constant
              cases constant

theorem fenced_iff {copied pending front : Text} {y z c : Char} (fenced : Fenced copied pending)
    (letters : ∀ d ∈ front ++ [y, z], isWordChar d = true) (strange : isConstantChar y = false) (last : z.isDigit = false)
    (other : isWordChar c = false) (no_close : c ≠ ')') :
    (front ++ [y, z] ++ [c]).isSuffixOf (copied ++ pending) = (front ++ [y, z] ++ [c]).isSuffixOf pending := by
  rw [Bool.eq_iff_iff, List.isSuffixOf_iff_suffix, List.isSuffixOf_iff_suffix]
  exact ⟨fenced.suffix letters strange last other no_close, fun ends => List.suffix_append_of_suffix ends⟩

theorem Fenced.macroCall {copied pending : Text} (fenced : Fenced copied pending) :
    SourceRelative.macroCall.isSuffixOf (copied ++ pending) = SourceRelative.macroCall.isSuffixOf pending :=
  @fenced_iff _ _ ['U', 'I', 'N', 'T', '3', '2'] '_' 'C' '(' fenced
    (List.all_eq_true.mp (by decide)) (by decide) (by decide) (by decide) (by decide)

theorem Fenced.caseBlank {copied pending : Text} (fenced : Fenced copied pending) :
    SourceRelative.caseBlank.isSuffixOf (copied ++ pending) = SourceRelative.caseBlank.isSuffixOf pending :=
  @fenced_iff _ _ ['c', 'a'] 's' 'e' ' ' fenced
    (List.all_eq_true.mp (by decide)) (by decide) (by decide) (by decide) (by decide)

theorem Fenced.caseTab {copied pending : Text} (fenced : Fenced copied pending) :
    SourceRelative.caseTab.isSuffixOf (copied ++ pending) = SourceRelative.caseTab.isSuffixOf pending :=
  @fenced_iff _ _ ['c', 'a'] 's' 'e' '\t' fenced
    (List.all_eq_true.mp (by decide)) (by decide) (by decide) (by decide) (by decide)

/-! ## The walk -/

/-- The tokens of one of the texts. -/
def texts (p : Probe) (ts : List (Probe → Token)) : List Token := ts.map fun t => t p

@[simp] theorem texts_cons (p : Probe) (t : Probe → Token) (ts : List (Probe → Token)) :
    texts p (t :: ts) = t p :: texts p ts := rfl

@[simp] theorem texts_nil (p : Probe) : texts p [] = [] := rfl

variable {pcs : Probe → BitVec 32} {symbol : Text} {t : Probe → Token} {ts : List (Probe → Token)} {delta : BitVec 32}
  {base told pending out : Text} {call : Bool} {count : ℕ}

theorem Moves.numeral (moves : Moves pcs t delta) (p : Probe) : ∃ v, CTokens.numeral (t p).text = some v := by
  obtain ⟨suffix, literal⟩ := moves.literal
  obtain ⟨value, is, -⟩ := literal p
  exact ⟨value, (numeral_of_parseLiteral is).1⟩

theorem head_text {tokens : List Token} (spelled : Spelled isWordChar tokens) :
    (text tokens).head? = tokens.head?.bind fun t => t.text.head? := by
  cases tokens with
  | nil => rfl
  | cons t rest =>
      obtain ⟨c, word, is⟩ := List.exists_cons_of_ne_nil (spelled.proper t List.mem_cons_self).nonempty
      simp [is]

theorem closing_of_closes (spelled : Spelled isWordChar (texts .first (t :: ts))) (is : closes (t :: ts) = true) :
    t .first = closing := by
  have proper := spelled.proper (t .first) List.mem_cons_self
  have head : (t .first).text.head? = some ')' := by simpa [closes] using is
  have member : ')' ∈ (t .first).text := List.mem_of_head? head
  have other : (t .first).word = false := (proper.letters _ member).symm
  obtain ⟨c, single⟩ := proper.single other
  rw [single, List.mem_singleton] at member
  exact token_eq (by rw [single, ← member]; rfl) other

theorem closes_iff (spelled : Spelled isWordChar (texts .first ts)) :
    closes ts = ((text (texts .first ts)).head? == some ')') := by
  rw [head_text spelled, closes]
  cases ts with
  | nil => rfl
  | cons t rest => rfl

/-- What the walk knows of the base text: the text that is told, the text that is not copied yet and the
tokens to come. -/
structure Passed (base told pending : Text) (call : Bool) (ts : List (Probe → Token)) : Prop where
  parts : base = told ++ pending ++ text (texts .first ts)
  spelled : Spelled isWordChar (texts .first ts)
  fenced : Fenced told (pending ++ text (texts .first ts))
  calls : call = true → pending = [] ∧ closes ts = true

theorem Passed.keep (passed : Passed base told pending false (t :: ts)) :
    Passed base told (pending ++ (t .first).text) false ts where
  parts := by simpa using passed.parts
  spelled := passed.spelled.tail
  fenced := by simpa using passed.fenced
  calls no := Bool.noConfusion no

theorem Passed.keep_call (passed : Passed base told pending true (t :: ts)) :
    Passed base (told ++ [')']) [] false ts where
  parts := by
    obtain ⟨empty, close⟩ := passed.calls rfl
    have is := closing_of_closes passed.spelled close
    have parts := passed.parts
    rw [empty, texts_cons, is] at parts
    simpa [closing] using parts
  spelled := passed.spelled.tail
  fenced := .inr (.inl ⟨told, rfl⟩)
  calls no := Bool.noConfusion no

theorem Passed.move (passed : Passed base told pending false (t :: ts)) (moves : Moves pcs t delta)
    (calls : call = true → closes ts = true) : Passed base (told ++ pending ++ (t .first).text) [] call ts where
  parts := by simpa using passed.parts
  spelled := passed.spelled.tail
  fenced := by
    obtain ⟨v, numeral⟩ := moves.numeral .first
    refine .inr (.inr ⟨told ++ pending, (t .first).text, v, rfl, numeral, ?_⟩)
    intro c is
    have later : Spelled isWordChar (texts .first ts) := passed.spelled.tail
    rw [List.nil_append, head_text later] at is
    cases ts with
    | nil => cases is
    | cons u rest =>
        have apart : Words.Apart (t .first) (u .first) := passed.spelled.apart.rel
        have other : (u .first).word = false := apart.resolve_left (by rw [moves.word .first]; decide)
        rw [(later.proper (u .first) List.mem_cons_self).letters c (List.mem_of_head? is), other]
  calls is := ⟨rfl, calls is⟩

theorem lead_prefix (inside : Bool) (pending : Text) : lead inside pending <+: pending := by
  rw [lead]
  split_ifs
  · exact List.take_prefix _ _
  · exact List.prefix_refl _

theorem Passed.replaced (passed : Passed base told pending false (t :: ts)) :
    SourceRelative.replaced base (told ++ pending).length ((told ++ pending).length + (t .first).text.length) =
      ((told ++ lead (macroCall.isSuffixOf pending && closes ts) pending).length,
        if (macroCall.isSuffixOf pending && closes ts) = true then (told ++ pending ++ (t .first).text).length + 1
        else (told ++ pending ++ (t .first).text).length) := by
  have fenced : Fenced told pending := passed.fenced.part (List.prefix_append _ _)
  have ends : endsWith base (told ++ pending).length macroCall = macroCall.isSuffixOf pending := by
    rw [passed.parts, endsWith_append, fenced.macroCall]
  have next : (base[(told ++ pending).length + (t .first).text.length]? == some ')') = closes ts := by
    have parts : base = (told ++ pending ++ (t .first).text) ++ text (texts .first ts) := by
      rw [passed.parts, texts_cons, Words.text_cons, List.append_assoc (told ++ pending)]
    rw [closes_iff passed.spelled.tail, parts, ← List.length_append, List.getElem?_append_right (Nat.le_refl _),
      Nat.sub_self, List.head?_eq_getElem?]
  rw [SourceRelative.replaced, ends, next, lead]
  split_ifs with inside
  · have long : macroCall.length ≤ pending.length := by
      rw [Bool.and_eq_true, List.isSuffixOf_iff_suffix] at inside
      exact inside.1.length_le
    rw [Prod.mk.injEq]
    constructor
    · rw [List.length_append, List.length_append, List.length_take]
      omega
    · rw [← List.length_append]
  · rw [Prod.mk.injEq]
    exact ⟨rfl, by rw [← List.length_append]⟩

/-- The walk over offsets is the walk over the text that is not copied yet. -/
theorem walk_eq_splice (passed : Passed base told pending call ts) :
    walk base pcs symbol ts (told ++ pending).length (if call = true then told.length + 1 else told.length) out count =
      splice pcs symbol ts call pending out count := by
  induction ts generalizing told pending call out count with
  | nil =>
      have no : ¬ call = true := fun is => Bool.noConfusion (passed.calls is).2
      rw [walk, splice, if_neg no, passed.parts, texts_nil, Words.text_nil, List.append_nil, List.drop_left]
  | cons t rest ih =>
      rw [walk, splice]
      cases verdict : judge pcs t with
      | error status => rfl
      | ok moved =>
          cases moved with
          | none =>
              dsimp only
              cases call with
              | false =>
                  have next := @ih _ _ out _ count passed.keep
                  rw [← List.append_assoc, List.length_append] at next
                  exact next
              | true =>
                  have next := @ih _ _ out _ count passed.keep_call
                  obtain ⟨empty, close⟩ := passed.calls rfl
                  rw [closing_of_closes passed.spelled close, empty]
                  simpa [closing] using next
          | some delta =>
              have moves := moves_of_judge verdict
              have no : call = false := by
                rw [← Bool.not_eq_true]
                intro is
                obtain ⟨-, close⟩ := passed.calls is
                have word := moves.word .first
                rw [closing_of_closes passed.spelled close] at word
                cases word
              subst no
              dsimp only
              rw [passed.replaced]
              dsimp only
              generalize inside_is : (macroCall.isSuffixOf pending && closes rest) = inside
              have calls : inside = true → closes rest = true := by
                rintro rfl
                exact (Bool.and_eq_true_iff.mp inside_is).2
              have part := lead_prefix inside pending
              have fenced := passed.fenced.part (part.trans (List.prefix_append _ _))
              have later : ∃ after, base = (told ++ lead inside pending) ++ after := by
                obtain ⟨after, is⟩ := part
                refine ⟨after ++ text (texts .first (t :: rest)), ?_⟩
                rw [passed.parts, List.append_assoc told, List.append_assoc told, ← List.append_assoc (lead inside pending), is]
              obtain ⟨after, parts⟩ := later
              have blank : endsWith base (told ++ lead inside pending).length caseBlank =
                  caseBlank.isSuffixOf (lead inside pending) := by
                rw [parts, endsWith_append, fenced.caseBlank]
              have tab : endsWith base (told ++ lead inside pending).length caseTab =
                  caseTab.isSuffixOf (lead inside pending) := by
                rw [parts, endsWith_append, fenced.caseTab]
              have slice : (base.drop told.length).take ((told ++ lead inside pending).length - told.length) =
                  lead inside pending := by
                rw [parts, List.append_assoc, List.drop_left, List.length_append, Nat.add_sub_cancel_left, List.take_left]
              have forward : ¬ (told ++ lead inside pending).length < told.length := by
                rw [List.length_append]
                omega
              rw [blank, tab, if_neg Bool.false_ne_true, if_neg forward, slice]
              have next := @ih _ _ (out ++ lead inside pending ++ expression symbol delta) _ (count + 1)
                (passed.move moves calls)
              rw [List.append_nil] at next
              rw [← next, ← List.length_append]

/-! ## The texts in another order -/

/-- Every place holds one token, or literals that move. -/
def Aligned (pcs : Probe → BitVec 32) (ts : List (Probe → Token)) : Prop :=
  ∀ t ∈ ts, Same t ∨ ∃ delta, Moves pcs t delta

theorem judge_refuses : judge pcs t ≠ .error .ok := by
  intro is
  rw [judge] at is
  split at is
  · cases is
  · split at is
    · split at is <;> cases is
    · split at is
      · cases is
      · split at is
        · split at is
          · cases is
          · split at is <;> cases is
        · cases is

theorem aligned_of_splice (ok : (splice pcs symbol ts call pending out count).status = .ok) : Aligned pcs ts := by
  induction ts generalizing call pending out count with
  | nil => exact fun _ is => absurd is List.not_mem_nil
  | cons t rest ih =>
      rw [splice] at ok
      rw [Aligned, List.forall_mem_cons]
      cases verdict : judge pcs t with
      | error status =>
          rw [verdict] at ok
          exact absurd (verdict.trans (congrArg Except.error ok)) judge_refuses
      | ok moved =>
          rw [verdict] at ok
          cases moved with
          | none => exact ⟨.inl (same_of_judge verdict), ih ok⟩
          | some delta =>
              dsimp only at ok
              split at ok
              · cases ok
              · exact ⟨.inr ⟨delta, moves_of_judge verdict⟩, ih ok⟩

theorem Moves.perm (moves : Moves pcs t delta) (σ : Equiv.Perm Probe) : Moves (pcs ∘ σ) (t ∘ σ) delta where
  word p := moves.word (σ p)
  different := by
    obtain ⟨p, q, other⟩ := moves.different
    refine ⟨σ.symm p, σ.symm q, ?_⟩
    simpa using other
  literal := by
    obtain ⟨suffix, literal⟩ := moves.literal
    exact ⟨suffix, fun p => literal (σ p)⟩

theorem Same.perm (same : Same t) (σ : Equiv.Perm Probe) : Same (t ∘ σ) :=
  fun p => (same (σ p)).trans (same (σ .first)).symm

theorem Moves.not_close (moves : Moves pcs t delta) (p : Probe) : ((t p).text.head? == some ')') = false := by
  obtain ⟨v, numeral⟩ := moves.numeral p
  obtain ⟨c, rest, is, digit⟩ := CTokens.numeral_head numeral
  rw [is, List.head?_cons, beq_eq_false_iff_ne]
  rintro ⟨⟩
  exact absurd digit (by decide)

theorem Aligned.tail (aligned : Aligned pcs (t :: ts)) : Aligned pcs ts := (List.forall_mem_cons.mp aligned).2

theorem Aligned.closes (aligned : Aligned pcs ts) (σ : Equiv.Perm Probe) :
    SourceRelative.closes (ts.map (· ∘ σ)) = SourceRelative.closes ts := by
  cases ts with
  | nil => rfl
  | cons t rest =>
      change ((t (σ .first)).text.head? == some ')') = ((t .first).text.head? == some ')')
      rcases aligned t List.mem_cons_self with same | ⟨delta, moves⟩
      · rw [same (σ .first)]
      · rw [moves.not_close, moves.not_close]

/-- The order of the texts does not matter where every place is aligned. -/
theorem Aligned.splice (aligned : Aligned pcs ts) (σ : Equiv.Perm Probe) :
    SourceRelative.splice (pcs ∘ σ) symbol (ts.map (· ∘ σ)) call pending out count =
      SourceRelative.splice pcs symbol ts call pending out count := by
  induction ts generalizing call pending out count with
  | nil => rfl
  | cons t rest ih =>
      rw [List.map_cons, SourceRelative.splice, SourceRelative.splice, aligned.tail.closes]
      rcases aligned t List.mem_cons_self with same | ⟨delta, moves⟩
      · rw [judge_same same, judge_same (same.perm σ)]
        dsimp only
        rw [ih aligned.tail, Function.comp_apply, same (σ .first)]
      · rw [judge_moves moves, judge_moves (moves.perm σ)]
        dsimp only
        rw [ih aligned.tail]

end Segarecomp.SourceRelative
